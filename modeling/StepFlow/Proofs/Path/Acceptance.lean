import Mathlib.Data.String.Basic
import StepFlow.Proofs.Path.Location
import StepFlow.Proofs.Text

/-!
# Which documents are templates

A document is a template if everything in it that is read as a path is one: every value of a key that ends in
`.$`, and every other text that starts with `$` (`Template.accepted_iff`).
-/

namespace StepFlow
namespace Template

variable {d v : Document} {key name : String} {p : Position} {location : List Position}

/-- The text starts with `$`. -/
def StartsPath (s : String) : Prop := ∃ rest, s = "$" ++ rest

/-- The value is a path. -/
def IsPath (d : Document) : Prop := ∃ expression p, d = .str expression ∧ Path.ofString expression = .ok p

/-- The position is a key that ends in `.$`. -/
def IsPathKey (p : Position) : Prop := ∃ name, p = .member (name ++ ".$")

/-- The last key of the location ends in `.$`. -/
def UnderPathKey (location : List Position) : Prop := ∃ p, location.getLast? = some p ∧ IsPathKey p

/-- A value that is read as a path, if it stands at that location, is one. -/
def InOrder (location : List Position) (v : Document) : Prop :=
  (UnderPathKey location → IsPath v) ∧ ∀ s, v = .str s → StartsPath s → IsPath v

/-- The name under which a member is rendered: the key without one suffix `.$`. -/
def outName (key : String) : String := (pathKey? key).getD key

/-! ### Keys -/

theorem pathKey?_eq_some_iff : pathKey? key = some name ↔ key = name ++ ".$" := Text.beforeSuffix?_eq_some_iff

@[simp] theorem pathKey?_append (name : String) : pathKey? (name ++ ".$") = some name :=
  pathKey?_eq_some_iff.2 rfl

@[simp] theorem outName_append (name : String) : outName (name ++ ".$") = name := by
  rw [outName, pathKey?_append, Option.getD_some]

theorem outName_of_none (h : pathKey? key = none) : outName key = key := by
  rw [outName, h, Option.getD_none]

theorem outName_eq_iff : outName key = name ↔ key = name ++ ".$" ∨ pathKey? key = none ∧ key = name := by
  cases h : pathKey? key with
  | none =>
    rw [outName_of_none h]
    refine ⟨fun heq => .inr ⟨rfl, heq⟩, ?_⟩
    rintro (rfl | ⟨-, heq⟩)
    · rw [pathKey?_append] at h
      cases h
    · exact heq
  | some name' =>
    obtain rfl := pathKey?_eq_some_iff.1 h
    simp [String.append_left_inj]

theorem lt_append (name : String) : name < name ++ ".$" := by
  have hlt : name.toList ++ [] < name.toList ++ ['.', '$'] := List.append_left_lt (List.nil_lt_cons ..)
  rw [List.append_nil] at hlt
  rw [String.lt_iff_toList_lt, String.toList_append]
  exact hlt

theorem isPathKey_member : IsPathKey (.member key) ↔ ∃ name, pathKey? key = some name := by
  simp [IsPathKey, pathKey?_eq_some_iff]

theorem not_isPathKey_element (i : Nat) : ¬ IsPathKey (.element i) := nofun

theorem not_underPathKey_nil : ¬ UnderPathKey [] := nofun

theorem underPathKey_singleton : UnderPathKey [p] ↔ IsPathKey p := by
  simp [UnderPathKey]

theorem underPathKey_cons (h : ¬ IsPathKey p) : UnderPathKey (p :: location) ↔ UnderPathKey location := by
  cases location with
  | nil => simp [underPathKey_singleton, h, not_underPathKey_nil]
  | cons q location => rw [UnderPathKey, List.getLast?_cons_cons, UnderPathKey]

/-! ### What is accepted -/

/-- The document is read as a template. -/
def Accepted (d : Document) : Prop := ∃ t, ofDocument d = .ok t

theorem ofItems_accepted {items : List Document} :
    (∃ ts, ofItems items = .ok ts) ↔ ∀ d ∈ items, Accepted d := by
  induction items with
  | nil => exact iff_of_true ⟨[], rfl⟩ (List.forall_mem_nil _)
  | cons d items ih =>
    rw [List.forall_mem_cons, ← ih]
    unfold Accepted
    rw [ofItems]
    cases ofDocument d <;> cases ofItems items <;> simp [bind, Except.bind]

/-- Reads a member under a key. -/
def ofField (key : String) (d : Document) : Except PathError (String × Template) :=
  match pathKey? key, d with
  | some name, .str expression => (Path.ofString expression).map fun p => (name, path p)
  | some _, _ => .error (.invalidTemplate key)
  | none, d => (ofDocument d).map fun t => (key, t)

theorem ofFields_cons (key : String) (d : Document) (fields : Fields) : ofFields ((key, d) :: fields) =
    ofField key d >>= fun field => ofFields fields >>= fun rest => .ok (field :: rest) := by
  rw [ofFields.eq_def, ofField.eq_def]
  dsimp only
  cases pathKey? key with
  | none => rfl
  | some name => cases d <;> rfl

/-- A member under a key that ends in `.$` is a path, any other one a template. -/
def AcceptedUnder (key : String) (d : Document) : Prop :=
  if (pathKey? key).isSome then IsPath d else Accepted d

theorem ofField_accepted : (∃ field, ofField key d = .ok field) ↔ AcceptedUnder key d := by
  unfold ofField AcceptedUnder
  cases pathKey? key with
  | none =>
    cases hd : ofDocument d <;> simp [Except.map, Accepted, hd]
  | some name =>
    cases d with
    | str expression => cases hpath : Path.ofString expression <;> simp [Except.map, IsPath, hpath]
    | _ => simp [IsPath]

theorem ofFields_accepted {fields : Fields} :
    (∃ ts, ofFields fields = .ok ts) ↔ ∀ entry ∈ fields, AcceptedUnder entry.1 entry.2 := by
  induction fields with
  | nil => exact iff_of_true ⟨[], rfl⟩ (List.forall_mem_nil _)
  | cons entry fields ih =>
    rw [List.forall_mem_cons, ← ih, ← ofField_accepted, ofFields_cons]
    cases ofField entry.1 entry.2 <;> cases ofFields fields <;> simp [bind, Except.bind]

theorem accepted_str {s : String} : Accepted (.str s) ↔ (StartsPath s → IsPath (.str s)) := by
  unfold Accepted ofDocument
  split
  · rename_i hprefix
    have hstarts : StartsPath s := Text.isPrefixOf_iff.1 hprefix
    cases hpath : Path.ofString s <;> simp [Except.map, IsPath, hpath, hstarts]
  · rename_i hprefix
    exact iff_of_true ⟨_, rfl⟩ fun hstarts => absurd (Text.isPrefixOf_iff.2 hstarts) hprefix

theorem accepted_arr {items : List Document} : Accepted (.arr items) ↔ ∀ d ∈ items, Accepted d := by
  rw [← ofItems_accepted]
  unfold Accepted
  rw [ofDocument]
  cases ofItems items <;> simp [Except.map]

theorem accepted_obj {fields : Fields} :
    Accepted (.obj fields) ↔ ∀ entry ∈ fields, AcceptedUnder entry.1 entry.2 := by
  rw [← ofFields_accepted]
  unfold Accepted
  rw [ofDocument]
  cases ofFields fields <;> simp [Except.map]

/-- Whether a document is accepted is settled by its children, which are paths under the keys that end in
`.$` and accepted elsewhere. -/
theorem accepted_step (hd : d.Canonical) : Accepted d ↔ (∀ s, d = .str s → StartsPath s → IsPath d) ∧
    ∀ p c, d.childAt? p = some c → (IsPathKey p → IsPath c) ∧ (¬ IsPathKey p → Accepted c) := by
  cases d with
  | null | bool | num => exact iff_of_true ⟨_, rfl⟩ ⟨nofun, nofun⟩
  | str s =>
    rw [accepted_str]
    refine ⟨fun h => ⟨?_, nofun⟩, fun h => h.1 s rfl⟩
    rintro _ ⟨⟩
    exact h
  | arr items =>
    rw [accepted_arr]
    constructor
    · refine fun h => ⟨nofun, ?_⟩
      rintro (_ | i) c hc
      · cases hc
      · exact ⟨nofun, fun _ => h c (List.mem_of_getElem? hc)⟩
    · rintro ⟨-, h⟩ c hc
      obtain ⟨i, hi⟩ := List.mem_iff_getElem?.1 hc
      exact (h (.element i) c hi).2 (not_isPathKey_element i)
  | obj fields =>
    have hunder {key : String} {c : Document} : AcceptedUnder key c ↔
        (IsPathKey (.member key) → IsPath c) ∧ (¬ IsPathKey (.member key) → Accepted c) := by
      rw [isPathKey_member, AcceptedUnder]
      cases pathKey? key <;> simp
    rw [accepted_obj]
    constructor
    · refine fun h => ⟨nofun, ?_⟩
      rintro (key | _) c hc
      · exact hunder.1 (h (key, c) (Table.mem_of_get? hc))
      · cases hc
    · rintro ⟨-, h⟩ ⟨key, c⟩ hmem
      exact hunder.2 (h (.member key) c (Table.get?_of_mem (Document.canonical_obj_iff.1 hd).1.nodup hmem))

theorem at?_str {s : String} (h : (Document.str s).at? location = some v) : location = [] ∧ v = .str s := by
  cases location with
  | nil => exact ⟨rfl, (Option.some.inj h).symm⟩
  | cons p location => cases h

theorem inOrder_step : (∀ location v, d.at? location = some v → InOrder location v) ↔
    (∀ s, d = .str s → StartsPath s → IsPath d) ∧
    ∀ p c, d.childAt? p = some c → (IsPathKey p → IsPath c) ∧
      (¬ IsPathKey p → ∀ location v, c.at? location = some v → InOrder location v) := by
  constructor
  · intro h
    refine ⟨(h [] d rfl).2, fun p c hc => ⟨fun hp => ?_, fun hp location v hv => ?_⟩⟩
    · have hat : d.at? [p] = some c := by rw [Document.at?, hc]; rfl
      exact (h [p] c hat).1 (underPathKey_singleton.2 hp)
    · have hat : d.at? (p :: location) = some v := by rw [Document.at?, hc]; exact hv
      obtain ⟨hunder, hstr⟩ := h _ v hat
      exact ⟨fun hu => hunder ((underPathKey_cons hp).2 hu), hstr⟩
  · rintro ⟨hself, hchildren⟩ location v hv
    cases location with
    | nil =>
      obtain rfl := Option.some.inj hv
      exact ⟨fun hu => absurd hu not_underPathKey_nil, hself⟩
    | cons p location =>
      obtain ⟨c, hc, hv⟩ := Option.bind_eq_some_iff.1 hv
      obtain ⟨hkey, hother⟩ := hchildren p c hc
      by_cases hp : IsPathKey p
      · -- Nothing stands below a path, so that `v` is the path itself.
        have hpath := hkey hp
        obtain ⟨expression, q, rfl, -⟩ := id hpath
        obtain ⟨-, rfl⟩ := at?_str hv
        exact ⟨fun _ => hpath, fun _ _ _ => hpath⟩
      · obtain ⟨hunder, hstr⟩ := hother hp location v hv
        exact ⟨fun hu => hunder ((underPathKey_cons hp).1 hu), hstr⟩

/-- A document is a template if all that is read as a path is one, wherever it stands. -/
theorem accepted_iff (d : Document) (hd : d.Canonical) :
    Accepted d ↔ ∀ location v, d.at? location = some v → InOrder location v := by
  rw [accepted_step hd, inOrder_step]
  have hchild {p : Position} {c : Document} (hc : d.childAt? p = some c) :
      Accepted c ↔ ∀ location v, c.at? location = some v → InOrder location v :=
    accepted_iff c (hd.childAt? hc)
  refine and_congr_right fun _ => forall_congr' fun p => forall_congr' fun c => forall_congr' fun hc => ?_
  exact and_congr_right fun _ => forall_congr' fun _ => hchild hc
termination_by sizeOf d
decreasing_by exact Document.sizeOf_childAt? hc

end Template
end StepFlow
