import StepFlow.Path
import StepFlow.Proofs.Except

/-!
# Parsers

What the combinators of the grammar do with a text that they read, and with one that they miss.
-/

namespace StepFlow

/-- The text is empty or starts with one of the characters. -/
def StartsIn (set cs : List Char) : Prop := ∀ c ∈ cs.head?, c ∈ set

namespace StartsIn

variable {set other cs : List Char} {c : Char}

theorem cons (h : c ∈ set) : StartsIn set (c :: cs) := fun _ hc => Option.some.inj hc ▸ h

theorem mono (h : StartsIn set cs) (hset : set.all other.contains) : StartsIn other cs := fun c hc =>
  List.contains_iff_mem.1 (List.all_eq_true.1 hset c (h c hc))

end StartsIn

/-- The text starts with one of the characters. -/
def Front (set cs : List Char) : Prop := ∃ c ds, cs = c :: ds ∧ c ∈ set

namespace Front

variable {set other cs ds : List Char} {c : Char}

theorem cons (h : c ∈ set) : Front set (c :: cs) := ⟨c, cs, rfl, h⟩

theorem mono (h : Front set cs) (hset : set.all other.contains) : Front other cs := by
  obtain ⟨c, ds, rfl, hc⟩ := h
  exact .cons (List.contains_iff_mem.1 (List.all_eq_true.1 hset c hc))

theorem append (h : Front set cs) : Front set (cs ++ ds) := by
  obtain ⟨c, ds, rfl, hc⟩ := h
  exact .cons hc

theorem startsIn (h : Front set cs) : StartsIn set (cs ++ ds) := by
  obtain ⟨c, ds, rfl, hc⟩ := h
  exact .cons hc

theorem length_pos (h : Front set cs) : 0 < cs.length := by
  obtain ⟨c, ds, rfl, -⟩ := h
  exact Nat.succ_pos _

end Front

/-- No character at the front of the text satisfies the test. -/
def Avoids (test : Char → Bool) (cs : List Char) : Prop := ∀ c ∈ cs.head?, test c = false

namespace Avoids

variable {test : Char → Bool} {set cs : List Char} {c : Char}

theorem cons (h : test c = false) : Avoids test (c :: cs) := fun _ hc => Option.some.inj hc ▸ h

end Avoids

theorem StartsIn.avoids {test : Char → Bool} {set cs : List Char} (h : StartsIn set cs)
    (hset : set.all fun c => !test c) : Avoids test cs := fun c hc => by
  simpa using List.all_eq_true.1 hset c (h c hc)

namespace Parser

variable {α β : Type} {p : Parser α} {ps : List (Parser α)} {f : α → Parser β} {a : α} {as : List α}
  {c : Char} {w cs mid rest : List Char} {test : Char → Bool}

theorem bind_ok {r : Reply β} (h : p cs = .ok a mid) (hf : f a mid = r) : (p >>= f) cs = r := by
  change Parser.bind p f cs = r
  rw [Parser.bind, h]
  exact hf

theorem bind_miss (h : p cs = .miss) : (p >>= f) cs = .miss := by
  change Parser.bind p f cs = _
  rw [Parser.bind, h]

theorem orElse_ok {q : Parser α} (h : p cs = .ok a rest) : orElse p q cs = .ok a rest := by
  rw [orElse, h]

theorem orElse_skip {q : Parser α} {r : Reply α} (h : p cs = .miss) (hq : q cs = r) : orElse p q cs = r := by
  rw [orElse, h]
  exact hq

theorem choice_ok (h : p cs = .ok a rest) : choice (p :: ps) cs = .ok a rest := orElse_ok h

theorem choice_skip {r : Reply α} (h : p cs = .miss) (hps : choice ps cs = r) : choice (p :: ps) cs = r :=
  orElse_skip h hps

theorem optional_ok (h : p cs = .ok a rest) : optional p cs = .ok (some a) rest := by
  rw [optional, h]

theorem optional_miss (h : p cs = .miss) : optional p cs = .ok none cs := by
  rw [optional, h]

theorem many_cons (h : p cs = .ok a mid) (hmid : mid.length < cs.length) (hrest : many p mid = .ok as rest) :
    many p cs = .ok (a :: as) rest := by
  rw [many, h]
  simp only [hmid, if_true, hrest]

theorem many_miss (h : p cs = .miss) : many p cs = .ok [] cs := by
  rw [many, h]

theorem many_eq_nil (h : many p cs = .ok [] rest) : rest = cs := by
  rw [many] at h
  split at h
  · split at h
    · split at h <;> cases h
    · cases h
      rfl
  · cases h
    rfl
  · cases h

theorem char_self : char c (c :: cs) = .ok () cs := if_pos rfl

theorem char_miss (h : Avoids (· == c) cs) : char c cs = .miss := by
  cases cs with
  | nil => rfl
  | cons d cs => exact if_neg (by simpa using h d rfl)

theorem text_cons : text (c :: w) (c :: cs) = text w cs :=
  bind_ok char_self rfl

theorem text_self : text w (w ++ rest) = .ok () rest := by
  induction w with
  | nil => rfl
  | cons c w ih => exact text_cons.trans ih

theorem text_miss (h : Avoids (· == c) cs) : text (c :: w) cs = .miss := bind_miss (char_miss h)

theorem span_self (hw : w ≠ []) (htest : ∀ c ∈ w, test c) (hrest : Avoids test rest) :
    span test (w ++ rest) = .ok w rest := by
  have htake : (w ++ rest).takeWhile test = w := by
    rw [List.takeWhile_append_of_pos htest]
    cases rest with
    | nil => simp
    | cons d rest => simp [hrest d rfl]
  have hdrop : (w ++ rest).dropWhile test = rest := by
    rw [List.dropWhile_append_of_pos htest]
    cases rest with
    | nil => rfl
    | cons d rest => simp [hrest d rfl]
  rw [span, htake, hdrop]
  cases w with
  | nil => exact absurd rfl hw
  | cons c w => rfl

theorem span_miss (h : Avoids test cs) : span test cs = .miss := by
  cases cs with
  | nil => rfl
  | cons c cs => simp [span, h c rfl]

theorem blanks_eq (h : Avoids Draft.isBlank cs) : blanks cs = .ok () cs := by
  cases cs with
  | nil => rfl
  | cons c cs => simp [blanks, Draft.skipBlanks, h c rfl]

theorem spaced_ok (hcs : Avoids Draft.isBlank cs) (h : p cs = .ok a rest) (hrest : Avoids Draft.isBlank rest) :
    spaced p cs = .ok a rest :=
  bind_ok (blanks_eq hcs) (bind_ok h (bind_ok (blanks_eq hrest) rfl))

theorem spaced_miss (hcs : Avoids Draft.isBlank cs) (h : p cs = .miss) : spaced p cs = .miss :=
  bind_ok (blanks_eq hcs) (bind_miss h)

end Parser

namespace Grammar

/-- Only the empty text is read as no segments. -/
theorem eq_nil_of_parseQuery {cs : List Char} (h : parseQuery cs = .ok []) : cs = [] := by
  unfold parseQuery at h
  dsimp only at h
  split at h
  · rename_i query hquery
    cases h
    exact (Parser.many_eq_nil hquery).symm
  · cases h
  · cases h
  · cases h

end Grammar

/-! ### Paths -/

namespace Path

variable {expression : String} {text : List Char} {p : Path}

theorem parse_context (h : expression.toList = '$' :: '$' :: text) :
    parse expression = ((Grammar.parseQuery text).mapError flawOf).map (.mk expression true) := by
  simp only [parse, h]
  cases Grammar.parseQuery text <;> rfl

theorem parse_input (h : expression.toList = '$' :: text) (htext : ∀ c ∈ text.head?, c ≠ '$') :
    parse expression = ((Grammar.parseQuery text).mapError flawOf).map (.mk expression false) := by
  cases text with
  | nil =>
    simp only [parse, h]
    cases Grammar.parseQuery [] <;> rfl
  | cons c text =>
    have hc : c ≠ '$' := htext c rfl
    simp only [parse, h, List.cons.injEq, hc, false_and, imp_self, implies_true]
    cases Grammar.parseQuery (c :: text) <;> rfl

theorem parse_noRoot (h : ∀ c ∈ expression.toList.head?, c ≠ '$') : parse expression = .error .noRoot := by
  cases hlist : expression.toList with
  | nil => simp [parse, hlist]
  | cons c text =>
    have hc : c ≠ '$' := h c (by rw [hlist]; rfl)
    simp [parse, hlist, hc]

/-- A path that has been read starts with `$`, and with another one if it reads the context. -/
theorem parse_eq_ok (h : parse expression = .ok p) :
    ∃ text, expression.toList = (if p.ofContext then ['$', '$'] else ['$']) ++ text ∧
      p.expression = expression ∧ Grammar.parseQuery text = .ok p.query := by
  cases hlist : expression.toList with
  | nil => simp [parse, hlist] at h
  | cons c rest =>
    by_cases hc : c = '$'
    · subst hc
      by_cases hrest : ∃ text, rest = '$' :: text
      · obtain ⟨text, rfl⟩ := hrest
        rw [parse_context hlist] at h
        obtain ⟨query, hquery, rfl⟩ := Except.map_eq_ok h
        exact ⟨text, rfl, rfl, Except.mapError_eq_ok hquery⟩
      · rw [parse_input hlist] at h
        · obtain ⟨query, hquery, rfl⟩ := Except.map_eq_ok h
          exact ⟨rest, rfl, rfl, Except.mapError_eq_ok hquery⟩
        · rintro c hc rfl
          cases rest with
          | nil => cases hc
          | cons c' text => exact hrest ⟨text, by simpa using hc⟩
    · rw [parse_noRoot (by simp [hlist, hc])] at h
      cases h

end Path
end StepFlow
