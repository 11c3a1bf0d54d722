import StepFlow.Proofs.Path.Apart

/-!
# Where a write stops

A write walks along its keys and fails at the first document that the next key cannot enter (`Document.Stops`):
what is to be written has no part in it. A walk that reaches its end leaves every container on it with at most
one more child, and all that is computed for an index are signed words (`ReferencePath.set_fails_iff`).
-/

namespace StepFlow

variable {d out value : Document} {k : Key} {keys : List Key} {m : Mismatch}

namespace Document

/-- The key cannot enter the document: a name only enters objects, and an index arrays that have an element
there, counted from the front or from the end, or that it would extend by one. -/
inductive Hinders : Document → Key → Mismatch → Prop where
  | noMembers {d : Document} (name : String) (h : ∀ fields, d ≠ obj fields) :
      Hinders d (.name name) (.noMembers name d.kind)
  | noElements {d : Document} (i : Int) (h : ∀ items, d ≠ arr items) : Hinders d (.index i) (.noElements i d.kind)
  | outOfBounds {items : List Document} {i : Int} (h : i < -items.length ∨ items.length < i) :
      Hinders (arr items) (.index i) (.outOfBounds i)

/-- The walk along the keys stops. What is missing counts as null, and a null as the empty container that the
key enters. -/
inductive Stops : Document → List Key → Mismatch → Prop where
  | here {d : Document} {k : Key} {m : Mismatch} (keys : List Key) (h : (d.entered k).Hinders k m) :
      Stops d (k :: keys) m
  | further {d : Document} {k : Key} {keys : List Key} {m : Mismatch} (h : ∀ m', ¬ (d.entered k).Hinders k m')
      (hkeys : Stops (((d.entered k).child? k).getD null) keys m) : Stops d (k :: keys) m

/-- The document that the key enters on the walk from `d`, after the keys in `shared`. -/
def met (d : Document) (shared : List Key) (k : Key) : Document := ((d.follow? shared).getD null).entered k

/-! ### Stopping -/

theorem resolveIndex_eq_none_iff {n : Nat} {i : Int} : resolveIndex n i = none ↔ i < -n ∨ n ≤ i := by
  simp only [resolveIndex, ite_eq_right_iff]
  constructor
  · intro h
    by_contra hout
    exact Option.some_ne_none _ (h (by omega))
  · intro hout hin
    omega

theorem writeIndex_eq_none_iff {n : Nat} {i : Int} : writeIndex n i = none ↔ i < -n ∨ n < i := by
  unfold writeIndex
  split
  · rename_i hfound
    have := resolveIndex_eq_some_iff.1 hfound
    refine iff_of_false nofun ?_
    omega
  · rename_i hnone
    rw [resolveIndex_eq_none_iff] at hnone
    split
    · refine iff_of_false nofun ?_
      omega
    · refine iff_of_true rfl ?_
      omega

theorem slot_eq_error_iff : d.slot k = .error m ↔ (d.entered k).Hinders k m := by
  unfold slot
  generalize d.entered k = e
  constructor
  · intro h
    split at h
    · cases h
    · split at h <;> cases h
      exact .outOfBounds (writeIndex_eq_none_iff.1 ‹_›)
    · rename_i other name hother
      cases h
      exact .noMembers name fun fields heq => hother fields heq
    · rename_i other i hother
      cases h
      exact .noElements i fun items heq => hother items heq
  · rintro (⟨name, h⟩ | ⟨i, h⟩ | h)
    · cases e with
      | obj fields => exact absurd rfl (h fields)
      | _ => rfl
    · cases e with
      | arr items => exact absurd rfl (h items)
      | _ => rfl
    · dsimp only
      rw [writeIndex_eq_none_iff.2 h]

theorem write_eq_error_iff : d.write keys value = .error m ↔ d.Stops keys m := by
  induction keys generalizing d with
  | nil => exact iff_of_false nofun nofun
  | cons k keys ih =>
    rw [write_cons]
    cases hslot : d.slot k with
    | error m' =>
      have hhinders := slot_eq_error_iff.1 hslot
      constructor
      · rintro ⟨⟩
        exact .here keys hhinders
      · rintro (⟨-, h⟩ | ⟨h, -⟩)
        · rw [← slot_eq_error_iff, hslot] at h
          cases h
          rfl
        · exact absurd hhinders (h m')
    | ok s =>
      have hfree (m' : Mismatch) : ¬ (d.entered k).Hinders k m' := by
        rw [← slot_eq_error_iff, hslot]
        nofun
      have hold : (((d.entered k).child? k).getD null) = s.old := by rw [child?_entered, Slot.old_eq hslot]
      have hbelow : (s.old.write keys value).map s.put = .error m ↔ s.old.write keys value = .error m := by
        cases s.old.write keys value <;> simp [Except.map]
      refine hbelow.trans (ih.trans ⟨fun h => .further hfree (hold ▸ h), ?_⟩)
      rintro (⟨-, h⟩ | ⟨-, h⟩)
      · exact absurd h (hfree m)
      · exact hold ▸ h

/-! ### Going on to the end -/

/-- Where the walk has passed, there is what it met, with one child put in its slot. -/
theorem follow?_write_shared {shared rest : List Key} (h : d.write (shared ++ k :: rest) value = .ok out) :
    ∃ s child, ((d.follow? shared).getD null).slot k = .ok s ∧ out.follow? shared = some (s.put child) := by
  induction shared generalizing d out with
  | nil =>
    obtain ⟨s, child, hs, -, rfl⟩ := write_cons_eq_ok h
    exact ⟨s, child, hs, rfl⟩
  | cons k' shared ih =>
    obtain ⟨s', child', hs', hchild', rfl⟩ := write_cons_eq_ok h
    obtain ⟨s, child, hs, hfollow⟩ := ih hchild'
    refine ⟨s, child, ?_, ?_⟩
    · rw [getD_follow?_cons, ← Slot.old_eq hs', hs]
    · rw [follow?, Slot.child?_put hs', Option.bind_some, hfollow]

theorem length_place_le (items : List Document) (j : Nat) (child : Document) :
    (place items j child).length ≤ items.length + 1 := by
  unfold place
  split <;> simp

/-- An array on the walk was one before, or is made on the way, and has at most one element more. -/
theorem items_write {shared rest : List Key} {items' : List Document}
    (h : d.write (shared ++ k :: rest) value = .ok out) (hitems : out.follow? shared = some (arr items')) :
    ∃ items, d.met shared k = arr items ∧ items'.length ≤ items.length + 1 := by
  obtain ⟨s, child, hs, hput⟩ := follow?_write_shared h
  obtain ⟨name, fields, rfl, heq, rfl⟩ | ⟨i, items, j, rfl, heq, hj, rfl⟩ := Slot.cases hs
  · rw [hput] at hitems
    cases hitems
  · rw [hput] at hitems
    cases hitems
    exact ⟨items, heq, length_place_le items j child⟩

end Document

namespace ReferencePath

variable {p : ReferencePath} {e : PathError}

theorem set_eq_error_iff : p.set d value = .error e ↔
    ∃ m, d.Stops p.keys m ∧ e = .resultPathMismatch p.expression m := by
  by_cases hkeys : p.keys = []
  · refine iff_of_false ?_ ?_
    · unfold set
      rw [hkeys]
      split <;> simp_all
    · rw [hkeys]
      rintro ⟨m, h, -⟩
      cases h
  · rw [set_of_keys hkeys]
    constructor
    · intro h
      cases hwrite : d.write p.keys value with
      | ok out =>
        rw [hwrite] at h
        cases h
      | error m =>
        rw [hwrite] at h
        cases h
        exact ⟨m, Document.write_eq_error_iff.1 hwrite, rfl⟩
    · rintro ⟨m, h, rfl⟩
      rw [Document.write_eq_error_iff.2 h]
      rfl

theorem exists_set_eq_ok_iff : (∃ out, p.set d value = .ok out) ↔ ∀ m, ¬ d.Stops p.keys m := by
  constructor
  · rintro ⟨out, hout⟩ m hm
    rw [set_eq_error_iff.2 ⟨m, hm, rfl⟩] at hout
    cases hout
  · intro h
    cases hset : p.set d value with
    | ok out => exact ⟨out, rfl⟩
    | error e =>
      obtain ⟨m, hm, -⟩ := set_eq_error_iff.1 hset
      exact absurd hm (h m)

/-- A write fails exactly when the walk along its keys stops, with a mismatch that names the path, whatever is to
be written. At an array only words are added up for an index that is a word, and the place that is found lies in
the array, if need be with one element more; no array on the walk gets more than that. -/
theorem set_fails_iff (p : ReferencePath) (t v : Document) :
    (∀ e, p.set t v = .error e ↔ ∃ m, t.Stops p.keys m ∧ e = .resultPathMismatch p.expression m) ∧
    (∀ w, (∃ t', p.set t v = .ok t') ↔ ∃ t', p.set t w = .ok t') ∧
    (∀ (items : List Document) (i : Int), items.length ≤ Slice.maxWord → Slice.minWord ≤ i → i ≤ Slice.maxWord →
      (i < 0 → Slice.addWord items.length i = some (items.length + i)) ∧
      ∀ j child, Document.writeIndex items.length i = some j → j < (Document.place items j child).length) ∧
    ∀ t' shared k rest items', p.keys = shared ++ k :: rest → p.set t v = .ok t' →
      t'.follow? shared = some (.arr items') →
      ∃ items, t.met shared k = .arr items ∧ items'.length ≤ items.length + 1 := by
  refine ⟨fun e => set_eq_error_iff, fun w => ?_, fun items i hlength hmin hmax => ⟨fun hi => ?_, ?_⟩,
    fun t' shared k rest items' hkeys h hitems => ?_⟩
  · rw [exists_set_eq_ok_iff, exists_set_eq_ok_iff]
  · refine if_pos ⟨?_, ?_⟩ <;> omega
  · intro j child hj
    exact (List.getElem?_eq_some_iff.1 (Document.getElem?_place (Document.writeIndex_le hj) child)).1
  · have hne : p.keys ≠ [] := by simp [hkeys]
    rw [set_eq_ok_iff hne, hkeys] at h
    exact Document.items_write h hitems

/-- The element number `i` of the member `list`. -/
def element (i : Int) : ReferencePath := ⟨"$.list[" ++ toString i ++ "]", [.name "list", .index i]⟩

/-- An array that is made on the way has room for its first element only, and the least of all words is no place
in an array. -/
theorem set_fails_iff_madeOnTheWay :
    let t : Document := .obj [("list", .null)]
    (element 1).set t .null = .error (.resultPathMismatch "$.list[1]" (.outOfBounds 1)) ∧
      (∃ t' items, (element 0).set t .null = .ok t' ∧ t'.follow? [.name "list"] = some (.arr [.null]) ∧
        t.met [.name "list"] (.index 0) = .arr items ∧ 1 ≤ items.length + 1) ∧
      Slice.addWord 1 Slice.minWord = some (1 + Slice.minWord) := by
  intro t
  have hstops : t.Stops (element 1).keys (.outOfBounds 1) := by
    refine .further (fun m h => ?_) (.here [] (.outOfBounds (.inr (by decide))))
    cases h with
    | noMembers name h => exact h _ rfl
  obtain ⟨items, hmet, hlength⟩ := (set_fails_iff (element 0) t .null).2.2.2 _ [.name "list"] (.index 0) [] [.null] rfl
    rfl rfl
  exact ⟨((set_fails_iff (element 1) t .null).1 _).2 ⟨_, hstops, rfl⟩, ⟨_, items, rfl, rfl, hmet, hlength⟩,
    ((set_fails_iff (element 0) t .null).2.2.1 [.null] Slice.minWord (by decide) (by decide) (by decide)).1 (by decide)⟩

end ReferencePath
end StepFlow
