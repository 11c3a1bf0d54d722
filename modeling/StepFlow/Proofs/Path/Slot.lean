import StepFlow.Proofs.Path.Canonical

/-!
# Writing along keys

`Document.slot` is one step of the walk to the place that a list of keys names: the child under a key, and what
becomes of the document when another child is laid there. What is laid in a slot is found there, and the slot
stays where it is; from these laws of one key follow those of all keys, by induction on the list.
-/

namespace StepFlow
namespace Document

variable {d out value : Document} {k : Key} {keys : List Key}

/-! ### One element -/

/-- The items with a child in the place of an element, or at the end. -/
def place (items : List Document) (j : Nat) (child : Document) : List Document :=
  if j < items.length then items.set j child else items ++ [child]

section
variable {items : List Document} {i : Int} {j : Nat} {child : Document}

theorem resolveIndex_eq_some_iff {n : Nat} :
    resolveIndex n i = some j ↔ j < n ∧ (j : Int) = if i < 0 then n + i else i := by
  simp only [resolveIndex, Option.ite_none_right_eq_some, Option.some.injEq]
  constructor
  · rintro ⟨hbounds, hj⟩
    omega
  · rintro ⟨hlt, hj⟩
    omega

theorem writeIndex_le {n : Nat} (h : writeIndex n i = some j) : j ≤ n := by
  unfold writeIndex at h
  split at h
  · rename_i hj
    cases h
    exact Nat.le_of_lt (resolveIndex_eq_some_iff.1 hj).1
  · split at h
    · cases h
      exact Nat.le_refl _
    · cases h

theorem getElem?_place (hj : j ≤ items.length) (child : Document) : (place items j child)[j]? = some child := by
  unfold place
  split
  · rename_i hlt
    simp [hlt]
  · rename_i hge
    obtain rfl : j = items.length := by omega
    simp

theorem place_place (hj : j ≤ items.length) (child child' : Document) :
    place (place items j child) j child' = place items j child' := by
  unfold place
  split
  · rename_i hlt
    simp [hlt]
  · rename_i hge
    obtain rfl : j = items.length := by omega
    simp

theorem place_self (h : items[j]? = some child) : place items j child = items := by
  obtain ⟨hlt, rfl⟩ := List.getElem?_eq_some_iff.1 h
  rw [place, if_pos hlt, List.set_getElem_self]

/-- The place where an index wrote is the one that it finds. -/
theorem resolveIndex_place (h : writeIndex items.length i = some j) (child : Document) :
    resolveIndex (place items j child).length i = some j := by
  unfold writeIndex at h
  unfold place
  split at h
  · rename_i hj
    cases h
    rw [if_pos (resolveIndex_eq_some_iff.1 hj).1, List.length_set, hj]
  · split at h
    · cases h
      rename_i hi
      subst hi
      rw [if_neg (Nat.lt_irrefl _), List.length_append, List.length_singleton, resolveIndex_eq_some_iff]
      omega
    · cases h

end

/-! ### One key -/

/-- The child under a key, null where there is none yet, and the document with another child in its place. -/
structure Slot where
  old : Document
  put : Document → Document

/-- The slot under a key of the document that the key enters. -/
def slot (d : Document) (k : Key) : Except Mismatch Slot :=
  match d.entered k, k with
  | obj fields, .name s => .ok ⟨(Table.get? s fields).getD null, fun child => obj (Table.insert s child fields)⟩
  | arr items, .index i =>
    match writeIndex items.length i with
    | none => .error (.outOfBounds i)
    | some j => .ok ⟨items[j]?.getD null, fun child => arr (place items j child)⟩
  | other, .name s => .error (.noMembers s other.kind)
  | other, .index i => .error (.noElements i other.kind)

theorem write_cons (d : Document) (k : Key) (keys : List Key) (value : Document) :
    d.write (k :: keys) value = (d.slot k).bind fun s => (s.old.write keys value).map s.put := by
  rw [write.eq_def, slot.eq_def]
  dsimp only
  cases d.entered k with
  | obj fields => cases k <;> rfl
  | arr items =>
    cases k with
    | name => rfl
    | index i =>
      dsimp only
      cases writeIndex items.length i <;> rfl
  | _ => cases k <;> rfl

/-- A null and the empty container that it counts as have the same children. -/
theorem child?_entered (d : Document) (k k' : Key) : (d.entered k).child? k' = d.child? k' := by
  have hempty (i : Int) : resolveIndex 0 i = none :=
    Option.eq_none_iff_forall_ne_some.2 fun j hj => Nat.not_lt_zero j (resolveIndex_eq_some_iff.1 hj).1
  cases d with
  | null => cases k <;> cases k' <;> simp [entered, isNull, emptyFor, child?, get?, hempty, Table.get?]
  | _ => rfl

namespace Slot

variable {s : Slot}

/-- A slot is that of a member of an object or that of an element of an array. -/
theorem cases (h : d.slot k = .ok s) :
    (∃ name fields, k = .name name ∧ d.entered k = obj fields ∧
      s = ⟨(Table.get? name fields).getD null, fun child => obj (Table.insert name child fields)⟩) ∨
    ∃ i items j, k = .index i ∧ d.entered k = arr items ∧ writeIndex items.length i = some j ∧
      s = ⟨items[j]?.getD null, fun child => arr (place items j child)⟩ := by
  unfold slot at h
  split at h
  · rename_i fields name heq
    cases h
    exact .inl ⟨name, fields, rfl, heq, rfl⟩
  · rename_i items i heq
    split at h
    · cases h
    · rename_i j hj
      cases h
      exact .inr ⟨i, items, j, rfl, heq, hj, rfl⟩
  · cases h
  · cases h

theorem child?_put (h : d.slot k = .ok s) (child : Document) : (s.put child).child? k = some child := by
  obtain ⟨name, fields, rfl, -, rfl⟩ | ⟨i, items, j, rfl, -, hj, rfl⟩ := cases h
  · exact (Table.get?_insert ..).trans (if_pos rfl)
  · simp [child?, resolveIndex_place hj, getElem?_place (writeIndex_le hj)]

/-- The slot of a child that has been put there is the same, with that child in it. -/
theorem slot_put (h : d.slot k = .ok s) (child : Document) : (s.put child).slot k = .ok ⟨child, s.put⟩ := by
  obtain ⟨name, fields, rfl, -, rfl⟩ | ⟨i, items, j, rfl, -, hj, rfl⟩ := cases h
  · have hentered : (obj (Table.insert name child fields)).entered (.name name) =
        obj (Table.insert name child fields) := rfl
    simp [slot, hentered, Table.get?_insert, Table.insert_insert]
  · have hentered : (arr (place items j child)).entered (.index i) = arr (place items j child) := rfl
    have hwrite : writeIndex (place items j child).length i = some j := by
      rw [writeIndex, resolveIndex_place hj]
    simp [slot, hentered, hwrite, getElem?_place, place_place, writeIndex_le hj]

theorem old_eq (h : d.slot k = .ok s) : s.old = (d.child? k).getD null := by
  rw [← child?_entered d k k]
  obtain ⟨name, fields, rfl, heq, rfl⟩ | ⟨i, items, j, rfl, heq, hj, rfl⟩ := cases h
  · rw [heq]
    rfl
  · rw [heq]
    unfold writeIndex at hj
    split at hj
    · rename_i hfound
      cases hj
      simp [child?, hfound]
    · rename_i hfound
      -- Just past the end there is nothing yet.
      split at hj <;> cases hj
      simp [child?, hfound]

theorem of_child? (hd : d.Canonical) {child : Document} (h : d.child? k = some child) :
    ∃ s, d.slot k = .ok s ∧ s.old = child ∧ s.put child = d := by
  cases k with
  | name name =>
    cases d with
    | obj fields =>
      refine ⟨_, rfl, congrArg (Option.getD · null) h, congrArg obj ?_⟩
      exact (canonical_obj_iff.1 hd).1.insert_eq h
    | _ => cases h
  | index i =>
    cases d with
    | arr items =>
      obtain ⟨j, hj, hchild⟩ := Option.bind_eq_some_iff.1 h
      have hwrite : writeIndex items.length i = some j := by rw [writeIndex, hj]
      have hentered : (arr items).entered (.index i) = arr items := rfl
      refine ⟨⟨items[j]?.getD null, fun child => arr (place items j child)⟩, ?_, ?_, ?_⟩
      · simp [slot, hentered, hwrite]
      · exact congrArg (Option.getD · null) hchild
      · exact congrArg arr (place_self hchild)
    | _ => cases h

end Slot

/-! ### All keys -/

theorem Canonical.child? {child : Document} (hd : d.Canonical) (h : d.child? k = some child) :
    child.Canonical := by
  cases k with
  | name name =>
    cases d with
    | obj fields => exact hd.get? h
    | _ => cases h
  | index i =>
    cases d with
    | arr items =>
      obtain ⟨j, -, hchild⟩ := Option.bind_eq_some_iff.1 h
      exact canonical_arr_iff.1 hd child (List.mem_of_getElem? hchild)
    | _ => cases h

theorem write_cons_eq_ok (h : d.write (k :: keys) value = .ok out) :
    ∃ s child, d.slot k = .ok s ∧ s.old.write keys value = .ok child ∧ s.put child = out := by
  rw [write_cons] at h
  obtain ⟨s, hs, h⟩ := Except.bind_eq_ok h
  obtain ⟨child, hchild, h⟩ := Except.map_eq_ok h
  exact ⟨s, child, hs, hchild, h⟩

theorem follow?_write (h : d.write keys value = .ok out) : out.follow? keys = some value := by
  induction keys generalizing d out with
  | nil =>
    cases h
    rfl
  | cons k keys ih =>
    obtain ⟨s, child, hs, hchild, rfl⟩ := write_cons_eq_ok h
    rw [follow?, Slot.child?_put hs, Option.bind_some, ih hchild]

theorem write_of_follow? (hd : d.Canonical) (h : d.follow? keys = some value) : d.write keys value = .ok d := by
  induction keys generalizing d with
  | nil =>
    cases h
    rfl
  | cons k keys ih =>
    obtain ⟨child, hchild, h⟩ := Option.bind_eq_some_iff.1 h
    obtain ⟨s, hs, rfl, hput⟩ := Slot.of_child? hd hchild
    have hcanonical : s.old.Canonical := hd.child? hchild
    rw [write_cons, hs]
    simp only [Except.bind, ih hcanonical h, Except.map, hput]

theorem write_write (h : d.write keys value = .ok out) (other : Document) :
    ∃ out', d.write keys other = .ok out' ∧ out.write keys other = .ok out' := by
  induction keys generalizing d out with
  | nil => exact ⟨other, rfl, rfl⟩
  | cons k keys ih =>
    obtain ⟨s, child, hs, hchild, rfl⟩ := write_cons_eq_ok h
    obtain ⟨child', hold, hnew⟩ := ih hchild
    refine ⟨s.put child', ?_, ?_⟩
    · rw [write_cons, hs]
      simp only [Except.bind, hold, Except.map]
    · rw [write_cons, Slot.slot_put hs]
      simp only [Except.bind, hnew, Except.map]

end Document
end StepFlow
