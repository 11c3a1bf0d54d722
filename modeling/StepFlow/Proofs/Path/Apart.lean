import StepFlow.Proofs.Path.Lens

/-!
# Places apart

Two lists of keys are apart when, after some keys that they share, they go on with keys that never find the
same child: two names, a name and an index, or two indices that count from the front. What is written along the
one is not seen along the other (`Document.follow?_write_of_apart`), also where the write makes or extends the
containers on the way that they share.
-/

namespace StepFlow

variable {d out value : Document} {k k' : Key} {keys keys' : List Key}

/-- Keys that never find the same child, in whatever document. -/
def Key.Apart : Key → Key → Prop
  | .name s, .name t => s ≠ t
  | .index i, .index j => 0 ≤ i ∧ 0 ≤ j ∧ i ≠ j
  | _, _ => True

/-- The lists first differ, after keys that they share, in keys that are apart. -/
inductive KeysApart : List Key → List Key → Prop where
  | here {k k' : Key} {keys keys' : List Key} (h : k.Apart k') : KeysApart (k :: keys) (k' :: keys')
  | shared {keys keys' : List Key} (k : Key) (h : KeysApart keys keys') : KeysApart (k :: keys) (k :: keys')

namespace Document

/-! ### One key -/

theorem resolveIndex_of_nonneg {n : Nat} {i : Int} (hi : 0 ≤ i) :
    resolveIndex n i = if i.toNat < n then some i.toNat else none := by
  ext j
  rw [resolveIndex_eq_some_iff, Option.ite_none_right_eq_some, Option.some.injEq, if_neg (by omega)]
  omega

theorem child?_index_of_nonneg {i : Int} (hi : 0 ≤ i) (items : List Document) :
    (arr items).child? (.index i) = items[i.toNat]? := by
  rw [child?, resolveIndex_of_nonneg hi]
  split
  · rfl
  · rename_i hge
    exact (List.getElem?_eq_none (Nat.not_lt.1 hge)).symm

theorem writeIndex_of_nonneg {n j : Nat} {i : Int} (hi : 0 ≤ i) (h : writeIndex n i = some j) : j = i.toNat := by
  unfold writeIndex at h
  split at h
  · rename_i hfound
    cases h
    have := (resolveIndex_eq_some_iff.1 hfound).2
    omega
  · split at h <;> cases h
    omega

theorem getElem?_place_of_ne {items : List Document} {j l : Nat} (hj : j ≤ items.length) (h : l ≠ j)
    (child : Document) : (place items j child)[l]? = items[l]? := by
  unfold place
  split
  · rw [List.getElem?_set_ne (Ne.symm h)]
  · obtain rfl : j = items.length := by omega
    rw [List.getElem?_append]
    split
    · rfl
    · rw [List.getElem?_eq_none (by simp; omega), List.getElem?_eq_none (by omega)]

/-- A child that is laid under one key is not found under one that is apart from it. -/
theorem Slot.child?_put_of_apart {s : Slot} (h : d.slot k = .ok s) (hk : k.Apart k') (child : Document) :
    (s.put child).child? k' = d.child? k' := by
  rw [← child?_entered d k k']
  obtain ⟨name, fields, rfl, heq, rfl⟩ | ⟨i, items, j, rfl, heq, hj, rfl⟩ := cases h
  · rw [heq]
    cases k' with
    | name name' => exact (Table.get?_insert ..).trans (if_neg (Ne.symm hk))
    | index => rfl
  · rw [heq]
    cases k' with
    | name => rfl
    | index i' =>
      obtain ⟨hi, hi', hne⟩ := hk
      obtain rfl := writeIndex_of_nonneg hi hj
      rw [child?_index_of_nonneg hi', child?_index_of_nonneg hi',
        getElem?_place_of_ne (writeIndex_le hj) (by omega)]

/-! ### All keys -/

theorem follow?_null (h : keys ≠ []) : null.follow? keys = none := by
  cases keys with
  | nil => exact absurd rfl h
  | cons k keys => cases k <;> rfl

/-- What is read along keys from a child that is missing is what is read from a null. -/
theorem follow?_cons_of_ne_nil (d : Document) (k : Key) (h : keys ≠ []) :
    d.follow? (k :: keys) = ((d.child? k).getD null).follow? keys := by
  rw [follow?]
  cases d.child? k with
  | none => exact (follow?_null h).symm
  | some child => rfl

theorem getD_follow?_cons (d : Document) (k : Key) (keys : List Key) :
    (d.follow? (k :: keys)).getD null = (((d.child? k).getD null).follow? keys).getD null := by
  cases keys with
  | nil => cases hchild : d.child? k <;> simp [follow?, hchild]
  | cons => rw [follow?_cons_of_ne_nil d k (List.cons_ne_nil _ _)]

theorem follow?_write_of_apart (hkeys : KeysApart keys keys') (h : d.write keys value = .ok out) :
    out.follow? keys' = d.follow? keys' := by
  induction hkeys generalizing d out with
  | here hk =>
    obtain ⟨s, child, hs, -, rfl⟩ := write_cons_eq_ok h
    rw [follow?, follow?, Slot.child?_put_of_apart hs hk]
  | @shared keys keys' k hkeys ih =>
    obtain ⟨s, child, hs, hchild, rfl⟩ := write_cons_eq_ok h
    have hne : keys' ≠ [] := by
      rintro rfl
      cases hkeys
    rw [follow?, Slot.child?_put hs, Option.bind_some, ih hchild, follow?_cons_of_ne_nil d k hne, Slot.old_eq hs]

end Document

namespace ReferencePath

/-- The paths name places that no document has in common. -/
def Apart (p q : ReferencePath) : Prop := KeysApart p.keys q.keys

variable {p q : ReferencePath}

theorem get?_set_of_apart (hpq : p.Apart q) (h : p.set d value = .ok out) : q.get? out = q.get? d := by
  have hkeys : p.keys ≠ [] := by
    intro hnil
    rw [Apart, hnil] at hpq
    cases hpq
  exact Document.follow?_write_of_apart hpq ((set_eq_ok_iff hkeys).1 h)

end ReferencePath
end StepFlow
