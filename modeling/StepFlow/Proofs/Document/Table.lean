import Mathlib.Data.List.Pairwise
import StepFlow.Table

/-!
# Tables with distinct names

In a table in which no name is repeated an entry is found wherever it stands: sorting the table does not
matter (`get?_ofList`), and `only?` finds what `get?` finds (`only?_single`). A table that is sorted already
stays as it is (`Sorted.ofList_eq`). Of several entries of one name the last is kept (`get?_ofList_of_last`).
-/

namespace StepFlow
namespace Table

variable {α β : Type} {name other : String} {a : α} {t u : Table α}

@[simp] theorem names_nil : names ([] : Table α) = [] := rfl

@[simp] theorem names_cons (k : String) (a : α) (t : Table α) : names ((k, a) :: t) = k :: names t := rfl

@[simp] theorem names_append (t u : Table α) : names (t ++ u) = names t ++ names u := List.map_append ..

@[simp] theorem get?_nil (name : String) : get? name ([] : Table α) = none := rfl

@[simp] theorem get?_cons (name k : String) (a : α) (t : Table α) :
    get? name ((k, a) :: t) = if k = name then some a else get? name t := rfl

@[simp] theorem get?_append (name : String) (t u : Table α) :
    get? name (t ++ u) = (get? name t).or (get? name u) := by
  induction t with
  | nil => rfl
  | cons entry t ih =>
    obtain ⟨k, a⟩ := entry
    rw [List.cons_append, get?_cons, get?_cons, ih]
    split <;> rfl

theorem get?_eq_none_iff : get? name t = none ↔ name ∉ t.names := by
  induction t with
  | nil => simp
  | cons entry t ih =>
    obtain ⟨k, a⟩ := entry
    rw [get?_cons, names_cons, List.mem_cons, not_or, ← ih]
    by_cases hk : k = name
    · simp [hk]
    · simp [hk, Ne.symm hk]

theorem exists_get?_of_mem_names (h : name ∈ t.names) : ∃ a, get? name t = some a :=
  Option.ne_none_iff_exists'.1 fun hnone => get?_eq_none_iff.1 hnone h

theorem mem_of_get? (h : t.get? name = some a) : (name, a) ∈ t := by
  induction t with
  | nil => cases h
  | cons entry t ih =>
    obtain ⟨k, b⟩ := entry
    rw [get?_cons] at h
    split at h
    · rename_i hk
      cases h
      exact hk ▸ List.mem_cons_self ..
    · exact List.mem_cons_of_mem _ (ih h)

theorem get?_filter_ne (h : name ≠ other) : get? name (t.filter (·.1 ≠ other)) = get? name t := by
  induction t with
  | nil => rfl
  | cons entry t ih =>
    obtain ⟨k, a⟩ := entry
    rw [get?_cons]
    by_cases hk : k = other
    · rw [List.filter_cons_of_neg (by simp [hk]), ih, if_neg fun heq => h (heq.symm.trans hk)]
    · rw [List.filter_cons_of_pos (by simp [hk]), get?_cons, ih]

/-! ### Sorting -/

theorem get?_merge (base : Table α) (h : u.names.Nodup) :
    get? name (merge base u) = (get? name u).or (get? name base) := by
  induction u generalizing base with
  | nil => rfl
  | cons entry u ih =>
    obtain ⟨k, a⟩ := entry
    obtain ⟨hk, hu⟩ := List.nodup_cons.1 h
    have hmerge : merge base ((k, a) :: u) = merge (insert k a base) u := rfl
    rw [hmerge, ih _ hu, get?_insert, get?_cons]
    by_cases hname : name = k
    · rw [if_pos hname, if_pos hname.symm, get?_eq_none_iff.2 (hname ▸ hk)]
      rfl
    · rw [if_neg hname, if_neg (Ne.symm hname)]

theorem get?_ofList (name : String) (h : t.names.Nodup) : get? name (ofList t) = get? name t := by
  rw [ofList, get?_merge _ h, get?_nil, Option.or_none]

theorem Sorted.nodup (h : t.Sorted) : t.names.Nodup := by
  refine List.Pairwise.imp ?_ h
  rintro k _ hlt rfl
  exact String.lt_irrefl _ hlt

theorem insert_eq_append (h : ∀ k ∈ t.names, k < name) : insert name a t = t ++ [(name, a)] := by
  induction t with
  | nil => rfl
  | cons entry t ih =>
    obtain ⟨k, b⟩ := entry
    obtain ⟨hk, ht⟩ := List.forall_mem_cons.1 h
    have hne : name ≠ k := fun heq => String.lt_irrefl _ (heq ▸ hk)
    rw [insert, if_neg (String.lt_asymm hk), if_neg hne, ih ht]
    rfl

theorem merge_eq_append (h : Sorted (t ++ u)) : merge t u = t ++ u := by
  induction u generalizing t with
  | nil => exact (List.append_nil t).symm
  | cons entry u ih =>
    obtain ⟨k, a⟩ := entry
    have hlast : ∀ k' ∈ t.names, k' < k := by
      rw [Sorted, names_append, List.pairwise_append] at h
      exact fun k' hk' => h.2.2 k' hk' k (List.mem_cons_self ..)
    have hmerge : merge t ((k, a) :: u) = merge (insert k a t) u := rfl
    rw [← List.singleton_append, ← List.append_assoc] at h ⊢
    rw [List.singleton_append, hmerge, insert_eq_append hlast]
    exact ih h

/-- A sorted table stays as it is. -/
theorem Sorted.ofList_eq (h : t.Sorted) : ofList t = t := merge_eq_append h

theorem Sorted.get?_eq_none_of_lt {k : String} (h : Sorted ((k, a) :: t)) (hlt : name < k) :
    get? name ((k, a) :: t) = none := by
  refine get?_eq_none_iff.2 fun hname => ?_
  rcases List.mem_cons.1 hname with rfl | hname
  · exact String.lt_irrefl _ hlt
  · exact String.lt_asymm hlt (List.rel_of_pairwise_cons h hname)

/-- Sorted tables with the same entries under every name are equal. -/
theorem Sorted.ext (ht : t.Sorted) (hu : u.Sorted) (h : ∀ name, get? name t = get? name u) : t = u := by
  induction t generalizing u with
  | nil =>
    cases u with
    | nil => rfl
    | cons entry u => simpa [get?] using h entry.1
  | cons entry t ih =>
    obtain ⟨k, a⟩ := entry
    cases u with
    | nil => simpa using h k
    | cons entry u =>
      obtain ⟨l, b⟩ := entry
      have hle : ¬ k < l := fun hlt => by simpa [hu.get?_eq_none_of_lt hlt] using h k
      have hge : ¬ l < k := fun hlt => by simpa [ht.get?_eq_none_of_lt hlt] using h l
      obtain rfl : k = l := String.le_antisymm (String.not_lt.1 hge) (String.not_lt.1 hle)
      obtain rfl : a = b := by simpa using h k
      obtain ⟨htk, ht⟩ := List.pairwise_cons.1 ht
      obtain ⟨huk, hu⟩ := List.pairwise_cons.1 hu
      refine congrArg _ (ih ht hu fun name => ?_)
      by_cases hname : k = name
      · subst hname
        have hnone {t : Table α} (hk : ∀ k' ∈ t.names, k < k') : get? k t = none :=
          get?_eq_none_iff.2 fun hmem => String.lt_irrefl _ (hk k hmem)
        rw [hnone htk, hnone huk]
      · simpa [hname] using h name

theorem insert_insert (name : String) (a b : α) (t : Table α) :
    insert name b (insert name a t) = insert name b t := by
  induction t with
  | nil => simp [insert]
  | cons entry t ih =>
    obtain ⟨k, c⟩ := entry
    rw [insert, insert]
    split
    · simp [insert]
    · rename_i hlt
      split
      · simp [insert]
      · rename_i hne
        rw [insert, if_neg hlt, if_neg hne, ih]

theorem Sorted.insert_eq (h : t.Sorted) (ha : get? name t = some a) : insert name a t = t := by
  refine (sorted_insert name a h).ext h fun other => ?_
  rw [get?_insert]
  split
  · rename_i heq
    rw [heq, ha]
  · rfl

/-- What has been merged once is there already. -/
theorem merge_merge {base : Table α} (hbase : base.Sorted) (h : u.names.Nodup) :
    merge (merge base u) u = merge base u := by
  refine (sorted_merge (sorted_merge hbase u) u).ext (sorted_merge hbase u) fun name => ?_
  rw [get?_merge _ h, get?_merge _ h]
  cases get? name u <;> rfl

theorem Sorted.merge_self (h : t.Sorted) : merge t t = t := by
  refine (sorted_merge h t).ext h fun name => ?_
  rw [get?_merge _ h.nodup]
  cases get? name t <;> rfl

theorem mem_of_mem_insert {entry : String × α} (h : entry ∈ insert name a t) : entry = (name, a) ∨ entry ∈ t := by
  induction t with
  | nil => exact .inl (List.mem_singleton.1 h)
  | cons first t ih =>
    obtain ⟨k, b⟩ := first
    simp only [insert] at h
    split at h
    · exact List.mem_cons.1 h
    · split at h
      · exact (List.mem_cons.1 h).imp_right (List.mem_cons_of_mem _)
      · rcases List.mem_cons.1 h with rfl | h
        · exact .inr (List.mem_cons_self ..)
        · exact (ih h).imp_right (List.mem_cons_of_mem _)

theorem mem_of_mem_merge {base : Table α} {entry : String × α} (h : entry ∈ merge base u) :
    entry ∈ base ∨ entry ∈ u := by
  induction u generalizing base with
  | nil => exact .inl h
  | cons first u ih =>
    rcases ih h with hbase | hu
    · rcases mem_of_mem_insert hbase with rfl | hbase
      · exact .inr (List.mem_cons_self ..)
      · exact .inl hbase
    · exact .inr (List.mem_cons_of_mem _ hu)

theorem mem_of_mem_ofList {entry : String × α} (h : entry ∈ ofList t) : entry ∈ t :=
  (mem_of_mem_merge h).resolve_left List.not_mem_nil

/-- Of several entries of one name the last is kept. -/
theorem get?_merge_reverse (base u : Table α) :
    get? name (merge base u) = (get? name u.reverse).or (get? name base) := by
  induction u generalizing base with
  | nil => rfl
  | cons entry u ih =>
    obtain ⟨k, a⟩ := entry
    have hmerge : merge base ((k, a) :: u) = merge (insert k a base) u := rfl
    rw [hmerge, ih, get?_insert, List.reverse_cons, get?_append, Option.or_assoc, get?_cons, get?_nil]
    by_cases hname : name = k
    · rw [if_pos hname, if_pos hname.symm]
      rfl
    · rw [if_neg hname, if_neg (Ne.symm hname)]
      rfl

theorem get?_ofList_reverse (name : String) (t : Table α) : get? name (ofList t) = get? name t.reverse := by
  rw [ofList, get?_merge_reverse, get?_nil, Option.or_none]

theorem get?_ofList_eq_none_iff : get? name (ofList t) = none ↔ name ∉ t.names := by
  rw [get?_ofList_reverse, get?_eq_none_iff, names, List.map_reverse, List.mem_reverse]
  rfl

theorem get?_ofList_of_last (h : name ∉ u.names) : get? name (ofList (t ++ (name, a) :: u)) = some a := by
  have hnone : get? name u.reverse = none := by
    rw [get?_eq_none_iff, names, List.map_reverse, List.mem_reverse]
    exact h
  rw [get?_ofList_reverse, List.reverse_append, List.reverse_cons, get?_append, get?_append, hnone, get?_cons,
    if_pos rfl]
  rfl

/-! ### Finding an entry -/

theorem filter_name (name : String) (h : t.names.Nodup) :
    t.filter (fun entry => entry.1 = name) = ((get? name t).map fun a => (name, a)).toList := by
  induction t with
  | nil => rfl
  | cons entry t ih =>
    obtain ⟨k, a⟩ := entry
    obtain ⟨hk, ht⟩ := List.nodup_cons.1 h
    rw [get?_cons]
    by_cases hname : k = name
    · subst hname
      rw [List.filter_cons_of_pos (by simp), ih ht, get?_eq_none_iff.2 hk, if_pos rfl]
      rfl
    · rw [List.filter_cons_of_neg (by simp [hname]), ih ht, if_neg hname]

theorem get?_of_mem (h : t.names.Nodup) (hmem : (name, a) ∈ t) : get? name t = some a := by
  have hfilter : (name, a) ∈ t.filter fun entry => entry.1 = name := List.mem_filter.2 ⟨hmem, by simp⟩
  rw [filter_name name h] at hfilter
  simpa using hfilter

theorem only?_single (name : String) (h : t.names.Nodup) : only? [name] t = some (get? name t) := by
  have hfilter {keep : String × α → Bool} (hkeep : ∀ entry, keep entry = decide (entry.1 = name)) :
      t.filter keep = ((get? name t).map fun a => (name, a)).toList := by
    rw [← filter_name name h]
    exact List.filter_congr fun entry _ => hkeep entry
  rw [only?, hfilter fun entry => by simp]
  cases get? name t <;> rfl

theorem get?_eq_head? (name : String) (t : Table α) :
    get? name t = ((t.filter fun (k, _) => k ∈ [name]).head?).map (·.2) := by
  induction t with
  | nil => rfl
  | cons entry t ih =>
    obtain ⟨k, a⟩ := entry
    rw [get?_cons]
    by_cases hk : k = name
    · rw [if_pos hk, List.filter_cons_of_pos (by simp [hk])]
      rfl
    · rw [if_neg hk, ih, List.filter_cons_of_neg (by simp [hk])]

theorem eq_get?_of_only? {found : Option α} (h : only? [name] t = some found) : found = get? name t := by
  rw [get?_eq_head?]
  unfold only? at h
  split at h
  · rename_i heq
    cases h
    rw [heq]
    rfl
  · rename_i heq
    cases h
    rw [heq]
    rfl
  · cases h

/-- An entry is found when its other name is not there. -/
theorem only?_pair (name : String) (h : t.names.Nodup) (hother : get? other t = none) :
    only? [name, other] t = some (get? name t) := by
  rw [← only?_single name h]
  have hfilter : (t.filter fun (k, _) => k ∈ [name, other]) = t.filter fun (k, _) => k ∈ [name] := by
    refine List.filter_congr fun entry hentry => ?_
    have hne : entry.1 ≠ other := by
      rintro rfl
      exact get?_eq_none_iff.1 hother (List.mem_map_of_mem hentry)
    simp [hne]
  rw [only?, only?, hfilter]

end Table
end StepFlow
