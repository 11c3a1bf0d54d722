import StepFlow.Path.Reference
import StepFlow.Path.Template
import StepFlow.Proofs.Document.Canonical
import StepFlow.Proofs.Except

/-!
# Paths and canonical documents

Whatever a path reads in canonical documents is canonical (`Path.canonical_value`), so is what a template
renders (`Template.canonical_of_ofDocument`) and what is written into a canonical document
(`ReferencePath.canonical_set`).
-/

namespace StepFlow

variable {context input d : Document}

/-! ### Nodes -/

namespace Node

variable {n m : Node}

theorem mem_elements {i : Nat} {items : List Document} (h : m ∈ n.elements i items) : m.value ∈ items := by
  induction items generalizing i with
  | nil => cases h
  | cons d items ih =>
    rcases List.mem_cons.1 h with rfl | h
    · exact List.mem_cons_self ..
    · exact List.mem_cons_of_mem _ (ih h)

theorem mem_members {fields : Fields} (h : m ∈ n.members fields) : ∃ entry ∈ fields, m.value = entry.2 := by
  induction fields with
  | nil => cases h
  | cons entry fields ih =>
    rcases List.mem_cons.1 h with rfl | h
    · exact ⟨entry, List.mem_cons_self .., rfl⟩
    · obtain ⟨entry', hentry', heq⟩ := ih h
      exact ⟨entry', List.mem_cons_of_mem _ hentry', heq⟩

theorem canonical_children (hn : n.value.Canonical) (h : m ∈ n.children) : m.value.Canonical := by
  unfold children at h
  split at h
  · rename_i items heq
    rw [heq] at hn
    exact Document.canonical_arr_iff.1 hn _ (mem_elements h)
  · rename_i fields heq
    rw [heq] at hn
    obtain ⟨entry, hentry, hvalue⟩ := mem_members h
    rw [hvalue]
    exact (Document.canonical_obj_iff.1 hn).2 entry hentry
  · cases h

mutual

theorem canonical_subtree {m : Node} {d : Document} {location : List Position} (hd : d.Canonical)
    (h : m ∈ subtree location d) : m.value.Canonical := by
  cases d with
  | arr items =>
    rcases List.mem_cons.1 h with rfl | h
    · exact hd
    · exact canonical_subtreeItems hd h
  | obj fields =>
    rcases List.mem_cons.1 h with rfl | h
    · exact hd
    · exact canonical_subtreeFields hd.2 h
  | null | bool | num | str =>
    cases List.mem_singleton.1 h
    exact hd

theorem canonical_subtreeItems {m : Node} {items : List Document} {location : List Position} {i : Nat}
    (hd : Document.CanonicalItems items) (h : m ∈ subtreeItems location i items) : m.value.Canonical := by
  cases items with
  | nil => cases h
  | cons d items =>
    rcases List.mem_append.1 h with h | h
    · exact canonical_subtree hd.1 h
    · exact canonical_subtreeItems hd.2 h

theorem canonical_subtreeFields {m : Node} {fields : Fields} {location : List Position}
    (hd : Document.CanonicalFields fields) (h : m ∈ subtreeFields location fields) : m.value.Canonical := by
  cases fields with
  | nil => cases h
  | cons entry fields =>
    rcases List.mem_append.1 h with h | h
    · exact canonical_subtree hd.1 h
    · exact canonical_subtreeFields hd.2 h

end

theorem canonical_pick {places : List Nat} (hn : n.value.Canonical) (h : m ∈ n.pick places) :
    m.value.Canonical := by
  unfold pick at h
  split at h
  · rename_i items heq
    rw [heq] at hn
    obtain ⟨i, -, hi⟩ := List.mem_filterMap.1 h
    obtain ⟨d, hd, rfl⟩ := Option.map_eq_some_iff.1 hi
    exact Document.canonical_arr_iff.1 hn _ (List.mem_of_getElem? hd)
  · cases h

end Node

theorem Document.Canonical.get? {fields : Fields} {name : String} (h : (Document.obj fields).Canonical)
    (hd : fields.get? name = some d) : d.Canonical :=
  (canonical_obj_iff.1 h).2 _ (Table.mem_of_get? hd)

/-! ### Queries -/

variable {n m : Node}

theorem Key.canonical_select {k : Key} (hn : n.value.Canonical) (h : m ∈ k.select n) : m.value.Canonical := by
  unfold Key.select at h
  split at h
  · rename_i fields heq
    rw [heq] at hn
    split at h
    · rename_i d hd
      cases List.mem_singleton.1 h
      exact hn.get? hd
    · cases h
  · rename_i items heq
    rw [heq] at hn
    split at h
    · split at h
      · rename_i d hd
        cases List.mem_singleton.1 h
        exact Document.canonical_arr_iff.1 hn _ (List.mem_of_getElem? hd)
      · cases h
    · cases h
  · cases h

theorem Selector.canonical_select {root : Document} {s : Selector} (hn : n.value.Canonical)
    (h : m ∈ s.select root n) : m.value.Canonical := by
  cases s with
  | key k => exact Key.canonical_select hn h
  | wildcard => exact Node.canonical_children hn h
  | union keys =>
    obtain ⟨k, -, hk⟩ := List.mem_flatMap.1 h
    exact Key.canonical_select hn hk
  | slice first stop step =>
    unfold Selector.select at h
    split at h
    · exact Node.canonical_pick hn h
    · cases h
  | filter condition => exact Node.canonical_children hn (List.mem_filter.1 h).1

theorem Segment.canonical_select {root : Document} {s : Segment} (hn : n.value.Canonical)
    (h : m ∈ s.select root n) : m.value.Canonical := by
  cases s with
  | child s => exact Selector.canonical_select hn h
  | descendants s =>
    obtain ⟨n', hn', hm⟩ := List.mem_flatMap.1 h
    exact Selector.canonical_select (Node.canonical_subtree hn hn') hm

theorem Query.canonical_run {root : Document} {query : Query} {nodes : List Node}
    (hnodes : ∀ n ∈ nodes, n.value.Canonical) (h : m ∈ Query.run root query nodes) : m.value.Canonical := by
  induction query generalizing nodes with
  | nil => exact hnodes m h
  | cons s query ih =>
    refine ih (fun n hn => ?_) h
    obtain ⟨n', hn', hn⟩ := List.mem_flatMap.1 hn
    exact Segment.canonical_select (hnodes n' hn') hn

namespace Path

theorem canonical_collect {ds : List Document} (hds : ∀ d ∈ ds, d.Canonical) (h : collect ds = some d) :
    d.Canonical := by
  match ds with
  | [] => cases h
  | [d'] =>
    cases h
    exact hds _ (List.mem_cons_self ..)
  | _ :: _ :: _ =>
    cases h
    exact Document.canonical_arr_iff.2 hds

theorem canonical_value {p : Path} (hcontext : context.Canonical) (hinput : input.Canonical)
    (h : p.value context input = some d) : d.Canonical := by
  refine canonical_collect (fun d hd => ?_) h
  obtain ⟨n, hn, rfl⟩ := List.mem_map.1 hd
  refine Query.canonical_run (fun n hn => ?_) hn
  cases List.mem_singleton.1 hn
  show (if p.ofContext then context else input).Canonical
  split
  · exact hcontext
  · exact hinput

theorem canonical_getD_value (p : Path) (hcontext : context.Canonical) (hinput : input.Canonical) :
    ((p.value context input).getD .null).Canonical := by
  cases h : p.value context input with
  | none => trivial
  | some d => exact canonical_value hcontext hinput h

end Path

/-! ### Templates -/

namespace Template

/-- Against canonical documents the template renders a canonical one. -/
def Canonical (t : Template) : Prop :=
  ∀ context input : Document, context.Canonical → input.Canonical → (t.render context input).Canonical

theorem renderItems_eq (context input : Document) (items : List Template) :
    renderItems context input items = items.map (render context input) := by
  induction items with
  | nil => rfl
  | cons t items ih => rw [renderItems, ih, List.map_cons]

theorem renderFields_eq (context input : Document) (fields : List (String × Template)) :
    renderFields context input fields = fields.map fun (k, t) => (k, t.render context input) := by
  induction fields with
  | nil => rfl
  | cons field fields ih => rw [renderFields, ih, List.map_cons]

theorem canonical_path (p : Path) : (path p).Canonical := fun _ _ => p.canonical_getD_value

theorem canonical_list {items : List Template} (h : ∀ t ∈ items, t.Canonical) : (list items).Canonical := by
  intro context input hcontext hinput
  rw [render, renderItems_eq, Document.canonical_arr_iff]
  exact List.forall_mem_map.2 fun t ht => h t ht context input hcontext hinput

theorem canonical_record {fields : List (String × Template)} (h : ∀ field ∈ fields, field.2.Canonical) :
    (record fields).Canonical := by
  intro context input hcontext hinput
  rw [render, renderFields_eq]
  refine Document.canonical_ofList (List.forall_mem_map.2 fun field hfield => ?_)
  exact h field hfield context input hcontext hinput

mutual

/-- In a template that has been read only paths and scalars are left as they are. -/
theorem canonical_of_ofDocument {d : Document} {t : Template} (h : ofDocument d = .ok t) : t.Canonical := by
  cases d with
  | str s =>
    unfold ofDocument at h
    split at h
    · obtain ⟨p, -, rfl⟩ := Except.map_eq_ok h
      exact canonical_path p
    · cases h
      exact fun _ _ _ _ => trivial
  | arr items =>
    obtain ⟨ts, hts, rfl⟩ := Except.map_eq_ok h
    exact canonical_list (canonical_of_ofItems hts)
  | obj fields =>
    obtain ⟨ts, hts, rfl⟩ := Except.map_eq_ok h
    exact canonical_record (canonical_of_ofFields hts)
  | null | bool | num =>
    cases h
    exact fun _ _ _ _ => trivial

theorem canonical_of_ofItems {items : List Document} {ts : List Template} (h : ofItems items = .ok ts) :
    ∀ t ∈ ts, t.Canonical := by
  cases items with
  | nil =>
    cases h
    nofun
  | cons d items =>
    obtain ⟨t, ht, h⟩ := Except.bind_eq_ok h
    obtain ⟨ts', hts', h⟩ := Except.bind_eq_ok h
    cases h
    exact List.forall_mem_cons.2 ⟨canonical_of_ofDocument ht, canonical_of_ofItems hts'⟩

theorem canonical_of_ofFields {fields : Fields} {ts : List (String × Template)} (h : ofFields fields = .ok ts) :
    ∀ field ∈ ts, field.2.Canonical := by
  cases fields with
  | nil =>
    cases h
    nofun
  | cons entry fields =>
    obtain ⟨key, d⟩ := entry
    unfold ofFields at h
    dsimp only at h
    split at h
    · obtain ⟨_, hfield, h⟩ := Except.bind_eq_ok h
      obtain ⟨p, -, rfl⟩ := Except.map_eq_ok hfield
      obtain ⟨ts', hts', h⟩ := Except.bind_eq_ok h
      cases h
      exact List.forall_mem_cons.2 ⟨canonical_path p, canonical_of_ofFields hts'⟩
    · cases h
    · obtain ⟨_, hfield, h⟩ := Except.bind_eq_ok h
      obtain ⟨t, ht, rfl⟩ := Except.map_eq_ok hfield
      obtain ⟨ts', hts', h⟩ := Except.bind_eq_ok h
      cases h
      exact List.forall_mem_cons.2 ⟨canonical_of_ofDocument ht, canonical_of_ofFields hts'⟩

end

end Template

/-! ### Writing -/

namespace Document

theorem canonical_entered {k : Key} (h : d.Canonical) : (d.entered k).Canonical := by
  unfold entered
  split
  · cases k with
    | name => exact canonical_obj_iff.2 ⟨.nil, nofun⟩
    | index => trivial
  · exact h

theorem canonical_insert {fields : Fields} {name : String} (h : (obj fields).Canonical) (hd : d.Canonical) :
    (obj (Table.insert name d fields)).Canonical := by
  obtain ⟨hsorted, hfields⟩ := canonical_obj_iff.1 h
  refine canonical_obj_iff.2 ⟨Table.sorted_insert _ _ hsorted, fun entry hentry => ?_⟩
  rcases Table.mem_of_mem_insert hentry with rfl | hentry
  · exact hd
  · exact hfields entry hentry

theorem canonical_merge {base update : Fields} (hbase : (obj base).Canonical) (hupdate : (obj update).Canonical) :
    (obj (Table.merge base update)).Canonical := by
  obtain ⟨hsorted, hfields⟩ := canonical_obj_iff.1 hbase
  refine canonical_obj_iff.2 ⟨Table.sorted_merge hsorted _, fun entry hentry => ?_⟩
  rcases Table.mem_of_mem_merge hentry with hentry | hentry
  · exact hfields entry hentry
  · exact (canonical_obj_iff.1 hupdate).2 entry hentry

theorem canonical_place {items : List Document} {j : Nat} (h : (arr items).Canonical) (hd : d.Canonical) :
    (arr (if j < items.length then items.set j d else items ++ [d])).Canonical := by
  have hitems := canonical_arr_iff.1 h
  refine canonical_arr_iff.2 fun d' hd' => ?_
  split at hd'
  · rcases List.mem_or_eq_of_mem_set hd' with hd' | rfl
    · exact hitems d' hd'
    · exact hd
  · rcases List.mem_append.1 hd' with hd' | hd'
    · exact hitems d' hd'
    · exact List.mem_singleton.1 hd' ▸ hd

theorem canonical_write {keys : List Key} {value out : Document} (hd : d.Canonical) (hvalue : value.Canonical)
    (h : d.write keys value = .ok out) : out.Canonical := by
  induction keys generalizing d out with
  | nil =>
    cases h
    exact hvalue
  | cons k keys ih =>
    have hentered := canonical_entered (k := k) hd
    unfold write at h
    split at h
    · rename_i fields name heq
      rw [heq] at hentered
      obtain ⟨child, hchild, h⟩ := Except.bind_eq_ok h
      cases h
      refine canonical_insert hentered (ih ?_ hchild)
      cases hget : Table.get? name fields with
      | none => trivial
      | some d' => exact hentered.get? hget
    · rename_i items i heq
      rw [heq] at hentered
      split at h
      · cases h
      · rename_i j _
        obtain ⟨child, hchild, h⟩ := Except.bind_eq_ok h
        cases h
        refine canonical_place hentered (ih ?_ hchild)
        cases hget : items[j]? with
        | none => trivial
        | some d' => exact canonical_arr_iff.1 hentered _ (List.mem_of_getElem? hget)
    · cases h
    · cases h

end Document

theorem ReferencePath.canonical_set {p : ReferencePath} {value out : Document} (hd : d.Canonical)
    (hvalue : value.Canonical) (h : p.set d value = .ok out) : out.Canonical := by
  unfold set at h
  split at h
  · cases h
    exact Document.canonical_merge hd hvalue
  · cases h
    exact hvalue
  · exact Document.canonical_write hd hvalue (Except.mapError_eq_ok h)

end StepFlow
