import StepFlow.Proofs.Path.Canonical

/-!
# Locations

A location is a list of positions, and `Document.at?` is what stands there. Locations are in document order
(`Position.Precedes`): a container comes before its contents, items by their index, members by their name.

`Node.Lists` says what a list of nodes runs through, and in which order. The children of a node are listed in
the order of their positions (`Node.lists_children`), the node and all its descendants in document order
(`Node.lists_descendants`), and of lists inside a list the order is that of the pairs (`Node.Lists.flatMap`).
-/

namespace StepFlow

variable {d c : Document} {n : Node} {nodes : List Node}

namespace Document

/-- The item or member at a position. -/
def childAt? : Document → Position → Option Document
  | arr items, .element i => items[i]?
  | obj fields, .member s => Table.get? s fields
  | _, _ => none

/-- The value at a location. -/
def at? (d : Document) : List Position → Option Document
  | [] => some d
  | p :: location => (d.childAt? p).bind (at? · location)

theorem at?_append (d : Document) (l m : List Position) : d.at? (l ++ m) = (d.at? l).bind (at? · m) := by
  induction l generalizing d with
  | nil => rfl
  | cons p l ih =>
    rw [List.cons_append, at?, at?]
    cases d.childAt? p with
    | none => rfl
    | some child => exact ih child

theorem at?_concat_eq_some_iff {l : List Position} {p : Position} :
    d.at? (l ++ [p]) = some c ↔ ∃ a, d.at? l = some a ∧ a.childAt? p = some c := by
  rw [at?_append, Option.bind_eq_some_iff]
  simp only [at?, Option.bind_fun_some]

theorem sizeOf_childAt? {p : Position} (h : d.childAt? p = some c) : sizeOf c < sizeOf d := by
  unfold childAt? at h
  split at h
  · have := List.sizeOf_lt_of_mem (List.mem_of_getElem? h)
    simp only [arr.sizeOf_spec]
    omega
  · have := List.sizeOf_lt_of_mem (Table.mem_of_get? h)
    simp only [obj.sizeOf_spec, Prod.mk.sizeOf_spec] at this ⊢
    omega
  · cases h

theorem Canonical.childAt? {p : Position} (hd : d.Canonical) (h : d.childAt? p = some c) : c.Canonical := by
  unfold Document.childAt? at h
  split at h
  · exact canonical_arr_iff.1 hd _ (List.mem_of_getElem? h)
  · exact hd.get? h
  · cases h

theorem Canonical.at? {location : List Position} (hd : d.Canonical) (h : d.at? location = some c) :
    c.Canonical := by
  induction location generalizing d with
  | nil => exact Option.some.inj h ▸ hd
  | cons p location ih =>
    obtain ⟨child, hchild, hc⟩ := Option.bind_eq_some_iff.1 h
    exact ih (hd.childAt? hchild) hc

end Document

/-! ### Document order -/

namespace Position

/-- The order of the children of a container: items by index, members by name. -/
def Before : Position → Position → Prop
  | element i, element j => i < j
  | member s, member t => s < t
  | _, _ => False

theorem not_before_self (p : Position) : ¬ p.Before p := by
  cases p with
  | member s => exact String.lt_irrefl s
  | element i => exact Nat.lt_irrefl i

/-- Document order: a container comes before its contents, and these are in the order of the first positions
that differ. -/
def Precedes : List Position → List Position → Prop := List.Lex Before

theorem not_precedes_self (l : List Position) : ¬ Precedes l l := List.lex_irrefl not_before_self l

end Position

/-! ### Lists of nodes -/

namespace Node

section
variable {ι κ μ : Type} {path : ι → List Position} {R : ι → ι → Prop} {S : ι → Document → Prop}

/-- The nodes lie below `n`, one for each index and value of which `S` holds, in the order `R` of the indices;
`path` tells where below `n` an index lies. -/
def Lists (n : Node) (path : ι → List Position) (R : ι → ι → Prop) (S : ι → Document → Prop)
    (nodes : List Node) : Prop :=
  ∃ entries : List (ι × Document), nodes = entries.map (fun e => ⟨n.location ++ path e.1, e.2⟩) ∧
    entries.Pairwise (fun a b => R a.1 b.1) ∧ ∀ i c, (i, c) ∈ entries ↔ S i c

namespace Lists

theorem nil (h : ∀ i c, ¬ S i c) : n.Lists path R S [] :=
  ⟨[], rfl, .nil, fun i c => iff_of_false List.not_mem_nil (h i c)⟩

theorem singleton {i : ι} (h : ∀ j c, S j c ↔ j = i ∧ c = d) :
    n.Lists path R S [⟨n.location ++ path i, d⟩] :=
  ⟨[(i, d)], rfl, List.pairwise_singleton .., fun j c => by rw [List.mem_singleton, h, Prod.mk.injEq]⟩

/-- The node by itself. -/
theorem self {i : ι} (hi : path i = []) (h : ∀ j c, S j c ↔ j = i ∧ c = n.value) : n.Lists path R S [n] := by
  have hn : n = ⟨n.location ++ path i, n.value⟩ := by rw [hi, List.append_nil]
  have hone : n.Lists path R S [⟨n.location ++ path i, n.value⟩] := singleton h
  rwa [← hn] at hone

theorem append {T U : ι → Document → Prop} {nodes' : List Node} (h : n.Lists path R S nodes)
    (h' : n.Lists path R T nodes') (hR : ∀ i j a b, S i a → T j b → R i j)
    (hU : ∀ i c, U i c ↔ S i c ∨ T i c) : n.Lists path R U (nodes ++ nodes') := by
  obtain ⟨entries, rfl, hpairwise, hmem⟩ := h
  obtain ⟨entries', rfl, hpairwise', hmem'⟩ := h'
  refine ⟨entries ++ entries', List.map_append.symm, List.pairwise_append.2 ⟨hpairwise, hpairwise', ?_⟩, ?_⟩
  · intro a ha b hb
    exact hR a.1 b.1 a.2 b.2 ((hmem ..).1 ha) ((hmem' ..).1 hb)
  · intro i c
    rw [List.mem_append, hmem, hmem', hU]

theorem cons {T : ι → Document → Prop} {i : ι} (h : n.Lists path R S nodes) (hR : ∀ j c, S j c → R i j)
    (hT : ∀ j c, T j c ↔ (j = i ∧ c = d) ∨ S j c) : n.Lists path R T (⟨n.location ++ path i, d⟩ :: nodes) := by
  have hhead : n.Lists path R (fun j c => j = i ∧ c = d) [⟨n.location ++ path i, d⟩] := singleton fun _ _ => Iff.rfl
  refine hhead.append h ?_ hT
  rintro _ j _ b ⟨rfl, -⟩ hb
  exact hR j b hb

theorem imp {R' : ι → ι → Prop} {T : ι → Document → Prop} (h : n.Lists path R S nodes)
    (hR : ∀ i j, R i j → R' i j) (hT : ∀ i c, S i c ↔ T i c) : n.Lists path R' T nodes := by
  obtain ⟨entries, rfl, hpairwise, hmem⟩ := h
  exact ⟨entries, rfl, hpairwise.imp (hR _ _), fun i c => (hmem i c).trans (hT i c)⟩

theorem filter (h : n.Lists path R S nodes) (keep : Document → Bool) :
    n.Lists path R (fun i c => S i c ∧ keep c = true) (nodes.filter fun m => keep m.value) := by
  obtain ⟨entries, rfl, hpairwise, hmem⟩ := h
  refine ⟨entries.filter fun e => keep e.2, ?_, hpairwise.filter _, fun i c => ?_⟩
  · rw [List.filter_map]
    rfl
  · rw [List.mem_filter, hmem]

/-- A list below a node further down, seen from above. -/
theorem of_below {l : List Position} {a : Document} {path₂ : κ → List Position} {R₂ : κ → κ → Prop}
    {T : κ → Document → Prop} {path₃ : μ → List Position} {R₃ : μ → μ → Prop} (f : κ → μ)
    (hpath : ∀ k, path₃ (f k) = l ++ path₂ k) (hR : ∀ k k', R₂ k k' → R₃ (f k) (f k'))
    (h : Lists ⟨n.location ++ l, a⟩ path₂ R₂ T nodes) :
    n.Lists path₃ R₃ (fun m c => ∃ k, m = f k ∧ T k c) nodes := by
  obtain ⟨entries, rfl, hpairwise, hmem⟩ := h
  refine ⟨entries.map fun e => (f e.1, e.2), ?_, ?_, fun m c => ?_⟩
  · rw [List.map_map]
    exact List.map_congr_left fun e _ => by simp [hpath]
  · rw [List.pairwise_map]
    exact hpairwise.imp (hR _ _)
  · rw [List.mem_map]
    constructor
    · rintro ⟨e, he, heq⟩
      cases heq
      exact ⟨e.1, rfl, (hmem ..).1 he⟩
    · rintro ⟨k, rfl, hk⟩
      exact ⟨(k, c), (hmem ..).2 hk, rfl⟩

/-- The lists below the listed nodes, one after the other: the outer index decides, then the inner one. -/
theorem flatMap {g : Node → List Node} {path₂ : κ → List Position} {R₂ : κ → κ → Prop}
    {T : Document → κ → Document → Prop} {path₃ : μ → List Position} {R₃ : μ → μ → Prop}
    {U : μ → Document → Prop} (join : ι → κ → μ) (hpath : ∀ i k, path₃ (join i k) = path i ++ path₂ k)
    (hR : ∀ i j k l, R i j → R₃ (join i k) (join j l)) (hR₂ : ∀ i k l, R₂ k l → R₃ (join i k) (join i l))
    (h : n.Lists path R S nodes)
    (hg : ∀ i a, S i a → Lists ⟨n.location ++ path i, a⟩ path₂ R₂ (T a) (g ⟨n.location ++ path i, a⟩))
    (hU : ∀ m c, U m c ↔ ∃ i k a, m = join i k ∧ S i a ∧ T a k c) : n.Lists path₃ R₃ U (nodes.flatMap g) := by
  obtain ⟨entries, rfl, hpairwise, hmem⟩ := h
  have hbelow : ∀ e ∈ entries, n.Lists path₃ R₃ (fun m c => ∃ k, m = join e.1 k ∧ T e.2 k c)
      (g ⟨n.location ++ path e.1, e.2⟩) :=
    fun e he => (hg e.1 e.2 ((hmem ..).1 he)).of_below (join e.1) (hpath e.1) (hR₂ e.1)
  have hentries : n.Lists path₃ R₃ (fun m c => ∃ e ∈ entries, ∃ k, m = join e.1 k ∧ T e.2 k c)
      ((entries.map fun e => ⟨n.location ++ path e.1, e.2⟩).flatMap g) := by
    -- What `S` holds of plays no part any more: the induction is on the entries alone.
    clear hmem hg hU
    induction entries with
    | nil => exact .nil (by simp)
    | cons e entries ih =>
      obtain ⟨he, hpairwise⟩ := List.pairwise_cons.1 hpairwise
      obtain ⟨hhead, htail⟩ := List.forall_mem_cons.1 hbelow
      refine hhead.append (ih hpairwise htail) ?_ fun m c => ?_
      · rintro _ _ a b ⟨k, rfl, -⟩ ⟨e', he', l, rfl, -⟩
        exact hR _ _ _ _ (he e' he')
      · simp only [List.mem_cons, exists_eq_or_imp]
  refine hentries.imp (fun _ _ => id) fun m c => ?_
  rw [hU]
  constructor
  · rintro ⟨e, he, k, rfl, hk⟩
    exact ⟨e.1, k, e.2, rfl, (hmem ..).1 he, hk⟩
  · rintro ⟨i, k, a, rfl, hi, hk⟩
    exact ⟨(i, a), (hmem ..).2 hi, k, rfl, hk⟩

end Lists
end

/-! ### Children and descendants -/

theorem lists_elements (n : Node) (i : Nat) (items : List Document) :
    n.Lists ([·]) Position.Before (fun p c => ∃ j, p = .element (i + j) ∧ items[j]? = some c)
      (n.elements i items) := by
  induction items generalizing i with
  | nil => exact .nil fun p c ⟨j, _, hj⟩ => by cases hj
  | cons d items ih =>
    refine (ih (i + 1)).cons ?_ fun p c => ?_
    · rintro _ c ⟨j, rfl, -⟩
      exact (by omega : i < i + 1 + j)
    · constructor
      · rintro ⟨j, rfl, hj⟩
        cases j with
        | zero => exact .inl ⟨rfl, (Option.some.inj hj).symm⟩
        | succ j => exact .inr ⟨j, by rw [Nat.add_right_comm, Nat.add_assoc], hj⟩
      · rintro (⟨rfl, rfl⟩ | ⟨j, rfl, hj⟩)
        · exact ⟨0, rfl, rfl⟩
        · exact ⟨j + 1, by rw [Nat.add_right_comm, Nat.add_assoc], hj⟩

theorem lists_members (n : Node) {fields : Fields} (h : Table.Sorted fields) :
    n.Lists ([·]) Position.Before (fun p c => ∃ s, p = .member s ∧ Table.get? s fields = some c)
      (n.members fields) := by
  induction fields with
  | nil => exact .nil fun p c ⟨s, _, hs⟩ => by cases hs
  | cons entry fields ih =>
    obtain ⟨k, d⟩ := entry
    obtain ⟨hk, hfields⟩ := List.pairwise_cons.1 h
    refine (ih hfields).cons ?_ fun p c => ?_
    · rintro _ c ⟨s, rfl, hs⟩
      exact hk s (List.mem_map_of_mem (Table.mem_of_get? hs))
    · simp only [Table.get?_cons]
      constructor
      · rintro ⟨s, rfl, hs⟩
        split at hs
        · rename_i heq
          exact .inl ⟨heq ▸ rfl, (Option.some.inj hs).symm⟩
        · exact .inr ⟨s, rfl, hs⟩
      · rintro (⟨rfl, rfl⟩ | ⟨s, rfl, hs⟩)
        · exact ⟨k, rfl, if_pos rfl⟩
        · have hlt := hk s (List.mem_map_of_mem (Table.mem_of_get? hs))
          exact ⟨s, rfl, by rw [if_neg fun heq => String.lt_irrefl _ (heq ▸ hlt), hs]⟩

theorem lists_children (h : n.value.Canonical) :
    n.Lists ([·]) Position.Before (fun p c => n.value.childAt? p = some c) n.children := by
  unfold children
  split
  · rename_i items heq
    refine (n.lists_elements 0 items).imp (fun _ _ => id) fun p c => ?_
    rw [heq]
    cases p <;> simp [Document.childAt?]
  · rename_i fields heq
    rw [heq] at h
    refine (n.lists_members h.1).imp (fun _ _ => id) fun p c => ?_
    rw [heq]
    cases p <;> simp [Document.childAt?]
  · rename_i harr hobj
    refine .nil fun p c hp => ?_
    unfold Document.childAt? at hp
    split at hp
    · exact harr _ ‹_›
    · exact hobj _ ‹_›
    · cases hp

theorem subtreeItems_eq (n : Node) (i : Nat) (items : List Document) :
    subtreeItems n.location i items = (n.elements i items).flatMap descendants := by
  induction items generalizing i with
  | nil => rfl
  | cons d items ih => rw [subtreeItems, elements, List.flatMap_cons, ih]; rfl

theorem subtreeFields_eq (n : Node) (fields : Fields) :
    subtreeFields n.location fields = (n.members fields).flatMap descendants := by
  induction fields with
  | nil => rfl
  | cons entry fields ih => rw [subtreeFields, members, List.flatMap_cons, ih]; rfl

theorem descendants_eq (n : Node) : n.descendants = n :: n.children.flatMap descendants := by
  obtain ⟨location, d⟩ := n
  cases d with
  | arr items => exact congrArg _ (subtreeItems_eq ⟨location, .arr items⟩ 0 items)
  | obj fields => exact congrArg _ (subtreeFields_eq ⟨location, .obj fields⟩ fields)
  | _ => rfl

/-- The node and all its descendants are listed in document order. -/
theorem lists_descendants {n : Node} (h : n.value.Canonical) :
    n.Lists id Position.Precedes (fun location c => n.value.at? location = some c) n.descendants := by
  -- Below the node itself the position of the child decides, then the location below the child.
  have hbelow : n.Lists id Position.Precedes
      (fun location c => ∃ p rest a, location = p :: rest ∧ n.value.childAt? p = some a ∧ a.at? rest = some c)
      (n.children.flatMap descendants) := by
    refine .flatMap List.cons (fun _ _ => rfl) (fun _ _ _ _ => .rel) (fun _ _ _ => .cons) (lists_children h)
      (fun p a ha => ?_) fun _ _ => Iff.rfl
    exact lists_descendants (n := ⟨n.location ++ [p], a⟩) (h.childAt? ha)
  rw [descendants_eq]
  refine Lists.append (Lists.self (i := []) rfl fun _ _ => Iff.rfl) hbelow ?_ fun location c => ?_
  · rintro _ _ _ _ ⟨rfl, -⟩ ⟨p, rest, -, rfl, -⟩
    exact .nil
  · cases location with
    | nil => simp [Document.at?, eq_comm]
    | cons p rest =>
      rw [Document.at?, Option.bind_eq_some_iff]
      constructor
      · rintro ⟨a, ha, hc⟩
        exact .inr ⟨p, rest, a, rfl, ha, hc⟩
      · rintro (⟨⟨⟩, -⟩ | ⟨_, _, a, ⟨⟩, ha, hc⟩)
        exact ⟨a, ha, hc⟩
termination_by sizeOf n.value
decreasing_by exact Document.sizeOf_childAt? ha

end Node
end StepFlow
