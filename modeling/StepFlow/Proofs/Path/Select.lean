import StepFlow.Proofs.Path.Location
import StepFlow.Proofs.Path.Slice
import StepFlow.Proofs.Path.Slot

/-!
# What a query selects

A query leads from a document to what it selects by one leg for each segment: `Query.Leads` says so without
running it. What a segment selects is listed by the legs, first in the order of the containers they lead to, and
what a query selects by the lists of legs (`Query.lists_run`).

With at most one recursive descent a location has only one such list of legs (`Query.Leads.unique`), so that the
nodes that a query selects are those at the locations that match it, each once (`Query.select_once`).
-/

namespace StepFlow

variable {d c root : Document} {n : Node} {r : Position → Position → Prop}

/-- The number of items of an array. -/
def Document.length : Document → Nat
  | .arr items => items.length
  | _ => 0

/-! ### Selectors -/

/-- Does the key name that position in the document? -/
def Key.Names (d : Document) : Key → Position → Prop
  | .name s, p => p = .member s
  | .index i, p => ∃ j, p = .element j ∧ (j : Int) = if i < 0 then d.length + i else i

/-- Does the selector select, of the document, the child `c` at that position? -/
def Selector.Selects (root d : Document) (s : Selector) (p : Position) (c : Document) : Prop :=
  d.childAt? p = some c ∧
    match s with
    | .key k => k.Names d p
    | .wildcard => True
    | .union keys => ∃ k ∈ keys, k.Names d p
    | .slice first stop step => ∃ j ∈ Slice.indices d.length first stop step, p = .element j
    | .filter condition => condition.holdsAt root c = true

def Selector.isUnion : Selector → Bool
  | .union _ => true
  | _ => false

def Selector.isSlice : Selector → Bool
  | .slice .. => true
  | _ => false

/-- The child at a position, if it is there. -/
theorem Node.lists_child (n : Node) (p : Position) :
    n.Lists ([·]) r (fun q c => n.value.childAt? q = some c ∧ q = p)
      ((n.value.childAt? p).map (n.child p)).toList := by
  cases hchild : n.value.childAt? p with
  | none =>
    refine .nil ?_
    rintro _ c ⟨hc, rfl⟩
    rw [hchild] at hc
    cases hc
  | some child =>
    refine .singleton (i := p) fun q c => ?_
    constructor
    · rintro ⟨hc, rfl⟩
      exact ⟨rfl, Option.some.inj (hc.symm.trans hchild)⟩
    · rintro ⟨rfl, rfl⟩
      exact ⟨hchild, rfl⟩

theorem Key.select_name (s : String) (n : Node) :
    (name s).select n = ((n.value.childAt? (.member s)).map (n.child (.member s))).toList := by
  obtain ⟨location, d⟩ := n
  cases d with
  | obj fields => cases h : Table.get? s fields <;> simp [select, Document.childAt?, h]
  | _ => rfl

theorem Key.select_index (i : Int) (n : Node) :
    (index i).select n = match resolveIndex n.value.length i with
      | some j => ((n.value.childAt? (.element j)).map (n.child (.element j))).toList
      | none => [] := by
  obtain ⟨location, d⟩ := n
  cases d with
  | arr items =>
    cases h : resolveIndex items.length i with
    | none => simp [select, Document.length, h]
    | some j => cases hj : items[j]? <;> simp [select, Document.length, Document.childAt?, h, hj]
  | _ => cases h : resolveIndex 0 i <;> simp [select, Document.length, Document.childAt?, h]

theorem Document.lt_length {j : Nat} (h : d.childAt? (.element j) = some c) : j < d.length := by
  cases d with
  | arr items => exact (List.getElem?_eq_some_iff.1 h).1
  | _ => cases h

theorem Key.lists_select (k : Key) (n : Node) :
    n.Lists ([·]) r (fun p c => n.value.childAt? p = some c ∧ k.Names n.value p) (k.select n) := by
  cases k with
  | name s =>
    rw [select_name]
    exact n.lists_child (.member s)
  | index i =>
    rw [select_index]
    split
    · rename_i j hj
      obtain ⟨-, hj⟩ := Document.resolveIndex_eq_some_iff.1 hj
      refine (n.lists_child (.element j)).imp (fun _ _ => id) fun p c => and_congr_right fun _ => ?_
      constructor
      · rintro rfl
        exact ⟨j, rfl, hj⟩
      · rintro ⟨j', rfl, hj'⟩
        exact congrArg Position.element (Int.ofNat.inj (hj'.trans hj.symm))
    · rename_i hj
      refine .nil ?_
      rintro _ c ⟨hc, j, rfl, hj'⟩
      rw [Document.resolveIndex_eq_some_iff.2 ⟨Document.lt_length hc, hj'⟩] at hj
      cases hj

theorem Node.pick_cons (n : Node) (j : Nat) (places : List Nat) :
    n.pick (j :: places) = ((n.value.childAt? (.element j)).map (n.child (.element j))).toList ++ n.pick places := by
  obtain ⟨location, d⟩ := n
  cases d with
  | arr items => cases h : items[j]? <;> simp [pick, Document.childAt?, h]
  | _ => rfl

theorem Node.lists_pick (n : Node) {places : List Nat} (h : places.Nodup) :
    n.Lists ([·]) (· ≠ ·) (fun p c => n.value.childAt? p = some c ∧ ∃ j ∈ places, p = .element j)
      (n.pick places) := by
  induction places with
  | nil =>
    have hpick : n.pick [] = [] := by
      unfold pick
      split <;> rfl
    rw [hpick]
    exact .nil (by simp)
  | cons j places ih =>
    obtain ⟨hj, hplaces⟩ := List.nodup_cons.1 h
    rw [pick_cons]
    refine (n.lists_child (.element j)).append (ih hplaces) ?_ fun p c => ?_
    · rintro _ _ a b ⟨-, rfl⟩ ⟨-, i, hi, rfl⟩ heq
      exact hj (Position.element.inj heq ▸ hi)
    · simp only [List.mem_cons, exists_eq_or_imp]
      exact and_or_left

/-- A selector that is no union selects every child once; unless it is a slice, in the order of the children. -/
theorem Selector.lists_select {s : Selector} (hn : n.value.Canonical) (hunion : s.isUnion = false)
    (hr : ∀ p q, Position.Before p q → r p q) (hslice : s.isSlice = true → ∀ p q, p ≠ q → r p q) :
    n.Lists ([·]) r (s.Selects root n.value) (s.select root n) := by
  cases s with
  | key k => exact k.lists_select n
  | wildcard => exact (Node.lists_children hn).imp hr fun p c => (and_iff_left trivial).symm
  | union keys => cases hunion
  | slice first stop step =>
    have hpick : (Selector.slice first stop step).select root n =
        n.pick (Slice.indices n.value.length first stop step) := by
      obtain ⟨location, d⟩ := n
      cases d <;> rfl
    rw [hpick]
    exact (n.lists_pick (Slice.nodup_indices ..)).imp (hslice rfl) fun p c => Iff.rfl
  | filter condition =>
    exact ((Node.lists_children hn).filter (condition.holdsAt root)).imp hr fun p c => Iff.rfl

/-! ### Segments -/

/-- The way of one segment: down to a container, and the position of the child that is selected there. -/
structure Leg where
  run : List Position
  key : Position

namespace Leg

def path (leg : Leg) : List Position := leg.run ++ [leg.key]

/-- The order in which a segment selects: that of the containers, then that of the children. -/
def Before (r : Position → Position → Prop) (a b : Leg) : Prop :=
  Position.Precedes a.run b.run ∨ (a.run = b.run ∧ r a.key b.key)

theorem path_inj {a b : Leg} (h : a.path = b.path) : a = b := by
  obtain ⟨hrun, hkey⟩ := List.append_inj' h rfl
  cases a
  cases b
  exact congrArg₂ _ hrun (List.singleton_inj.1 hkey)

theorem not_before_self (hr : ∀ p, ¬ r p p) (leg : Leg) : ¬ leg.Before r leg := by
  rintro (h | ⟨-, h⟩)
  · exact Position.not_precedes_self _ h
  · exact hr _ h

end Leg

namespace Segment

def selector : Segment → Selector
  | child s => s
  | descendants s => s

def descends : Segment → Bool
  | child _ => false
  | descendants _ => true

/-- Does the segment lead from the document to `c` that way? Only a segment that descends goes down before it
selects. -/
def Leads (root d : Document) (s : Segment) (leg : Leg) (c : Document) : Prop :=
  (s.descends = false → leg.run = []) ∧ ∃ a, d.at? leg.run = some a ∧ s.selector.Selects root a leg.key c

theorem Leads.canonical {s : Segment} {leg : Leg} (h : s.Leads root d leg c) (hd : d.Canonical) : c.Canonical := by
  obtain ⟨-, a, ha, hc⟩ := h
  exact (hd.at? ha).childAt? hc.1

/-- The containers from which a segment selects. -/
def containers (s : Segment) (n : Node) : List Node := if s.descends then n.descendants else [n]

theorem select_eq (s : Segment) (root : Document) (n : Node) :
    s.select root n = (s.containers n).flatMap (s.selector.select root) := by
  cases s with
  | child s => exact (List.append_nil _).symm
  | descendants s => rfl

theorem lists_containers (s : Segment) (hn : n.value.Canonical) :
    n.Lists id Position.Precedes
      (fun run a => (s.descends = false → run = []) ∧ n.value.at? run = some a) (s.containers n) := by
  cases s with
  | child s =>
    refine .self (i := []) rfl fun run a => ?_
    constructor
    · rintro ⟨hrun, ha⟩
      obtain rfl := hrun rfl
      exact ⟨rfl, (Option.some.inj ha).symm⟩
    · rintro ⟨rfl, rfl⟩
      exact ⟨fun _ => rfl, rfl⟩
  | descendants s => exact (Node.lists_descendants hn).imp (fun _ _ => id) fun run a => by simp [descends]

theorem lists_select {s : Segment} (hn : n.value.Canonical)
    (hs : ∀ m : Node, m.value.Canonical →
      m.Lists ([·]) r (s.selector.Selects root m.value) (s.selector.select root m)) :
    n.Lists Leg.path (Leg.Before r) (s.Leads root n.value) (s.select root n) := by
  have hinner : ∀ run a, n.value.at? run = some a → Node.Lists ⟨n.location ++ run, a⟩ ([·]) r
      (s.selector.Selects root a) (s.selector.select root ⟨n.location ++ run, a⟩) :=
    fun run a ha => hs ⟨n.location ++ run, a⟩ (hn.at? ha)
  rw [select_eq]
  refine (s.lists_containers hn).flatMap Leg.mk (fun _ _ => rfl) (fun _ _ _ _ => .inl) (fun _ _ _ h => .inr ⟨rfl, h⟩)
    (fun run a ha => hinner run a ha.2) fun leg c => ?_
  constructor
  · rintro ⟨hrun, a, ha, hc⟩
    exact ⟨leg.run, leg.key, a, rfl, ⟨hrun, ha⟩, hc⟩
  · rintro ⟨run, p, a, rfl, ⟨hrun, ha⟩, hc⟩
    exact ⟨hrun, a, ha, hc⟩

end Segment

/-! ### Queries -/

namespace Query

/-- Does the query lead from the document to `c` by these legs, one for each segment? -/
def Leads (root : Document) : Query → Document → List Leg → Document → Prop
  | [], d, legs, c => legs = [] ∧ c = d
  | s :: rest, d, legs, c => ∃ leg legs' a, legs = leg :: legs' ∧ s.Leads root d leg a ∧ Leads root rest a legs' c

theorem run_eq_flatMap (root : Document) (query : Query) (nodes : List Node) :
    Query.run root query nodes = nodes.flatMap fun n => Query.run root query [n] := by
  induction query generalizing nodes with
  | nil => simp [Query.run]
  | cons s rest ih =>
    simp only [Query.run, List.flatMap_cons, List.flatMap_nil, List.append_nil]
    rw [ih, List.flatMap_assoc]
    exact List.flatMap_congr fun n _ => (ih _).symm

theorem run_cons (root : Document) (s : Segment) (rest : Query) (n : Node) :
    Query.run root (s :: rest) [n] = (s.select root n).flatMap fun m => Query.run root rest [m] := by
  rw [Query.run, run_eq_flatMap, List.flatMap_singleton]

theorem lists_run {query : Query} (hn : n.value.Canonical)
    (hquery : ∀ s ∈ query, ∀ m : Node, m.value.Canonical →
      m.Lists ([·]) r (s.selector.Selects root m.value) (s.selector.select root m)) :
    n.Lists (List.flatMap Leg.path) (List.Lex (Leg.Before r)) (query.Leads root n.value)
      (Query.run root query [n]) := by
  induction query generalizing n with
  | nil => exact .self (i := []) rfl fun _ _ => Iff.rfl
  | cons s rest ih =>
    obtain ⟨hs, hrest⟩ := List.forall_mem_cons.1 hquery
    rw [run_cons]
    refine (Segment.lists_select hn hs).flatMap List.cons (fun _ _ => rfl) (fun _ _ _ _ => .rel) (fun _ _ _ => .cons)
      (fun leg a ha => ih (n := ⟨_, a⟩) (ha.canonical hn) hrest) fun _ _ => Iff.rfl

/-! ### With one descent at most -/

/-- The number of recursive descents. -/
def descents (query : Query) : Nat := query.countP Segment.descends

theorem Leads.length_legs {query : Query} {legs : List Leg} (h : query.Leads root d legs c) :
    legs.length = query.length := by
  induction query generalizing d legs with
  | nil => rw [h.1]; rfl
  | cons s rest ih =>
    obtain ⟨leg, legs, a, rfl, -, hlegs⟩ := h
    rw [List.length_cons, List.length_cons, ih hlegs]

/-- Without a descent every leg is one position. -/
theorem Leads.path_eq {query : Query} {legs : List Leg} (hquery : query.descents = 0)
    (h : query.Leads root d legs c) : legs.flatMap Leg.path = legs.map Leg.key := by
  induction query generalizing d legs with
  | nil => rw [h.1]; rfl
  | cons s rest ih =>
    obtain ⟨leg, legs, a, rfl, hleg, hlegs⟩ := h
    obtain ⟨hs, hrest⟩ := List.forall_mem_cons.1 (List.countP_eq_zero.1 hquery)
    rw [List.flatMap_cons, ih (List.countP_eq_zero.2 hrest) hlegs, Leg.path, hleg.1 (Bool.eq_false_iff.2 hs)]
    rfl

/-- A location splits into legs in one way: what is not inserted before the descent is one position for each
segment. -/
theorem Leads.unique {query : Query} {d' c' : Document} {legs legs' : List Leg} (hquery : query.descents ≤ 1)
    (h : query.Leads root d legs c) (h' : query.Leads root d' legs' c')
    (hpath : legs.flatMap Leg.path = legs'.flatMap Leg.path) : legs = legs' := by
  induction query generalizing d d' legs legs' with
  | nil => rw [h.1, h'.1]
  | cons s rest ih =>
    obtain ⟨leg, legs, a, rfl, hleg, hlegs⟩ := h
    obtain ⟨leg', legs', a', rfl, hleg', hlegs'⟩ := h'
    rw [List.flatMap_cons, List.flatMap_cons] at hpath
    rw [descents, List.countP_cons] at hquery
    have hboth : leg.path = leg'.path ∧ legs.flatMap Leg.path = legs'.flatMap Leg.path := by
      cases hs : s.descends with
      | true =>
        -- The rest descends no more and is as long on both sides: what is left over is the leg.
        have hrest : descents rest = 0 := by
          rw [if_pos hs] at hquery
          exact Nat.le_zero.1 (Nat.le_of_add_le_add_right hquery)
        have hlength : legs.length = legs'.length := hlegs.length_legs.trans hlegs'.length_legs.symm
        exact List.append_inj' hpath
          (by rw [hlegs.path_eq hrest, hlegs'.path_eq hrest, List.length_map, List.length_map, hlength])
      | false =>
        refine List.append_inj hpath ?_
        rw [Leg.path, Leg.path, hleg.1 hs, hleg'.1 hs]
        rfl
    rw [Leg.path_inj hboth.1, ih (Nat.le_of_add_right_le hquery) hlegs hlegs' hboth.2]

/-- Does the location split into legs by which the query leads to `c`? -/
def Matches (query : Query) (d : Document) (location : List Position) (c : Document) : Prop :=
  ∃ legs, query.Leads d d legs c ∧ location = legs.flatMap Leg.path

theorem matches_descendants_iff {s : Selector} {location : List Position} :
    Matches [.descendants s] d location c ↔
      ∃ parent p a, location = parent ++ [p] ∧ d.at? parent = some a ∧ s.Selects d a p c := by
  constructor
  · rintro ⟨_, ⟨leg, _, _, rfl, ⟨-, a, ha, hc⟩, rfl, rfl⟩, rfl⟩
    exact ⟨leg.run, leg.key, a, by simp [Leg.path], ha, hc⟩
  · rintro ⟨parent, p, a, rfl, ha, hc⟩
    exact ⟨[⟨parent, p⟩], ⟨_, _, _, rfl, ⟨nofun, a, ha, hc⟩, rfl, rfl⟩, by simp [Leg.path]⟩

end Query

/-- The nodes are those of whose location and value `S` holds, each once. -/
def Node.Once (nodes : List Node) (S : List Position → Document → Prop) : Prop :=
  (nodes.map (·.location)).Nodup ∧ ∀ m, m ∈ nodes ↔ S m.location m.value

theorem Node.Once.congr {nodes : List Node} {S T : List Position → Document → Prop} (h : Node.Once nodes S)
    (hT : ∀ l c, T l c ↔ S l c) : Node.Once nodes T :=
  ⟨h.1, fun m => (h.2 m).trans (hT ..).symm⟩

namespace Query

theorem once_of_descents (query : Query) (hd : d.Canonical) (hunion : ∀ s ∈ query, s.selector.isUnion = false)
    (hquery : query.descents ≤ 1) : Node.Once (query.select d) (query.Matches d) := by
  have hlists : (Node.root d).Lists (List.flatMap Leg.path) (List.Lex (Leg.Before (· ≠ ·))) (query.Leads d d)
      (query.select d) :=
    lists_run hd fun s hs m hm => Selector.lists_select hm (hunion s hs)
      (fun p q hpq heq => Position.not_before_self p (heq ▸ hpq)) (fun _ _ _ => id)
  obtain ⟨entries, heq, hpairwise, hmem⟩ := hlists
  constructor
  · rw [heq, List.map_map, List.Nodup, List.pairwise_map]
    refine hpairwise.imp_of_mem fun {x y} hx hy hxy hlocation => ?_
    have hlegs := ((hmem ..).1 hx).unique hquery ((hmem ..).1 hy) hlocation
    rw [hlegs] at hxy
    exact List.lex_irrefl (Leg.not_before_self fun p hp => hp rfl) _ hxy
  · intro m
    rw [heq, List.mem_map]
    constructor
    · rintro ⟨e, he, rfl⟩
      exact ⟨e.1, (hmem ..).1 he, rfl⟩
    · rintro ⟨legs, hlegs, hlocation⟩
      exact ⟨(legs, m.value), (hmem ..).2 hlegs, by simp [Node.root, ← hlocation]⟩

theorem once_descendants {s : Selector} (hd : d.Canonical) (hs : s.isUnion = false) :
    Node.Once (Query.select [.descendants s] d) fun location c =>
      ∃ parent p a, location = parent ++ [p] ∧ d.at? parent = some a ∧ s.Selects d a p c :=
  (once_of_descents [.descendants s] hd (List.forall_mem_singleton.2 hs) (Nat.le_refl 1)).congr fun _ _ =>
    matches_descendants_iff.symm

/-- A query without unions and with one descent at most selects every location that matches it, once, and nothing
else: with a wildcard after the descent every descendant, with a name every member of that name. -/
theorem select_once (hd : d.Canonical) :
    (∀ query : Query, (∀ s ∈ query, s.selector.isUnion = false) → query.descents ≤ 1 →
      Node.Once (query.select d) (query.Matches d)) ∧
    Node.Once (Query.select [.descendants .wildcard] d)
      (fun location c => location ≠ [] ∧ d.at? location = some c) ∧
    ∀ name, Node.Once (Query.select [.descendants (.key (.name name))] d)
      (fun location c => (∃ parent, location = parent ++ [.member name]) ∧ d.at? location = some c) := by
  refine ⟨fun query hunion hquery => once_of_descents query hd hunion hquery, ?_, fun name => ?_⟩
  · refine (once_descendants hd rfl).congr fun location c => ?_
    constructor
    · rintro ⟨hne, hc⟩
      obtain ⟨parent, p, rfl⟩ := (List.eq_nil_or_concat' location).resolve_left hne
      obtain ⟨a, ha, hc⟩ := Document.at?_concat_eq_some_iff.1 hc
      exact ⟨parent, p, a, rfl, ha, hc, trivial⟩
    · rintro ⟨parent, p, a, rfl, ha, hc, -⟩
      exact ⟨List.append_ne_nil_of_right_ne_nil _ (List.cons_ne_nil _ _),
        Document.at?_concat_eq_some_iff.2 ⟨a, ha, hc⟩⟩
  · refine (once_descendants hd rfl).congr fun location c => ?_
    constructor
    · rintro ⟨⟨parent, rfl⟩, hc⟩
      obtain ⟨a, ha, hc⟩ := Document.at?_concat_eq_some_iff.1 hc
      exact ⟨parent, _, a, rfl, ha, hc, rfl⟩
    · rintro ⟨parent, _, a, rfl, ha, hc, rfl⟩
      exact ⟨⟨parent, rfl⟩, Document.at?_concat_eq_some_iff.2 ⟨a, ha, hc⟩⟩

/-- `$..*[?(@ != null)]`: what lies two or more positions deep and is no null. -/
theorem select_once_nested :
    let d : Document := .obj [("a", .obj [("a", .bool true), ("b", .str "x")]), ("b", .arr [.null, .str "y"])]
    let query : Query := [.descendants .wildcard, .child (.filter (.compare (.current []) .ne (.literal .null)))]
    d.Canonical ∧ Node.Once (query.select d) (query.Matches d) ∧ (query.select d).map (·.location) =
      [[.member "a", .member "a"], [.member "a", .member "b"], [.member "b", .element 1]] := by
  intro d query
  have hnames : ["a", "b"].Pairwise (· < ·) := by decide
  have hd : d.Canonical := ⟨hnames, ⟨hnames, trivial, trivial, trivial⟩, ⟨trivial, trivial, trivial⟩, trivial⟩
  exact ⟨hd, (select_once hd).1 query (by decide) (by decide), by decide⟩

end Query
end StepFlow
