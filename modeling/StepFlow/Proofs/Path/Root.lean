import StepFlow.Path

/-!
# The root in filters

What `$` stands for in a filter. `Query.selectFrom` is the documented meaning, the root of the whole query at
every depth. It is what a query selects as long as no `$` stands in a filter inside an `@` operand
(`Query.select_eq_selectFrom`): such a query is run by itself, and its `$` is the node that is tested.
-/

namespace StepFlow

mutual

/-- The nodes selected when `$` stands for `top` at every depth. -/
def Segment.selectFrom (top : Document) : Segment → Node → List Node
  | .child s, n => s.selectFrom top n
  | .descendants s, n => n.descendants.flatMap (s.selectFrom top)

def Selector.selectFrom (top : Document) : Selector → Node → List Node
  | .key k, n => k.select n
  | .wildcard, n => n.children
  | .union keys, n => keys.flatMap (·.select n)
  | .slice first stop step, n => (Selector.slice first stop step).select top n
  | .filter condition, n => n.children.filter fun c => condition.holdsFrom top c.value

def Filter.holdsFrom (top value : Document) : Filter → Bool
  | .or a b => a.holdsFrom top value || b.holdsFrom top value
  | .and a b => a.holdsFrom top value && b.holdsFrom top value
  | .not a => !a.holdsFrom top value
  | .holds (.literal d) => d.isTruthy
  | .holds operand => (operand.resolveFrom top value).isSome
  | .compare left op right =>
    match left.resolveFrom top value, right.resolveFrom top value with
    | some a, some b => op.holds a b
    | _, _ => false

def Operand.resolveFrom (top value : Document) : Operand → Option Document
  | .current query => (Query.runFrom top query [Node.root value]).head?.map (·.value)
  | .root query => (Query.runFrom top query [Node.root top]).head?.map (·.value)
  | .literal d => some d

def Query.runFrom (top : Document) : List Segment → List Node → List Node
  | [], nodes => nodes
  | s :: rest, nodes => Query.runFrom top rest (nodes.flatMap (s.selectFrom top))

end

/-- What a query selects in a document when `$` stands for the document at every depth. -/
def Query.selectFrom (query : Query) (d : Document) : List Node := Query.runFrom d query [Node.root d]

mutual

/-- No `$` stands in a filter inside an `@` operand; `inside` tells whether this is such an operand. -/
def Segment.Anchored (inside : Bool) : Segment → Prop
  | .child s => s.Anchored inside
  | .descendants s => s.Anchored inside

def Selector.Anchored (inside : Bool) : Selector → Prop
  | .filter condition => condition.Anchored inside
  | _ => True

def Filter.Anchored (inside : Bool) : Filter → Prop
  | .or a b => a.Anchored inside ∧ b.Anchored inside
  | .and a b => a.Anchored inside ∧ b.Anchored inside
  | .not a => a.Anchored inside
  | .holds operand => operand.Anchored inside
  | .compare left _ right => left.Anchored inside ∧ right.Anchored inside

def Operand.Anchored (inside : Bool) : Operand → Prop
  | .current query => Query.Anchored true query
  | .root query => inside = false ∧ Query.Anchored false query
  | .literal _ => True

def Query.Anchored (inside : Bool) : List Segment → Prop
  | [] => True
  | s :: rest => s.Anchored inside ∧ Query.Anchored inside rest

end

mutual

/-- Inside an `@` operand the root does not matter, elsewhere it is the root of the whole query. -/
theorem Segment.select_eq_selectFrom {root top : Document} {inside : Bool} (hroot : inside = false → root = top)
    (s : Segment) (h : s.Anchored inside) (n : Node) : s.select root n = s.selectFrom top n := by
  cases s with
  | child s => exact Selector.select_eq_selectFrom hroot s h n
  | descendants s => exact congrArg n.descendants.flatMap (funext (Selector.select_eq_selectFrom hroot s h))

theorem Selector.select_eq_selectFrom {root top : Document} {inside : Bool} (hroot : inside = false → root = top)
    (s : Selector) (h : s.Anchored inside) (n : Node) : s.select root n = s.selectFrom top n := by
  cases s with
  | filter condition =>
    exact List.filter_congr fun c _ => Filter.holdsAt_eq_holdsFrom hroot condition h c.value
  | _ => rfl

theorem Filter.holdsAt_eq_holdsFrom {root top : Document} {inside : Bool} (hroot : inside = false → root = top)
    (f : Filter) (h : f.Anchored inside) (value : Document) : f.holdsAt root value = f.holdsFrom top value := by
  cases f with
  | or a b =>
    rw [Filter.holdsAt, Filter.holdsFrom, Filter.holdsAt_eq_holdsFrom hroot a h.1 value,
      Filter.holdsAt_eq_holdsFrom hroot b h.2 value]
  | and a b =>
    rw [Filter.holdsAt, Filter.holdsFrom, Filter.holdsAt_eq_holdsFrom hroot a h.1 value,
      Filter.holdsAt_eq_holdsFrom hroot b h.2 value]
  | not a => rw [Filter.holdsAt, Filter.holdsFrom, Filter.holdsAt_eq_holdsFrom hroot a h value]
  | holds operand =>
    have hoperand := Operand.resolve_eq_resolveFrom hroot operand h value
    cases operand with
    | literal d => rfl
    | _ => exact congrArg Option.isSome hoperand
  | compare left op right =>
    have hleft := Operand.resolve_eq_resolveFrom hroot left h.1 value
    have hright := Operand.resolve_eq_resolveFrom hroot right h.2 value
    cases hl : left.resolveFrom top value <;> cases hr : right.resolveFrom top value <;>
      simp only [Filter.holdsAt, Filter.holdsFrom, hleft, hright, hl, hr]

theorem Operand.resolve_eq_resolveFrom {root top : Document} {inside : Bool} (hroot : inside = false → root = top)
    (operand : Operand) (h : operand.Anchored inside) (value : Document) :
    operand.resolve root value = operand.resolveFrom top value := by
  cases operand with
  | current query =>
    rw [Operand.resolve, Operand.resolveFrom, @Query.run_eq_runFrom value top true nofun query h]
  | root query =>
    obtain ⟨rfl, h⟩ := h
    rw [hroot rfl, Operand.resolve, Operand.resolveFrom, Query.run_eq_runFrom (fun _ => rfl) query h]
  | literal d => rfl

theorem Query.run_eq_runFrom {root top : Document} {inside : Bool} (hroot : inside = false → root = top)
    (query : List Segment) (h : Query.Anchored inside query) (nodes : List Node) :
    Query.run root query nodes = Query.runFrom top query nodes := by
  cases query with
  | nil => rfl
  | cons s query =>
    rw [Query.run, Query.runFrom, funext (Segment.select_eq_selectFrom hroot s h.1),
      Query.run_eq_runFrom hroot query h.2]

end

theorem Query.select_eq_selectFrom {query : Query} (h : Query.Anchored false query) (d : Document) :
    query.select d = query.selectFrom d :=
  Query.run_eq_runFrom (fun _ => rfl) query h [Node.root d]

mutual

/-- Some `$` operands of comparisons replaced by what they read in `root`, none of them inside an `@` operand. -/
inductive Segment.Inserts (root : Document) : Segment → Segment → Prop
  | child {s s' : Selector} : s.Inserts root s' → Segment.Inserts root (.child s) (.child s')
  | descendants {s s' : Selector} : s.Inserts root s' → Segment.Inserts root (.descendants s) (.descendants s')

inductive Selector.Inserts (root : Document) : Selector → Selector → Prop
  | refl (s : Selector) : Selector.Inserts root s s
  | filter {f f' : Filter} : f.Inserts root f' → Selector.Inserts root (.filter f) (.filter f')

inductive Filter.Inserts (root : Document) : Filter → Filter → Prop
  | refl (f : Filter) : Filter.Inserts root f f
  | or {a a' b b' : Filter} : a.Inserts root a' → b.Inserts root b' → Filter.Inserts root (.or a b) (.or a' b')
  | and {a a' b b' : Filter} : a.Inserts root a' → b.Inserts root b' → Filter.Inserts root (.and a b) (.and a' b')
  | not {a a' : Filter} : a.Inserts root a' → Filter.Inserts root (.not a) (.not a')
  | holds {q q' : List Segment} :
      Query.Inserts root q q' → Filter.Inserts root (.holds (.root q)) (.holds (.root q'))
  | compare {left left' right right' : Operand} (op : CompareOp) :
      left.Inserts root left' → right.Inserts root right' →
      Filter.Inserts root (.compare left op right) (.compare left' op right')

inductive Operand.Inserts (root : Document) : Operand → Operand → Prop
  | refl (o : Operand) : Operand.Inserts root o o
  | root {q q' : List Segment} : Query.Inserts root q q' → Operand.Inserts root (.root q) (.root q')
  | literal {q : List Segment} {d : Document} :
      (Query.select q root).head?.map (·.value) = some d → Operand.Inserts root (.root q) (.literal d)

inductive Query.Inserts (root : Document) : List Segment → List Segment → Prop
  | nil : Query.Inserts root [] []
  | cons {s s' : Segment} {q q' : List Segment} :
      s.Inserts root s' → Query.Inserts root q q' → Query.Inserts root (s :: q) (s' :: q')

end

section

variable {root : Document}

mutual

theorem Segment.Inserts.select_eq {s s' : Segment} (h : s.Inserts root s') (n : Node) :
    s'.select root n = s.select root n := by
  cases h with
  | child h => exact h.select_eq n
  | descendants h => exact congrArg n.descendants.flatMap (funext h.select_eq)

theorem Selector.Inserts.select_eq {s s' : Selector} (h : s.Inserts root s') (n : Node) :
    s'.select root n = s.select root n := by
  cases h with
  | refl => rfl
  | filter h => exact List.filter_congr fun c _ => h.holdsAt_eq c.value

theorem Filter.Inserts.holdsAt_eq {f f' : Filter} (h : f.Inserts root f') (value : Document) :
    f'.holdsAt root value = f.holdsAt root value := by
  cases h with
  | refl => rfl
  | or ha hb => rw [Filter.holdsAt, Filter.holdsAt, ha.holdsAt_eq, hb.holdsAt_eq]
  | and ha hb => rw [Filter.holdsAt, Filter.holdsAt, ha.holdsAt_eq, hb.holdsAt_eq]
  | not ha => rw [Filter.holdsAt, Filter.holdsAt, ha.holdsAt_eq]
  | holds hq =>
    rw [Filter.holdsAt, Filter.holdsAt, Operand.resolve, Operand.resolve, hq.run_eq]
    all_goals nofun
  | compare op hl hr =>
    rw [Filter.holdsAt, Filter.holdsAt, hl.resolve_eq, hr.resolve_eq]

theorem Operand.Inserts.resolve_eq {o o' : Operand} (h : o.Inserts root o') (value : Document) :
    o'.resolve root value = o.resolve root value := by
  cases h with
  | refl => rfl
  | root hq => rw [Operand.resolve, Operand.resolve, hq.run_eq]
  | literal hd => exact hd.symm

theorem Query.Inserts.run_eq {q q' : List Segment} (h : Query.Inserts root q q') (nodes : List Node) :
    Query.run root q' nodes = Query.run root q nodes := by
  cases h with
  | nil => rfl
  | cons hs hq => rw [Query.run, Query.run, funext hs.select_eq, hq.run_eq]

end

end

theorem Query.Inserts.select_eq {root : Document} {q q' : Query} (h : Query.Inserts root q q') :
    q'.select root = q.select root :=
  h.run_eq [Node.root root]

namespace Path

/-- The root in the filters of a path: `$` is the document that the path reads, except inside an `@` operand,
where it is the value that is tested. -/
theorem value_root (p : Path) (context input : Document) :
    let root := if p.ofContext then context else input
    (Query.Anchored false p.query →
      p.value context input = collect ((p.query.selectFrom root).map (·.value))) ∧
    (∀ query, Query.Inserts root p.query query → { p with query }.value context input = p.value context input) ∧
    ∀ q q' value, Query.Inserts value q q' → ∀ r,
      (Operand.current q').resolve r value = (Operand.current q).resolve root value := by
  intro root
  refine ⟨fun h => ?_, fun query h => ?_, fun q q' value h r => ?_⟩
  · exact congrArg (fun nodes => collect (nodes.map (·.value))) (Query.select_eq_selectFrom h root)
  · exact congrArg (fun nodes => collect (nodes.map (·.value))) h.select_eq
  · exact congrArg (fun nodes => nodes.head?.map (·.value)) h.select_eq

/-- One item with one subscription. -/
def subscribed : Document :=
  .ofList [("wanted", .str "b"),
    ("items", .arr [.ofList [("name", .str "a"), ("subs", .arr [.ofList [("id", .str "b")]])]])]

/-- `.name` -/
private def member (name : String) : Segment := .child (.key (.name name))

theorem value_root_wanted :
    let query (right : Operand) : Query :=
      [member "items", .child (.filter (.compare (.current [member "name"]) .ne right))]
    let p : Path := ⟨"$.items[?(@.name != $.wanted)]", false, query (.root [member "wanted"])⟩
    Query.Anchored false p.query ∧ Query.Inserts subscribed p.query (query (.literal (.str "b"))) ∧
      p.value .null subscribed = collect ((p.query.selectFrom subscribed).map (·.value)) ∧
      { p with query := query (.literal (.str "b")) }.value .null subscribed = p.value .null subscribed := by
  intro query p
  have anchored : Query.Anchored false p.query := ⟨trivial, ⟨⟨trivial, trivial⟩, rfl, trivial, trivial⟩, trivial⟩
  have inserts : Query.Inserts subscribed p.query (query (.literal (.str "b"))) :=
    .cons (.child (.refl _)) (.cons (.child (.filter (.compare .ne (.refl _) (.literal rfl)))) .nil)
  exact ⟨anchored, inserts, (value_root p .null subscribed).1 anchored,
    (value_root p .null subscribed).2.1 _ inserts⟩

/-- A path that compares each subscription with what the document asks for. -/
def nested : Option Path := (ofString "$.items[?(@.subs[?(@.id == $.wanted)])].name").toOption

/-- The path selects nothing, although `$.wanted` is the text b, with which in its place it selects an item, as it
does when `$` is the root of the whole query. -/
theorem value_ne_of_nested :
    (nested.map fun p => ((p.value .null subscribed).isSome,
      (collect ((p.query.selectFrom subscribed).map (·.value))).bind Document.toStr?)) = some (false, some "a") ∧
    ((ofString "$.wanted").toOption.bind (·.value .null subscribed)).bind Document.toStr? = some "b" ∧
    ((ofString "$.items[?(@.subs[?(@.id == 'b')])].name").toOption.bind (·.value .null subscribed)).bind
      Document.toStr? = some "a" := by
  decide +kernel

end Path

end StepFlow
