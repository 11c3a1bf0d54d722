import StepFlow.Proofs.Path.RoundTrip
import StepFlow.Proofs.Path.Select

/-!
# The order of matches

The matches of a query without unions and slices come in the order of their legs: segment by segment, first in
the order of the containers that are selected from, then in that of their children (`Path.value_in_order`).
Without recursive descent this is document order. With one it is not, as what is selected from a container comes
before what is selected inside of it, also inside of an earlier child (`Path.value_out_of_order`).
-/

namespace StepFlow

open Position (Precedes)

/-- Without a descent the order of the legs is that of the locations. -/
theorem Query.Leads.precedes {root d d' c c' : Document} {query : Query} {legs legs' : List Leg}
    (hquery : query.descents = 0) (h : query.Leads root d legs c) (h' : query.Leads root d' legs' c')
    (hlex : List.Lex (Leg.Before Position.Before) legs legs') :
    Precedes (legs.flatMap Leg.path) (legs'.flatMap Leg.path) := by
  induction query generalizing d d' legs legs' with
  | nil =>
    rw [h.1, h'.1] at hlex
    cases hlex
  | cons s rest ih =>
    obtain ⟨leg, legs, a, rfl, hleg, hlegs⟩ := h
    obtain ⟨leg', legs', a', rfl, hleg', hlegs'⟩ := h'
    obtain ⟨hs, hrest⟩ := List.forall_mem_cons.1 (List.countP_eq_zero.1 hquery)
    have hrun : leg.run = [] := hleg.1 (Bool.eq_false_iff.2 hs)
    have hrun' : leg'.run = [] := hleg'.1 (Bool.eq_false_iff.2 hs)
    rw [List.flatMap_cons, List.flatMap_cons, Leg.path, Leg.path, hrun, hrun']
    cases hlex with
    | rel hbefore =>
      rcases hbefore with hbefore | ⟨-, hbefore⟩
      · rw [hrun, hrun'] at hbefore
        cases hbefore
      · exact .rel hbefore
    | cons hlex => exact .cons (ih (List.countP_eq_zero.2 hrest) hlegs hlegs' hlex)

namespace Path

/-- A path without unions and slices reads its matches in the order of their legs, and in document order when
nothing descends. -/
theorem value_in_order (p : Path) {context input : Document} (hcontext : context.Canonical)
    (hinput : input.Canonical)
    (hquery : ∀ s ∈ p.query, s.selector.isUnion = false ∧ s.selector.isSlice = false) :
    let root := if p.ofContext then context else input
    (∃ ways : List (List Leg × Document),
      p.query.select root = ways.map (fun way => ⟨way.1.flatMap Leg.path, way.2⟩) ∧
      p.value context input = collect (ways.map (·.2)) ∧
      ways.Pairwise (fun a b => List.Lex (Leg.Before Position.Before) a.1 b.1) ∧
      ∀ legs c, (legs, c) ∈ ways ↔ p.query.Leads root root legs c) ∧
    (p.query.descents = 0 → (p.query.select root).Pairwise fun m n => Precedes m.location n.location) := by
  intro root
  have hroot : root.Canonical := by
    cases hofContext : p.ofContext <;> simpa [root, hofContext]
  obtain ⟨ways, heq, hpairwise, hmem⟩ : (Node.root root).Lists (List.flatMap Leg.path)
      (List.Lex (Leg.Before Position.Before)) (p.query.Leads root root) (p.query.select root) :=
    Query.lists_run hroot fun s hs m hm => Selector.lists_select hm (hquery s hs).1 (fun _ _ => id)
      fun hslice => absurd hslice (by rw [(hquery s hs).2]; decide)
  refine ⟨⟨ways, heq, ?_, hpairwise, hmem⟩, fun hdescents => ?_⟩
  · rw [value, heq, List.map_map]
    rfl
  · rw [heq, List.pairwise_map]
    exact hpairwise.imp_of_mem fun ha hb hab => ((hmem ..).1 ha).precedes hdescents ((hmem ..).1 hb) hab

/-- A member of a name inside an earlier member. -/
def twoDeep : Document := .obj [("a", .obj [("b", .str "inner")]), ("b", .str "outer")]

theorem canonical_twoDeep : twoDeep.Canonical := by
  have hnames : ["a", "b"].Pairwise (· < ·) := by decide
  exact ⟨hnames, ⟨List.pairwise_singleton .., trivial, trivial⟩, trivial, trivial⟩

theorem value_in_order_twoDeep :
    let p : Path := ⟨"$.*", false, [.child .wildcard]⟩
    Document.null.Canonical ∧ twoDeep.Canonical ∧
      (∀ s ∈ p.query, s.selector.isUnion = false ∧ s.selector.isSlice = false) ∧ p.query.descents = 0 ∧
      (p.query.select twoDeep).map (·.location) = [[.member "a"], [.member "b"]] ∧
      (p.query.select twoDeep).Pairwise fun m n => Precedes m.location n.location := by
  intro p
  have hquery : ∀ s ∈ p.query, s.selector.isUnion = false ∧ s.selector.isSlice = false := by decide
  have hnull : Document.null.Canonical := trivial
  obtain ⟨-, hordered⟩ := value_in_order p hnull canonical_twoDeep hquery
  exact ⟨hnull, canonical_twoDeep, hquery, rfl, rfl, hordered rfl⟩

/-- The outer member is matched first, although it comes after the inner one. -/
theorem value_out_of_order :
    ∃ p m n, ofString "$..b" = .ok p ∧ (∀ s ∈ p.query, s.selector.isUnion = false ∧ s.selector.isSlice = false) ∧
      twoDeep.Canonical ∧ p.query.select twoDeep = [m, n] ∧ Precedes n.location m.location ∧
      p.value .null twoDeep = some (.arr [m.value, n.value]) := by
  have hspelled : Query.Spelled [.descendants (.key (.name "b"))] "..b".toList :=
    .cons (.members ⟨by decide, List.all_eq_true.1 (by decide)⟩) .nil
  have hparse : ofString "$..b" = .ok ⟨"$..b", false, [.descendants (.key (.name "b"))]⟩ :=
    congrArg (Except.mapError _) hspelled.parse_input
  exact ⟨_, _, _, hparse, by decide, canonical_twoDeep, rfl, .rel (by decide : "a" < "b"), rfl⟩

end Path

end StepFlow
