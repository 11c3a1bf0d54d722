import Mathlib.Data.List.Forall2
import Mathlib.Logic.Relation
import StepFlow.Choice

/-!
# Negation pushed inwards

`Not` over a conjunction is a disjunction of negations, over a disjunction a conjunction of negations,
and twice it is nothing. Applied wherever they can be, these steps lead to one rule, `Rule.inward`, in
which `Not` stands above comparisons only. It evaluates as the rule it comes from, errors included:
negation keeps an error and swaps the two answers, so that the negated children of a conjunction are
read up to the very child at which the conjunction stops.
-/

namespace StepFlow

namespace Rule

/-! ### Evaluation from left to right -/

section

variable {context input : Document} {pass : Bool} {rule : Rule} {rules front back : List Rule}
  {outcome : Except EvaluationError Bool}

/-- What rules come to that are read from left to right for as long as they come to `pass`: `pass`
itself, or whatever the first other one comes to. -/
inductive Scans (context input : Document) (pass : Bool) :
    List Rule → Except EvaluationError Bool → Prop
  | through {rules : List Rule} (hpass : ∀ r ∈ rules, r.holds context input = .ok pass) :
      Scans context input pass rules (.ok pass)
  | stop {front back : List Rule} {rule : Rule} {outcome : Except EvaluationError Bool}
      (hpass : ∀ r ∈ front, r.holds context input = .ok pass)
      (hstop : rule.holds context input = outcome) (hne : outcome ≠ .ok pass) :
      Scans context input pass (front ++ rule :: back) outcome

/-- The conjunction of rules, or their disjunction: the node that reads on at `pass`. -/
def joined : Bool → List Rule → Rule
  | true, rules => and rules
  | false, rules => or rules

theorem joined_nil (context input : Document) (pass : Bool) :
    (joined pass []).holds context input = .ok pass := by
  cases pass <;> simp [joined, holds, allHold, anyHolds]

theorem joined_cons_of_pass (h : rule.holds context input = .ok pass) :
    (joined pass (rule :: rules)).holds context input = (joined pass rules).holds context input := by
  cases pass <;> simp [joined, holds, allHold, anyHolds, h, bind, Except.bind]

theorem joined_cons_of_stop (h : rule.holds context input ≠ .ok pass) :
    (joined pass (rule :: rules)).holds context input = rule.holds context input := by
  rcases hrule : rule.holds context input with e | b
  · cases pass <;> simp [joined, holds, allHold, anyHolds, hrule, bind, Except.bind]
  · have hb : b = !pass := by
      cases b <;> cases pass <;> simp_all
    subst hb
    cases pass <;> simp [joined, holds, allHold, anyHolds, hrule, bind, Except.bind]

theorem joined_append (h : ∀ r ∈ front, r.holds context input = .ok pass) :
    (joined pass (front ++ back)).holds context input = (joined pass back).holds context input := by
  induction front with
  | nil => rfl
  | cons r front ih =>
    obtain ⟨hr, hfront⟩ := List.forall_mem_cons.1 h
    rw [List.cons_append, joined_cons_of_pass hr, ih hfront]

theorem Scans.cons (h : rule.holds context input = .ok pass)
    (hrest : Scans context input pass rules outcome) :
    Scans context input pass (rule :: rules) outcome := by
  cases hrest with
  | through hpass => exact .through (List.forall_mem_cons.2 ⟨h, hpass⟩)
  | stop hpass hstop hne =>
    rw [← List.cons_append]
    exact .stop (List.forall_mem_cons.2 ⟨h, hpass⟩) hstop hne

theorem scans_joined (context input : Document) (pass : Bool) (rules : List Rule) :
    Scans context input pass rules ((joined pass rules).holds context input) := by
  induction rules with
  | nil => rw [joined_nil]; exact .through (List.forall_mem_nil _)
  | cons rule rules ih =>
    by_cases h : rule.holds context input = .ok pass
    · rw [joined_cons_of_pass h]; exact ih.cons h
    · rw [joined_cons_of_stop h]
      rw [← List.nil_append (rule :: rules)]
      exact .stop (List.forall_mem_nil _) rfl h

theorem joined_eq_iff (pass : Bool) : (joined pass rules).holds context input = outcome ↔
    Scans context input pass rules outcome := by
  constructor
  · rintro rfl
    exact scans_joined context input pass rules
  · rintro (hpass | ⟨hpass, rfl, hne⟩)
    · rw [← List.append_nil rules, joined_append hpass, joined_nil]
    · rw [joined_append hpass, joined_cons_of_stop hne]

end

/-! ### The steps and where they lead -/

/-- One step, anywhere in a rule, that takes a negation one level further in. -/
inductive Pushes : Rule → Rule → Prop
  | overAnd (rules : List Rule) : Pushes (not (and rules)) (or (rules.map not))
  | overOr (rules : List Rule) : Pushes (not (or rules)) (and (rules.map not))
  | twice (rule : Rule) : Pushes (not (not rule)) rule
  | underNot {rule rule' : Rule} (h : Pushes rule rule') : Pushes (not rule) (not rule')
  | underAnd {rule rule' : Rule} (front back : List Rule) (h : Pushes rule rule') :
      Pushes (and (front ++ rule :: back)) (and (front ++ rule' :: back))
  | underOr {rule rule' : Rule} (front back : List Rule) (h : Pushes rule rule') :
      Pushes (or (front ++ rule :: back)) (or (front ++ rule' :: back))

/-- Negations stand above comparisons only. -/
inductive Inward : Rule → Prop
  | and {rules : List Rule} (h : ∀ r ∈ rules, Inward r) : Inward (and rules)
  | or {rules : List Rule} (h : ∀ r ∈ rules, Inward r) : Inward (or rules)
  | data (subject : Path) (test : Test) : Inward (data subject test)
  | notData (subject : Path) (test : Test) : Inward (not (data subject test))

mutual

/-- The rule, or its negation, with every negation moved to the comparisons. -/
def inwardAs (negated : Bool) : Rule → Rule
  | and rules => joined (!negated) (inwardItems negated rules)
  | or rules => joined negated (inwardItems negated rules)
  | not rule => inwardAs (!negated) rule
  | data subject test => if negated then not (data subject test) else data subject test

def inwardItems (negated : Bool) : List Rule → List Rule
  | [] => []
  | rule :: rest => inwardAs negated rule :: inwardItems negated rest

end

/-- The rule with every negation moved to the comparisons. -/
def inward (rule : Rule) : Rule := rule.inwardAs false

/-- The rule or its negation. -/
def signed (negated : Bool) (rule : Rule) : Rule := if negated then not rule else rule

theorem inwardItems_eq_map (negated : Bool) (rules : List Rule) :
    inwardItems negated rules = rules.map (inwardAs negated) := by
  induction rules with
  | nil => rfl
  | cons rule rest ih => simp [inwardItems, ih]

/-! ### Negated outcomes -/

/-- The outcome, its answer negated; an error stays. -/
def negateIf (negated : Bool) (outcome : Except EvaluationError Bool) :
    Except EvaluationError Bool := outcome.map (negated ^^ ·)

variable {context input : Document}

theorem negateIf_false (outcome : Except EvaluationError Bool) : negateIf false outcome = outcome := by
  cases outcome <;> simp [negateIf, Except.map]

theorem negateIf_eq_ok {negated pass : Bool} {outcome : Except EvaluationError Bool} :
    negateIf negated outcome = .ok (negated ^^ pass) ↔ outcome = .ok pass := by
  cases outcome <;> simp [negateIf, Except.map]

theorem holds_not (rule : Rule) :
    (not rule).holds context input = negateIf true (rule.holds context input) := by
  rw [holds]
  cases rule.holds context input <;> simp [negateIf, Except.map, bind, Except.bind, pure, Except.pure]

theorem negateIf_negateIf (a b : Bool) (outcome : Except EvaluationError Bool) :
    negateIf a (negateIf b outcome) = negateIf (a ^^ b) outcome := by
  cases outcome <;> simp [negateIf, Except.map]

/-- Rules whose outcomes are negated are read up to the same place. -/
theorem joined_map (negated pass : Bool) (f : Rule → Rule) {rules : List Rule}
    (h : ∀ r ∈ rules, (f r).holds context input = negateIf negated (r.holds context input)) :
    (joined (negated ^^ pass) (rules.map f)).holds context input =
      negateIf negated ((joined pass rules).holds context input) := by
  induction rules with
  | nil => rw [List.map_nil, joined_nil, joined_nil]; rfl
  | cons rule rules ih =>
    obtain ⟨hrule, hrules⟩ := List.forall_mem_cons.1 h
    rw [List.map_cons]
    by_cases hpass : rule.holds context input = .ok pass
    · have hpass' : (f rule).holds context input = .ok (negated ^^ pass) := by
        rw [hrule, negateIf_eq_ok]; exact hpass
      rw [joined_cons_of_pass hpass, joined_cons_of_pass hpass', ih hrules]
    · have hstop : (f rule).holds context input ≠ .ok (negated ^^ pass) := by
        rw [hrule, ne_eq, negateIf_eq_ok]; exact hpass
      rw [joined_cons_of_stop hpass, joined_cons_of_stop hstop, hrule]

mutual

theorem holds_inwardAs (negated : Bool) : ∀ rule : Rule,
    (rule.inwardAs negated).holds context input = negateIf negated (rule.holds context input)
  | and rules => by
    have h := joined_map negated true (inwardAs negated) (holds_inwardItems negated rules)
    rw [inwardAs, inwardItems_eq_map, ← Bool.xor_true]
    exact h
  | or rules => by
    have h := joined_map negated false (inwardAs negated) (holds_inwardItems negated rules)
    rw [inwardAs, inwardItems_eq_map]
    rwa [Bool.xor_false] at h
  | not rule => by
    rw [inwardAs, holds_inwardAs (!negated) rule, holds_not, negateIf_negateIf, Bool.xor_true]
  | data subject test => by
    cases negated with
    | false => rw [negateIf_false]; rfl
    | true => exact holds_not (data subject test)

theorem holds_inwardItems (negated : Bool) : ∀ rules : List Rule, ∀ r ∈ rules,
    (r.inwardAs negated).holds context input = negateIf negated (r.holds context input)
  | [] => List.forall_mem_nil _
  | rule :: rest =>
    List.forall_mem_cons.2 ⟨holds_inwardAs negated rule, holds_inwardItems negated rest⟩

end

theorem holds_inward (rule : Rule) :
    rule.inward.holds context input = rule.holds context input := by
  rw [inward, holds_inwardAs, negateIf_false]

/-! ### One normal form -/

open Relation (ReflTransGen)

/-- A step does not change where the negations end up. -/
theorem Pushes.inwardAs_eq {rule rule' : Rule} (h : Pushes rule rule') (negated : Bool) :
    rule.inwardAs negated = rule'.inwardAs negated := by
  induction h generalizing negated with
  | overAnd rules =>
    simp only [inwardAs, inwardItems_eq_map, List.map_map, Bool.not_not]
    rfl
  | overOr rules =>
    simp only [inwardAs, inwardItems_eq_map, List.map_map]
    rfl
  | twice rule => simp only [inwardAs, Bool.not_not]
  | underNot _ ih => simp only [inwardAs, ih]
  | underAnd front back _ ih =>
    simp only [inwardAs, inwardItems_eq_map, List.map_append, List.map_cons, ih]
  | underOr front back _ ih =>
    simp only [inwardAs, inwardItems_eq_map, List.map_append, List.map_cons, ih]

theorem inward_eq_of_pushes {rule rule' : Rule} (h : ReflTransGen Pushes rule rule') :
    rule.inward = rule'.inward := by
  induction h with
  | refl => rfl
  | tail _ hstep ih => exact ih.trans (hstep.inwardAs_eq false)

theorem Inward.inward_eq {rule : Rule} (h : rule.Inward) : rule.inward = rule := by
  unfold inward
  induction h with
  | and _ ih => rw [inwardAs, inwardItems_eq_map, List.map_congr_left ih, List.map_id']; rfl
  | or _ ih => rw [inwardAs, inwardItems_eq_map, List.map_congr_left ih, List.map_id']; rfl
  | data => rfl
  | notData => rfl

mutual

theorem inward_inwardAs (negated : Bool) : ∀ rule : Rule, (rule.inwardAs negated).Inward
  | and rules => by
    rw [inwardAs, inwardItems_eq_map]
    cases negated with
    | false => exact .and (List.forall_mem_map.2 (inward_inwardItems false rules))
    | true => exact .or (List.forall_mem_map.2 (inward_inwardItems true rules))
  | or rules => by
    rw [inwardAs, inwardItems_eq_map]
    cases negated with
    | false => exact .or (List.forall_mem_map.2 (inward_inwardItems false rules))
    | true => exact .and (List.forall_mem_map.2 (inward_inwardItems true rules))
  | not rule => inward_inwardAs (!negated) rule
  | data subject test => by
    cases negated with
    | false => exact .data subject test
    | true => exact .notData subject test

theorem inward_inwardItems (negated : Bool) : ∀ rules : List Rule,
    ∀ r ∈ rules, (r.inwardAs negated).Inward
  | [] => List.forall_mem_nil _
  | rule :: rest =>
    List.forall_mem_cons.2 ⟨inward_inwardAs negated rule, inward_inwardItems negated rest⟩

end

/-- Steps among the children of a node, one child after the other. -/
theorem pushes_joined (pass : Bool) {rules rules' : List Rule}
    (h : List.Forall₂ (ReflTransGen Pushes) rules rules') (front : List Rule) :
    ReflTransGen Pushes (joined pass (front ++ rules)) (joined pass (front ++ rules')) := by
  induction h generalizing front with
  | nil => exact .refl
  | @cons rule rule' rules rules' hrule _ ih =>
    have hfirst : ReflTransGen Pushes (joined pass (front ++ rule :: rules))
        (joined pass (front ++ rule' :: rules)) := by
      refine hrule.lift (fun r => joined pass (front ++ r :: rules)) fun r r' hstep => ?_
      cases pass with
      | true => exact .underAnd front rules hstep
      | false => exact .underOr front rules hstep
    have hrest := ih (front ++ [rule'])
    rw [List.append_assoc, List.append_assoc] at hrest
    exact hfirst.trans hrest

/-- A negation goes into a node as a negation of each child. -/
theorem pushes_signed_joined (negated pass : Bool) (rules : List Rule) :
    ReflTransGen Pushes (signed negated (joined pass rules))
      (joined (negated ^^ pass) (rules.map (signed negated))) := by
  cases negated with
  | false =>
    have hmap : rules.map (signed false) = rules := List.map_id _
    rw [Bool.false_xor, hmap]
    exact .refl
  | true =>
    cases pass with
    | true => exact .single (.overAnd rules)
    | false => exact .single (.overOr rules)

mutual

theorem pushes_inwardAs (negated : Bool) : ∀ rule : Rule,
    ReflTransGen Pushes (signed negated rule) (rule.inwardAs negated)
  | and rules => by
    have hitems := pushes_joined (negated ^^ true) (pushes_inwardItems negated rules) []
    rw [inwardAs, ← Bool.xor_true]
    exact (pushes_signed_joined negated true rules).trans hitems
  | or rules => by
    have hitems := pushes_joined (negated ^^ false) (pushes_inwardItems negated rules) []
    rw [Bool.xor_false] at hitems
    have hnode := pushes_signed_joined negated false rules
    rw [Bool.xor_false] at hnode
    rw [inwardAs]
    exact hnode.trans hitems
  | not rule => by
    rw [inwardAs]
    cases negated with
    | false => exact pushes_inwardAs true rule
    | true => exact .head (.twice rule) (pushes_inwardAs false rule)
  | data subject test => by
    rw [inwardAs]
    exact .refl

theorem pushes_inwardItems (negated : Bool) : ∀ rules : List Rule,
    List.Forall₂ (ReflTransGen Pushes) (rules.map (signed negated)) (inwardItems negated rules)
  | [] => .nil
  | rule :: rest => .cons (pushes_inwardAs negated rule) (pushes_inwardItems negated rest)

end

theorem pushes_inward_iff {rule form : Rule} :
    ReflTransGen Pushes rule form ∧ form.Inward ↔ form = rule.inward := by
  constructor
  · rintro ⟨hsteps, hform⟩
    rw [inward_eq_of_pushes hsteps, hform.inward_eq]
  · rintro rfl
    exact ⟨pushes_inwardAs false rule, inward_inwardAs false rule⟩

theorem holds_eq_of_pushes {rule form : Rule} (h : ReflTransGen Pushes rule form) :
    form.holds context input = rule.holds context input := by
  rw [← holds_inward form, ← inward_eq_of_pushes h, holds_inward]

/-- Negation goes inwards unseen. The steps lead from a rule to one rule in which negations stand above
comparisons only, and every rule on the way, this one included, comes to what the first one comes to,
be it an answer or an error. What a node comes to is settled by its children in their order: a conjunction
reads on at true, a disjunction at false, and the first other outcome, an error or the other answer, is
that of the node. -/
theorem holds_pushed_inward (rule : Rule) :
    (∀ form, ReflTransGen Pushes rule form ∧ form.Inward ↔ form = rule.inward) ∧
    (∀ context input, rule.inward.holds context input = rule.holds context input) ∧
    (∀ form, ReflTransGen Pushes rule form →
      ∀ context input, form.holds context input = rule.holds context input) ∧
    ∀ context input rules outcome,
      ((and rules).holds context input = outcome ↔ Scans context input true rules outcome) ∧
      ((or rules).holds context input = outcome ↔ Scans context input false rules outcome) ∧
      (not rule).holds context input = negateIf true (rule.holds context input) :=
  ⟨fun _ => pushes_inward_iff, fun _ _ => holds_inward rule, fun _ h _ _ => holds_eq_of_pushes h,
    fun _ _ _ _ => ⟨joined_eq_iff true, joined_eq_iff false, holds_not rule⟩⟩

/-- Is the member a text? -/
private def isText (name : String) : Rule :=
  data ⟨"$." ++ name, false, [.child (.key (.name name))]⟩ (.isString true)

theorem holds_pushed_inward_missing :
    ReflTransGen Pushes (not (and [isText "a", not (isText "b")])) (or [not (isText "a"), isText "b"]) ∧
    (or [not (isText "a"), isText "b"]).holds .null .null = .error (.variableNotFound "$.a") ∧
    (not (and [isText "a", not (isText "b")])).holds .null .null = .error (.variableNotFound "$.a") := by
  have hsteps : ReflTransGen Pushes (not (and [isText "a", not (isText "b")]))
      (or [not (isText "a"), isText "b"]) :=
    .head (.overAnd _) (.single (.underOr [not (isText "a")] [] (.twice (isText "b"))))
  have hform : (or [not (isText "a"), isText "b"]).holds .null .null = .error (.variableNotFound "$.a") := rfl
  exact ⟨hsteps, hform, by rw [← (holds_pushed_inward _).2.2.1 _ hsteps, hform]⟩

end Rule

end StepFlow
