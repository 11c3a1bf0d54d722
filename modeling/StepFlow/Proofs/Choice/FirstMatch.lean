import Mathlib.Data.List.Basic
import StepFlow.Execution.Flow

/-!
# The rule that decides

A Choice state reads its rules in their order for as long as they come to false. The first rule that does
not decides: the state goes on by this rule if it is true and is aborted if it cannot be evaluated. If all
are false it goes on by its default, or is aborted for want of one. Exactly one of these verdicts is reached
(`ChoiceState.existsUnique_reaches`).

The name that a state goes to does not tell by which rule it goes, as several rules and the default may have
that name. `ChoiceState.renamed` gives each of them a name of one's own choosing: a state goes on by a rule if
it goes to whatever this rule is made to lead to.
-/

namespace StepFlow
namespace ChoiceState

variable {s : ChoiceState} {name : String} {context input : Document}

/-- What the rules of a Choice state come to: one holds, one cannot be evaluated, or all are false. -/
inductive Verdict where
  | rule (i : Nat)
  | failure (i : Nat) (e : EvaluationError)
  | allFalse

/-- What the rules come to one by one, on what the state sees of its input. -/
def answers (s : ChoiceState) (context input : Document) : List (Except EvaluationError Bool) :=
  s.choices.map fun c => c.rule.holds context (s.filters.input context input)

/-- What the state passes on, wherever it goes. -/
def passedOn (s : ChoiceState) (context input : Document) : Document :=
  s.filters.output context (s.filters.input context input)

/-- The first answer that is not false stands at place `i`. -/
def DecidedAt (s : ChoiceState) (context input : Document) (i : Nat) (answer : Except EvaluationError Bool) :
    Prop :=
  (s.answers context input)[i]? = some answer ∧ ∀ j < i, (s.answers context input)[j]? = some (.ok false)

def Reaches (s : ChoiceState) (context input : Document) : Verdict → Prop
  | .rule i => s.DecidedAt context input i (.ok true)
  | .failure i e => s.DecidedAt context input i (.error e)
  | .allFalse => ∀ answer ∈ s.answers context input, answer = .ok false

/-- The state with other names to go to: one for each rule, and one for the default if there is one. -/
def renamed (s : ChoiceState) (next : Nat → String) (default : String) : ChoiceState :=
  { s with choices := s.choices.mapIdx fun i c => ⟨c.rule, next i⟩, default := s.default.map fun _ => default }

/-- The state with other rules after the first `n`, and another default. -/
def continued (s : ChoiceState) (n : Nat) (later : List Choice) (default : Option String) : ChoiceState :=
  { s with choices := s.choices.take n ++ later, default := default }

/-! ### One verdict -/

variable {i j : Nat} {a b : Except EvaluationError Bool} {v w : Verdict}

theorem DecidedAt.lt_length (h : s.DecidedAt context input i a) : i < s.choices.length := by
  have hlt := (List.getElem?_eq_some_iff.1 h.1).1
  rwa [answers, List.length_map] at hlt

theorem DecidedAt.unique (ha : s.DecidedAt context input i a) (hb : s.DecidedAt context input j b)
    (hna : a ≠ .ok false) (hnb : b ≠ .ok false) : i = j ∧ a = b := by
  obtain ⟨hi, hbefore⟩ := ha
  obtain ⟨hj, hbefore'⟩ := hb
  rcases Nat.lt_trichotomy i j with hlt | rfl | hgt
  · exact absurd (Option.some.inj (hi.symm.trans (hbefore' i hlt))) hna
  · exact ⟨rfl, Option.some.inj (hi.symm.trans hj)⟩
  · exact absurd (Option.some.inj (hj.symm.trans (hbefore j hgt))) hnb

theorem DecidedAt.not_allFalse (h : s.DecidedAt context input i a) (hne : a ≠ .ok false) :
    ¬ s.Reaches context input .allFalse :=
  fun hall => hne (hall a (List.mem_of_getElem? h.1))

theorem Reaches.unique (hv : s.Reaches context input v) (hw : s.Reaches context input w) : v = w := by
  cases v with
  | rule i =>
    cases w with
    | rule j => obtain ⟨rfl, -⟩ := DecidedAt.unique hv hw nofun nofun; rfl
    | failure j e => obtain ⟨-, ⟨⟩⟩ := DecidedAt.unique hv hw nofun nofun
    | allFalse => exact absurd hw (DecidedAt.not_allFalse hv nofun)
  | failure i e =>
    cases w with
    | rule j => obtain ⟨-, ⟨⟩⟩ := DecidedAt.unique hv hw nofun nofun
    | failure j e' => obtain ⟨rfl, ⟨⟩⟩ := DecidedAt.unique hv hw nofun nofun; rfl
    | allFalse => exact absurd hw (DecidedAt.not_allFalse hv nofun)
  | allFalse =>
    cases w with
    | rule j => exact absurd hv (DecidedAt.not_allFalse hw nofun)
    | failure j e => exact absurd hv (DecidedAt.not_allFalse hw nofun)
    | allFalse => rfl

theorem exists_decidedAt_or_allFalse (s : ChoiceState) (context input : Document) :
    (∃ i a, s.DecidedAt context input i a ∧ a ≠ .ok false) ∨ s.Reaches context input .allFalse := by
  unfold DecidedAt Reaches
  generalize s.answers context input = answers
  induction answers with
  | nil => exact .inr (List.forall_mem_nil _)
  | cons answer rest ih =>
    by_cases h : answer = .ok false
    · rcases ih with ⟨i, a, ⟨hi, hbefore⟩, hne⟩ | hall
      · refine .inl ⟨i + 1, a, ⟨hi, fun j hj => ?_⟩, hne⟩
        cases j with
        | zero => rw [List.getElem?_cons_zero, h]
        | succ j => exact hbefore j (Nat.lt_of_succ_lt_succ hj)
      · exact .inr (List.forall_mem_cons.2 ⟨h, hall⟩)
    · exact .inl ⟨0, answer, ⟨rfl, fun j hj => absurd hj (Nat.not_lt_zero j)⟩, h⟩

theorem existsUnique_reaches (s : ChoiceState) (context input : Document) :
    ∃! v, s.Reaches context input v := by
  refine existsUnique_of_exists_of_unique ?_ fun v w => Reaches.unique
  rcases exists_decidedAt_or_allFalse s context input with ⟨i, a, h, hne⟩ | hall
  · rcases a with e | _ | _
    · exact ⟨.failure i e, h⟩
    · exact absurd rfl hne
    · exact ⟨.rule i, h⟩
  · exact ⟨.allFalse, hall⟩

/-! ### The run of the state -/

/-- Rules that are false are passed over. -/
theorem firstMatch_drop {choices : List Choice} {n : Nat} (h : ∀ j < n,
    (choices.map fun c => c.rule.holds context input)[j]? = some (.ok false)) :
    firstMatch context input choices = firstMatch context input (choices.drop n) := by
  induction n generalizing choices with
  | zero => rfl
  | succ n ih =>
    cases choices with
    | nil => rfl
    | cons c rest =>
      have hc : c.rule.holds context input = .ok false := Option.some.inj (h 0 n.succ_pos)
      rw [firstMatch, hc, List.drop_succ_cons, ← ih fun j hj => h (j + 1) (Nat.succ_lt_succ hj)]
      rfl

theorem DecidedAt.firstMatch_eq (h : s.DecidedAt context input i a) (hne : a ≠ .ok false) {c : Choice}
    (hc : s.choices[i]? = some c) :
    firstMatch context (s.filters.input context input) s.choices = a.map fun _ => some c.next := by
  obtain ⟨hi, hbefore⟩ := h
  obtain ⟨hlt, rfl⟩ := List.getElem?_eq_some_iff.1 hc
  have ha : s.choices[i].rule.holds context (s.filters.input context input) = a := by
    rw [answers, List.getElem?_map, hc] at hi
    exact Option.some.inj hi
  rw [firstMatch_drop hbefore, List.drop_eq_getElem_cons hlt, firstMatch, ha]
  rcases a with e | _ | _
  · rfl
  · exact absurd rfl hne
  · rfl

theorem firstMatch_of_allFalse (h : s.Reaches context input .allFalse) :
    firstMatch context (s.filters.input context input) s.choices = .ok none := by
  have hbefore : ∀ j < s.choices.length, (s.answers context input)[j]? = some (.ok false) := by
    intro j hj
    have hj' : j < (s.answers context input).length := by rwa [answers, List.length_map]
    rw [List.getElem?_eq_getElem hj', h _ (List.getElem_mem hj')]
  rw [firstMatch_drop hbefore, List.drop_length, firstMatch]

theorem run_of_rule (h : s.Reaches context input (.rule i)) {c : Choice} (hc : s.choices[i]? = some c) :
    s.run name context input = .ok ⟨some c.next, s.passedOn context input⟩ := by
  have hfirst := DecidedAt.firstMatch_eq h nofun hc
  simp only [run, hfirst]
  rfl

theorem run_of_failure {e : EvaluationError} (h : s.Reaches context input (.failure i e)) :
    s.run name context input = .error (.evaluation name e) := by
  have hfirst := DecidedAt.firstMatch_eq h nofun (List.getElem?_eq_getElem (DecidedAt.lt_length h))
  simp only [run, hfirst]
  rfl

theorem run_of_allFalse (h : s.Reaches context input .allFalse) :
    s.run name context input = match s.default with
      | some next => .ok ⟨some next, s.passedOn context input⟩
      | none => .error (.noChoiceMatched name) := by
  simp only [run, firstMatch_of_allFalse h]
  cases s.default <;> rfl

/-! ### Other names, other rules -/

@[simp] theorem answers_renamed (next : Nat → String) (default : String) :
    (s.renamed next default).answers context input = s.answers context input := by
  refine List.ext_getElem? fun i => ?_
  simp only [answers, renamed, List.getElem?_map, List.getElem?_mapIdx, Option.map_map]
  rfl

theorem reaches_renamed (next : Nat → String) (default : String) :
    (s.renamed next default).Reaches context input v ↔ s.Reaches context input v := by
  cases v <;> simp only [Reaches, DecidedAt, answers_renamed]

theorem DecidedAt.continued (h : s.DecidedAt context input i a) (later : List Choice)
    (default : Option String) : (s.continued (i + 1) later default).DecidedAt context input i a := by
  have heq : ∀ j ≤ i, ((s.continued (i + 1) later default).answers context input)[j]? =
      (s.answers context input)[j]? := by
    intro j hj
    have hlt : j < (s.choices.take (i + 1)).length := by
      have := h.lt_length
      rw [List.length_take]
      omega
    simp only [answers, ChoiceState.continued, List.getElem?_map, List.getElem?_append_left hlt,
      List.getElem?_take_of_lt (Nat.lt_succ_of_le hj)]
  exact ⟨(heq i i.le_refl).trans h.1, fun j hj => (heq j (Nat.le_of_lt hj)).trans (h.2 j hj)⟩

theorem getElem?_continued (hi : i < s.choices.length) (later : List Choice) (default : Option String) :
    (s.continued (i + 1) later default).choices[i]? = s.choices[i]? := by
  have hlt : i < (s.choices.take (i + 1)).length := by
    rw [List.length_take]
    omega
  rw [continued, List.getElem?_append_left hlt, List.getElem?_take_of_lt (Nat.lt_succ_self i)]

/-! ### What a name tells -/

/-- The state goes on by rule `i`: to whatever this rule is made to lead to. -/
def GoesBy (s : ChoiceState) (name : String) (context input : Document) (i : Nat) : Prop :=
  ∀ next default,
    (s.renamed next default).run name context input = .ok ⟨some (next i), s.passedOn context input⟩

/-- The state goes to its default, whatever this is made to be. -/
def GoesToDefault (s : ChoiceState) (name : String) (context input : Document) : Prop :=
  ∀ next default,
    (s.renamed next default).run name context input = .ok ⟨some default, s.passedOn context input⟩

theorem run_renamed_of_rule (h : s.Reaches context input (.rule i)) (next : Nat → String)
    (default : String) : (s.renamed next default).run name context input =
      .ok ⟨some (next i), s.passedOn context input⟩ := by
  have hi : (s.renamed next default).choices[i]? = some ⟨(s.choices.get ⟨i, h.lt_length⟩).rule, next i⟩ := by
    rw [renamed, List.getElem?_mapIdx, List.getElem?_eq_getElem h.lt_length]
    rfl
  exact run_of_rule ((reaches_renamed next default).2 h) hi

theorem goesBy_iff : s.GoesBy name context input i ↔ s.Reaches context input (.rule i) := by
  refine ⟨fun h => ?_, run_renamed_of_rule⟩
  -- Under these names nothing but rule `i` leads to "chosen".
  have hrun := h (fun j => if j = i then "chosen" else "other") "other"
  rw [if_pos rfl] at hrun
  obtain ⟨v, hv, -⟩ := existsUnique_reaches s context input
  have hv' := (reaches_renamed (fun j => if j = i then "chosen" else "other") "other").2 hv
  cases v with
  | rule j =>
    rw [run_renamed_of_rule hv] at hrun
    by_cases hj : j = i
    · exact hj ▸ hv
    · rw [if_neg hj] at hrun
      exact absurd hrun (by simp)
  | failure j e => rw [run_of_failure hv'] at hrun; cases hrun
  | allFalse =>
    rw [run_of_allFalse hv', renamed] at hrun
    cases hdefault : s.default <;> simp [hdefault] at hrun

theorem goesToDefault_iff : s.GoesToDefault name context input ↔
    s.Reaches context input .allFalse ∧ s.default.isSome = true := by
  constructor
  · intro h
    have hrun := h (fun _ => "other") "chosen"
    obtain ⟨v, hv, -⟩ := existsUnique_reaches s context input
    have hv' := (reaches_renamed (fun _ => "other") "chosen").2 hv
    cases v with
    | rule j => rw [run_renamed_of_rule hv] at hrun; exact absurd hrun (by simp)
    | failure j e => rw [run_of_failure hv'] at hrun; cases hrun
    | allFalse =>
      refine ⟨hv, ?_⟩
      rw [run_of_allFalse hv', renamed] at hrun
      cases hdefault : s.default with
      | none => simp [hdefault] at hrun
      | some d => rfl
  · rintro ⟨hall, hdefault⟩ next default
    obtain ⟨d, hd⟩ := Option.isSome_iff_exists.1 hdefault
    rw [run_of_allFalse ((reaches_renamed next default).2 hall), renamed, hd]
    rfl

/-! ### All that a Choice state does -/

theorem run_cases (s : ChoiceState) (name : String) (context input : Document) :
    (∃ i c, s.Reaches context input (.rule i) ∧ s.choices[i]? = some c ∧
      s.run name context input = .ok ⟨some c.next, s.passedOn context input⟩) ∨
    (∃ i e, s.Reaches context input (.failure i e) ∧
      s.run name context input = .error (.evaluation name e)) ∨
    s.Reaches context input .allFalse ∧
      ((∃ d, s.default = some d ∧ s.run name context input = .ok ⟨some d, s.passedOn context input⟩) ∨
        s.default = none ∧ s.run name context input = .error (.noChoiceMatched name)) := by
  obtain ⟨v, hv, -⟩ := existsUnique_reaches s context input
  cases v with
  | rule i =>
    have hi := List.getElem?_eq_getElem (DecidedAt.lt_length hv)
    exact .inl ⟨i, _, hv, hi, run_of_rule hv hi⟩
  | failure i e => exact .inr (.inl ⟨i, e, hv, run_of_failure hv⟩)
  | allFalse =>
    refine .inr (.inr ⟨hv, ?_⟩)
    rw [run_of_allFalse hv]
    cases hdefault : s.default with
    | none => exact .inr ⟨rfl, rfl⟩
    | some d => exact .inl ⟨d, rfl, rfl⟩

/-- Neither the rules after the one that decides nor the default have a part in it. -/
theorem run_continued (h : s.DecidedAt context input i a) (hne : a ≠ .ok false) (later : List Choice)
    (default : Option String) :
    (s.continued (i + 1) later default).run name context input = s.run name context input := by
  have h' := h.continued later default
  rcases a with e | _ | _
  · rw [run_of_failure h, run_of_failure h']
  · exact absurd rfl hne
  · have hi := List.getElem?_eq_getElem h.lt_length
    rw [run_of_rule h hi, run_of_rule h' ((getElem?_continued h.lt_length later default).trans hi)]
    rfl

/-- The first rule that is not false decides. -/
structure FirstDecides (s : ChoiceState) (name : String) (context input : Document) : Prop where
  oneVerdict : ∃! v, s.Reaches context input v
  byRule : ∀ i, s.GoesBy name context input i ↔ s.Reaches context input (.rule i)
  toNext : ∀ i c, s.Reaches context input (.rule i) → s.choices[i]? = some c →
    s.run name context input = .ok ⟨some c.next, s.passedOn context input⟩
  aborted : ∀ e, s.run name context input = .error (.evaluation name e) ↔
    ∃ i, s.Reaches context input (.failure i e)
  byDefault : s.GoesToDefault name context input ↔
    s.Reaches context input .allFalse ∧ s.default.isSome = true
  toDefault : ∀ d, s.Reaches context input .allFalse → s.default = some d →
    s.run name context input = .ok ⟨some d, s.passedOn context input⟩
  unmatched : s.run name context input = .error (.noChoiceMatched name) ↔
    s.Reaches context input .allFalse ∧ s.default = none
  noOtherError : ∀ error, s.run name context input = .error error →
    (∃ e, error = .evaluation name e) ∨ error = .noChoiceMatched name
  output : ∀ outcome, s.run name context input = .ok outcome → outcome.output = s.passedOn context input
  later : ∀ i, s.Reaches context input (.rule i) ∨ (∃ e, s.Reaches context input (.failure i e)) →
    ∀ later default, (s.continued (i + 1) later default).run name context input = s.run name context input

theorem run_decided_by_first (s : ChoiceState) (name : String) (context input : Document) :
    s.FirstDecides name context input where
  oneVerdict := existsUnique_reaches s context input
  byRule _ := goesBy_iff
  toNext _ _ h hc := run_of_rule h hc
  aborted e := by
    refine ⟨fun hrun => ?_, fun ⟨_, h⟩ => run_of_failure h⟩
    rcases run_cases s name context input with ⟨_, _, _, _, h⟩ | ⟨i, e', hi, h⟩ | ⟨_, ⟨_, _, h⟩ | ⟨_, h⟩⟩
    · cases h.symm.trans hrun
    · cases h.symm.trans hrun
      exact ⟨i, hi⟩
    · cases h.symm.trans hrun
    · cases h.symm.trans hrun
  byDefault := goesToDefault_iff
  toDefault d h hd := by
    rw [run_of_allFalse h, hd]
  unmatched := by
    constructor
    · intro hrun
      rcases run_cases s name context input with ⟨_, _, _, _, h⟩ | ⟨_, _, _, h⟩ | ⟨hall, ⟨_, _, h⟩ | ⟨hd, _⟩⟩
      · cases h.symm.trans hrun
      · cases h.symm.trans hrun
      · cases h.symm.trans hrun
      · exact ⟨hall, hd⟩
    · rintro ⟨hall, hd⟩
      rw [run_of_allFalse hall, hd]
  noOtherError error hrun := by
    rcases run_cases s name context input with ⟨_, _, _, _, h⟩ | ⟨_, e, _, h⟩ | ⟨_, ⟨_, _, h⟩ | ⟨_, h⟩⟩
    · cases h.symm.trans hrun
    · cases h.symm.trans hrun
      exact .inl ⟨e, rfl⟩
    · cases h.symm.trans hrun
    · cases h.symm.trans hrun
      exact .inr rfl
  output outcome hrun := by
    rcases run_cases s name context input with ⟨_, _, _, _, h⟩ | ⟨_, _, _, h⟩ | ⟨_, ⟨_, _, h⟩ | ⟨_, h⟩⟩
    all_goals cases h.symm.trans hrun
    all_goals rfl
  later i h later default := by
    rcases h with h | ⟨e, h⟩
    · exact run_continued h nofun later default
    · exact run_continued h nofun later default

end ChoiceState
end StepFlow
