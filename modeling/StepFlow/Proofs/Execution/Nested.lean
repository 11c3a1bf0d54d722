import StepFlow.Proofs.Execution.Onward
import StepFlow.Proofs.Execution.Recount

/-!
# Nested executions at every moment

An execution unfolds from `x` into `y` when its context is that of `x` with the records of the visits that
it has brought to their end, and when each attempt of these visits has launched nested executions which, at
that moment, unfold in their turn: each from a fork of the context that its parent had then
(`Execution.Unfolds`). Whatever an execution does, it unfolds (`drive_unfolds`, `step_unfolds`), and a
predicate that steps and launches carry on holds of all these executions at all moments.
-/

namespace StepFlow

/-- The execution that is seen where a process ends or is cut off. -/
def Ending.Shows {α : Type} : Ending Execution (Execution × α) → Execution → Prop
  | .finished (x, _), y => x = y
  | .cut x, y => x = y
  | .stuck, _ => False

/-- What a fork shares with the context of its parent `p`, and what is its own: no state is done, and an
iteration has the item of its number, a branch has none. -/
structure State.Forks (state : State) (input : Document) (p : Execution) (i : Nat) (z : Execution) : Prop where
  execution : z.context.execution = p.context.execution
  stateMachine : z.context.stateMachine = p.context.stateMachine
  states : z.context.states = []
  item : (∃ s v items item, state.action = .map s v ∧ Execution.items? s input p = some items ∧
      items[i]? = some item ∧ z.workflow = v ∧ z.context.item = some ⟨i, item⟩) ∨
    ∃ s branches, state.action = .parallel s branches ∧ branches[i]? = some z.workflow ∧
      z.context.item = none

theorem State.Launches.forks {state : State} {input : Document} {p z : Execution} {i : Nat}
    (h : state.Launches input p i z) : state.Forks input p i z := by
  cases h with
  | @iteration s v items item i action selected there =>
    unfold Execution.iteration
    cases s.itemSelector with
    | none => exact ⟨rfl, rfl, rfl, .inl ⟨s, v, items, item, action, selected, there, rfl, rfl⟩⟩
    | some selector => exact ⟨rfl, rfl, rfl, .inl ⟨s, v, items, item, action, selected, there, rfl, rfl⟩⟩
  | branch action there => exact ⟨rfl, rfl, rfl, .inr ⟨_, _, action, there, rfl⟩⟩

theorem State.Launches.tree {state : State} {input : Document} {p z : Execution} {i : Nat}
    (h : state.Launches input p i z) : z.TreeBehind := by
  cases h <;> exact .inl rfl

namespace Execution
open Process

/-- Besides the state under way, the context of `y` is that of `x` with the records of those of the visits
that were brought to their end. -/
structure Follows (x : Execution) (visits : List Account) (y : Execution) : Prop where
  workflow : y.workflow = x.workflow
  context : x.context.Extends y.context
  history : y.context.states.map StateRecord.gist =
    x.context.states.map StateRecord.gist ++ visits.filterMap Account.gist?

/-- `y` is the execution in the middle of the visit `a`, where paths read its context. -/
structure Amid (x : Execution) (before : List Account) (a : Account) (y : Execution) : Prop where
  follows : x.Follows before y
  name : y.context.state.name = a.name
  input : y.context.state.input = a.input
  tree : y.tree = y.context.toDocument

mutual

/-- An execution that was `x` and has done `acts` since then is `y`, and `P` holds of it and of its nested
executions all the time. -/
inductive Unfolds (setting : Setting) (P : Execution → Prop) : Execution → List Act → Execution → Prop where
  | intro {x y : Execution} (visits : List Account) (follows : x.Follows visits y) (holds : P y)
      (entered : ∀ (n : Nat) a, visits[n]? = some a → (x.workflow.state? a.name).isSome ∧
        ∃ p, x.Amid (visits.take n) a p ∧ P p)
      (nested : ∀ (n : Nat) a state, visits[n]? = some a → x.workflow.state? a.name = some state →
        ∀ k i, Inside setting P x (visits.take n) a state i (actsWithin ⟨k, i⟩ a.acts)) :
      Unfolds setting P x (x.performed visits) y

/-- What is done in the place number `i` of an attempt of the visit `a`: nothing, or it is done by an
execution launched there, into whatever this unfolds by it. -/
inductive Inside (setting : Setting) (P : Execution → Prop) :
    Execution → List Account → Account → State → Nat → List Act → Prop where
  | idle (x : Execution) (before : List Account) (a : Account) (state : State) (i : Nat) :
      Inside setting P x before a state i []
  | launched {x p z : Execution} {before : List Account} {a : Account} {state : State} {i budget : Nat}
      {acts : List Act} (amid : x.Amid before a p) (holds : P p) (forks : state.Forks a.input p i z)
      (does : ∃ e, (drive setting budget z).Does acts e)
      (unfolds : ∀ e y, (drive setting budget z).Does acts e → e.Shows y → Unfolds setting P z acts y) :
      Inside setting P x before a state i acts

end

variable {setting : Setting} {budget : Nat} {state : State} {x y z : Execution} {acts : List Act}

/-! ### What is launched in a step -/

theorem actsWithin_append (b : Branch) (acts acts' : List Act) :
    actsWithin b (acts ++ acts') = actsWithin b acts ++ actsWithin b acts' := List.filterMap_append ..

theorem catchFailure_within {r : Recovery} {name : String} {input : Document} {f : TaskFailure}
    {e : Ending Execution (Execution × Except RuntimeError Outcome)}
    (h : (catchFailure r name input f y).Does acts e) (b : Branch) : actsWithin b acts = [] := by
  unfold catchFailure at h
  split at h
  · cases h
    rfl
  · split at h
    · cases h
      rfl
    · obtain ⟨acts', rfl, hdone⟩ := Does.of_tell h
      cases hdone
      rfl

/-- What is done in the place `b` is nothing, or one attempt does it, of that number or a later one, when the
tree is that of the context. -/
def OfAttempts (run : Nat → Execution → Attempt) (x : Execution) (b : Branch) (attempt : Nat) (acts : List Act) :
    Prop :=
  actsWithin b acts = [] ∨ attempt ≤ b.attempt ∧ ∃ p acts' e', x.Attempting p ∧ p.tree = p.context.toDocument ∧
    (run b.attempt p).Does acts' e' ∧ actsWithin b acts = actsWithin b acts'

/-- The place is one of this attempt, or of a later one. -/
theorem OfAttempts.append {run : Nat → Execution → Attempt}
    (hplaces : ∀ k y acts e, (run k y).Does acts e → ∀ act ∈ acts, act.InAttempt k) {b : Branch} {attempt : Nat}
    (hy : x.Attempting y) (htree : y.tree = y.context.toDocument) {acts₁ acts₂ : List Act}
    {e : Ending Execution (Except TaskFailure Document)} (hrun : (run attempt y).Does acts₁ e)
    (hlater : OfAttempts run x b (attempt + 1) acts₂) : OfAttempts run x b attempt (acts₁ ++ acts₂) := by
  unfold OfAttempts
  rw [actsWithin_append]
  by_cases hb : b.attempt = attempt
  · rcases hlater with hnone | ⟨hle, -⟩
    · rw [hnone, List.append_nil]
      exact .inr ⟨hb.ge, y, acts₁, e, hy, htree, hb ▸ hrun, rfl⟩
    · omega
  · have hnone : actsWithin b acts₁ = [] := by
      refine actsWithin_eq_nil fun act hact heq => hb ?_
      cases hplaces _ _ _ _ hrun act hact with
      | asks => cases heq
      | event | call =>
        cases heq
        rfl
    rw [hnone, List.nil_append]
    exact hlater.imp_right fun ⟨hle, hp⟩ => ⟨Nat.le_of_succ_le hle, hp⟩

/-- Attempts one after the other do what each of them does. -/
theorem recoverable_within {run : Nat → Execution → Attempt}
    (hplaces : ∀ k y acts e, (run k y).Does acts e → ∀ act ∈ acts, act.InAttempt k)
    {transition : Transition} {r : Recovery} {name : String} {input : Document} {attempt : Nat}
    {last : Option Nat} {e : Ending Execution (Execution × Except RuntimeError Outcome)}
    (hy : x.Attempting y) (htree : y.TreeBehind)
    (h : (recoverable sync run transition r name input budget attempt last y).Does acts e) (b : Branch) :
    OfAttempts run x b attempt acts := by
  induction budget generalizing attempt last y acts with
  | zero => cases h
  | succ budget ih =>
    have hsync := hy.sync
    have htree' : y.sync.tree = y.sync.context.toDocument := by rw [htree.sync_tree, sync_context]
    rcases Does.of_bind h with ⟨acts₁, acts₂, result, rfl, hrun, h⟩ | ⟨seen, rfl, hrun⟩
    case inr =>
      have honly : OfAttempts run x b attempt (acts ++ []) := .append hplaces hsync htree' hrun (.inl rfl)
      rwa [List.append_nil] at honly
    refine .append hplaces hsync htree' hrun ?_
    cases result with
    | ok output =>
      cases h
      exact .inl rfl
    | error f =>
      dsimp only at h
      obtain ⟨count, patterns, hrecord⟩ := Remedy.ofFailure_record r f last y.sync.context.state
      generalize Remedy.ofFailure r f last y.sync.context.state = remedy at h hrecord
      cases remedy with
      | giveUp record => exact .inl (catchFailure_within h b)
      | retry position delay record =>
        obtain ⟨acts₃, rfl, hrest⟩ := Does.of_tell h
        have hnext : x.Attempting (y.sync.withRecord record) := by
          rw [show record = _ from hrecord]
          exact hsync.withRecord count patterns
        rcases Does.of_sleep hrest with hrest | ⟨rfl, -⟩
        · have hrest := ih hnext ((Onward.withRecord y.sync record).tree htree.sync) hrest
          exact hrest
        · exact .inl rfl

/-- What a visit does in one place among the nested executions, one does by itself that was launched there. -/
theorem runState_within {drive : Execution → Process Execution (Execution × Except RuntimeError Document)}
    {name : String} {input : Document} {e : Ending Execution (Execution × Except RuntimeError Outcome)}
    (htree : x.TreeBehind) (h : (runState drive setting budget name state input x).Does acts e) (k i : Nat) :
    actsWithin ⟨k, i⟩ acts = [] ∨ ∃ p z e', x.Attempting p ∧ p.tree = p.context.toDocument ∧
      state.Launches input p i z ∧ (drive z).Does (actsWithin ⟨k, i⟩ acts) e' := by
  have attempted {run : Nat → Execution → Attempt} {transition : Transition} {r : Recovery}
      (hrun : state.attempt? drive setting input = some run)
      (h : (recoverable sync run transition r name input budget 0 none x.sync).Does acts e) :
      actsWithin ⟨k, i⟩ acts = [] ∨ ∃ p z e', x.Attempting p ∧ p.tree = p.context.toDocument ∧
        state.Launches input p i z ∧ (drive z).Does (actsWithin ⟨k, i⟩ acts) e' := by
    rcases recoverable_within (fun k y acts e => attempt_places hrun) (attempting_sync x) htree.sync h ⟨k, i⟩
      with hnone | ⟨-, p, acts', e', hp, hptree, hdoes, hacts⟩
    · exact .inl hnone
    · rw [hacts]
      refine (attempt_within hrun hdoes i).imp_right ?_
      rintro ⟨z, e'', hz, hdrive⟩
      exact ⟨p, z, e'', hp, hptree, hz, hdrive⟩
  obtain ⟨comment, action⟩ := state
  unfold runState runStateVia at h
  dsimp only [State.action] at h
  cases action with
  | pass | choice | succeed | fail =>
    cases h
    exact .inl rfl
  | wait s =>
    dsimp only at h
    split at h
    · cases h
      exact .inl rfl
    · rcases Does.of_sleep h with h | ⟨rfl, -⟩
      · cases h
        exact .inl rfl
      · exact .inl rfl
  | task | map | parallel => exact attempted rfl h

theorem actsWithin_opening (b : Branch) (x : Execution) : actsWithin b x.opening = [] := by
  unfold opening
  split <;> rfl

theorem stepWith_within {drive : Execution → Process Execution (Execution × Except RuntimeError Document)}
    {e : Ending Execution (Execution × Except RuntimeError Status)} (hend : x.isEnd = false)
    (hstate : x.workflow.state? x.current = some state) (htree : x.TreeBehind)
    (h : (stepWith drive setting budget x).Does acts e) (k i : Nat) :
    actsWithin ⟨k, i⟩ acts = [] ∨ ∃ p z e', (x.visit setting).Attempting p ∧
      p.tree = p.context.toDocument ∧ state.Launches x.context.state.input p i z ∧
      (drive z).Does (actsWithin ⟨k, i⟩ acts) e' := by
  unfold stepWith stepWithVia at h
  rw [if_neg (by simp [hend]), hstate] at h
  obtain ⟨acts₁, rfl, hrest⟩ := begin_does hend h
  obtain ⟨acts₂, rfl, hvisit⟩ := Does.of_tell hrest
  have hvisited : (x.visit setting).TreeBehind := htree.extends' (.enter ..)
  have within (acts' acts'' : List Act) (h : actsWithin ⟨k, i⟩ acts'' = []) :
      actsWithin ⟨k, i⟩ (x.opening ++ .event [] (.stateStarted x.current state.type x.context.state.input) ::
        (acts' ++ acts'')) = actsWithin ⟨k, i⟩ acts' := by
    rw [actsWithin_append, actsWithin_opening, List.nil_append]
    show actsWithin ⟨k, i⟩ (acts' ++ acts'') = _
    rw [actsWithin_append, h, List.append_nil]
  rcases Does.of_bind hvisit with ⟨acts₃, acts₄, ⟨y, result⟩, rfl, hrun, hleave⟩ | ⟨y, rfl, hrun⟩
  · rw [within acts₃ acts₄]
    · exact runState_within hvisited hrun k i
    · cases result with
      | error err =>
        cases hleave
        rfl
      | ok outcome =>
        obtain ⟨acts₅, rfl, hdone⟩ := Does.of_tell hleave
        cases hdone
        rfl
  · have hcut := runState_within hvisited hrun k i
    have heq := within acts₂ [] rfl
    rw [List.append_nil] at heq
    rw [heq]
    exact hcut

/-! ### Unfolding -/

variable {P : Execution → Prop} {visits before : List Account} {a : Account}

namespace Follows

theorem refl (x : Execution) : x.Follows [] x := ⟨rfl, .refl _, (List.append_nil _).symm⟩

theorem trans {more : List Account} (h : x.Follows visits y) (h' : y.Follows more z) :
    x.Follows (visits ++ more) z where
  workflow := h'.workflow.trans h.workflow
  context := h.context.trans h'.context
  history := by rw [h'.history, h.history, List.append_assoc, List.filterMap_append]

theorem of_attempting (h : x.Attempting y) : x.Follows [] y := by
  obtain ⟨tree, count, patterns, rfl⟩ := h
  exact ⟨rfl, .withState _ _, (List.append_nil _).symm⟩

theorem visit (setting : Setting) (x : Execution) : x.Follows [] (x.visit setting) :=
  ⟨rfl, .enter _ _ _ _, (List.append_nil _).symm⟩

theorem of_visits (h : x.Visits setting y) : x.Follows [] y :=
  (visit setting x).trans (of_attempting h.attempting)

/-- A visit that has no outcome leaves no record. -/
theorem withoutOutcome (h : x.Follows [] y) (ha : a.way.outcome? = none) : x.Follows [a] y where
  workflow := h.workflow
  context := h.context
  history := by
    rw [h.history, List.filterMap_cons_none (by rw [Account.gist?, ha]; rfl)]

theorem withStatus (status : Status) (h : x.Follows visits y) : x.Follows visits { y with status } :=
  ⟨h.workflow, h.context, h.history⟩

theorem advance {outcome : Outcome} (h : x.Follows visits y) : x.Follows visits (y.advance state outcome).1 := by
  unfold Execution.advance
  split
  · split
    · exact ⟨h.workflow, h.context.trans (.withState _ _), h.history⟩
    · exact h.withStatus _
  · exact ⟨h.workflow, h.context, h.history⟩

/-- The record of a visit says what its outcome is. -/
theorem completed {outcome : Outcome} (h : x.Visits setting y) (hname : a.name = x.current)
    (hinput : a.input = x.context.state.input) (ha : a.way.outcome? = some outcome) :
    x.Follows [a] (y.completed setting outcome.output) := by
  have hy := of_visits h
  refine ⟨hy.workflow, hy.context.trans (.finish _ _ _), ?_⟩
  obtain ⟨r, hstates, hr⟩ := h.states_completed outcome.output
  rw [hstates, List.map_append, List.filterMap_cons_some (by rw [Account.gist?, ha]; rfl)]
  simp [StateRecord.gist, hr, hname, hinput]

end Follows

theorem Amid.after (h : x.Follows visits y) (hp : y.Amid before a z) : x.Amid (visits ++ before) a z :=
  ⟨h.trans hp.follows, hp.name, hp.input, hp.tree⟩

theorem Inside.after {i : Nat} (h : x.Follows visits y) (hinside : Inside setting P y before a state i acts) :
    Inside setting P x (visits ++ before) a state i acts := by
  cases hinside with
  | idle => exact .idle ..
  | launched amid holds forks does unfolds => exact .launched (amid.after h) holds forks does unfolds

/-- The visits, one after the other, unfold as they should. -/
structure Accounted (setting : Setting) (P : Execution → Prop) (x : Execution) (visits : List Account) :
    Prop where
  entered : ∀ (n : Nat) a, visits[n]? = some a → (x.workflow.state? a.name).isSome ∧
    ∃ p, x.Amid (visits.take n) a p ∧ P p
  nested : ∀ (n : Nat) a state, visits[n]? = some a → x.workflow.state? a.name = some state →
    ∀ k i, Inside setting P x (visits.take n) a state i (actsWithin ⟨k, i⟩ a.acts)

theorem Accounted.nil (setting : Setting) (P : Execution → Prop) (x : Execution) :
    Accounted setting P x [] where
  entered _ _ ha := nomatch ha
  nested _ _ _ ha := nomatch ha

theorem Accounted.singleton (hstate : x.workflow.state? a.name = some state) (hp : x.Amid [] a y) (hholds : P y)
    (hnested : ∀ k i, Inside setting P x [] a state i (actsWithin ⟨k, i⟩ a.acts)) : Accounted setting P x [a] := by
  have honly {n : Nat} {b : Account} (hb : [a][n]? = some b) : n = 0 ∧ b = a := by
    cases n with
    | zero => exact ⟨rfl, (Option.some.inj hb).symm⟩
    | succ n => cases hb
  refine ⟨fun n b hb => ?_, fun n b state' hb hstate' k i => ?_⟩
  · obtain ⟨rfl, rfl⟩ := honly hb
    exact ⟨Option.isSome_iff_exists.2 ⟨state, hstate⟩, y, hp, hholds⟩
  · obtain ⟨rfl, rfl⟩ := honly hb
    cases hstate.symm.trans hstate'
    exact hnested k i

theorem Accounted.cons (ha : Accounted setting P x [a]) (h : x.Follows [a] y)
    (hvisits : Accounted setting P y visits) : Accounted setting P x (a :: visits) where
  entered n b hb := by
    cases n with
    | zero => exact ha.entered 0 b hb
    | succ n =>
      obtain ⟨hstate, p, hp, hholds⟩ := hvisits.entered n b hb
      rw [h.workflow] at hstate
      exact ⟨hstate, p, hp.after h, hholds⟩
  nested n b state hb hstate k i := by
    cases n with
    | zero => exact ha.nested 0 b state hb hstate k i
    | succ n =>
      rw [← h.workflow] at hstate
      exact (hvisits.nested n b state hb hstate k i).after h

theorem Accounted.unfolds (hvisits : Accounted setting P x visits) (h : x.Follows visits y) (hy : P y) :
    Unfolds setting P x (x.performed visits) y := .intro visits h hy hvisits.entered hvisits.nested

/-- `P` is an invariant of steps, of the visits in them, and of launches. -/
structure Pervades (setting : Setting) (P : Execution → Prop) : Prop where
  visits : ∀ x y, P x → x.Visits setting y → P y
  step : ∀ budget x, P x → x.TreeBehind → (step setting budget x).Keeps { ends := fun r => P r.1 }
  launches : ∀ (p z : Execution) (state : State) (i : Nat), P p → p.tree = p.context.toDocument →
    p.workflow.state? p.context.state.name = some state → state.Launches p.context.state.input p i z → P z

theorem Pervades.shows (hP : Pervades setting P) (hx : P x) (htree : x.TreeBehind)
    {e : Ending Execution (Execution × Except RuntimeError Status)}
    (h : (Execution.step setting budget x).Does acts e) (hy : e.Shows y) : P y := by
  have hmeets := (h.keeps (hP.step budget x hx htree)).1
  have hstepped := (h.keeps (step_stepping setting budget x)).1
  cases e with
  | finished r =>
    cases hy
    exact hmeets
  | cut seen =>
    cases hy
    exact hP.visits x _ hx hstepped
  | stuck => exact hy.elim

theorem step_tree {e : Ending Execution (Execution × Except RuntimeError Status)} (hx : x.TreeBehind)
    (h : (step setting budget x).Does acts e) (hy : e.Shows y) : y.TreeBehind := by
  have hmeets := (h.keeps (step_onward setting budget x)).1
  cases e with
  | finished r =>
    cases hy
    exact Onward.tree hmeets hx
  | cut seen =>
    cases hy
    exact Onward.tree hmeets hx
  | stuck => exact hy.elim

/-- Where a step ends that visits a state, the execution has come by that visit. -/
theorem LeftBy.follows {e : Ending Execution (Execution × Except RuntimeError Status)}
    (h : x.LeftBy setting state a.way e) (hname : a.name = x.current) (hinput : a.input = x.context.state.input)
    (hy : e.Shows y) : x.Follows [a] y := by
  generalize hway : a.way = way at h
  cases h with
  | cut hvisit =>
    cases hy
    exact (Follows.of_visits hvisit).withoutOutcome (hway ▸ rfl)
  | aborted hvisit =>
    cases hy
    exact ((Follows.of_visits hvisit).withoutOutcome (hway ▸ rfl)).withStatus _
  | led hvisit houtcome =>
    cases hy
    exact (Follows.completed hvisit hname hinput (hway ▸ houtcome)).advance

/-- A step that visits a state is that visit, given that nested executions unfold. -/
theorem step_accounted (hP : Pervades setting P) (hx : P x) (htree : x.TreeBehind) (hend : x.isEnd = false)
    (hstate : x.workflow.state? x.current = some state)
    (hdrive : ∀ z acts e y, P z → z.TreeBehind → (drive setting budget z).Does acts e → e.Shows y →
      Unfolds setting P z acts y)
    {e : Ending Execution (Execution × Except RuntimeError Status)} (h : (step setting budget x).Does acts e) :
    ∃ a : Account, acts = x.performed [a] ∧ Accounted setting P x [a] ∧ ∀ y, e.Shows y → x.Follows [a] y := by
  obtain ⟨a, ha, rfl, hleft⟩ := stepWith_does (drive_tells setting budget) hend hstate h
  have hvisits {p : Execution} (hp : (x.visit setting).Attempting p) : x.Visits setting p :=
    ⟨hend, Option.isSome_iff_exists.2 ⟨state, hstate⟩, hp⟩
  have amid {p : Execution} (hp : (x.visit setting).Attempting p) (hptree : p.tree = p.context.toDocument) :
      x.Amid [] a p ∧ P p := by
    refine ⟨⟨.of_visits (hvisits hp), ?_, ?_, hptree⟩, hP.visits x p hx (hvisits hp)⟩
    · obtain ⟨tree, count, patterns, rfl⟩ := hp
      exact ha.name.symm
    · obtain ⟨tree, count, patterns, rfl⟩ := hp
      exact ha.input.symm
  have hvisited : (x.visit setting).TreeBehind := htree.extends' (.enter ..)
  obtain ⟨hentered, hholds⟩ := amid (attempting_sync _) (by rw [hvisited.sync_tree, sync_context])
  refine ⟨a, by simp [performed], .singleton (by rw [ha.name, hstate]) hentered hholds fun k i => ?_,
    fun y hy => hleft.follows ha.name ha.input hy⟩
  have hwithin := stepWith_within hend hstate htree h k i
  rw [actsWithin_append, actsWithin_opening, List.nil_append] at hwithin
  rcases hwithin with hnone | ⟨p, z, e', hp, hptree, hz, hdoes⟩
  · rw [hnone]
    exact .idle ..
  · obtain ⟨hamid, hholds⟩ := amid hp hptree
    rw [← ha.input] at hz
    refine .launched hamid hholds hz.forks ⟨e', hdoes⟩ fun e'' y hdoes' hy =>
      hdrive z _ e'' y (hP.launches p z state i hholds hptree ?_ (hamid.input ▸ hz)) hz.tree hdoes' hy
    rw [hamid.follows.workflow, hamid.name, ha.name, hstate]

/-- A step ends where it began, or visits a state. -/
theorem step_cases {e : Ending Execution (Execution × Except RuntimeError Status)}
    (h : (step setting budget x).Does acts e) :
    (x.isEnd = true ∧ acts = [] ∧ e = .finished (x, .ok x.status)) ∨
      (x.isEnd = false ∧ acts = [] ∧
        e = .finished ({ x with status := .errored }, .error (.stateNotFound x.current))) ∨
      x.isEnd = false ∧ ∃ state, x.workflow.state? x.current = some state := by
  cases hend : x.isEnd with
  | true =>
    unfold step stepVia stepWithVia at h
    rw [if_pos hend] at h
    cases h
    exact .inl ⟨rfl, rfl, rfl⟩
  | false =>
    cases hstate : x.workflow.state? x.current with
    | none =>
      unfold step stepVia stepWithVia at h
      rw [if_neg (by simp [hend]), hstate] at h
      cases h
      exact .inr (.inl ⟨rfl, rfl, rfl⟩)
    | some state => exact .inr (.inr ⟨rfl, state, rfl⟩)

/-- After a step that goes well nothing is left to be told before the next state. -/
theorem Stepped.opening {status : Status} (h : x.Stepped setting z (.ok status)) (hend : x.isEnd = false) :
    z.opening = [] := by
  have hstatus : z.status ≠ .pending := by
    cases h with
    | ended hx => exact nomatch hend.symm.trans hx
    | moved hy =>
      intro hpending
      cases hpending.symm.trans hy.status
    | succeeded | failed => nofun
  exact if_neg fun hpending => hstatus hpending.1

/-- A visit and what the execution unfolds into after it. -/
theorem Unfolds.cons (ha : Accounted setting P x [a]) (h : x.Follows [a] y) (hopening : y.opening = [])
    (hz : Unfolds setting P y acts z) : Unfolds setting P x (x.performed [a] ++ acts) z := by
  cases hz with
  | intro visits follows holds entered nested =>
    have hperformed : x.performed [a] ++ y.performed visits = x.performed (a :: visits) := by
      cases visits <;> simp [performed, hopening]
    rw [hperformed]
    exact (ha.cons h ⟨entered, nested⟩).unfolds (h.trans follows) holds

/-- Whatever an execution does, it unfolds. -/
theorem drive_unfolds (hP : Pervades setting P) (budget : Nat) (hx : P x) (htree : x.TreeBehind)
    {e : Ending Execution (Execution × Except RuntimeError Document)}
    (h : (drive setting budget x).Does acts e) (hy : e.Shows y) : Unfolds setting P x acts y := by
  induction budget generalizing x y acts e with
  | zero => cases h
  | succ budget ih =>
    unfold drive driveVia at h
    split at h
    · cases h
      cases hy
      exact (Accounted.nil ..).unfolds (.refl _) hx
    rename_i hnotEnd
    have hdrive (z : Execution) (acts : List Act) (e : Ending Execution (Execution × Except RuntimeError Document))
        (y : Execution) (hz : P z) (hztree : z.TreeBehind) (h : (drive setting budget z).Does acts e)
        (hy : e.Shows y) : Unfolds setting P z acts y := ih hz hztree h hy
    rcases Does.of_bind h with ⟨acts₁, acts₂, ⟨z, result⟩, rfl, hstep, hrest⟩ | ⟨seen, rfl, hstep⟩
    · have hz := hP.shows hx htree hstep rfl
      rcases step_cases hstep with ⟨hend, -⟩ | ⟨-, rfl, heq⟩ | ⟨hend, state, hstate⟩
      · exact absurd hend hnotEnd
      · cases heq
        cases hrest
        cases hy
        exact (Accounted.nil ..).unfolds ((Follows.refl x).withStatus _) hz
      · obtain ⟨a, rfl, ha, hfollows⟩ := step_accounted hP hx htree hend hstate hdrive hstep
        cases result with
        | error err =>
          cases hrest
          cases hy
          rw [List.append_nil]
          exact ha.unfolds (hfollows _ rfl) hz
        | ok status =>
          have hstepped : x.Stepped setting z (.ok status) := (hstep.keeps (step_stepping setting budget x)).1
          exact .cons ha (hfollows _ rfl) (hstepped.opening hend) (ih hz (step_tree htree hstep rfl) hrest hy)
    · cases hy
      rcases step_cases hstep with ⟨-, -, heq⟩ | ⟨-, -, heq⟩ | ⟨hend, state, hstate⟩
      · cases heq
      · cases heq
      · obtain ⟨a, rfl, ha, hfollows⟩ := step_accounted hP hx htree hend hstate hdrive hstep
        exact ha.unfolds (hfollows _ rfl) (hP.shows hx htree hstep rfl)

theorem step_unfolds (hP : Pervades setting P) (budget : Nat) (hx : P x) (htree : x.TreeBehind)
    {e : Ending Execution (Execution × Except RuntimeError Status)}
    (h : (step setting budget x).Does acts e) (hy : e.Shows y) : Unfolds setting P x acts y := by
  have hholds := hP.shows hx htree h hy
  rcases step_cases h with ⟨-, rfl, rfl⟩ | ⟨-, rfl, rfl⟩ | ⟨hend, state, hstate⟩
  · cases hy
    exact (Accounted.nil ..).unfolds (.refl _) hx
  · cases hy
    exact (Accounted.nil ..).unfolds ((Follows.refl x).withStatus _) hholds
  · obtain ⟨a, rfl, ha, hfollows⟩ := step_accounted hP hx htree hend hstate
      (fun _ _ _ _ hz hztree => drive_unfolds hP budget hz hztree) h
    exact ha.unfolds (hfollows _ hy) hholds

theorem Unfolds.holds (h : Unfolds setting P x acts y) : P y := by
  cases h with
  | intro _ _ holds => exact holds

theorem Unfolds.mono {Q : Execution → Prop} (hPQ : ∀ x, P x → Q x)
    (h : Unfolds setting P x acts y) : Unfolds setting Q x acts y := by
  refine @Unfolds.rec setting P (fun x acts y _ => Unfolds setting Q x acts y)
    (fun x before a state i acts _ => Inside setting Q x before a state i acts) ?_ ?_ ?_ x acts y h
  · intro x y visits follows holds entered _ nested
    refine .intro visits follows (hPQ y holds) (fun n a ha => ?_) nested
    obtain ⟨hstate, p, hp, hholds⟩ := entered n a ha
    exact ⟨hstate, p, hp, hPQ p hholds⟩
  · exact fun x before a state i => .idle x before a state i
  · intro x p z before a state i budget acts amid holds forks does _ unfolds
    exact .launched amid (hPQ p holds) forks does unfolds

/-! ### The parent -/

section
variable {drive : Execution → Process Execution (Execution × Except RuntimeError Document)} {input : Document}

/-- Whatever the nested executions do, while they are gathered their parent is as the attempt has found it. -/
theorem attempt_parent {run : Nat → Execution → Attempt} (hrun : state.attempt? drive setting input = some run)
    (k : Nat) (x : Execution) : (run k x).Keeps { shows := fun y => y = x } := by
  obtain ⟨comment, action⟩ := state
  cases action with
  | pass | choice | wait | succeed | fail => cases hrun
  | task s =>
    cases hrun
    exact attemptTask_keeps rfl (fun _ => trivial) fun _ _ _ => trivial
  | map s iterator =>
    cases hrun
    exact attemptMap_keeps rfl (fun _ => trivial) fun _ _ _ => .free _
  | parallel s branches =>
    cases hrun
    exact attemptParallel_keeps rfl (fun _ => trivial) fun _ _ _ _ => .free _

/-- Between attempts only the record changes, in what it says of retries. -/
theorem runState_parent (name : String) (x : Execution) :
    (runState drive setting budget name state input x).Keeps
      { shows := x.Attempting, ends := fun r => x.Attempting r.1 } := by
  have hx := attempting_sync x
  have attempted {run : Nat → Execution → Attempt} {transition : Transition} {r : Recovery}
      (hrun : state.attempt? drive setting input = some run) :
      (recoverable sync run transition r name input budget 0 none x.sync).Keeps
        { shows := x.Attempting, ends := fun r => x.Attempting r.1 } := by
    refine recoverable_keeps (I := x.Attempting) (fun _ _ => trivial) (fun _ => .sync)
      (fun _ count patterns => .withRecord count patterns) (fun k y hy => ?_) (fun _ h => h)
      (fun _ _ h _ => h) _ _ _ hx
    exact (attempt_parent hrun k y).mono (fun _ _ _ => trivial) (fun _ _ _ => trivial) (fun z hz => hz ▸ hy)
      fun _ _ => trivial
  obtain ⟨comment, action⟩ := state
  unfold runState runStateVia
  dsimp only [State.action]
  cases action with
  | pass | choice | succeed | fail => exact hx
  | wait s =>
    dsimp only
    split
    · exact hx
    · exact .sleep hx hx
  | task | map | parallel => exact attempted rfl

end

/-- The execution is, as far as its context says, one of those that make up the whole. -/
def PartOf (top : Context) (x : Execution) : Prop :=
  x.context.execution = top.execution ∧ x.context.stateMachine = top.stateMachine

theorem PartOf.extends {top : Context} (hx : x.PartOf top) (h : x.context.Extends y.context) : y.PartOf top :=
  ⟨h.execution.trans hx.1, h.stateMachine.trans hx.2⟩

theorem pervades_partOf (setting : Setting) (top : Context) : Pervades setting (PartOf top) where
  visits _ _ hx hy := hx.extends (Follows.of_visits hy).context
  step budget x hx _ := (step_onward setting budget x).mono (fun _ _ _ => trivial) (fun _ _ _ => trivial)
    (fun _ _ => trivial) fun _ h => hx.extends h.context
  launches _ _ _ _ hp _ _ hz := ⟨hz.forks.execution.trans hp.1, hz.forks.stateMachine.trans hp.2⟩

end Execution
end StepFlow
