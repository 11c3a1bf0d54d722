import StepFlow.Proofs.Execution.Alike
import StepFlow.Proofs.Execution.Leaving
import StepFlow.Proofs.Execution.ParallelInTime

/-!
# Attempts do not depend on one another

A visit of a Task, Map or Parallel state is its attempts, one after the other (`Tries`). Between two of
them the context changes, by the count of retries and the retrier. Where neither the state nor any state
of the graphs that it runs reads the context, that is all: what an attempt comes to is settled by the
input of the state and by the answers that the attempt itself is given, whatever attempts have failed
before it (`attempts_independent`). Only a state that waits for an instant brings in something else, the
time that the clock shows (`attempts_race_clock`).
-/

namespace StepFlow

/-- An attempt that has come to its end: what it has exchanged, how long that took, and what came of it. -/
structure Try where
  exchanges : List Exchange
  span : Duration
  result : Except TaskFailure Document

/-- What the attempt was answered, and with which delays. -/
def Try.answers (t : Try) : List Answer := t.exchanges.map (·.answer)

namespace Execution
open Process

section
variable (run : Nat → Execution → Attempt) (next : Option String) (r : Recovery) (name : String)
  (input : Document) (record : StateRecord)

/-- After some failures, newest first, the visit makes the attempts `tries`, each to its end, and comes to
`result`, which is nothing as long as another attempt follows; `next` is where the state itself leads, and
`record` is the record of the state as it was entered. -/
inductive Tries :
    List TaskFailure → Execution → List Try → Option (Except RuntimeError Outcome) → Prop where
  | more (past : List TaskFailure) (x : Execution) : Tries past x [] none
  | success {past : List TaskFailure} {x : Execution} {log : List Exchange} {d : Duration} {output : Document}
      (h : (run past.length x.sync).Lasts log d (some (.ok output))) :
      Tries past x [⟨log, d, .ok output⟩] (some (.ok ⟨next, output⟩))
  | leave {past : List TaskFailure} {x : Execution} {log : List Exchange} {d : Duration} {f : TaskFailure}
      (h : (run past.length x.sync).Lasts log d (some (.error f))) (hlast : r.retryDelay? (f :: past) = none) :
      Tries past x [⟨log, d, .error f⟩] (some (r.leaving name input f))
  | retry {past : List TaskFailure} {x : Execution} {log : List Exchange} {d delay : Duration} {f : TaskFailure}
      {tries : List Try} {result : Option (Except RuntimeError Outcome)}
      (h : (run past.length x.sync).Lasts log d (some (.error f)))
      (hdelay : r.retryDelay? (f :: past) = some delay)
      (hrest : Tries (f :: past) (x.sync.withRecord (r.recordAfter record (f :: past))) tries result) :
      Tries past x (⟨log, d, .error f⟩ :: tries) result

end

/-- What some attempt has exchanged that has not come to its end. -/
def UnderWay (run : Nat → Execution → Attempt) (log : List Exchange) : Prop :=
  ∃ k y d, (run k y).Lasts log d none

section
variable {run : Nat → Execution → Attempt} {transition : Transition} {r : Recovery} {name : String}
  {input : Document} {record : StateRecord} {past : List TaskFailure} {x y : Execution} {log : List Exchange}
  {d : Duration} {result : Option (Except RuntimeError Outcome)} {tries : List Try}

/-- A visit exchanges what its attempts do, and where it has not come to its end, what the one under way
does. -/
theorem tries_of_lasts {budget : Nat} {o : Option (Execution × Except RuntimeError Outcome)}
    (h : (protocol run transition r name input record budget past x).Lasts log d o) :
    ∃ tries rest, Tries run transition.next? r name input record past x tries (o.map (·.2)) ∧
      log = tries.flatMap (·.exchanges) ++ rest ∧ (rest = [] ∨ o = none ∧ UnderWay run rest) := by
  induction budget generalizing past x log d with
  | zero =>
    cases h
    exact ⟨[], [], .more past x, rfl, .inl rfl⟩
  | succ budget ih =>
    rcases Lasts.of_bind h with ⟨log₁, log₂, d₁, d₂, outcome, rfl, rfl, hrun, hrest⟩ | ⟨rfl, hrun⟩
    case inr => exact ⟨[], log, .more past x, rfl, .inr ⟨rfl, _, _, _, hrun⟩⟩
    cases outcome with
    | ok output =>
      obtain ⟨rfl, -, rfl⟩ := lasts_done.1 hrest
      exact ⟨_, [], .success hrun, by simp, .inl rfl⟩
    | error f =>
      dsimp only at hrest
      cases hdelay : r.retryDelay? (f :: past) with
      | some delay =>
        rw [hdelay] at hrest
        obtain ⟨d₃, -, hnext⟩ := lasts_sleep.1 (lasts_tell.1 hrest)
        obtain ⟨tries, rest, htries, rfl, hunderWay⟩ := ih hnext
        exact ⟨_, rest, .retry hrun hdelay htries, by simp, hunderWay⟩
      | none =>
        rw [hdelay] at hrest
        have hleave : log₂ = [] ∧ o.map (·.2) = some (r.leaving name input f) := by
          unfold Recovery.leaving
          dsimp only at hrest
          cases hfallback : r.fallback name input f with
          | error e =>
            rw [hfallback] at hrest
            obtain ⟨rfl, -, rfl⟩ := lasts_done.1 hrest
            exact ⟨rfl, rfl⟩
          | ok target =>
            obtain ⟨target, output⟩ := target
            rw [hfallback] at hrest
            have htold := lasts_tell.1 hrest
            obtain ⟨rfl, -, rfl⟩ := lasts_done.1 htold
            exact ⟨rfl, rfl⟩
        obtain ⟨rfl, hresult⟩ := hleave
        rw [hresult]
        exact ⟨_, [], .leave hrun hdelay, by simp, .inl rfl⟩

/-- A visit that may make so many attempts makes them. -/
theorem Tries.lasts (h : Tries run transition.next? r name input record past x tries result) :
    ∃ d o, o.map (·.2) = result ∧
      (protocol run transition r name input record tries.length past x).Lasts (tries.flatMap (·.exchanges)) d
        o := by
  induction h with
  | more past x => exact ⟨0, none, rfl, .stuck⟩
  | @success past x log d output h => exact ⟨d + 0, some (x.sync, _), rfl, h.bind (.done _)⟩
  | @leave past x log d f h hlast =>
    refine ⟨d + 0, some (x.sync.withRecord (r.recordAfter record (f :: past)), r.leaving name input f), rfl,
      h.bind ?_⟩
    dsimp only
    rw [hlast]
    unfold Recovery.leaving
    dsimp only
    cases r.fallback name input f with
    | error e => exact .done _
    | ok target => exact lasts_tell.2 (.done _)
  | @retry past x log d delay f tries result h hdelay _ ih =>
    obtain ⟨d', o, ho, ih⟩ := ih
    refine ⟨d + (delay.onTimer + d'), o, ho, h.bind ?_⟩
    dsimp only
    rw [hdelay]
    exact lasts_tell.2 (lasts_sleep.2 ⟨d', rfl, ih⟩)

variable {next : Option String}

theorem Tries.made (h : Tries run next r name input record past x tries result) :
    ∀ t ∈ tries, ∃ k y, (run k y).Lasts t.exchanges t.span (some t.result) := by
  induction h with
  | more => nofun
  | success h | leave h => exact List.forall_mem_singleton.2 ⟨_, _, h⟩
  | retry h _ _ ih => exact List.forall_mem_cons.2 ⟨⟨_, _, h⟩, ih⟩

/-- Only the last attempt can succeed. -/
theorem Tries.success_of_mem (h : Tries run next r name input record past x tries result) :
    ∀ t ∈ tries, ∀ output, t.result = .ok output → result = some (.ok ⟨next, output⟩) := by
  induction h with
  | more => nofun
  | success h =>
    refine List.forall_mem_singleton.2 fun output houtput => ?_
    cases houtput
    rfl
  | leave h => exact List.forall_mem_singleton.2 nofun
  | retry h _ _ ih => exact List.forall_mem_cons.2 ⟨nofun, ih⟩

end

/-- A visit of `x` makes the attempts `tries` at the state and comes to `result`. -/
def Tried (x : Execution) (run : Nat → Execution → Attempt) (state : State) (name : String) (input : Document)
    (tries : List Try) (result : Option (Except RuntimeError Outcome)) : Prop :=
  Tries run (state.transition?.bind Transition.next?) state.recovery name input x.context.state [] x.sync tries
    result

section
variable {setting : Setting} {state : State} {name : String} {input : Document} {n : Nat} {x : Execution}
  {run : Nat → Execution → Attempt} {tries : List Try}

theorem tried_of_lasts {log : List Exchange} {d : Duration} {budget : Nat}
    {o : Option (Execution × Except RuntimeError Outcome)}
    (hrun : state.attempt? (drive setting n) setting input = some run)
    (h : (runState (drive setting n) setting budget name state input x).Lasts log d o) :
    ∃ tries rest, x.Tried run state name input tries (o.map (·.2)) ∧
      log = tries.flatMap (·.exchanges) ++ rest ∧ (rest = [] ∨ o = none ∧ UnderWay run rest) := by
  obtain ⟨transition, hnext, hprotocol⟩ := runState_eq_protocol (drive setting n) setting state name input hrun
  rw [hprotocol] at h
  unfold Tried
  rw [hnext]
  exact tries_of_lasts h

theorem Tried.lasts {result : Option (Except RuntimeError Outcome)}
    (hrun : state.attempt? (drive setting n) setting input = some run)
    (h : x.Tried run state name input tries result) :
    ∃ d o, o.map (·.2) = result ∧ (runState (drive setting n) setting tries.length name state input x).Lasts
      (tries.flatMap (·.exchanges)) d o := by
  obtain ⟨transition, hnext, hprotocol⟩ := runState_eq_protocol (drive setting n) setting state name input hrun
  unfold Tried at h
  rw [hnext] at h
  rw [hprotocol]
  exact h.lasts

/-- What an attempt at a task that does not read the context does, in any execution. -/
theorem attemptTask_lasts_iff {s : TaskState} {log : List Exchange} {d : Duration}
    {o : Option (Except TaskFailure Document)} (h : ContextFree (Action.task s).paths) (c : Document) :
    (attemptTask setting s input x).Lasts log d o ↔
      match s.request setting c input with
      | .error e => log = [] ∧ d = 0 ∧ o = some (.error (.ofRunnerError e))
      | .ok request => ∃ answer, log = [⟨[], request, answer⟩] ∧ d = answer.delay.onTimer ∧
          o = some (s.conclude c input answer.result) := by
  rw [attemptTask_eq, s.request_congr x.tree c h]
  cases s.request setting c input with
  | error e => exact lasts_done
  | ok request =>
    dsimp only
    rw [lasts_ask]
    constructor
    · rintro ⟨answer, log', d', rfl, rfl, hdone⟩
      obtain ⟨rfl, rfl, rfl⟩ := lasts_done.1 hdone
      exact ⟨answer, rfl, rfl, congrArg some (s.conclude_congr _ _ h input _)⟩
    · rintro ⟨answer, rfl, rfl, rfl⟩
      exact ⟨answer, [], 0, rfl, rfl, lasts_done.2 ⟨rfl, rfl, congrArg some (s.conclude_congr _ _ h input _)⟩⟩

/-- A task asks nothing unless its resource has a runner and its parameters make an environment. -/
theorem request_cases (s : TaskState) (setting : Setting) (c input : Document) :
    let parameters := renderWith s.parameters c (s.filters.input c input)
    let asks := (setting.runners.resolve s.resource).isOk ∧
      (parameters = .null ∨ ∃ fields, parameters = .obj fields)
    (asks → ∃ env, Environment.ofInput parameters = .ok env ∧ s.request setting c input = .ok ⟨s.resource, env,
      s.secrets setting, s.timeoutSeconds.map .ofSeconds, s.heartbeatSeconds.map .ofSeconds⟩) ∧
    (¬ asks → ∃ e, s.request setting c input = .error e) := by
  intro parameters asks
  unfold TaskState.request
  cases hrunner : setting.runners.resolve s.resource with
  | error e =>
    refine ⟨fun hasks => ?_, fun _ => ⟨e, rfl⟩⟩
    have hok := hasks.1
    rw [hrunner] at hok
    nomatch hok
  | ok runner =>
    have hok : (setting.runners.resolve s.resource).isOk := by rw [hrunner]; rfl
    have hasks : asks ↔ parameters = .null ∨ ∃ fields, parameters = .obj fields := and_iff_right hok
    show (asks → ∃ env, Environment.ofInput parameters = .ok env ∧ (Environment.ofInput parameters >>= _) = _) ∧
      (¬ asks → ∃ e, (Environment.ofInput parameters >>= _) = _)
    rw [hasks]
    generalize parameters = parameters
    cases parameters with
    | null => exact ⟨fun _ => ⟨_, rfl, rfl⟩, fun hnot => absurd (.inl rfl) hnot⟩
    | obj fields => exact ⟨fun _ => ⟨_, rfl, rfl⟩, fun hnot => absurd (.inr ⟨fields, rfl⟩) hnot⟩
    | bool | num | str | arr => exact ⟨by simp, fun _ => ⟨_, rfl⟩⟩

/-- The attempts of a visit in which a task is tried, and what becomes of a visit that begins as a
successful one. -/
theorem Tried.task {s : TaskState} {result : Option (Except RuntimeError Outcome)}
    (hfree : ContextFree (Action.task s).paths) (haction : state.action = .task s)
    (hrun : state.attempt? (drive setting n) setting input = some run)
    (h : x.Tried run state name input tries result) (c : Document) :
    let parameters := renderWith s.parameters c (s.filters.input c input)
    let asks := (setting.runners.resolve s.resource).isOk ∧
      (parameters = .null ∨ ∃ fields, parameters = .obj fields)
    (asks → ∃ env, Environment.ofInput parameters = .ok env ∧ ∀ t ∈ tries, ∃ answer, t.exchanges =
      [⟨[], ⟨s.resource, env, s.secrets setting, s.timeoutSeconds.map .ofSeconds,
        s.heartbeatSeconds.map .ofSeconds⟩, answer⟩]) ∧
    (¬ asks → ∀ t ∈ tries, t.exchanges = []) ∧
    ∀ t ∈ tries, ∀ output, t.result = .ok output →
      result = some (.ok ⟨s.transition.next?, output⟩) ∧
      ∀ budget z, ∃ z', (runState (drive setting n) setting (budget + 1) name state input z).Lasts t.exchanges
        t.span (some (z', .ok ⟨s.transition.next?, output⟩)) := by
  intro parameters asks
  obtain ⟨comment, action⟩ := state
  cases haction
  cases hrun
  obtain ⟨hasks, hidle⟩ := request_cases s setting c input
  have hmade (t : Try) (ht : t ∈ tries) := h.made t ht
  refine ⟨fun hyes => ?_, fun hno t ht => ?_, fun t ht output houtput => ⟨?_, fun budget z => ?_⟩⟩
  · obtain ⟨env, henv, hrequest⟩ := hasks hyes
    refine ⟨env, henv, fun t ht => ?_⟩
    obtain ⟨k, y, hlasts⟩ := hmade t ht
    rw [attemptTask_lasts_iff hfree c, hrequest] at hlasts
    obtain ⟨answer, hlog, -, -⟩ := hlasts
    exact ⟨answer, hlog⟩
  · obtain ⟨e, hrequest⟩ := hidle hno
    obtain ⟨k, y, hlasts⟩ := hmade t ht
    rw [attemptTask_lasts_iff hfree c, hrequest] at hlasts
    exact hlasts.1
  · exact h.success_of_mem t ht output houtput
  · obtain ⟨k, y, hlasts⟩ := hmade t ht
    rw [attemptTask_lasts_iff hfree c, ← attemptTask_lasts_iff (x := z.sync.sync) hfree c, houtput] at hlasts
    obtain ⟨transition, hnext, hprotocol⟩ := runState_eq_protocol (drive setting n) setting
      (.mk comment (.task s)) name input rfl
    have htransition : s.transition.next? = transition.next? := hnext
    refine ⟨z.sync.sync, ?_⟩
    rw [hprotocol, htransition, ← List.append_nil t.exchanges, ← Nat.add_zero t.span]
    exact hlasts.bind (.done _)

/-- Two visits of one state on one input: where some attempt of the one and some attempt of the other are
answered alike, they come to the same in the same time. -/
theorem Tried.alike {setting' : Setting} {n' : Nat} {run' : Nat → Execution → Attempt} {x' : Execution}
    {tries' : List Try} {result result' : Option (Except RuntimeError Outcome)}
    (hsteady : state.Every (Action.Steady setting setting')) (hrunners : setting.runners = setting'.runners)
    (hrun : state.attempt? (drive setting n) setting input = some run)
    (hrun' : state.attempt? (drive setting' n') setting' input = some run')
    (h : x.Tried run state name input tries result) (h' : x'.Tried run' state name input tries' result')
    {t t' : Try} (ht : t ∈ tries) (ht' : t' ∈ tries') (hanswers : t.answers = t'.answers) :
    t.span = t'.span ∧ t.result = t'.result ∧ ∀ output, t.result = .ok output →
      result = some (.ok ⟨state.transition?.bind Transition.next?, output⟩) ∧ result' = result := by
  obtain ⟨k, y, hlasts⟩ := h.made t ht
  obtain ⟨k', y', hlasts'⟩ := h'.made t' ht'
  have hattempts := attempt_alike (drive_alike hrunners n n') hsteady hrunners hrun hrun' k k' y y'
  obtain ⟨hspan, hresult⟩ := hattempts.lasts hlasts hlasts' hanswers
  refine ⟨hspan, hresult, fun output houtput => ?_⟩
  have hleft := h.success_of_mem t ht output houtput
  have hright := h'.success_of_mem t' ht' output (hresult.symm.trans houtput)
  exact ⟨hleft, hright.trans hleft.symm⟩

/-- A Task, Map or Parallel state none of whose paths reads the context, nor any path of the graphs that
it runs. A visit is its attempts; of those of a task each makes the one request that the task has, if it
has one, and no other. Attempts at the state that are answered alike, with the same delays, come to the
same, in whichever visit and after whatever other attempts, and if they succeed, so do both visits, with
the same output. Where one of the states waits for an instant, the visits are to be at one time of the
clock. -/
theorem attempts_independent (state : State) (name : String) (input : Document) (setting : Setting) (n : Nat)
    (run : Nat → Execution → Attempt) (hfree : state.Every fun a => ContextFree a.paths)
    (hrun : state.attempt? (drive setting n) setting input = some run) :
    let visit := fun budget (x : Execution) => runState (drive setting n) setting budget name state input x
    (∀ (x : Execution) budget log d o, (visit budget x).Lasts log d o →
      ∃ tries rest, x.Tried run state name input tries (o.map (·.2)) ∧
        log = tries.flatMap (·.exchanges) ++ rest ∧ (rest = [] ∨ o = none ∧ UnderWay run rest)) ∧
    (∀ (x : Execution) tries result, x.Tried run state name input tries result →
      ∃ d o, o.map (·.2) = result ∧ (visit tries.length x).Lasts (tries.flatMap (·.exchanges)) d o) ∧
    (∀ s, state.action = .task s → (∀ rest, ¬ UnderWay run rest) ∧
      ∀ (x : Execution) tries result, x.Tried run state name input tries result → ∀ c,
        let parameters := renderWith s.parameters c (s.filters.input c input)
        let asks := (setting.runners.resolve s.resource).isOk ∧
          (parameters = .null ∨ ∃ fields, parameters = .obj fields)
        (asks → ∃ env, Environment.ofInput parameters = .ok env ∧ ∀ t ∈ tries, ∃ answer, t.exchanges =
          [⟨[], ⟨s.resource, env, s.secrets setting, s.timeoutSeconds.map .ofSeconds,
            s.heartbeatSeconds.map .ofSeconds⟩, answer⟩]) ∧
        (¬ asks → ∀ t ∈ tries, t.exchanges = []) ∧
        ∀ t ∈ tries, ∀ output, t.result = .ok output →
          result = some (.ok ⟨s.transition.next?, output⟩) ∧
          ∀ budget z, ∃ z', (visit (budget + 1) z).Lasts t.exchanges t.span
            (some (z', .ok ⟨s.transition.next?, output⟩))) ∧
    ∀ (setting' : Setting) n' run', state.attempt? (drive setting' n') setting' input = some run' →
      setting.runners = setting'.runners →
      (state.Every fun a => a.ReadsClock → setting.now = setting'.now) →
      ∀ (x : Execution) tries result (x' : Execution) tries' result', x.Tried run state name input tries result →
        x'.Tried run' state name input tries' result' →
        ∀ t ∈ tries, ∀ t' ∈ tries', t.answers = t'.answers →
          t.span = t'.span ∧ t.result = t'.result ∧ ∀ output, t.result = .ok output →
            result = some (.ok ⟨state.transition?.bind Transition.next?, output⟩) ∧ result' = result := by
  intro visit
  refine ⟨fun x budget log d o h => tried_of_lasts hrun h, fun x tries result h => h.lasts hrun,
    fun s haction => ⟨?_, fun x tries result h c => h.task (haction ▸ hfree.1) haction hrun c⟩, ?_⟩
  · rintro rest ⟨k, y, d, hlasts⟩
    obtain ⟨comment, action⟩ := state
    cases haction
    cases hrun
    rw [attemptTask_lasts_iff hfree.1 .null] at hlasts
    split at hlasts
    · nomatch hlasts.2.2
    · obtain ⟨answer, -, -, hnone⟩ := hlasts
      nomatch hnone
  · intro setting' n' run' hrun' hrunners hclock x tries result x' tries' result' h h' t ht t' ht' hanswers
    have hsteady : state.Every (Action.Steady setting setting') :=
      ⟨⟨hfree.1, hclock.1⟩, fun v hv a ha => ⟨hfree.2 v hv a ha, hclock.2 v hv a ha⟩⟩
    exact h.alike hsteady hrunners hrun hrun' h' ht ht' hanswers

end

/-! ### A task that fails once -/

/-- A task that passes on what it is answered. -/
def flakyAnswer : TaskState := { flakyTask with results := ⟨none, some .root⟩ }

def askA : Request := ⟨"test://a", [], .null, none, none⟩

def failsOnce : List Try :=
  [⟨[⟨[], askA, ⟨5, .error (.io "a")⟩⟩], 5, .error (.ofRunnerError (.io "a"))⟩,
    ⟨[⟨[], askA, ⟨7, .ok ⟨0, "true"⟩⟩⟩], 7, .ok (.bool true)⟩]

/-- Answered with a failure and then with a report, the task gives what it gives for the report alone. -/
theorem attempts_independent_flaky :
    let state := State.mk none (.task flakyAnswer)
    let visit := fun budget x => runState (drive testSetting 1) testSetting budget "flaky" state .null x
    (∃ d o, (visit 2 default).Lasts [⟨[], askA, ⟨5, .error (.io "a")⟩⟩, ⟨[], askA, ⟨7, .ok ⟨0, "true"⟩⟩⟩] d o ∧
      o.map (·.2) = some (.ok ⟨none, .bool true⟩)) ∧
    ∀ x, ∃ y, (visit 1 x).Lasts [⟨[], askA, ⟨7, .ok ⟨0, "true"⟩⟩⟩] 7 (some (y, .ok ⟨none, .bool true⟩)) := by
  intro state visit
  have htask : ContextFree (Action.task flakyAnswer).paths := by decide
  have hfree : state.Every fun a => ContextFree a.paths := .leaf htask id
  obtain ⟨-, hlasts, htried, -⟩ := attempts_independent state "flaky" .null testSetting 1
    (fun _ => attemptTask testSetting flakyAnswer .null) hfree rfl
  have hfails : (default : Execution).Tried (fun _ => attemptTask testSetting flakyAnswer .null) state "flaky"
      .null failsOnce (some (.ok ⟨none, .bool true⟩)) := by
    refine .retry ((attemptTask_lasts_iff htask .null).2 ?_) rfl
      (.success ((attemptTask_lasts_iff htask .null).2 ?_))
    · exact ⟨_, rfl, rfl, rfl⟩
    · exact ⟨_, rfl, rfl, rfl⟩
  obtain ⟨d, o, ho, hvisit⟩ := hlasts _ _ _ hfails
  obtain ⟨-, -, hsuccess⟩ := (htried _ rfl).2 _ _ _ hfails .null
  obtain ⟨-, hagain⟩ := hsuccess _ (List.mem_cons_of_mem _ (List.mem_singleton_self _)) _ rfl
  exact ⟨⟨d, o, hvisit, ho⟩, hagain 0⟩

/-! ### A race with the clock -/

/-- A graph that waits for an instant and then fails. -/
def failingAt (t : Timestamp) (error : String) : Workflow :=
  .mk "wait" [("wait", .mk none (.wait ⟨passAll, .next "fail", .timestamp t⟩)),
    ("fail", .mk none (.fail ⟨some error, none⟩))] none none

/-- Five seconds race with the hundredth second of the clock; the failure of the winner is the output. -/
def clockRace : Workflow :=
  .mk "race" [("race", .mk none (.parallel ⟨passAll, .final, ⟨none, some .root⟩,
      ⟨[], [⟨["States.ALL"], "end", some .root⟩]⟩⟩ [failing 5 "Slow", failingAt ⟨100, 0⟩ "Clock"])),
    ("end", .mk none (.succeed passAll))] none none

/-- A state that runs the race and passes on its output. -/
def clocked : State := .mk none (.parallel { together with results := ⟨none, some .root⟩ } [clockRace])

theorem clocked_contextFree : clocked.Every fun a => ContextFree a.paths := by
  refine State.every_parallel (by decide) (List.forall_mem_singleton.2 (List.forall_mem_cons.2
    ⟨State.every_parallel (by decide) (List.forall_mem_cons.2 ⟨?_, List.forall_mem_singleton.2 ?_⟩),
      List.forall_mem_singleton.2 (.leaf (by decide) id)⟩))
  all_goals exact List.forall_mem_cons.2 ⟨.leaf (by decide) id,
    List.forall_mem_singleton.2 (.leaf (by decide) id)⟩

/-- Entered at two times of the clock, on one input and with nothing to be answered, the state gives two
outputs. -/
theorem attempts_race_clock :
    let output := fun error => Document.arr [.ofList [("Error", .str error), ("Cause", .str "")]]
    let entered := fun (now : Timestamp) =>
      runState (drive { testSetting with now } 4) { testSetting with now } 1 "clocked" clocked .null default
    (clocked.Every fun a => ContextFree a.paths) ∧
      (∃ y, (entered ⟨0, 0⟩).Lasts [] (Duration.ofSeconds 5) (some (y, .ok ⟨none, output "Slow"⟩))) ∧
      ∃ y, (entered ⟨100, 0⟩).Lasts [] 0 (some (y, .ok ⟨none, output "Clock"⟩)) := by
  have hwithin (now : Timestamp) :=
    runStateWithin_sim 30 { testSetting with now } 4 1 "clocked" clocked .null default
  exact ⟨clocked_contextFree,
    ⟨_, .of_idle_sim (hwithin ⟨0, 0⟩) (fun _ _ => ((), ⟨0, .ok ⟨0, ""⟩⟩)) () ⟨_, _, rfl⟩⟩,
    ⟨_, .of_idle_sim (hwithin ⟨100, 0⟩) (fun _ _ => ((), ⟨0, .ok ⟨0, ""⟩⟩)) () ⟨_, _, rfl⟩⟩⟩

end Execution
end StepFlow
