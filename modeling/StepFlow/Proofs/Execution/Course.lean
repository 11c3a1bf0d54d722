import StepFlow.Proofs.Execution.Account
import StepFlow.Proofs.Execution.History

/-!
# The course of a visit

Every step of an execution that is not over has an account (`stepWith_does`), which is true to the state
(`Account.Of`): the attempts are those of the state, one after the other. An attempt that another one follows
has come to its end with a failure, and with it all that the attempt does, in the place that is its own among
the nested executions (`Account.Of.attempt`, `Account.Of.places`).
-/

namespace StepFlow

/-! ### Attempts -/

namespace Execution
open Process

/-- What the last attempt of a visit of `x` has done, and the way on from it; `next` is where the state
itself leads. -/
inductive Concludes (x : Execution) (attempt : Execution → Attempt) (r : Recovery) (next : Option String)
    (name : String) (input : Document) : List Act → Way → Prop where
  /-- The attempt has not begun. -/
  | waiting : Concludes x attempt r next name input [] .unfinished
  | underWay {acts : List Act} {y seen : Execution} (hy : x.Attempting y)
      (h : (attempt y).Does acts (.cut seen)) : Concludes x attempt r next name input acts .unfinished
  | led {acts : List Act} {y : Execution} {output : Document} (hy : x.Attempting y)
      (h : (attempt y).Does acts (.finished (.ok output))) :
      Concludes x attempt r next name input acts (.led ⟨next, output⟩)
  | caught {acts : List Act} {y : Execution} {f : TaskFailure} {target : String} {output : Document}
      (hy : x.Attempting y) (h : (attempt y).Does acts (.finished (.error f)))
      (hf : r.fallback name input f = .ok (target, output)) :
      Concludes x attempt r next name input acts (.caught f target output)
  | aborted {acts : List Act} {y : Execution} {f : TaskFailure} {e : RuntimeError}
      (hy : x.Attempting y) (h : (attempt y).Does acts (.finished (.error f)))
      (hf : r.fallback name input f = .error e) : Concludes x attempt r next name input acts (.aborted e)

theorem Concludes.does {x : Execution} {attempt : Execution → Attempt} {r : Recovery}
    {next : Option String} {name : String} {input : Document} {acts : List Act} {way : Way}
    (h : x.Concludes attempt r next name input acts way) :
    acts = [] ∨ ∃ y e, x.Attempting y ∧ (attempt y).Does acts e := by
  cases h with
  | waiting => exact .inl rfl
  | underWay hy h | led hy h | caught hy h | aborted hy h => exact .inr ⟨_, _, hy, h⟩

/-- The attempts number `k` and on of a visit of `x` do `retries` and then `last`, and lead that way. -/
structure Attempts (x : Execution) (run : Nat → Execution → Attempt) (r : Recovery) (next : Option String)
    (name : String) (input : Document) (k : Nat) (retries : List Retry) (last : List Act) (way : Way) :
    Prop where
  /-- An attempt that is followed by another has come to its end. -/
  failed : ∀ i t, retries[i]? = some t → ∃ y, x.Attempting y ∧
    (run (k + i) y).Does t.acts (.finished (.error t.failure))
  last : x.Concludes (run (k + retries.length)) r next name input last way

end Execution

/-- How running a state ends, as the way on says. -/
def Way.Ends {α : Type} (way : Way) : Ending α (α × Except RuntimeError Outcome) → Prop
  | .finished (_, result) => way.result? = some result
  | .cut _ => way = .unfinished
  | .stuck => False

namespace Execution
open Process

variable {x y : Execution} {acts : List Act}

theorem Attempting.recordAfter (hy : x.Attempting y) (r : Recovery) (failures : List TaskFailure) :
    x.Attempting (y.withRecord (r.recordAfter x.context.state failures)) := by
  obtain ⟨tree, count, patterns, rfl⟩ := hy
  obtain ⟨count', patterns', hrecord⟩ := r.recordAfter_record x.context.state failures
  rw [hrecord]
  exact ⟨tree, count', patterns', rfl⟩

section
variable {run : Nat → Execution → Attempt} {transition : Transition} {r : Recovery} {name : String}
  {input : Document} {e : Ending Execution (Execution × Except RuntimeError Outcome)}

theorem Attempts.single {k : Nat} {last : List Act} {way : Way}
    (h : x.Concludes (run k) r transition.next? name input last way) :
    x.Attempts run r transition.next? name input k [] last way := ⟨nofun, h⟩

theorem Attempts.retry {k : Nat} {retries : List Retry} {last : List Act} {way : Way} {t : Retry}
    (hy : x.Attempting y) (ht : (run k y).Does t.acts (.finished (.error t.failure)))
    (h : x.Attempts run r transition.next? name input (k + 1) retries last way) :
    x.Attempts run r transition.next? name input k (t :: retries) last way where
  failed i t' ht' := by
    cases i with
    | zero =>
      cases ht'
      exact ⟨y, hy, ht⟩
    | succ i =>
      rw [Nat.add_comm i 1, ← Nat.add_assoc]
      exact h.failed i t' ht'
  last := by
    rw [List.length_cons, Nat.add_comm retries.length 1, ← Nat.add_assoc]
    exact h.last

/-- What attempts do, one after the other, each of them to its end before the next. -/
theorem protocol_does {budget : Nat} {past : List TaskFailure} (hy : x.Attempting y)
    (h : (protocol run transition r name input x.context.state budget past y).Does acts e) :
    ∃ retries last way,
      acts = retriesActs name retries ++ last ++ (way.catching name).map (.event []) ∧
      r.Counted past retries ∧
      x.Attempts run r transition.next? name input past.length retries last way ∧ way.Ends e := by
  induction budget generalizing past y acts with
  | zero => cases h
  | succ budget ih =>
    have hsync := hy.sync
    rcases Does.of_bind h with ⟨acts₁, acts₂, result, rfl, hrun, h⟩ | ⟨seen, rfl, hrun⟩
    case inr =>
      exact ⟨[], acts, .unfinished, by simp [retriesActs, Way.catching], trivial,
        .single (.underWay hsync hrun), rfl⟩
    -- An attempt that has ended is the last one, unless it has failed and a retrier grants another.
    cases result with
    | ok output =>
      cases h
      exact ⟨[], acts₁, .led ⟨transition.next?, output⟩, by simp [retriesActs, Way.catching], trivial,
        .single (.led hsync hrun), rfl⟩
    | error f =>
      dsimp only at h
      cases hdelay : r.retryDelay? (f :: past) with
      | some delay =>
        rw [hdelay] at h
        obtain ⟨acts₃, rfl, hrest⟩ := Does.of_tell h
        let t : Retry := ⟨acts₁, f, r.streak (f :: past), delay⟩
        rcases Does.of_sleep hrest with hnext | ⟨rfl, rfl⟩
        · obtain ⟨retries, last, way, rfl, hcounted, hattempts, hends⟩ :=
            ih (hsync.recordAfter r (f :: past)) hnext
          exact ⟨t :: retries, last, way, by simp [retriesActs, Retry.told, t], ⟨rfl, hdelay, hcounted⟩,
            .retry hsync hrun hattempts, hends⟩
        · exact ⟨[t], [], .unfinished, by simp [retriesActs, Retry.told, Way.catching, t],
            ⟨rfl, hdelay, trivial⟩, .retry hsync hrun (.single .waiting), rfl⟩
      | none =>
        rw [hdelay] at h
        dsimp only at h
        cases hf : r.fallback name input f with
        | error e' =>
          rw [hf] at h
          cases h
          exact ⟨[], acts₁, .aborted e', by simp [retriesActs, Way.catching], trivial,
            .single (.aborted hsync hrun hf), rfl⟩
        | ok target =>
          obtain ⟨next, output⟩ := target
          rw [hf] at h
          obtain ⟨acts₃, rfl, hrest⟩ := Does.of_tell h
          cases hrest
          exact ⟨[], acts₁, .caught f next output, by simp [retriesActs, Way.catching], trivial,
            .single (.caught hsync hrun hf), rfl⟩

end

/-! ### Visits -/

end Execution

/-- What is attempted in a state, of those that may be retried and caught. -/
def State.attempt? (drive : Execution → Process Execution (Execution × Except RuntimeError Document))
    (setting : Setting) (input : Document) (s : State) : Option (Nat → Execution → Execution.Attempt) :=
  match s.action with
  | .task s => some fun _ => Execution.attemptTask setting s input
  | .map s iterator => some (Execution.attemptMap drive s iterator input)
  | .parallel s branches => some (Execution.attemptParallel drive s branches input)
  | _ => none

namespace Execution
open Process

variable {drive : Execution → Process Execution (Execution × Except RuntimeError Document)}
  {setting : Setting} {budget : Nat} {state : State} {x y : Execution} {acts : List Act}

/-- The course of a visit of `x`: that of its attempts, if the state is attempted at all. -/
def Course (x : Execution) (drive : Execution → Process Execution (Execution × Except RuntimeError Document))
    (setting : Setting) (state : State) (name : String) (input : Document) (retries : List Retry)
    (last : List Act) (way : Way) : Prop :=
  match state.attempt? drive setting input with
  | some run =>
    x.Attempts run state.recovery (state.transition?.bind Transition.next?) name input 0 retries last way
  | none => retries = [] ∧ last = [] ∧ ∀ f next output, way ≠ .caught f next output

theorem recoverable_start (run : Nat → Execution → Attempt) (transition : Transition) (r : Recovery)
    (name : String) (input : Document) (budget : Nat) (x : Execution) :
    recoverable sync run transition r name input budget 0 none x.sync =
      protocol run transition r name input x.context.state budget [] x.sync :=
  recoverable_eq_protocol run transition r name input _ budget [] none x.sync
    ⟨by rw [sync_context]; rfl, rfl, by simp⟩

theorem runState_does {name : String} {input : Document}
    {e : Ending Execution (Execution × Except RuntimeError Outcome)}
    (h : (runState drive setting budget name state input x).Does acts e) :
    ∃ retries last way,
      acts = retriesActs name retries ++ last ++ (way.catching name).map (.event []) ∧
      state.recovery.Counted [] retries ∧ x.Course drive setting state name input retries last way ∧
      way.Ends e := by
  have given {result : Except RuntimeError Outcome} {z : Execution}
      (hnone : state.attempt? drive setting input = none) (h : (Process.done (z, result)).Does acts e) :
      ∃ retries last way,
        acts = retriesActs name retries ++ last ++ (way.catching name).map (.event []) ∧
        state.recovery.Counted [] retries ∧ x.Course drive setting state name input retries last way ∧
        way.Ends e := by
    cases h
    unfold Course
    rw [hnone]
    cases result with
    | error err => exact ⟨[], [], .aborted err, rfl, trivial, ⟨rfl, rfl, nofun⟩, rfl⟩
    | ok outcome => exact ⟨[], [], .led outcome, rfl, trivial, ⟨rfl, rfl, nofun⟩, rfl⟩
  have hx := attempting_sync x
  obtain ⟨comment, action⟩ := state
  unfold runState runStateVia at h
  dsimp only [State.action] at h
  cases action with
  | pass | choice | succeed | fail => exact given rfl h
  | wait s =>
    dsimp only at h
    split at h
    · exact given rfl h
    · rcases Does.of_sleep h with h | ⟨rfl, rfl⟩
      · exact given rfl h
      · exact ⟨[], [], .unfinished, rfl, trivial, ⟨rfl, rfl, nofun⟩, rfl⟩
  | task | map | parallel =>
    dsimp only at h
    rw [recoverable_start] at h
    exact protocol_does hx h

end Execution

/-! ### Places -/

/-- Something that is done in the attempt number `k`: a request of its own, or anything in one of the
nested executions that it has launched. -/
inductive Act.InAttempt (k : Nat) : Act → Prop where
  | asks (request : Request) : InAttempt k (.call [] request)
  | event (i : Nat) (site : Site) (e : Event) : InAttempt k (.event (⟨k, i⟩ :: site) e)
  | call (i : Nat) (site : Site) (request : Request) : InAttempt k (.call (⟨k, i⟩ :: site) request)

theorem Act.InAttempt.of_site {k i : Nat} {site : Site} {act : Act} (h : act.site = ⟨k, i⟩ :: site) :
    act.InAttempt k := by
  cases act with
  | event site' e =>
    cases h
    exact .event i site e
  | call site' request =>
    cases h
    exact .call i site request

theorem Act.InAttempt.own?_eq {k : Nat} {act : Act} (h : act.InAttempt k) : act.own? = none := by
  cases h <;> rfl

/-- `z` is the nested execution number `i` that an attempt at the state by `y` launches: of an item that
the path to the items selects, or of a branch. -/
inductive State.Launches (state : State) (input : Document) (y : Execution) : Nat → Execution → Prop where
  | iteration {s : MapState} {v : Workflow} {items : List Document} {item : Document} {i : Nat}
      (action : state.action = .map s v) (selected : Execution.items? s input y = some items)
      (there : items[i]? = some item) :
      Launches state input y i (Execution.iteration s v y (s.filters.input y.tree input) i item)
  | branch {s : ParallelState} {branches : List Workflow} {v : Workflow} {i : Nat}
      (action : state.action = .parallel s branches) (there : branches[i]? = some v) :
      Launches state input y i (Execution.branch y (s.filters.input y.tree input) v)

/-- The state runs the graph in nested executions. -/
inductive State.Runs (s : State) : Workflow → Prop where
  | iterator {m : MapState} {v : Workflow} (h : s.action = .map m v) : Runs s v
  | branch {m : ParallelState} {branches : List Workflow} {v : Workflow}
      (h : s.action = .parallel m branches) (hv : v ∈ branches) : Runs s v

theorem State.Launches.runs {state : State} {input : Document} {y z : Execution} {i : Nat}
    (h : state.Launches input y i z) : ∃ v, state.Runs v ∧ y.Launches v z := by
  cases h with
  | iteration action => exact ⟨_, .iterator action, .iteration ..⟩
  | branch action there => exact ⟨_, .branch action (List.mem_of_getElem? there), .branch ..⟩

theorem State.Runs.nests {w v : Workflow} {name : String} {state : State} (h : state.Runs v)
    (hstate : w.state? name = some state) : w.Nests v := by
  have hstate : w.Contains state.action := .of_state? hstate
  cases h with
  | iterator h => exact .iterator (h ▸ hstate)
  | branch h hv => exact .branch (h ▸ hstate) hv

namespace Execution
open Process

variable {drive : Execution → Process Execution (Execution × Except RuntimeError Document)}
  {setting : Setting} {state : State} {x y : Execution} {acts : List Act} {input : Document}
  {run : Nat → Execution → Attempt} {k : Nat} {e : Ending Execution (Except TaskFailure Document)}

/-- An attempt at a Map or Parallel state gathers the nested executions that it launches, or does
nothing. -/
theorem attempt_gathers (hrun : state.attempt? drive setting input = some run)
    (h : (run k y).Does acts e) :
    (∀ act ∈ acts, act.site = [] ∧ act.InAttempt k) ∨
      ∃ d slots e', (gather y k d slots).Does acts e' ∧
        ∀ (i : Nat) s, slots[i]? = some s → ∃ z, state.Launches input y i z ∧ s = nestedSlot drive z := by
  have gathers {β : Type} {f : β → Except TaskFailure Document} {p : Process Execution β}
      (h : (Process.bind (fun r => .done (f r)) p).Does acts e) : ∃ e', p.Does acts e' := by
    rcases Does.of_bind h with ⟨acts₁, acts₂, a, rfl, hp, hdone⟩ | ⟨seen, rfl, hp⟩
    · cases hdone
      exact ⟨_, by simpa using hp⟩
    · exact ⟨_, hp⟩
  obtain ⟨comment, action⟩ := state
  cases action with
  | pass | choice | wait | succeed | fail => cases hrun
  | task s =>
    cases hrun
    let c : Contract Execution (Except TaskFailure Document) :=
      { tells := fun _ _ => False, asks := fun site _ => site = [] }
    have hkeeps : (attemptTask setting s input y).Keeps c :=
      attemptTask_keeps trivial (fun _ => trivial) fun _ _ _ => rfl
    obtain ⟨-, htells, hasks⟩ := h.keeps hkeeps
    refine .inl fun act hact => ?_
    cases act with
    | event site event => exact (htells _ _ hact).elim
    | call site request =>
      obtain rfl := hasks _ _ hact
      exact ⟨rfl, .asks request⟩
  | map s iterator =>
    cases hrun
    rw [attemptMap_eq] at h
    cases hitems : items? s input y with
    | none =>
      rw [hitems] at h
      cases h
      exact .inl nofun
    | some items =>
      rw [hitems] at h
      obtain ⟨e', hgather⟩ := gathers h
      refine .inr ⟨_, _, e', hgather, fun i slot hslot => ?_⟩
      obtain ⟨item, hitem, rfl⟩ := iterations_getElem? hslot
      exact ⟨_, .iteration rfl hitems hitem, rfl⟩
  | parallel s branches =>
    cases hrun
    rw [attemptParallel_eq] at h
    obtain ⟨e', hgather⟩ := gathers h
    refine .inr ⟨_, _, e', hgather, fun i slot hslot => ?_⟩
    rw [List.getElem?_map] at hslot
    obtain ⟨w, hw, rfl⟩ := Option.map_eq_some_iff.1 hslot
    exact ⟨_, .branch rfl hw, rfl⟩

theorem attempt_places (hrun : state.attempt? drive setting input = some run)
    (h : (run k y).Does acts e) : ∀ act ∈ acts, act.InAttempt k := by
  intro act hact
  rcases attempt_gathers hrun h with hown | ⟨d, slots, e', hgather, -⟩
  · exact (hown act hact).2
  · obtain ⟨i, site, -, hsite⟩ := places_of_gather hgather act hact
    exact .of_site hsite

/-- What is done in one of the nested executions of an attempt, that execution does by itself. -/
theorem attempt_within (hrun : state.attempt? drive setting input = some run)
    (h : (run k y).Does acts e) (i : Nat) :
    actsWithin ⟨k, i⟩ acts = [] ∨ ∃ z e', state.Launches input y i z ∧
      (drive z).Does (actsWithin ⟨k, i⟩ acts) e' := by
  rcases attempt_gathers hrun h with hown | ⟨d, slots, e', hgather, hslots⟩
  · exact .inl (actsWithin_eq_nil fun act hact => by simp [(hown act hact).1])
  cases hi : slots[i]? with
  | none =>
    refine .inl (actsWithin_eq_nil fun act hact => ?_)
    obtain ⟨j, site, hj, hsite⟩ := places_of_gather hgather act hact
    rw [hsite, List.head?_cons]
    rintro ⟨⟩
    exact absurd hj (Nat.not_lt.2 (List.getElem?_eq_none_iff.1 hi))
  | some s =>
    rcases (does_of_gather hgather).1 i s hi with hnone | ⟨e'', hdoes⟩
    · exact .inl hnone
    obtain ⟨z, hz, rfl⟩ := hslots i s hi
    rcases Does.of_bind hdoes with ⟨acts₁, acts₂, r, hacts, hdrive, hdone⟩ | ⟨seen, rfl, hdrive⟩
    · cases hdone
      rw [List.append_nil] at hacts
      exact .inr ⟨z, _, hz, hacts ▸ hdrive⟩
    · exact .inr ⟨z, _, hz, hdrive⟩

end Execution

/-- The account is one of a visit of `x`, whose next state is `state`. -/
structure Account.Of (drive : Execution → Process Execution (Execution × Except RuntimeError Document))
    (setting : Setting) (x : Execution) (state : State) (a : Account) : Prop where
  name : a.name = x.current
  type : a.type = state.type
  input : a.input = x.context.state.input
  admits : ∀ outcome, a.way.outcome? = some outcome → state.Admits a.input outcome
  counts : state.recovery.Counts a.retries
  course : (x.visit setting).Course drive setting state a.name a.input a.retries a.last a.way

namespace Execution
open Process

variable {drive : Execution → Process Execution (Execution × Except RuntimeError Document)}
  {setting : Setting} {budget : Nat} {state : State} {x y : Execution} {acts : List Act}

/-- What is done before the first state of all. -/
def opening (x : Execution) : List Act :=
  if x.status = .pending ∧ x.nested = false then
    [.event [] (.workflowStarted x.context.execution.input)]
  else []

/-- How a step ends that visits a state: the way on from the state says it. -/
inductive LeftBy (setting : Setting) (x : Execution) (state : State) :
    Way → Ending Execution (Execution × Except RuntimeError Status) → Prop where
  | cut {y : Execution} (hy : x.Visits setting y) : LeftBy setting x state .unfinished (.cut y)
  | aborted {y : Execution} {e : RuntimeError} (hy : x.Visits setting y) :
      LeftBy setting x state (.aborted e) (.finished ({ y with status := .errored }, .error e))
  | led {y : Execution} {way : Way} {outcome : Outcome} (hy : x.Visits setting y)
      (hway : way.outcome? = some outcome) :
      LeftBy setting x state way (.finished ((y.completed setting outcome.output).advance state outcome))

theorem begin_does {β : Type} {rest : Execution → Process Execution β} {e : Ending Execution β}
    (hend : x.isEnd = false) (h : (Process.bind rest (begin x)).Does acts e) :
    ∃ acts', acts = x.opening ++ acts' ∧ (rest { x with status := .running }).Does acts' e := by
  have hstatus : x.status ≠ .pending → x.status = .running := by
    revert hend
    unfold isEnd
    cases x.status <;> simp [Status.isTerminal]
  unfold begin at h
  split at h
  · rename_i hpending
    cases hnested : x.nested with
    | true =>
      rw [hnested] at h
      exact ⟨acts, by simp [opening, hnested], h⟩
    | false =>
      rw [hnested] at h
      cases h with
      | emit h => exact ⟨_, by simp [opening, hnested, hpending], h⟩
  · rename_i hpending
    refine ⟨acts, by simp [opening, hpending], ?_⟩
    rw [← hstatus hpending]
    exact h

/-- What a step does that visits a state. -/
theorem stepWith_does (hdrive : ∀ y, (drive y).Keeps { tells := y.workflow.TellsAt })
    {e : Ending Execution (Execution × Except RuntimeError Status)} (hend : x.isEnd = false)
    (hstate : x.workflow.state? x.current = some state)
    (h : (stepWith drive setting budget x).Does acts e) :
    ∃ a : Account, a.Of drive setting x state ∧ acts = x.opening ++ a.acts ∧
      x.LeftBy setting state a.way e := by
  unfold stepWith stepWithVia at h
  rw [if_neg (by simp [hend]), hstate] at h
  obtain ⟨acts₁, rfl, hrest⟩ := begin_does hend h
  obtain ⟨acts₂, rfl, hvisit⟩ := Does.of_tell hrest
  have hvisits {y : Execution} (hy : (x.visit setting).Attempting y) : x.Visits setting y :=
    ⟨hend, Option.isSome_iff_exists.2 ⟨state, hstate⟩, hy⟩
  have hrunning : (runState drive setting budget x.current state x.context.state.input
      (x.visit setting)).Keeps ((x.visit setting).running state x.context.state.input) :=
    runState_running hdrive budget _ hstate
  rcases Does.of_bind hvisit with ⟨acts₃, acts₄, ⟨y, result⟩, rfl, hrun, hleave⟩ | ⟨y, rfl, hrun⟩
  · obtain ⟨hy, hgives⟩ := (hrun.keeps hrunning).1
    obtain ⟨retries, last, way, rfl, hcounted, hcourse, hway⟩ := runState_does hrun
    have hway : way.result? = some result := hway
    have houtcome := Way.outcome?_of_result? hway
    have hleft : acts₄ = (way.outcome?.map fun o => Event.stateCompleted x.current o.output o.next).toList.map
        (.event []) ∧ x.LeftBy setting state way e := by
      cases result with
      | error err =>
        cases hleave
        cases way <;> cases hway
        exact ⟨rfl, .aborted (hvisits hy)⟩
      | ok outcome =>
        obtain ⟨acts₅, rfl, hdone⟩ := Does.of_tell hleave
        cases hdone
        exact ⟨by rw [houtcome]; rfl, .led (hvisits hy) houtcome⟩
    refine ⟨⟨x.current, state.type, x.context.state.input, retries, last, way⟩,
      ⟨rfl, rfl, rfl, fun outcome hout => ?_, hcounted.counts, hcourse⟩, ?_, hleft.2⟩
    · cases result with
      | error => cases houtcome.symm.trans hout
      | ok =>
        cases houtcome.symm.trans hout
        exact hgives
    · simp [Account.acts, Way.told, hleft.1]
  · have hy := (hrun.keeps hrunning).1
    obtain ⟨retries, last, way, rfl, hcounted, hcourse, hway⟩ := runState_does hrun
    obtain rfl : way = .unfinished := hway
    exact ⟨⟨x.current, state.type, x.context.state.input, retries, last, .unfinished⟩,
      ⟨rfl, rfl, rfl, fun _ hout => (by cases hout), hcounted.counts, hcourse⟩,
      by simp [Account.acts, Way.told, Way.outcome?], .cut (hvisits hy)⟩

/-! ### What accounts say -/

end Execution

namespace Account
open Process

variable {drive : Execution → Process Execution (Execution × Except RuntimeError Document)}
  {setting : Setting} {state : State} {x : Execution} {a : Account}

theorem Of.attempt (h : a.Of drive setting x state) {k : Nat} {acts : List Act}
    (hk : a.attempts[k]? = some acts) (hne : acts ≠ []) :
    ∃ run y e, state.attempt? drive setting a.input = some run ∧ (x.visit setting).Attempting y ∧
      (run k y).Does acts e := by
  have hcourse := h.course
  unfold Execution.Course at hcourse
  unfold attempts at hk
  cases hrun : state.attempt? drive setting a.input with
  | none =>
    rw [hrun] at hcourse
    obtain ⟨hretries, hlast, -⟩ := hcourse
    rw [hretries, hlast] at hk
    cases k with
    | zero => exact (hne (Option.some.inj hk).symm).elim
    | succ k => cases hk
  | some run =>
    rw [hrun] at hcourse
    obtain ⟨hfailed, hlast⟩ := hcourse
    simp only [Nat.zero_add] at hfailed hlast
    rcases Nat.lt_trichotomy k a.retries.length with hlt | rfl | hgt
    · rw [List.getElem?_append_left (by simpa using hlt), List.getElem?_map] at hk
      obtain ⟨t, ht, rfl⟩ := Option.map_eq_some_iff.1 hk
      obtain ⟨y, hy, hdoes⟩ := hfailed k t ht
      exact ⟨run, y, _, rfl, hy, hdoes⟩
    · rw [List.getElem?_append_right (by simp)] at hk
      simp only [List.length_map, Nat.sub_self, List.getElem?_cons_zero, Option.some.injEq] at hk
      rw [hk] at hlast
      rcases hlast.does with hnone | ⟨y, e, hy, hdoes⟩
      · exact (hne hnone).elim
      · exact ⟨run, y, e, rfl, hy, hdoes⟩
    · rw [List.getElem?_eq_none (by simpa [Nat.succ_le_iff] using hgt)] at hk
      cases hk

theorem Of.places (h : a.Of drive setting x state) {k : Nat} {acts : List Act}
    (hk : a.attempts[k]? = some acts) : ∀ act ∈ acts, act.InAttempt k := by
  intro act hact
  obtain ⟨run, y, e, hrun, -, hdoes⟩ := h.attempt hk (List.ne_nil_of_mem hact)
  exact Execution.attempt_places hrun hdoes act hact

theorem Of.quiet (h : a.Of drive setting x state) : ∀ acts ∈ a.attempts, ownEvents acts = [] := by
  intro acts hacts
  obtain ⟨k, hk⟩ := List.mem_iff_getElem?.1 hacts
  exact List.filterMap_eq_nil_iff.2 fun act hact => (h.places hk act hact).own?_eq

theorem Of.own (h : a.Of drive setting x state) : ownEvents a.acts = a.told := by
  have hquiet := h.quiet
  rw [attempts, List.forall_mem_append, List.forall_mem_map, List.forall_mem_singleton] at hquiet
  rw [acts, ownEvents_cons_event, ownEvents_append, ownEvents_append, ownEvents_retriesActs hquiet.1,
    hquiet.2, List.append_nil, ownEvents_map_event, told]

end Account
end StepFlow
