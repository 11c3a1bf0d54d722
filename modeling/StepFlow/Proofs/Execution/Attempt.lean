import StepFlow.Proofs.Execution.Parts
import StepFlow.Proofs.Process.Gather
import StepFlow.Proofs.Workflow.Contains

/-!
# Contracts of attempts

What one attempt at a Task, Map or Parallel state keeps, given what nested executions keep, and what
attempts keep that are made one after the other (`recoverable_keeps`). While an attempt sleeps, the
execution is seen as it was when the attempt began.
-/

namespace StepFlow

/-- The credentials of a task, rendered against those of the setting and nothing else. -/
def TaskState.secrets (s : TaskState) (setting : Setting) : Document :=
  match s.credentials with
  | some t => t.render (.obj []) setting.credentials
  | none => .null

/-- A request that some task of the workflow, at any depth, makes: for its resource and with its
credentials. -/
def Workflow.Makes (w : Workflow) (setting : Setting) (r : Request) : Prop :=
  ∃ s : TaskState, w.Contains (.task s) ∧ r.resource = s.resource ∧ r.secrets = s.secrets setting

/-- The events that attempts at a state tell of one after the other. -/
inductive Recovery.Tells (r : Recovery) (name : String) : Event → Prop where
  | retrying (error : String) (count delay : Nat) :
      Tells r name (.taskRetrying name error count delay)
  | caught (error : String) {c : Catcher} (h : c ∈ r.catchers) :
      Tells r name (.taskCaught name error c.next)

/-- How a state is left after its attempts: by its own transition, by a catcher, or with an error. -/
inductive Recovery.Leaves (r : Recovery) (name : String) (transition : Transition) :
    Except RuntimeError Outcome → Prop where
  | done (output : Document) : Leaves r name transition (.ok ⟨transition.next?, output⟩)
  | caught {c : Catcher} (h : c ∈ r.catchers) (output : Document) :
      Leaves r name transition (.ok ⟨some c.next, output⟩)
  | failed (f : TaskFailure) : Leaves r name transition (.error (.taskFailed name f))
  | unwritten (e : PathError) : Leaves r name transition (.error (.path name e))

namespace Remedy

/-- The record of the state under way after a failure. -/
def record : Remedy → StateRecord
  | retry _ _ record => record
  | giveUp record => record

theorem count_record (position : Nat) (retrier : Retrier) (last : Option Nat) (r : StateRecord) :
    ∃ n patterns, count position retrier last r = { r with retryCount := n, retrier := patterns } := by
  unfold count
  split
  · exact ⟨_, _, rfl⟩
  · exact ⟨_, _, rfl⟩

/-- The record is kept up to what it says of retries. -/
theorem ofFailure_record (recovery : Recovery) (f : TaskFailure) (last : Option Nat) (r : StateRecord) :
    ∃ n patterns, (ofFailure recovery f last r).record =
      { r with retryCount := n, retrier := patterns } := by
  unfold ofFailure
  split
  · dsimp only
    split
    · exact count_record _ _ last r
    · exact count_record _ _ last r
  · exact ⟨_, _, rfl⟩

end Remedy

namespace Execution
open Process

/-- A task asks at most once, for its resource, and comes to a failure or to what is made of a report. -/
theorem attemptTask_ends {c : Contract Execution (Except TaskFailure Document)} {setting : Setting}
    {s : TaskState} {input : Document} {x : Execution} (hshows : c.shows x)
    (hfails : ∀ f, c.ends (.error f))
    (hreports : ∀ report : Report, c.ends (shapeResult s.results s.filters x.tree input report.result))
    (hasks : ∀ r : Request, r.resource = s.resource → r.secrets = s.secrets setting → c.asks [] r) :
    (attemptTask setting s input x).Keeps c := by
  unfold attemptTask
  dsimp only
  cases setting.runners.resolve s.resource with
  | error e => exact hfails _
  | ok _ =>
    cases Environment.ofInput (renderWith s.parameters x.tree (s.filters.input x.tree input)) with
    | error e => exact hfails _
    | ok env =>
      refine Keeps.ask (hasks _ rfl rfl) hshows fun result => ?_
      split
      · exact hfails _
      · split
        · exact hreports _
        · exact hfails _

theorem attemptTask_keeps {c : Contract Execution (Except TaskFailure Document)} {setting : Setting}
    {s : TaskState} {input : Document} {x : Execution} (hshows : c.shows x)
    (hends : ∀ result, c.ends result)
    (hasks : ∀ r : Request, r.resource = s.resource → r.secrets = s.secrets setting → c.asks [] r) :
    (attemptTask setting s input x).Keeps c :=
  attemptTask_ends hshows (fun _ => hends _) (fun _ => hends _) hasks

section
variable {drive : Execution → Process Execution (Execution × Except RuntimeError Document)}
  {c : Contract Execution (Except TaskFailure Document)} {x : Execution} {attempt : Nat}

theorem nestedSlot_keeps {y : Execution} {i : Nat} (h : (drive y).Keeps (c.inside attempt i)) :
    SlotKeeps (c.inside attempt i) (nestedSlot drive y) := by
  intro p hp
  cases hp
  exact h.bind (Q := fun _ => True) fun _ _ => trivial

theorem attemptMap_keeps {s : MapState} {iterator : Workflow} {input : Document}
    (hshows : c.shows x) (hends : ∀ result, c.ends result)
    (hdrive : ∀ effective i item,
      (drive (iteration s iterator x effective i item)).Keeps (c.inside attempt i)) :
    (attemptMap drive s iterator input attempt x).Keeps c := by
  rw [attemptMap_eq]
  cases items? s input x with
  | none => exact hends _
  | some items =>
    refine Keeps.bind (Q := fun _ => True) (.gather hshows (fun _ => trivial) ?_) fun _ _ => hends _
    intro i slot hslot
    obtain ⟨item, -, rfl⟩ := iterations_getElem? hslot
    exact nestedSlot_keeps (c := c) (hdrive _ _ _)

theorem attemptParallel_keeps {s : ParallelState} {branches : List Workflow} {input : Document}
    (hshows : c.shows x) (hends : ∀ result, c.ends result)
    (hdrive : ∀ effective i w, branches[i]? = some w →
      (drive (branch x effective w)).Keeps (c.inside attempt i)) :
    (attemptParallel drive s branches input attempt x).Keeps c := by
  rw [attemptParallel_eq]
  refine Keeps.bind (Q := fun _ => True) (.gather hshows (fun _ => trivial) ?_) fun _ _ => hends _
  intro i slot hslot
  simp only [List.getElem?_map, Option.map_eq_some_iff] at hslot
  obtain ⟨w, hw, rfl⟩ := hslot
  exact nestedSlot_keeps (c := c) (hdrive _ i w hw)

end

/-! ### Attempts one after the other -/

section
variable {c : Contract Execution (Execution × Except RuntimeError Outcome)} {recovery : Recovery}
  {transition : Transition} {name : String} {input : Document}
  (htells : ∀ event, recovery.Tells name event → c.tells [] event)
include htells

theorem catchFailure_keeps {f : TaskFailure} {x : Execution}
    (hends : ∀ result, recovery.Leaves name transition result → c.ends (x, result)) :
    (catchFailure recovery name input f x).Keeps c := by
  unfold catchFailure
  split
  · exact hends _ (.failed f)
  · rename_i catcher hcatcher
    have hmem : catcher ∈ recovery.catchers := List.mem_of_find?_eq_some hcatcher
    split
    · exact hends _ (.unwritten _)
    · exact .tell (htells _ (.caught _ hmem)) (hends _ (.caught hmem _))

/-- What holds of the execution at every attempt, its attempts may rely on. -/
theorem recoverable_keeps {I : Execution → Prop}
    {run : Nat → Execution → Process Execution (Except TaskFailure Document)}
    (hsync : ∀ y, I y → I y.sync)
    (hrecord : ∀ y count patterns, I y →
      I (y.withRecord { y.context.state with retryCount := count, retrier := patterns }))
    (hrun : ∀ attempt y, I y → (run attempt y).Keeps (c.ending fun _ => True))
    (hshows : ∀ y, I y → c.shows y)
    (hends : ∀ y result, I y → recovery.Leaves name transition result → c.ends (y, result))
    (budget attempt : Nat) (last : Option Nat) {x : Execution} (hx : I x) :
    (recoverable sync run transition recovery name input budget attempt last x).Keeps c := by
  induction budget generalizing attempt last x with
  | zero => trivial
  | succ budget ih =>
    refine Keeps.bind (hrun attempt _ (hsync x hx)) fun result _ => ?_
    cases result with
    | ok output => exact hends _ _ (hsync x hx) (.done output)
    | error f =>
      obtain ⟨count, patterns, hrecord'⟩ :=
        Remedy.ofFailure_record recovery f last x.sync.context.state
      have hnext := hrecord _ count patterns (hsync x hx)
      rw [← hrecord'] at hnext
      dsimp only
      generalize Remedy.ofFailure recovery f last x.sync.context.state = remedy at hnext
      cases remedy with
      | giveUp record => exact catchFailure_keeps htells fun result => hends _ _ hnext
      | retry position delay record =>
        exact .tell (htells _ (.retrying _ _ _)) (.sleep (hshows _ hnext) (ih _ _ hnext))

end

end Execution
end StepFlow
