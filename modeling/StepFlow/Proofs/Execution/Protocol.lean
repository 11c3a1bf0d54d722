import StepFlow.Proofs.Execution.Tree
import StepFlow.Proofs.Process.Contract

/-!
# The protocol of retrying and catching

`Execution.recoverable` remembers the retrier of the last failure and counts in the record of the
state. `Execution.protocol` remembers nothing but the failures so far, newest first, and reads from
them what the record says (`Recovery.recordAfter`), whether and when to try again
(`Recovery.retryDelay?`) and otherwise what the failure comes to (`Recovery.fallback`). The two are one
process (`runState_protocol`).
-/

namespace StepFlow

/-- A list of patterns matches a failure by its name, by its name and cause, or as any failure. -/
def TaskFailure.Matches (f : TaskFailure) (patterns : List String) : Prop :=
  f.error ∈ patterns ∨ f.error ++ ": " ++ f.cause ∈ patterns ∨ "States.ALL" ∈ patterns

instance (f : TaskFailure) (patterns : List String) : Decidable (f.Matches patterns) :=
  inferInstanceAs (Decidable (_ ∨ _))

theorem TaskFailure.matchesError_eq (f : TaskFailure) (patterns : List String) :
    matchesError patterns f.error f.render = decide (f.Matches patterns) := by
  have hany : matchesError patterns f.error f.render = true ↔
      ∃ p ∈ patterns, (p = allErrors ∨ p = f.error) ∨ p = f.render := by
    simp [matchesError]
  rw [Bool.eq_iff_iff, decide_eq_true_iff, hany]
  constructor
  · rintro ⟨p, hp, (rfl | rfl) | rfl⟩
    · exact .inr (.inr hp)
    · exact .inl hp
    · exact .inr (.inl hp)
  · rintro (h | h | h)
    · exact ⟨_, h, .inl (.inr rfl)⟩
    · exact ⟨_, h, .inr rfl⟩
    · exact ⟨_, h, .inl (.inl rfl)⟩

namespace Recovery

variable (r : Recovery)

/-- The position of the first retrier that matches a failure. -/
def position? (f : TaskFailure) : Option Nat :=
  r.retriers.findIdx? fun retrier => f.Matches retrier.errorEquals

/-- The length of the longest block of failures, ending with the newest one, that have the same first
retrier. -/
def streak : List TaskFailure → Nat
  | [] => 0
  | f :: past => (past.takeWhile fun g => r.position? g = r.position? f).length + 1

/-- The retrier of the newest failure. -/
def newest? : List TaskFailure → Option Retrier
  | [] => none
  | f :: _ => (r.position? f).bind (r.retriers[·]?)

/-- What the record of a state says after some failures. -/
def recordAfter (record : StateRecord) : List TaskFailure → StateRecord
  | [] => record
  | f :: past =>
    match r.newest? (f :: past) with
    | some retrier =>
      { record with retryCount := r.streak (f :: past), retrier := some retrier.errorEquals }
    | none => recordAfter record past

/-- The delay until the next attempt; none if there is no other attempt. -/
def retryDelay? (failures : List TaskFailure) : Option Duration := do
  let retrier ← r.newest? failures
  if r.streak failures ≤ retrier.maxAttempts then some (retrier.delay (r.streak failures)) else none

/-- What a failure comes to that is not retried: the next state and the output, or an error. -/
def fallback (name : String) (input : Document) (f : TaskFailure) :
    Except RuntimeError (String × Document) :=
  match r.catchers.find? fun c => f.Matches c.errorEquals with
  | none => .error (.taskFailed name f)
  | some c =>
    match c.resultPath with
    | none => .ok (c.next, input)
    | some p =>
      match p.set input (.ofList [("Error", .str f.error), ("Cause", .str f.cause)]) with
      | .ok output => .ok (c.next, output)
      | .error e => .error (.path name e)

end Recovery

namespace Execution
open Process

/-- Attempts at a state after some failures, newest first; `record` is that of the state as it was
entered. -/
def protocol (run : Nat → Execution → Process Execution (Except TaskFailure Document))
    (transition : Transition) (r : Recovery) (name : String) (input : Document)
    (record : StateRecord) :
    (budget : Nat) → List TaskFailure → Execution →
      Process Execution (Execution × Except RuntimeError Outcome)
  | 0, _, _ => .stuck
  | budget + 1, past, x => do
    let x := x.sync
    match ← run past.length x with
    | .ok output => return (x, .ok ⟨transition.next?, output⟩)
    | .error f =>
      let failures := f :: past
      let x := x.withRecord (r.recordAfter record failures)
      match r.retryDelay? failures with
      | some delay =>
        Process.tell (.taskRetrying name f.error (r.streak failures) (Duration.toMillisWord delay))
        Process.sleep x delay
        protocol run transition r name input record budget failures x
      | none =>
        match r.fallback name input f with
        | .ok (next, output) =>
          Process.tell (.taskCaught name f.error next)
          return (x, .ok ⟨some next, output⟩)
        | .error e => return (x, .error e)

end Execution

namespace StateRecord

theorem get?_retryCount (r : StateRecord) :
    r.toDocument.get? "RetryCount" = some (.ofNat r.retryCount) := by
  obtain ⟨name, guid, input, enteredTime, finishedTime, duration, output, retryCount, retrier⟩ := r
  cases enteredTime <;> cases finishedTime <;> cases duration <;> cases output <;> cases retrier <;>
    rfl

theorem get?_retrier (r : StateRecord) :
    r.toDocument.get? "Retrier" = r.retrier.map fun patterns => .arr (patterns.map .str) := by
  obtain ⟨name, guid, input, enteredTime, finishedTime, duration, output, retryCount, retrier⟩ := r
  cases enteredTime <;> cases finishedTime <;> cases duration <;> cases output <;> cases retrier <;>
    rfl

end StateRecord

namespace Recovery

variable {r : Recovery}

theorem retrier?_eq (r : Recovery) (f : TaskFailure) :
    r.retrier? f = (r.position? f).bind fun i => r.retriers[i]?.map (i, ·) := by
  rw [position?, List.findIdx?_eq_fst_find?_zipIdx, retrier?]
  simp only [Retrier.selects, TaskFailure.matchesError_eq]
  cases hfind : r.retriers.zipIdx.find? fun x => decide (f.Matches x.1.errorEquals) with
  | none => rfl
  | some found =>
    have hfound := List.mem_zipIdx_iff_getElem?.1 (List.mem_of_find?_eq_some hfind)
    simp [hfound]

theorem streak_cons_of_eq {f g : TaskFailure} {past : List TaskFailure}
    (h : r.position? f = r.position? g) : r.streak (f :: g :: past) = r.streak (g :: past) + 1 := by
  simp [streak, h]

theorem streak_cons_of_ne {f g : TaskFailure} {past : List TaskFailure}
    (h : r.position? f ≠ r.position? g) : r.streak (f :: g :: past) = 1 := by
  simp [streak, Ne.symm h]

/-- What `recoverable` has in mind after some failures: the record, and the position of the last
retrier. -/
structure Remembers (r : Recovery) (record : StateRecord) (past : List TaskFailure)
    (last : Option Nat) (state : StateRecord) : Prop where
  state : state = r.recordAfter record past
  last : last = past.head?.bind r.position?
  retried : ∀ f ∈ past.head?, (r.newest? past).isSome

variable {record state : StateRecord} {past : List TaskFailure} {last : Option Nat} {f : TaskFailure}

theorem newest?_eq_some {i : Nat} {retrier : Retrier} (hi : r.position? f = some i)
    (hr : r.retriers[i]? = some retrier) : r.newest? (f :: past) = some retrier := by
  simp [newest?, hi, hr]

theorem recordAfter_eq {retrier : Retrier} (h : r.newest? (f :: past) = some retrier) :
    r.recordAfter record (f :: past) =
      { record with
        retryCount := r.streak (f :: past), retrier := some retrier.errorEquals } := by
  simp only [recordAfter, h]

/-- The count in the record is the length of the block of failures of one retrier. -/
theorem Remembers.count_eq (h : Remembers r record past last state) {i : Nat} {retrier : Retrier}
    (hi : r.position? f = some i) (hr : r.retriers[i]? = some retrier) :
    Remedy.count i retrier last state = r.recordAfter record (f :: past) := by
  rw [recordAfter_eq (newest?_eq_some hi hr), h.state, h.last]
  cases past with
  | nil => rfl
  | cons g past =>
    obtain ⟨retrier', hg⟩ := Option.isSome_iff_exists.1 (h.retried g rfl)
    rw [recordAfter_eq hg]
    simp only [List.head?_cons, Option.bind_some]
    by_cases hfg : r.position? f = r.position? g
    · have hsame : retrier' = retrier := by
        simp only [newest?, ← hfg, hi, hr, Option.bind_some] at hg
        exact (Option.some.inj hg).symm
      rw [streak_cons_of_eq hfg, Remedy.count, if_pos (hfg.symm.trans hi), hsame]
    · rw [streak_cons_of_ne hfg, Remedy.count, if_neg fun hg => hfg (hi.trans hg.symm)]

/-- After a failure that is retried, the failure is remembered as well. -/
theorem Remembers.cons {i : Nat} {retrier : Retrier} (hi : r.position? f = some i)
    (hr : r.retriers[i]? = some retrier) :
    Remembers r record (f :: past) (some i) (r.recordAfter record (f :: past)) where
  state := rfl
  last := hi.symm
  retried := by simp [newest?_eq_some hi hr]

/-- What becomes of a failure, read from the failures so far. -/
theorem Remembers.ofFailure_eq (h : Remembers r record past last state) (f : TaskFailure) :
    Remedy.ofFailure r f last state =
      match r.position? f, r.retryDelay? (f :: past) with
      | some i, some delay => .retry i delay (r.recordAfter record (f :: past))
      | _, _ => .giveUp (r.recordAfter record (f :: past)) := by
  rw [Remedy.ofFailure, retrier?_eq]
  cases hi : r.position? f with
  | none =>
    have hnewest : r.newest? (f :: past) = none := by simp [newest?, hi]
    simp [recordAfter, hnewest, h.state]
  | some i =>
    cases hr : r.retriers[i]? with
    | none =>
      have hnewest : r.newest? (f :: past) = none := by simp [newest?, hi, hr]
      simp [recordAfter, retryDelay?, hnewest, h.state, hr]
    | some retrier =>
      have hnewest : r.newest? (f :: past) = some retrier := newest?_eq_some hi hr
      simp only [Option.bind_some, hr, Option.map_some, h.count_eq hi hr, retryDelay?, hnewest]
      rw [recordAfter_eq hnewest]
      by_cases hle : r.streak (f :: past) ≤ retrier.maxAttempts
      · simp [hle]
      · simp [hle]

theorem retryDelay?_eq_some {delay : Duration} (h : r.retryDelay? (f :: past) = some delay) :
    ∃ i retrier, r.position? f = some i ∧ r.retriers[i]? = some retrier := by
  obtain ⟨retrier, hnewest, -⟩ := Option.bind_eq_some_iff.1 h
  obtain ⟨i, hi, hr⟩ := Option.bind_eq_some_iff.1 hnewest
  exact ⟨i, retrier, hi, hr⟩

theorem fallback_eq (r : Recovery) (name : String) (input : Document) (f : TaskFailure)
    (x : Execution) :
    Execution.catchFailure r name input f x =
      match r.fallback name input f with
      | .ok (next, output) => do
        Process.tell (.taskCaught name f.error next)
        return (x, .ok ⟨some next, output⟩)
      | .error e => return (x, .error e) := by
  have hcatcher : r.catcher? f = r.catchers.find? fun c => f.Matches c.errorEquals := by
    simp only [catcher?, Catcher.selects, ← TaskFailure.matchesError_eq]
  rw [Execution.catchFailure, fallback, hcatcher]
  cases r.catchers.find? fun c => f.Matches c.errorEquals with
  | none => rfl
  | some c =>
    obtain ⟨patterns, next, path⟩ := c
    cases path with
    | none => rfl
    | some p =>
      simp only [TaskFailure.toDocument]
      cases p.set input (.ofList [("Error", .str f.error), ("Cause", .str f.cause)]) <;> rfl

end Recovery

namespace Execution
open Process

theorem recoverable_eq_protocol
    (run : Nat → Execution → Process Execution (Except TaskFailure Document))
    (transition : Transition) (r : Recovery) (name : String) (input : Document)
    (record : StateRecord) (budget : Nat) (past : List TaskFailure) (last : Option Nat)
    (x : Execution) (h : r.Remembers record past last x.context.state) :
    recoverable sync run transition r name input budget past.length last x =
      protocol run transition r name input record budget past x := by
  induction budget generalizing past last x with
  | zero => rfl
  | succ budget ih =>
    refine congrArg (fun rest => Process.bind rest (run past.length x.sync)) (funext fun result => ?_)
    cases result with
    | ok output => rfl
    | error f =>
      rw [← sync_context] at h
      simp only [h.ofFailure_eq f]
      cases hdelay : r.retryDelay? (f :: past) with
      | none =>
        rw [← Recovery.fallback_eq]
        cases r.position? f <;> rfl
      | some delay =>
        obtain ⟨i, retrier, hi, hr⟩ := Recovery.retryDelay?_eq_some hdelay
        have hx : r.Remembers record (f :: past) (some i)
            (x.sync.withRecord (r.recordAfter record (f :: past))).context.state := .cons hi hr
        have hcount : (r.recordAfter record (f :: past)).retryCount = r.streak (f :: past) := by
          rw [Recovery.recordAfter_eq (Recovery.newest?_eq_some hi hr)]
        simp only [hi, hcount, ← ih _ _ _ hx, List.length_cons]

/-- The record under way is read from a tree that has just been brought up to date, whatever it was
before. -/
theorem sync_tree_state (x : Execution) :
    x.sync.tree.get? "State" = some x.context.state.toDocument := by
  unfold sync
  split
  · dsimp only [Document.get?]
    split <;> simp [Table.get?_insert]
  · dsimp only
    rw [Context.toDocument_eq]
    cases x.context.item <;> simp [Document.get?, Record.present, Table.get?]

/-- Task, Map and Parallel states are attempted by the protocol, and every attempt reads the count of
retries and the patterns of the last retrier from its tree. -/
theorem runState_protocol
    (drive : Execution → Process Execution (Execution × Except RuntimeError Document))
    (setting : Setting) (budget : Nat) (name : String) (comment : Option String) (input : Document)
    (x : Execution) :
    (∀ s : TaskState, runState drive setting budget name (.mk comment (.task s)) input x =
      protocol (fun _ => attemptTask setting s input) s.transition s.recovery name input
        x.context.state budget [] x.sync) ∧
    (∀ (s : MapState) (iterator : Workflow),
      runState drive setting budget name (.mk comment (.map s iterator)) input x =
        protocol (attemptMap drive s iterator input) s.transition s.recovery name input
          x.context.state budget [] x.sync) ∧
    (∀ (s : ParallelState) (branches : List Workflow),
      runState drive setting budget name (.mk comment (.parallel s branches)) input x =
        protocol (attemptParallel drive s branches input) s.transition s.recovery name input
          x.context.state budget [] x.sync) ∧
    ∀ y : Execution, ∃ d, y.sync.tree.get? "State" = some d ∧
      d.get? "RetryCount" = some (.ofNat y.context.state.retryCount) ∧
      d.get? "Retrier" = y.context.state.retrier.map fun patterns => .arr (patterns.map .str) := by
  have hprotocol (r : Recovery) (transition : Transition)
      (run : Nat → Execution → Process Execution (Except TaskFailure Document)) :
      recoverable sync run transition r name input budget 0 none x.sync =
        protocol run transition r name input x.context.state budget [] x.sync :=
    recoverable_eq_protocol run transition r name input _ budget [] none x.sync
      ⟨by rw [sync_context]; rfl, rfl, by simp⟩
  refine ⟨fun s => hprotocol _ _ _, fun s iterator => hprotocol _ _ _,
    fun s branches => hprotocol _ _ _, fun y => ⟨_, sync_tree_state y, ?_, ?_⟩⟩
  · exact StateRecord.get?_retryCount _
  · exact StateRecord.get?_retrier _

end Execution

end StepFlow
