import StepFlow.Proofs.Execution.Protocol
import StepFlow.Proofs.Process.Acts

/-!
# Accounts of visits

An account says what is done in one visit of a state: the attempts that were retried, each with the event
that tells of the retry, then the last attempt and the way on from it. `Recovery.Counts` says which retries a
state grants, and how they are counted.
-/

namespace StepFlow

/-- An attempt that has failed and is followed by another. -/
structure Retry where
  /-- All that the attempt has done. -/
  acts : List Act
  failure : TaskFailure
  count : Nat
  delay : Duration

/-- How a visit of a state ends. -/
inductive Way where
  /-- It is cut off, or never gone on with. -/
  | unfinished
  | aborted (e : RuntimeError)
  /-- The state itself says what follows. -/
  | led (outcome : Outcome)
  /-- A catcher has taken the failure of the last attempt. -/
  | caught (failure : TaskFailure) (next : String) (output : Document)

/-- What is done in one visit of a state. -/
structure Account where
  name : String
  type : StateType
  input : Document
  retries : List Retry
  /-- What the last attempt has done. -/
  last : List Act
  way : Way

namespace Way

def result? : Way → Option (Except RuntimeError Outcome)
  | unfinished => none
  | aborted e => some (.error e)
  | led outcome => some (.ok outcome)
  | caught _ next output => some (.ok ⟨some next, output⟩)

/-- What the state has come to, if it is done. -/
def outcome? : Way → Option Outcome
  | led outcome => some outcome
  | caught _ next output => some ⟨some next, output⟩
  | unfinished | aborted _ => none

/-- That the failure of the last attempt was taken is told of at once. -/
def catching (name : String) : Way → List Event
  | caught f next _ => [.taskCaught name f.error next]
  | unfinished | aborted _ | led _ => []

/-- What the execution tells of itself after the last attempt. -/
def told (name : String) (way : Way) : List Event :=
  way.catching name ++ (way.outcome?.map fun o => .stateCompleted name o.output o.next).toList

theorem outcome?_of_result? {way : Way} {result : Except RuntimeError Outcome}
    (h : way.result? = some result) : way.outcome? = result.toOption := by
  cases way <;> cases h <;> rfl

theorem led_of_outcome? {way : Way} {output : Document} (h : way.outcome? = some ⟨none, output⟩) :
    way = .led ⟨none, output⟩ := by
  cases way <;> cases h
  rfl

end Way

def Retry.told (name : String) (t : Retry) : Event :=
  .taskRetrying name t.failure.error t.count (Duration.toMillisWord t.delay)

/-- The failed attempts, each with the event that tells of the retry. -/
def retriesActs (name : String) (retries : List Retry) : List Act :=
  retries.flatMap fun t => t.acts ++ [.event [] (t.told name)]

theorem ownEvents_retriesActs {name : String} {retries : List Retry}
    (h : ∀ t ∈ retries, ownEvents t.acts = []) :
    ownEvents (retriesActs name retries) = retries.map (Retry.told name) := by
  induction retries with
  | nil => rfl
  | cons t retries ih =>
    obtain ⟨ht, hretries⟩ := List.forall_mem_cons.1 h
    rw [retriesActs, List.flatMap_cons, ownEvents_append, ownEvents_append, ht, List.nil_append,
      ← retriesActs, ih hretries]
    rfl

namespace Account

/-- What the execution tells of itself during the visit. -/
def told (a : Account) : List Event :=
  .stateStarted a.name a.type a.input :: (a.retries.map (Retry.told a.name) ++ a.way.told a.name)

/-- All that is done in the visit, at any depth. -/
def acts (a : Account) : List Act :=
  .event [] (.stateStarted a.name a.type a.input) ::
    (retriesActs a.name a.retries ++ a.last ++ (a.way.told a.name).map (.event []))

/-- What the attempts have done, in their order. -/
def attempts (a : Account) : List (List Act) := a.retries.map (·.acts) ++ [a.last]

end Account

/-! ### What is told -/

/-- Events of the visits of states; the others are those of an execution as a whole. -/
def Event.OfState : Event → Prop
  | .stateStarted .. | .stateCompleted .. | .taskRetrying .. | .taskCaught .. => True
  | .workflowStarted _ | .workflowCompleted .. | .workflowFailed _ => False

theorem Way.ofState_told {name : String} {way : Way} : ∀ event ∈ way.told name, event.OfState := by
  intro event hevent
  unfold Way.told at hevent
  cases way <;> simp only [Way.catching, Way.outcome?, Option.map_some, Option.map_none,
    Option.toList_some, Option.toList_none, List.nil_append, List.append_nil, List.cons_append,
    List.mem_cons, List.not_mem_nil, or_false] at hevent
  · subst hevent
    trivial
  · rcases hevent with rfl | rfl <;> trivial

namespace Account

variable {a : Account} {act : Act}

theorem ofState_told : ∀ event ∈ a.told, event.OfState := by
  refine List.forall_mem_cons.2 ⟨trivial, List.forall_mem_append.2 ⟨?_, Way.ofState_told⟩⟩
  exact List.forall_mem_map.2 fun _ _ => trivial

/-- All that is done in a visit is told by the execution itself or done in an attempt. -/
theorem mem_acts (h : act ∈ a.acts) :
    (∃ event ∈ a.told, act = .event [] event) ∨ ∃ (k : Nat) (acts : List Act),
      a.attempts[k]? = some acts ∧ act ∈ acts := by
  have attempted (h : ∃ acts ∈ a.attempts, act ∈ acts) :
      ∃ (k : Nat) (acts : List Act), a.attempts[k]? = some acts ∧ act ∈ acts := by
    obtain ⟨acts, hacts, hact⟩ := h
    obtain ⟨k, hk⟩ := List.mem_iff_getElem?.1 hacts
    exact ⟨k, acts, hk, hact⟩
  simp only [acts, retriesActs, List.mem_cons, List.mem_append, List.mem_flatMap, List.mem_map,
    List.not_mem_nil, or_false] at h
  rcases h with rfl | (⟨t, ht, hact | rfl⟩ | hact) | ⟨event, hevent, rfl⟩
  · exact .inl ⟨_, List.mem_cons_self .., rfl⟩
  · exact .inr (attempted ⟨t.acts, List.mem_append_left _ (List.mem_map_of_mem ht), hact⟩)
  · exact .inl ⟨_, List.mem_cons_of_mem _ (List.mem_append_left _ (List.mem_map_of_mem ht)), rfl⟩
  · exact .inr (attempted ⟨a.last, List.mem_append_right _ (List.mem_singleton_self _), hact⟩)
  · exact .inl ⟨event, List.mem_cons_of_mem _ (List.mem_append_right _ hevent), rfl⟩

end Account

/-! ### Counting retries -/

/-- Retriers and catchers of a state; a state that only moves data has none. -/
def State.recovery (s : State) : Recovery :=
  match s.action with
  | .task s => s.recovery
  | .map s _ => s.recovery
  | .parallel s _ => s.recovery
  | _ => ⟨[], []⟩

namespace Recovery

variable {r : Recovery}

/-- Every retry is one that its retrier grants, and their counts start at one where another retrier takes
over and go up by one otherwise. -/
structure Counts (r : Recovery) (retries : List Retry) : Prop where
  granted : ∀ t ∈ retries, ∃ i retrier, r.position? t.failure = some i ∧ r.retriers[i]? = some retrier ∧
    t.count ≤ retrier.maxAttempts ∧ t.delay = retrier.delay t.count
  first : ∀ t ∈ retries.head?, t.count = 1
  next : retries.IsChain fun t t' =>
    t'.count = if r.position? t'.failure = r.position? t.failure then t.count + 1 else 1

/-- The retries are what the failures so far, newest first, and their own lead to. -/
def Counted (r : Recovery) : List TaskFailure → List Retry → Prop
  | _, [] => True
  | past, t :: retries =>
    t.count = r.streak (t.failure :: past) ∧ r.retryDelay? (t.failure :: past) = some t.delay ∧
      r.Counted (t.failure :: past) retries

theorem Counted.granted {past : List TaskFailure} {retries : List Retry} (h : r.Counted past retries) :
    ∀ t ∈ retries, ∃ i retrier, r.position? t.failure = some i ∧ r.retriers[i]? = some retrier ∧
      t.count ≤ retrier.maxAttempts ∧ t.delay = retrier.delay t.count := by
  induction retries generalizing past with
  | nil => nofun
  | cons t retries ih =>
    obtain ⟨hcount, hdelay, hretries⟩ := h
    refine List.forall_mem_cons.2 ⟨?_, ih hretries⟩
    obtain ⟨i, retrier, hi, hretrier⟩ := retryDelay?_eq_some hdelay
    rw [retryDelay?, newest?_eq_some hi hretrier, Option.bind_eq_bind, Option.bind_some,
      Option.ite_none_right_eq_some, ← hcount, Option.some.injEq] at hdelay
    exact ⟨i, retrier, hi, hretrier, hdelay.1, hdelay.2.symm⟩

theorem Counted.next {past : List TaskFailure} {retries : List Retry} (h : r.Counted past retries) :
    retries.IsChain fun t t' =>
      t'.count = if r.position? t'.failure = r.position? t.failure then t.count + 1 else 1 := by
  induction retries generalizing past with
  | nil => exact .nil
  | cons t retries ih =>
    obtain ⟨hcount, -, hretries⟩ := h
    cases retries with
    | nil => exact .singleton t
    | cons t' retries =>
      refine .cons_cons ?_ (ih hretries)
      rw [hretries.1, hcount]
      split
      · rename_i heq
        exact streak_cons_of_eq heq
      · rename_i hne
        exact streak_cons_of_ne hne

theorem Counted.counts {retries : List Retry} (h : r.Counted [] retries) : r.Counts retries where
  granted := h.granted
  first t ht := by
    cases retries with
    | nil => cases ht
    | cons t' retries =>
      cases ht
      exact h.1
  next := h.next

/-- What the record of a state says of its failures changes nothing else in it. -/
theorem recordAfter_record (r : Recovery) (record : StateRecord) (failures : List TaskFailure) :
    ∃ count patterns, r.recordAfter record failures =
      { record with retryCount := count, retrier := patterns } := by
  induction failures with
  | nil => exact ⟨_, _, rfl⟩
  | cons f past ih =>
    unfold recordAfter
    split
    · exact ⟨_, _, rfl⟩
    · exact ih

end Recovery

end StepFlow
