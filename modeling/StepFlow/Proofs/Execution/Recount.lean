import StepFlow.Proofs.Execution.Course

/-!
# Executions recounted

All that an execution does is an opening and then one account after the other, one for each state that it
visits (`Recounted.drive`). Each state is handed its name and its input by the account before it; the
history holds the visits that were brought to their end; and how the execution stands is a matter of its
last account (`Stands`).
-/

namespace StepFlow

/-- What a record says of a state that is done. -/
def StateRecord.gist (r : StateRecord) : String × Document × Option Document := (r.name, r.input, r.output)

/-- What is recorded of a visit; nothing unless the state is done. -/
def Account.gist? (a : Account) : Option (String × Document × Option Document) :=
  a.way.outcome?.map fun outcome => (a.name, a.input, some outcome.output)

namespace Execution
open Process

/-- No state has run, and the first one is there. -/
structure Fresh (x : Execution) : Prop where
  status : x.status = .pending
  output : x.output = none
  failure : x.failure = none
  states : x.context.states = []
  there : (x.workflow.state? x.current).isSome

theorem fresh_ofContext {w : Workflow} (hw : w.Closed) {context : Context} (h : context.states = [])
    (nested : Bool) : (ofContext w context nested).Fresh := ⟨rfl, rfl, rfl, h, hw.start⟩

/-- How an execution that began as `x₀` stands after its last account so far. -/
inductive Stands (x₀ x : Execution) : Option Account → Prop where
  | fresh (status : x.status = .pending) (output : x.output = none) (failure : x.failure = none)
      (current : x.current = x₀.current) (input : x.context.state.input = x₀.context.state.input)
      (there : (x₀.workflow.state? x.current).isSome) : Stands x₀ x none
  /-- The state has handed on to another one. -/
  | moved {a : Account} (way : a.way.outcome? = some ⟨some x.current, x.context.state.input⟩)
      (status : x.status = .running) (output : x.output = none) (failure : x.failure = none)
      (there : (x₀.workflow.state? x.current).isSome) : Stands x₀ x (some a)
  | succeeded {a : Account} {state : State} {v : Document} (way : a.way.outcome? = some ⟨none, v⟩)
      (found : x₀.workflow.state? a.name = some state) (action : ∀ f, state.action ≠ .fail f)
      (status : x.status = .success) (output : x.output = some v) (failure : x.failure = none) :
      Stands x₀ x (some a)
  | failed {a : Account} {state : State} {f : FailState} (way : a.way.outcome? = some ⟨none, a.input⟩)
      (found : x₀.workflow.state? a.name = some state) (action : state.action = .fail f)
      (status : x.status = .errored) (output : x.output = some a.input)
      (failure : x.failure = some ⟨f.error, f.cause⟩) : Stands x₀ x (some a)
  /-- The state has been entered and not been left. -/
  | aborted {a : Account} (way : a.way.outcome? = none) (status : x.status = .errored)
      (output : x.output = none) (failure : x.failure = none) (name : x.context.state.name = a.name)
      (input : x.context.state.input = a.input) (entered : x.context.state.enteredTime.isSome)
      (unfinished : x.context.state.finishedTime = none ∧ x.context.state.output = none) :
      Stands x₀ x (some a)

/-- The accounts of all that has been done in the execution, which began as `x₀`. -/
structure Recounted (setting : Setting) (x₀ x : Execution) (as : List Account) : Prop where
  workflow : x.workflow = x₀.workflow
  info : x.context.execution = x₀.context.execution
  nested : x.nested = x₀.nested
  visits : ∀ a ∈ as, ∃ budget y state, y.workflow = x₀.workflow ∧
    x₀.workflow.state? a.name = some state ∧ a.Of (drive setting budget) setting y state
  first : ∀ a ∈ as.head?, a.name = x₀.current ∧ a.input = x₀.context.state.input
  links : as.IsChain fun a a' => a.way.outcome? = some ⟨some a'.name, a'.input⟩
  history : x.context.states.map StateRecord.gist = as.filterMap Account.gist?
  stands : Stands x₀ x as.getLast?

/-- All that is done in some visits, the first of them all being among them. -/
def performed (x₀ : Execution) (visits : List Account) : List Act :=
  if visits = [] then [] else x₀.opening ++ visits.flatMap Account.acts

/-- An execution with the accounts `as` has come to an ending with `more` of them. -/
inductive ComesTo {α : Type} (setting : Setting) (x₀ : Execution) (as more : List Account) :
    Ending Execution (Execution × Except RuntimeError α) → Prop where
  | ok {z : Execution} (value : α) (recounted : Recounted setting x₀ z (as ++ more))
      (done : ∀ a ∈ more, a.way.outcome?.isSome) : ComesTo setting x₀ as more (.finished (z, .ok value))
  | error {z : Execution} {e : RuntimeError} (recounted : Recounted setting x₀ z (as ++ more))
      (last : more.getLast?.map Account.way = some (.aborted e)) :
      ComesTo setting x₀ as more (.finished (z, .error e))
  /-- The execution is not gone on with. -/
  | cut {y : Execution} (recounted : Recounted setting x₀ { y with status := .errored } (as ++ more))
      (last : more.getLast?.map Account.way = some .unfinished) (running : y.status = .running) :
      ComesTo setting x₀ as more (.cut y)

variable {setting : Setting} {budget : Nat} {state : State} {x₀ x y z : Execution} {as : List Account}
  {a : Account} {acts : List Act}

theorem Fresh.isEnd (h : x₀.Fresh) : x₀.isEnd = false := by
  rw [Execution.isEnd, h.status]
  rfl

theorem Fresh.recounted (h : x₀.Fresh) : Recounted setting x₀ x₀ [] where
  workflow := rfl
  info := rfl
  nested := rfl
  visits := List.forall_mem_nil _
  first _ h := nomatch h
  links := .nil
  history := by rw [h.states]; rfl
  stands := .fresh h.status h.output h.failure rfl rfl h.there

namespace Stands

theorem onward {last : Option Account} (h : Stands x₀ x last) (hend : x.isEnd = false) :
    x.output = none ∧ x.failure = none ∧ (x₀.workflow.state? x.current).isSome ∧
      (last = none → x.current = x₀.current ∧ x.context.state.input = x₀.context.state.input) ∧
      ∀ a ∈ last, a.way.outcome? = some ⟨some x.current, x.context.state.input⟩ := by
  unfold isEnd at hend
  cases h with
  | fresh status output failure current input there =>
    exact ⟨output, failure, there, fun _ => ⟨current, input⟩, fun _ h => nomatch h⟩
  | moved way status output failure there =>
    refine ⟨output, failure, there, nofun, ?_⟩
    rintro _ ⟨⟩
    exact way
  | succeeded _ _ _ status | failed _ _ _ status | aborted _ status =>
    rw [status] at hend
    cases hend

theorem opening (h : Stands x₀ x (some a)) : x.opening = [] := by
  cases h with
  | moved _ status | succeeded _ _ _ status | failed _ _ _ status | aborted _ status =>
    simp [Execution.opening, status]

end Stands

theorem opening_of_end (h : x.isEnd = true) : x.opening = [] := by
  refine if_neg fun hpending => ?_
  rw [isEnd, hpending.1] at h
  cases h

theorem ComesTo.cons {α : Type} {more : List Account}
    {e : Ending Execution (Execution × Except RuntimeError α)} (h : ComesTo setting x₀ (as ++ [a]) more e)
    (ha : a.way.outcome?.isSome) : ComesTo setting x₀ as (a :: more) e := by
  have hlast {way : Way} (h : more.getLast?.map Account.way = some way) :
      (a :: more).getLast?.map Account.way = some way := by
    obtain ⟨b, hb, hway⟩ := Option.map_eq_some_iff.1 h
    rw [List.getLast?_cons, hb]
    exact congrArg some hway
  have hlist : as ++ [a] ++ more = as ++ a :: more := by simp
  cases h with
  | ok value hz hdone => exact .ok value (hlist ▸ hz) (List.forall_mem_cons.2 ⟨ha, hdone⟩)
  | error hz hway => exact .error (hlist ▸ hz) (hlast hway)
  | cut hz hway hrunning => exact .cut (hlist ▸ hz) (hlast hway) hrunning

namespace Recounted

/-- What is left to be told before the next state. -/
theorem opening_eq (h : Recounted setting x₀ x as) (hx₀ : x₀.Fresh) :
    x.opening = if as = [] then x₀.opening else [] := by
  have hstands := h.stands
  cases hlast : as.getLast? with
  | none =>
    obtain rfl := List.getLast?_eq_none_iff.1 hlast
    rw [hlast] at hstands
    cases hstands with
    | fresh status => simp [opening, status, hx₀.status, h.nested, h.info]
  | some a =>
    rw [hlast] at hstands
    have hne : as ≠ [] := by
      rintro rfl
      cases hlast
    rw [hstands.opening, if_neg hne]

/-- What has been done and what more visits do, from where the execution stands. -/
theorem performed_append (h : Recounted setting x₀ x as) (hx₀ : x₀.Fresh) {more : List Account}
    (hmore : more = [] → x.isEnd = true) :
    x₀.performed as ++ (x.opening ++ more.flatMap Account.acts) = x₀.performed (as ++ more) := by
  rw [h.opening_eq hx₀]
  cases as with
  | nil =>
    have hne : more ≠ [] := by
      intro hnil
      have hend := hmore hnil
      have hstands := h.stands
      cases hstands with
      | fresh status =>
        rw [isEnd, status] at hend
        cases hend
    simp [performed, hne]
  | cons a as => simp [performed]

theorem snoc (h : Recounted setting x₀ x as) (hend : x.isEnd = false)
    (hstate : x.workflow.state? x.current = some state) (ha : a.Of (Execution.drive setting budget) setting x state)
    (hz : z.workflow = x.workflow ∧ z.context.execution = x.context.execution ∧ z.nested = x.nested)
    (hhistory : z.context.states.map StateRecord.gist =
      x.context.states.map StateRecord.gist ++ a.gist?.toList)
    (hstands : Stands x₀ z (some a)) : Recounted setting x₀ z (as ++ [a]) where
  workflow := hz.1.trans h.workflow
  info := hz.2.1.trans h.info
  nested := hz.2.2.trans h.nested
  visits := by
    refine List.forall_mem_append.2 ⟨h.visits, List.forall_mem_singleton.2 ⟨budget, x, state, h.workflow, ?_, ha⟩⟩
    rw [← h.workflow, ha.name, hstate]
  first := by
    obtain ⟨-, -, -, hfirst, -⟩ := h.stands.onward hend
    cases as with
    | nil =>
      obtain ⟨hcurrent, hinput⟩ := hfirst rfl
      rintro _ ⟨⟩
      exact ⟨ha.name.trans hcurrent, ha.input.trans hinput⟩
    | cons => exact h.first
  links := by
    obtain ⟨-, -, -, -, hlink⟩ := h.stands.onward hend
    refine h.links.append (.singleton a) fun last hlast a' ha' => ?_
    cases ha'
    rw [ha.name, ha.input]
    exact hlink last hlast
  history := by
    rw [hhistory, h.history, List.filterMap_append]
    cases hgist : a.gist? <;> simp [hgist]
  stands := by
    rw [List.getLast?_concat]
    exact hstands

theorem errored {more : List Account} (h : Recounted setting x₀ x (as ++ more))
    (hlast : ∃ a, more.getLast? = some a ∧ a.way.outcome? = none) :
    Recounted setting x₀ { x with status := .errored } (as ++ more) := by
  obtain ⟨a, ha, hway⟩ := hlast
  have hstands := h.stands
  rw [List.getLast?_append, ha, Option.some_or] at hstands
  cases hstands with
  | aborted _ status => rwa [← status]
  | moved way | succeeded way | failed way =>
    rw [hway] at way
    cases way

theorem abandoned (h : Recounted setting x₀ x as) (hstate : x.workflow.state? x.current = some state)
    (ha : a.Of (Execution.drive setting budget) setting x state) (hy : x.Visits setting y)
    (hway : a.way.outcome? = none) : Recounted setting x₀ { y with status := .errored } (as ++ [a]) := by
  obtain ⟨houtput, hfailure, -, -, -⟩ := h.stands.onward hy.notEnd
  have hend := hy.notEnd
  obtain ⟨tree, count, patterns, rfl⟩ := hy.attempting
  refine h.snoc hend hstate ha ⟨rfl, rfl, rfl⟩ ?_ ?_
  · rw [Account.gist?, hway]
    exact (List.append_nil _).symm
  · exact .aborted hway rfl houtput hfailure ha.name.symm ha.input.symm rfl ⟨rfl, rfl⟩

/-- The state has been left for what its outcome says. -/
theorem led (h : Recounted setting x₀ x as) (hw : x₀.workflow.Closed)
    (hstate : x.workflow.state? x.current = some state)
    (ha : a.Of (Execution.drive setting budget) setting x state) (hy : x.Visits setting y)
    {outcome : Outcome} (hway : a.way.outcome? = some outcome) :
    Recounted setting x₀ ((y.completed setting outcome.output).advance state outcome).1 (as ++ [a]) ∧
      ∃ status, ((y.completed setting outcome.output).advance state outcome).2 = .ok status := by
  obtain ⟨houtput, hfailure, -, -, -⟩ := h.stands.onward hy.notEnd
  obtain ⟨hmay, hfail⟩ := ha.admits outcome hway
  have hstate₀ : x₀.workflow.state? a.name = some state := by rw [← h.workflow, ha.name, hstate]
  have hhistory : (y.completed setting outcome.output).context.states.map StateRecord.gist =
      x.context.states.map StateRecord.gist ++ a.gist?.toList := by
    obtain ⟨r, hstates, hname, hinput, hout⟩ := hy.states_completed outcome.output
    rw [hstates, List.map_append, Account.gist?, hway, ha.name, ha.input]
    simp [StateRecord.gist, hname, hinput, hout]
  obtain ⟨next, output⟩ := outcome
  cases next with
  | some next =>
    have hthere : (x₀.workflow.state? next).isSome := hw.targets hstate₀ next hmay
    have hthere' : ((y.completed setting output).workflow.state? next).isSome := by
      show (y.workflow.state? next).isSome
      rwa [hy.workflow, h.workflow]
    rw [advance_some hthere']
    refine ⟨h.snoc hy.notEnd hstate ha hy.fixed hhistory ?_, _, rfl⟩
    exact .moved hway hy.status (hy.output.trans houtput) (hy.failure.trans hfailure) hthere
  | none =>
    -- Without a next state the execution is over: it has succeeded, if not in a Fail state.
    by_cases haction : ∃ f, state.action = .fail f
    · obtain ⟨f, hf⟩ := haction
      cases hfail f hf
      rw [advance_fail hf]
      exact ⟨h.snoc hy.notEnd hstate ha hy.fixed hhistory (.failed hway hstate₀ hf rfl rfl rfl), _, rfl⟩
    · have hsuccess : ∀ f, state.action ≠ .fail f := fun f hf => haction ⟨f, hf⟩
      rw [advance_success hsuccess]
      refine ⟨h.snoc hy.notEnd hstate ha hy.fixed hhistory ?_, _, rfl⟩
      exact .succeeded hway hstate₀ hsuccess rfl rfl (hy.failure.trans hfailure)

theorem own {more : List Account} (h : Recounted setting x₀ x (as ++ more)) :
    ownEvents (more.flatMap Account.acts) = more.flatMap Account.told := by
  have hown : ∀ a ∈ more, ownEvents a.acts = a.told := by
    intro a ha
    obtain ⟨_, _, _, -, -, hof⟩ := h.visits a (List.mem_append_right _ ha)
    exact hof.own
  clear h
  induction more with
  | nil => rfl
  | cons a more ih =>
    obtain ⟨ha, hmore⟩ := List.forall_mem_cons.1 hown
    rw [List.flatMap_cons, ownEvents_append, ha, ih hmore, List.flatMap_cons]

theorem step (h : Recounted setting x₀ x as) (hw : x₀.workflow.Closed) (hend : x.isEnd = false)
    {e : Ending Execution (Execution × Except RuntimeError Status)}
    (hdoes : (Execution.step setting budget x).Does acts e) :
    ∃ a : Account, acts = x.opening ++ a.acts ∧ ComesTo setting x₀ as [a] e := by
  obtain ⟨houtput, hfailure, hthere, -, -⟩ := h.stands.onward hend
  rw [← h.workflow] at hthere
  obtain ⟨state, hstate⟩ := Option.isSome_iff_exists.1 hthere
  obtain ⟨a, ha, hacts, hleft⟩ := stepWith_does (drive_tells setting budget) hend hstate hdoes
  refine ⟨a, hacts, ?_⟩
  generalize hway : a.way = way at hleft
  cases hleft with
  | cut hy => exact .cut (h.abandoned hstate ha hy (hway ▸ rfl)) (congrArg some hway) hy.status
  | aborted hy => exact .error (h.abandoned hstate ha hy (hway ▸ rfl)) (congrArg some hway)
  | led hy houtcome =>
    rw [← hway] at houtcome
    obtain ⟨hz, status, hstatus⟩ := h.led hw hstate ha hy houtcome
    rw [← Prod.eta (advance ..), hstatus]
    exact .ok status hz (List.forall_mem_singleton.2 (houtcome ▸ rfl))

/-- Steps up to the end, to one that fails or to one that is cut off. -/
theorem drive (h : Recounted setting x₀ x as) (hw : x₀.workflow.Closed)
    {e : Ending Execution (Execution × Except RuntimeError Document)}
    (hdoes : (Execution.drive setting budget x).Does acts e) :
    ∃ more : List Account, acts = x.opening ++ more.flatMap Account.acts ∧
      (more = [] → x.isEnd = true) ∧ ComesTo setting x₀ as more e := by
  induction budget generalizing x as acts with
  | zero => cases hdoes
  | succ budget ih =>
    unfold Execution.drive Execution.driveVia at hdoes
    split at hdoes
    · rename_i hend
      cases hdoes
      exact ⟨[], by rw [opening_of_end hend]; rfl, fun _ => hend, .ok _ (by rwa [List.append_nil])
        (List.forall_mem_nil _)⟩
    rename_i hnotEnd
    have hend : x.isEnd = false := by simpa using hnotEnd
    rcases Does.of_bind hdoes with ⟨acts₁, acts₂, ⟨z, result⟩, rfl, hstep, hrest⟩ | ⟨y, rfl, hstep⟩
    · obtain ⟨a, rfl, ha⟩ := h.step hw hend hstep
      cases ha with
      | error hz hlast =>
        cases hrest
        exact ⟨[a], by simp, (absurd · (List.cons_ne_nil _ _)), .error hz hlast⟩
      | ok status hz hdone =>
        -- The rest goes on from a longer list of accounts, in which nothing is left to open.
        have hstands := hz.stands
        rw [List.getLast?_concat] at hstands
        obtain ⟨more, rfl, -, hmore⟩ := ih hz hrest
        exact ⟨a :: more, by simp [hstands.opening], (absurd · (List.cons_ne_nil _ _)),
          hmore.cons (hdone a (List.mem_singleton_self a))⟩
    · obtain ⟨a, rfl, ha⟩ := h.step hw hend hstep
      cases ha with
      | cut hz hlast hrunning =>
        exact ⟨[a], by simp, (absurd · (List.cons_ne_nil _ _)), .cut hz hlast hrunning⟩

end Recounted

end Execution
end StepFlow
