import StepFlow.Proofs.Execution.Determinate
import StepFlow.Proofs.Execution.Sim

/-!
# Map states are loops

`attemptMapInTurn` is an attempt at a Map state whose iterations run one after the other up to the
first that fails. The attempt that gathers them gives the same, whatever the limit on those under way,
once every iteration gets the answers that it got among the others; and where no Parallel state of the
iterations has branches that race, it gives the same however long the answers take.
-/

namespace StepFlow

/-- Runners whose reply depends on the request only; how long it takes may depend on anything. -/
def Runners.Reply {ω : Type} (reply : Request → Except RunnerError Report) (runners : Runners ω) : Prop :=
  ∀ w r, (runners w r).2.result = reply r

namespace Execution
open Process

/-- Runs the processes of the slots one after the other. -/
def oneByOne : Join := fun _ attempt _ slots => inTurn attempt 0 (slots.map Slot.rest)

theorem oneByOne_sim {S : Prop} {Q : Request → Request → Prop} : Join.Sim S Q oneByOne oneByOne :=
  fun _ _ _ _ _ h => .inTurn h

/-- One attempt at a Map state, with one iteration after the other up to the first that fails. -/
abbrev attemptMapInTurn : (Execution → Process Execution (Execution × Except RuntimeError Document)) →
    MapState → Workflow → Document → Nat → Execution → Attempt :=
  attemptMapVia oneByOne

section
variable {drive : Execution → Process Execution (Execution × Except RuntimeError Document)}
  {s : MapState} {iterator : Workflow} {input : Document} {attempt : Nat} {x : Execution}

theorem attemptMap_yields {log : List Exchange} {result : Except TaskFailure Document}
    (h : (attemptMap drive s iterator input attempt x).Yields log result) :
    ∃ k, (attemptMapInTurn drive s iterator input attempt x).Yields
      ((List.range' 0 k).flatMap fun i => ofBranch ⟨attempt, i⟩ log) result := by
  rw [attemptMap_eq] at h
  rw [attemptMapInTurn, attemptMapVia_eq]
  cases hitems : items? s input x with
  | none =>
    rw [hitems] at h
    cases h
    exact ⟨0, .done _⟩
  | some items =>
    rw [hitems] at h
    obtain ⟨log, log', outputs, rfl, hgather, hrest⟩ := h.of_bind
    cases hrest
    obtain ⟨k, hk⟩ := (Yields.of_gather (by nofun) hgather).yields
    refine ⟨k, ?_⟩
    rw [List.append_nil, ← List.append_nil (List.flatMap _ _)]
    exact hk.bind (.done _)

/-- Every iteration of the attempt comes to its end, whatever it is answered within `A`. -/
def IterationsHalt (A : Request → Answer → Prop)
    (drive : Execution → Process Execution (Execution × Except RuntimeError Document)) (s : MapState)
    (iterator : Workflow) (input : Document) (x : Execution) : Prop :=
  let effective := s.filters.input x.tree input
  ∀ items, s.itemsPath.value x.tree effective = some (.arr items) →
    ∀ item i, (item, i) ∈ items.zipIdx → (drive (iteration s iterator x effective i item)).Halts A

variable {A : Request → Answer → Prop}

theorem IterationsHalt.slots (h : IterationsHalt A drive s iterator input x) {items : List Document}
    (hitems : items? s input x = some items) :
    ∀ slot ∈ iterations drive s iterator input x items, slot.rest.Halts A :=
  List.forall_mem_map.2 fun (item, i) hitem =>
    (h items (items?_eq_some hitems) item i hitem).bind fun _ => trivial

theorem attemptMap_halts (h : IterationsHalt A drive s iterator input x) :
    (attemptMap drive s iterator input attempt x).Halts A := by
  rw [attemptMap_eq]
  cases hitems : items? s input x with
  | none => trivial
  | some items =>
    refine Halts.bind (.gather (fun limit hlimit => ?_) (h.slots hitems)) fun result => trivial
    cases hlimit
    exact limit_pos s items

theorem attemptMapInTurn_halts (h : IterationsHalt A drive s iterator input x) :
    (attemptMapInTurn drive s iterator input attempt x).Halts A := by
  rw [attemptMapInTurn, attemptMapVia_eq]
  cases hitems : items? s input x with
  | none => trivial
  | some items =>
    exact Halts.bind (.inTurn (List.forall_mem_map.2 (h.slots hitems))) fun result => trivial

theorem attemptMapInTurn_determinate
    (h : ∀ effective i item, (drive (iteration s iterator x effective i item)).Determinate A) :
    (attemptMapInTurn drive s iterator input attempt x).Determinate A := by
  rw [attemptMapInTurn, attemptMapVia_eq]
  cases items? s input x with
  | none => exact .done _
  | some items =>
    have hslots : ∀ slot ∈ iterations drive s iterator input x items, slot.rest.Determinate A :=
      iterations_determinate h items
    exact Determinate.bind (.inTurn (List.forall_mem_map.2 hslots)) fun result => .done _

end

/-- An attempt at a Map state comes to its end, with the result of the loop in which the first `k`
iterations have the exchanges that they have among the others. Any runners with the same replies bring
the loop and the attempt to the same result, whatever the limit on the iterations under way, as long as
no branches of the iterations race or the times of the answers are the same, too. -/
theorem attemptMap_inTurn {ω ω' : Type} (setting : Setting) (budget : Nat) (s : MapState)
    (iterator : Workflow) (input : Document) (attempt : Nat) (x : Execution)
    (reply : Request → Except RunnerError Report) (runners : Runners ω) (hreply : runners.Reply reply)
    (hhalt : IterationsHalt (fun r answer => answer.result = reply r) (drive setting budget) s iterator
      input x) (t : Timeline ω) :
    ∃ (result : Except TaskFailure Document) (log : List Exchange) (k : Nat),
      (∃ t', (attemptMap (drive setting budget) s iterator input attempt x).run runners none t =
        (.finished result, t')) ∧
      runners.Answer t.world log ∧
      (attemptMap (drive setting budget) s iterator input attempt x).Yields log result ∧
      (attemptMapInTurn (drive setting budget) s iterator input attempt x).Yields
        ((List.range' 0 k).flatMap fun i => ofBranch ⟨attempt, i⟩ log) result ∧
      ∀ (runners' : Runners ω') (t' : Timeline ω') (maxConcurrency : Nat), runners'.Reply reply →
        (iterator.RaceFree ∨
          ∃ answer : Request → Answer,
            ∀ r, (∀ w, (runners w r).2 = answer r) ∧ ∀ w, (runners' w r).2 = answer r) →
        (∃ t'', (attemptMapInTurn (drive setting budget) s iterator input attempt x).run runners' none
          t' = (.finished result, t'')) ∧
        ∃ t'', (attemptMap (drive setting budget) { s with maxConcurrency } iterator input attempt x).run
          runners' none t' = (.finished result, t'') := by
  obtain ⟨result, t', hrun⟩ := (attemptMap_halts hhalt).run hreply t
  obtain ⟨log, hlog, hanswer⟩ := Yields.of_run hrun
  obtain ⟨k, hk⟩ := attemptMap_yields hlog
  refine ⟨result, log, k, ⟨t', hrun⟩, hanswer, hlog, hk, fun runners' t₁ maxConcurrency hreply' hfree => ?_⟩
  -- in both cases the loop has but one end under the answers that come into question
  have hdeterminate (hfree : iterator.RaceFree) :
      (attemptMapInTurn (drive setting budget) s iterator input attempt x).Determinate
        fun r answer => answer.result = reply r :=
    attemptMapInTurn_determinate fun effective i item =>
      drive_determinate (fun r answer answer' h h' => h.trans h'.symm) setting budget hfree
  obtain ⟨A, hA, hrunners, hrunners'⟩ := Determinate.of_either (A := fun r answer => answer.result = reply r)
    hreply hreply' (hfree.imp_left hdeterminate)
  have hallowed : Allowed A ((List.range' 0 k).flatMap fun i => ofBranch ⟨attempt, i⟩ log) :=
    (Allowed.of_runners hrunners hanswer).ofBranches
  constructor
  · exact hA.run_eq (attemptMapInTurn_halts hhalt) hk hallowed hrunners' hreply' t₁
  · have hhalt' : IterationsHalt (fun r answer => answer.result = reply r) (drive setting budget)
        { s with maxConcurrency } iterator input x := hhalt
    obtain ⟨result', t₂, hrun'⟩ := (attemptMap_halts hhalt').run hreply' t₁
    obtain ⟨log', hlog', hanswer'⟩ := Yields.of_run hrun'
    obtain ⟨k', hk'⟩ := attemptMap_yields hlog'
    cases hA _ _ _ _ hk hk' hallowed (Allowed.of_runners hrunners' hanswer').ofBranches
    exact ⟨t₂, hrun'⟩

/-! ### A loop without races and one with -/

/-- Filters that pass on all. -/
def passAll : Filters := ⟨some ⟨"$", false, []⟩, some ⟨"$", false, []⟩⟩

/-- A graph of one state. -/
def single (a : Action) : Workflow := .mk "only" [("only", .mk none a)] none none

def callA : Workflow :=
  single (.task ⟨"test://a", passAll, .final, ⟨none, none⟩, none, ⟨[], []⟩, none, none, none⟩)

def overItems : MapState := ⟨passAll, .final, ⟨none, none⟩, ⟨"$", false, []⟩, none, 0, ⟨[], []⟩⟩

def testSetting : Setting := ⟨[("test", ())], .null, default, default⟩

/-- Items with a number of seconds each. -/
def secondsItems (ns : List Int) : Document := .arr (ns.map fun n => .obj [("seconds", .num (.int n))])

/-- Runners that take longer for their first answer than for the others. -/
def slowFirst (result : Except RunnerError Report) : Runners Nat :=
  fun n _ => (n + 1, ⟨if n = 0 then 10 else 0, result⟩)

/-- A graph of one task does nothing but the task. -/
theorem eq_task_of_contains {w : Workflow} {a : Action} {t : TaskState} (h : w.Contains a)
    (hw : w = single (.task t)) : a = .task t := by
  induction h with
  | own h =>
    subst hw
    obtain ⟨-, rfl⟩ : _ = "only" ∧ _ = State.mk none (.task t) := by
      simpa [single, Workflow.states] using h
    rfl
  | iterator _ _ ih => cases ih hw
  | branch _ _ _ ih => cases ih hw

theorem callA_raceFree : callA.RaceFree := fun _ _ h => nomatch eq_task_of_contains h rfl

theorem callA_halts : IterationsHalt (fun _ answer => answer.result = .ok ⟨0, "done"⟩)
    (drive testSetting 2) overItems callA (secondsItems [2, 1]) default := by
  intro items hitems item i hitem
  cases hitems
  simp only [List.zipIdx_cons, List.map_cons, List.map_nil, List.zipIdx_nil, List.mem_cons, Prod.mk.injEq,
    List.not_mem_nil, or_false] at hitem
  rcases hitem with ⟨rfl, rfl⟩ | ⟨rfl, rfl⟩
  · rintro ⟨delay, result⟩ ⟨⟩
    cases delay <;> trivial
  · rintro ⟨delay, result⟩ ⟨⟩
    cases delay <;> trivial

/-- Two calls at once and one after the other, with slow and with quick answers. -/
theorem attemptMap_inTurn_callA : ∃ (result : Except TaskFailure Document),
    (∃ t, (attemptMap (drive testSetting 2) overItems callA (secondsItems [2, 1]) 0 default).run
      (slowFirst (.ok ⟨0, "done"⟩)) none (.start 0) = (.finished result, t)) ∧
    (∃ t, (attemptMapInTurn (drive testSetting 2) overItems callA (secondsItems [2, 1]) 0 default).run
      (slowFirst (.ok ⟨0, "done"⟩)) none (.start 1) = (.finished result, t)) ∧
    ∃ t, (attemptMap (drive testSetting 2) { overItems with maxConcurrency := 1 } callA
      (secondsItems [2, 1]) 0 default).run (slowFirst (.ok ⟨0, "done"⟩)) none (.start 1) =
        (.finished result, t) := by
  obtain ⟨result, log, k, hrun, -, -, -, hsame⟩ := attemptMap_inTurn testSetting 2 overItems callA
    (secondsItems [2, 1]) 0 default (fun _ => .ok ⟨0, "done"⟩) (slowFirst (.ok ⟨0, "done"⟩))
    (fun _ _ => rfl) callA_halts (.start 0)
  obtain ⟨hturn, hsingly⟩ := hsame (slowFirst (.ok ⟨0, "done"⟩)) (.start 1) 1 (fun _ _ => rfl)
    (.inl callA_raceFree)
  exact ⟨result, hrun, hturn, hsingly⟩

/-- Waits for the seconds of the item; then a call that fails races with a Fail state. -/
def raceIterator : Workflow :=
  .mk "wait" [("wait", .mk none (.wait ⟨passAll, .next "race",
      .secondsPath ⟨"$.seconds", false, [.child (.key (.name "seconds"))]⟩⟩)),
    ("race", .mk none (.parallel ⟨passAll, .final, ⟨none, none⟩, ⟨[], []⟩⟩
      [callA, single (.fail ⟨some "B", some "b"⟩)]))] none none

theorem raceIterator_halts :
    IterationsHalt (fun _ answer => answer.result = .error (.io "a")) (drive testSetting 4) overItems
      raceIterator (secondsItems [2, 1]) default := by
  intro items hitems item i hitem
  cases hitems
  simp only [List.zipIdx_cons, List.map_cons, List.map_nil, List.zipIdx_nil, List.mem_cons, Prod.mk.injEq,
    List.not_mem_nil, or_false] at hitem
  rcases hitem with ⟨rfl, rfl⟩ | ⟨rfl, rfl⟩
  · refine Halts.of_sim ?_ (driveWithin_sim 30 testSetting 4 _)
    rintro ⟨delay, result⟩ ⟨⟩
    cases delay <;> trivial
  · refine Halts.of_sim ?_ (driveWithin_sim 30 testSetting 4 _)
    rintro ⟨delay, result⟩ ⟨⟩
    cases delay <;> trivial

/-- Gathered, the second iteration calls first, and its slow answer leaves the first iteration a quick
one; in turn, the first iteration gets the slow answer, and its call loses the race. -/
theorem attemptMap_ne_inTurn_of_race :
    (slowFirst (.error (.io "a"))).Reply (fun _ => .error (.io "a")) ∧
      IterationsHalt (fun _ answer => answer.result = .error (.io "a")) (drive testSetting 4) overItems
        raceIterator (secondsItems [2, 1]) default ∧
      ((attemptMap (drive testSetting 4) overItems raceIterator (secondsItems [2, 1]) 0 default).run
          (slowFirst (.error (.io "a"))) none (.start 0)).1 =
        .finished (.error ⟨"States.BranchFailed", "state 'race' failed: " ++
          "States.BranchFailed: state 'only' failed: States.TaskFailed: io error: a"⟩) ∧
      ((attemptMapInTurn (drive testSetting 4) overItems raceIterator (secondsItems [2, 1]) 0 default).run
          (slowFirst (.error (.io "a"))) none (.start 0)).1 =
        .finished (.error ⟨"States.BranchFailed", "state 'race' failed: B: b"⟩) := by
  refine ⟨fun _ _ => rfl, raceIterator_halts, ?_, ?_⟩
  · have hwithin := attemptMapWithin_sim 30 testSetting 4 overItems raceIterator (secondsItems [2, 1]) 0 default
    rw [hwithin.run_eq (by nofun)]
    rfl
  · have hwithin := attemptMapVia_sim (driveWithin_sim 30 testSetting 4) oneByOne_sim
      overItems raceIterator (secondsItems [2, 1]) 0 default
    rw [attemptMapInTurn, hwithin.run_eq (by nofun)]
    rfl

end Execution
end StepFlow
