import StepFlow.Proofs.Execution.ParallelInTime
import StepFlow.Proofs.Execution.Visit

/-!
# Parallel states and their branches

The outputs of a Parallel state are those that its branches have by themselves: they are collected if and
only if every branch, run alone, ends in success (`attemptParallel_alone`). What a branch does alone it does
with the answers that it gets among the others; where no branches race within a branch, or the times of
the answers are the same, too, any runners with the same replies will do.
-/

namespace StepFlow
open Process

/-! ### Collected results -/

/-- What is exchanged in one of the nested executions, as that execution exchanges it by itself. -/
def exchangesWithin (b : Branch) (log : List Exchange) : List Exchange :=
  (ofBranch b log).map fun e => { e with site := e.site.tail }

section
variable {σ ε α β : Type} {k i : Nat} {log : List Exchange} {d : Duration} {slots : List (Slot σ ε β)}

theorem Process.Yields.alone {p : Process σ α} {b : Branch} {a : α}
    (h : (p.inside b).Yields (ofBranch b log) a) : p.Yields (exchangesWithin b log) a := by
  obtain ⟨log', hp, hlog⟩ := h.of_inside
  rw [exchangesWithin, hlog, List.map_map]
  exact (List.map_id log').symm ▸ hp

theorem Process.Allowed.within {A : Request → Answer → Prop} (h : Allowed A log) (b : Branch) :
    Allowed A (exchangesWithin b log) :=
  List.forall_mem_map.2 fun e he => h e (List.mem_filter.1 he).1

theorem Process.Lasts.yields {p : Process σ α} {a : α} (h : p.Lasts log d (some a)) : p.Yields log a := by
  generalize ho : some a = o at h
  induction h with
  | done a' =>
    cases ho
    exact .done a
  | stuck => cases ho
  | emit _ ih => exact .emit (ih ho)
  | call answer _ ih => exact .call answer (ih ho)
  | pause _ ih => exact .pause (ih ho)

theorem Process.Yields.unique {p : Process σ α} {a a' : α} (h : p.Yields log a) (h' : p.Yields log a') : a = a' := by
  induction h with
  | done a =>
    cases h'
    rfl
  | emit _ ih =>
    cases h' with
    | emit h' => exact ih h'
  | call answer _ ih =>
    cases h' with
    | call _ h' => exact ih h'
  | pause _ ih =>
    cases h' with
    | pause h' => exact ih h'

theorem Slot.Lasts.yields {s : Slot σ ε β} {b : Branch} {r : Except ε β}
    (h : s.Lasts b (ofBranch b log) d (some r)) : s.rest.Yields (exchangesWithin b log) r := by
  obtain ⟨d', -, hlasts⟩ := h
  exact hlasts.yields.alone

theorem Taken.length_of_ok {vs : List β} (h : Taken k log i slots d (.ok vs)) : vs.length = slots.length := by
  generalize hr : Except.ok vs = r at h
  induction h generalizing vs with
  | nil =>
    cases hr
    rfl
  | error => cases hr
  | @ok _ _ _ _ _ v r _ _ ih =>
    cases r with
    | error => cases hr
    | ok ws =>
      cases hr
      exact congrArg (· + 1) (ih rfl)

theorem Taken.of_error {e : ε} (h : Taken k log i slots d (.error e)) :
    ∃ (j : Nat) (s : Slot σ ε β) (d' : Duration), slots[j]? = some s ∧
      s.Lasts ⟨k, i + j⟩ (ofBranch ⟨k, i + j⟩ log) d' (some (.error e)) := by
  generalize hr : Except.error e = r at h
  induction h with
  | nil => cases hr
  | error h =>
    cases hr
    exact ⟨0, _, _, rfl, h⟩
  | @ok i _ _ _ _ v r _ _ ih =>
    cases r with
    | ok => cases hr
    | error =>
      cases hr
      obtain ⟨j, s, d', hs, hlasts⟩ := ih rfl
      rw [Nat.add_right_comm i 1 j] at hlasts
      exact ⟨j + 1, s, d', hs, hlasts⟩

/-- What gathering processes gives is what they give one by one. -/
structure OneByOne (k : Nat) (log : List Exchange) (slots : List (Slot σ ε β))
    (result : Except ε (List β)) : Prop where
  ok : ∀ vs, result = .ok vs → vs.length = slots.length ∧ ∀ (i : Nat) (s : Slot σ ε β), slots[i]? = some s →
    ∃ v, vs[i]? = some v ∧ s.rest.Yields (exchangesWithin ⟨k, i⟩ log) (.ok v)
  error : ∀ e, result = .error e → ∃ (i : Nat) (s : Slot σ ε β), slots[i]? = some s ∧
    s.rest.Yields (exchangesWithin ⟨k, i⟩ log) (.error e)

/-- The results are collected if and only if every process gives one. -/
theorem OneByOne.eq_ok_iff {result : Except ε (List β)} (h : OneByOne k log slots result) {P : Nat → β → Prop}
    (hP : ∀ (i : Nat) (s : Slot σ ε β) r, slots[i]? = some s → s.rest.Yields (exchangesWithin ⟨k, i⟩ log) r →
      ∀ v, P i v ↔ r = .ok v) {vs : List β} :
    result = .ok vs ↔ vs.length = slots.length ∧ ∀ i < slots.length, ∃ v, vs[i]? = some v ∧ P i v := by
  constructor
  · intro hresult
    obtain ⟨hlength, hvalues⟩ := h.ok vs hresult
    refine ⟨hlength, fun i hi => ?_⟩
    obtain ⟨v, hv, hyields⟩ := hvalues i _ (List.getElem?_eq_getElem hi)
    exact ⟨v, hv, (hP i _ _ (List.getElem?_eq_getElem hi) hyields v).2 rfl⟩
  · rintro ⟨hlength, hall⟩
    cases result with
    | error e =>
      obtain ⟨i, s, hs, hyields⟩ := h.error e rfl
      obtain ⟨v, -, hv⟩ := hall i (List.getElem?_eq_some_iff.1 hs).1
      exact nomatch (hP i s _ hs hyields v).1 hv
    | ok ws =>
      obtain ⟨hlength', hvalues⟩ := h.ok ws rfl
      refine congrArg Except.ok (List.ext_getElem? fun i => ?_)
      rcases Nat.lt_or_ge i slots.length with hi | hi
      · obtain ⟨v, hv, hPv⟩ := hall i hi
        obtain ⟨w, hw, hyields⟩ := hvalues i _ (List.getElem?_eq_getElem hi)
        cases (hP i _ _ (List.getElem?_eq_getElem hi) hyields v).1 hPv
        rw [hv, hw]
      · rw [List.getElem?_eq_none (hlength' ▸ hi), List.getElem?_eq_none (hlength ▸ hi)]

theorem Taken.oneByOne {result : Except ε (List β)} (h : Taken k log 0 slots d result) :
    OneByOne k log slots result where
  ok vs hvs := by
    subst hvs
    refine ⟨h.length_of_ok, fun i s hs => ?_⟩
    obtain ⟨v, d', hv, -, hlasts⟩ := h.of_ok hs
    rw [Nat.zero_add] at hlasts
    exact ⟨v, hv, hlasts.yields⟩
  error e he := by
    subst he
    obtain ⟨i, s, d', hs, hlasts⟩ := h.of_error
    rw [Nat.zero_add] at hlasts
    exact ⟨i, s, hs, hlasts.yields⟩

theorem FirstDecides.oneByOne {result : Except ε (List β)} (h : FirstDecides k log slots d (some result)) :
    OneByOne k log slots result := by
  cases h with
  | all htaken => exact htaken.oneByOne
  | breaks ho hi =>
    cases ho with
    | failed e =>
      obtain ⟨s, hs, hlasts⟩ := hi
      refine ⟨nofun, ?_⟩
      rintro _ ⟨⟩
      exact ⟨_, s, hs, hlasts.yields⟩

end

namespace Execution

/-! ### Branches by themselves -/

/-- The execution has ended in success with that output. -/
structure Succeeded (y : Execution) (output : Document) : Prop where
  status : y.status = .success
  output : y.output = some output

/-- An execution that is over has succeeded with an output, or there is a failure. -/
structure Decided (x : Execution) : Prop where
  running : x.isEnd = false → x.failure = none
  settled : x.isEnd = true → (x.status = .success ∧ x.output.isSome ∧ x.failure = none) ∨
    (x.status = .errored ∧ x.failure.isSome)

/-- What an execution that is over means to the state that started it: success, or a failure. -/
def verdicts : Contract Execution (Execution × Except RuntimeError Document) where
  ends r := ∀ output, nestedResult r.1 r.2 = .ok output ↔ r.2 = .ok output ∧ r.1.Succeeded output

theorem Decided.stepped {setting : Setting} {x z : Execution} {status : Status} (hx : x.Decided)
    (h : x.Stepped setting z (.ok status)) : z.Decided := by
  cases h with
  | ended => exact hx
  | moved hy =>
    refine ⟨fun _ => hy.failure.trans (hx.running hy.notEnd), fun hover => ?_⟩
    have hstatus := hy.status
    simp [Execution.isEnd, completed, hstatus, Status.isTerminal] at hover
  | succeeded hy =>
    exact ⟨fun hover => (by cases hover), fun _ => .inl ⟨rfl, rfl, hy.failure.trans (hx.running hy.notEnd)⟩⟩
  | failed => exact ⟨fun hover => (by cases hover), fun _ => .inr ⟨rfl, rfl⟩⟩

theorem carries_verdicts (setting : Setting) : Carries setting Decided verdicts where
  step _ _ _ hx hz := hx.stepped hz
  tells _ _ _ _ _ := trivial
  asks _ _ := trivial
  shows _ _ _ _ := trivial
  ok x hx hend output := by
    unfold nestedResult
    rcases hx.settled hend with ⟨hstatus, houtput, hfailure⟩ | ⟨hstatus, hfailure⟩
    · obtain ⟨v, hv⟩ := Option.isSome_iff_exists.1 houtput
      simp only [hv, hfailure, Option.getD_some, Except.ok.injEq]
      exact ⟨fun h => ⟨h, hstatus, h ▸ hv⟩, fun h => h.1⟩
    · obtain ⟨f, hf⟩ := Option.isSome_iff_exists.1 hfailure
      simp only [hf]
      refine ⟨nofun, fun h => ?_⟩
      cases hstatus.symm.trans h.2.status
  error _ _ _ _ _ _ := ⟨nofun, fun h => nomatch h.1⟩

theorem drive_verdicts (setting : Setting) (budget : Nat) (w : Workflow) (context : Context) :
    (drive setting budget (ofContext w context true)).Keeps verdicts :=
  (carries_verdicts setting).drive budget ⟨fun _ => rfl, nofun⟩

/-- A branch that is run by itself. -/
abbrev branchAlone (setting : Setting) (budget : Nat) (s : ParallelState) (input : Document) (x : Execution)
    (w : Workflow) : Process Execution (Execution × Except RuntimeError Document) :=
  drive setting budget (branch x (s.filters.input x.tree input) w)

section
variable {setting : Setting} {budget : Nat} {s : ParallelState} {branches : List Workflow} {input : Document}
  {k i : Nat} {x : Execution} {w : Workflow} {log : List Exchange}

theorem branchSlots_getElem? {drive : Execution → Process Execution (Execution × Except RuntimeError Document)}
    (hw : branches[i]? = some w) : (branchSlots drive s branches input x)[i]? =
      some (nestedSlot drive (branch x (s.filters.input x.tree input) w)) := by
  rw [branchSlots, List.getElem?_map, hw, Option.map_some]

/-- A branch among others comes to what it comes to by itself. -/
theorem branchAlone_yields {r : Except TaskFailure Document}
    (h : (nestedSlot (drive setting budget) (branch x (s.filters.input x.tree input) w)).rest.Yields log r) :
    ∃ y result, (branchAlone setting budget s input x w).Yields log (y, result) ∧ nestedResult y result = r ∧
      ∀ output, r = .ok output ↔ result = .ok output ∧ y.Succeeded output := by
  obtain ⟨log₁, log₂, ⟨y, result⟩, rfl, hdrive, hdone⟩ := Yields.of_bind h
  cases hdone
  rw [List.append_nil]
  exact ⟨y, result, hdrive, rfl, hdrive.meets (drive_verdicts setting budget _ _)⟩

/-- Gathering the branches gives what they give one by one. -/
theorem oneByOne_of_gather {d : Duration} {collected : Except TaskFailure (List Document)}
    (h : (gather x k (if branches.length ≤ maxEagerBranches then .firstFailure else .inOrder branches.length)
      (branchSlots (drive setting budget) s branches input x)).Lasts log d (some collected)) :
    OneByOne k log (branchSlots (drive setting budget) s branches input x) collected := by
  split at h
  · exact (firstDecides_of_gather (nestedSlots_prompt (drive_prompt setting budget) _ _)
      (failure?_nestedSlots _ _) h).oneByOne
  · rename_i hmany
    refine (taken_of_gather (Nat.lt_of_le_of_lt (Nat.zero_le _) (Nat.lt_of_not_le hmany)) ?_ h).oneByOne
    exact Nat.le_of_eq (List.length_map _)

theorem attemptParallel_halts {A : Request → Answer → Prop}
    (h : ∀ w ∈ branches, (branchAlone setting budget s input x w).Halts A) :
    (attemptParallel (drive setting budget) s branches input k x).Halts A := by
  rw [attemptParallel_eq]
  refine Halts.bind (.gather (fun limit hlimit => ?_) ?_) fun result => trivial
  · split at hlimit
    · cases hlimit
    · rename_i hmany
      cases hlimit
      exact Nat.lt_of_le_of_lt (Nat.zero_le _) (Nat.lt_of_not_le hmany)
  · exact List.forall_mem_map.2 fun w hw => (h w hw).bind fun _ => trivial

/-- The outputs are collected if and only if all branches succeed, in whatever terms their successes are
put. -/
theorem collected_eq_ok_iff {collected : Except TaskFailure (List Document)}
    (h : OneByOne k log (branchSlots (drive setting budget) s branches input x) collected)
    {Q : Nat → Workflow → Document → Prop}
    (hQ : ∀ (i : Nat) (w : Workflow) y result, branches[i]? = some w →
      (branchAlone setting budget s input x w).Yields (exchangesWithin ⟨k, i⟩ log) (y, result) →
        ∀ output, Q i w output ↔ result = .ok output ∧ y.Succeeded output)
    (outputs : List Document) :
    collected = .ok outputs ↔ outputs.length = branches.length ∧ ∀ (i : Nat) (w : Workflow),
      branches[i]? = some w → ∃ output, outputs[i]? = some output ∧ Q i w output := by
  have hlength : (branchSlots (drive setting budget) s branches input x).length = branches.length :=
    List.length_map _
  rw [h.eq_ok_iff (P := fun i output => ∃ w, branches[i]? = some w ∧ Q i w output), hlength]
  · refine and_congr_right fun _ => ⟨fun hall i w hw => ?_, fun hall i hi => ?_⟩
    · obtain ⟨output, houtput, w', hw', hQw⟩ := hall i (List.getElem?_eq_some_iff.1 hw).1
      cases hw.symm.trans hw'
      exact ⟨output, houtput, hQw⟩
    · obtain ⟨output, houtput, hQw⟩ := hall i _ (List.getElem?_eq_getElem hi)
      exact ⟨output, houtput, _, List.getElem?_eq_getElem hi, hQw⟩
  · intro i slot r hslot hyields output
    have hi : i < branches.length := hlength ▸ (List.getElem?_eq_some_iff.1 hslot).1
    have hw := List.getElem?_eq_getElem hi
    cases hslot.symm.trans (branchSlots_getElem? hw)
    obtain ⟨y, result, halone, -, hsuccess⟩ := branchAlone_yields hyields
    rw [hsuccess, ← hQ i _ y result hw halone output]
    refine ⟨?_, fun hQw => ⟨_, hw, hQw⟩⟩
    rintro ⟨w', hw', hQw⟩
    cases hw.symm.trans hw'
    exact hQw

end

/-- An attempt at a Parallel state whose branches come to their ends collects the outputs that the branches
have by themselves with the exchanges that they have among the others, if all of them succeed; otherwise it
fails with the failure of one of them. Any runners with the same replies bring the branches by themselves to
the same successes, as long as no branches within a branch race or the times of the answers are the same,
too. -/
theorem attemptParallel_alone {ω ω' : Type} (setting : Setting) (budget : Nat) (s : ParallelState)
    (branches : List Workflow) (input : Document) (k : Nat) (x : Execution)
    (reply : Request → Except RunnerError Report) (runners : Runners ω) (hreply : runners.Reply reply)
    (hhalt : ∀ w ∈ branches, (branchAlone setting budget s input x w).Halts
      fun r answer => answer.result = reply r) (t : Timeline ω) :
    ∃ (collected : Except TaskFailure (List Document)) (log : List Exchange),
      (∃ t', (attemptParallel (drive setting budget) s branches input k x).run runners none t =
        (.finished (collect s.results s.filters x.tree input collected), t')) ∧
      runners.Answer t.world log ∧
      (∀ outputs, collected = .ok outputs ↔ outputs.length = branches.length ∧
        ∀ (i : Nat) (w : Workflow), branches[i]? = some w → ∃ output, outputs[i]? = some output ∧
          ∃ y, (branchAlone setting budget s input x w).Yields (exchangesWithin ⟨k, i⟩ log) (y, .ok output) ∧
            y.Succeeded output) ∧
      (∀ f, collected = .error f → ∃ (i : Nat) (w : Workflow) (y : Execution)
        (result : Except RuntimeError Document), branches[i]? = some w ∧
          (branchAlone setting budget s input x w).Yields (exchangesWithin ⟨k, i⟩ log) (y, result) ∧
          nestedResult y result = .error f ∧ ∀ output, ¬ (result = .ok output ∧ y.Succeeded output)) ∧
      ∀ (runners' : Runners ω') (start : Nat → Timeline ω'), runners'.Reply reply →
        ((∀ w ∈ branches, w.RaceFree) ∨ ∃ answer : Request → Answer,
          ∀ r, (∀ w, (runners w r).2 = answer r) ∧ ∀ w, (runners' w r).2 = answer r) →
        ∀ outputs, collected = .ok outputs ↔ outputs.length = branches.length ∧
          ∀ (i : Nat) (w : Workflow), branches[i]? = some w → ∃ output, outputs[i]? = some output ∧
            ∃ y t', (branchAlone setting budget s input x w).run runners' none (start i) =
              (.finished (y, .ok output), t') ∧ y.Succeeded output := by
  obtain ⟨result, t₁, hrun⟩ := (attemptParallel_halts (k := k) hhalt).run hreply t
  obtain ⟨log, d, o, hlasts, hanswer, hend, -, -⟩ := Lasts.of_run runners
    (attemptParallel (drive setting budget) s branches input k x) t
  rw [hrun] at hend
  obtain ⟨g, rfl, hgather⟩ := attemptParallel_gathers hlasts
  cases g with
  | none => cases hend
  | some collected =>
    cases hend
    have hone := oneByOne_of_gather hgather
    refine ⟨collected, log, ⟨t₁, hrun⟩, hanswer, collected_eq_ok_iff hone fun i w y result hw hyields output => ?_,
      fun f hf => ?_, fun runners' start hreply' hfree => collected_eq_ok_iff hone
        fun i w y result hw hyields output => ?_⟩
    · constructor
      · rintro ⟨y', hyields', hsucceeded⟩
        cases hyields.unique hyields'
        exact ⟨rfl, hsucceeded⟩
      · rintro ⟨rfl, hsucceeded⟩
        exact ⟨y, hyields, hsucceeded⟩
    · obtain ⟨i, slot, hslot, hyields⟩ := hone.error f hf
      obtain ⟨w, hw, rfl⟩ : ∃ w, branches[i]? = some w ∧ _ = slot := by
        simpa [branchSlots] using hslot
      obtain ⟨y, result, halone, hresult, hsuccess⟩ := branchAlone_yields hyields
      exact ⟨i, w, y, result, hw, halone, hresult, fun output h => nomatch (hsuccess output).2 h⟩
    · -- in both cases the branch has but one end under the answers that come into question
      have hmem := List.mem_of_getElem? hw
      have hdeterminate (hfree : w.RaceFree) : (branchAlone setting budget s input x w).Determinate
          fun r answer => answer.result = reply r :=
        drive_determinate (fun r answer answer' h h' => h.trans h'.symm) setting budget hfree
      obtain ⟨A, hA, hrunners, hrunners'⟩ := Determinate.of_either (A := fun r answer => answer.result = reply r)
        hreply hreply' (hfree.imp_left fun hfree => hdeterminate (hfree w hmem))
      obtain ⟨t', hrun'⟩ := hA.run_eq (hhalt w hmem) hyields
        (Allowed.within (.of_runners hrunners hanswer) _) hrunners' hreply' (start i)
      constructor
      · rintro ⟨y'', t'', hrun'', hsucceeded⟩
        cases hrun'.symm.trans hrun''
        exact ⟨rfl, hsucceeded⟩
      · rintro ⟨rfl, hsucceeded⟩
        exact ⟨y, t', hrun', hsucceeded⟩

/-! ### Branches with races and without -/

theorem callA_alone_halts : ∀ w ∈ [callA, callA], (branchAlone testSetting 2 together .null default w).Halts
    fun _ answer => answer.result = .ok ⟨0, "done"⟩ := by
  simp only [List.mem_cons, List.not_mem_nil, or_false, or_self]
  rintro _ rfl ⟨delay, result⟩ ⟨⟩
  cases delay <;> trivial

/-- Two calls at once, and each by itself with a quick answer. -/
theorem attemptParallel_alone_callA : ∃ collected : Except TaskFailure (List Document),
    (∃ t, (attemptParallel (drive testSetting 2) together [callA, callA] .null 0 default).run
      (slowFirst (.ok ⟨0, "done"⟩)) none (.start 0) =
        (.finished (collect together.results together.filters (default : Execution).tree .null collected), t)) ∧
    ∀ outputs, collected = .ok outputs ↔ outputs.length = 2 ∧ ∀ (i : Nat) (w : Workflow),
      [callA, callA][i]? = some w → ∃ output, outputs[i]? = some output ∧
        ∃ y t', (branchAlone testSetting 2 together .null default w).run (slowFirst (.ok ⟨0, "done"⟩)) none
          (.start 1) = (.finished (y, .ok output), t') ∧ y.Succeeded output := by
  obtain ⟨collected, log, hrun, -, -, -, hsame⟩ := attemptParallel_alone testSetting 2 together [callA, callA]
    .null 0 default (fun _ => .ok ⟨0, "done"⟩) (slowFirst (.ok ⟨0, "done"⟩)) (fun _ _ => rfl) callA_alone_halts
    (.start 0)
  refine ⟨collected, hrun, hsame (slowFirst (.ok ⟨0, "done"⟩)) (fun _ => .start 1) (fun _ _ => rfl) (.inl ?_)⟩
  simp only [List.mem_cons, List.not_mem_nil, or_false, or_self]
  rintro _ rfl
  exact callA_raceFree

/-- Goes on when its call fails. -/
def patient : Workflow :=
  .mk "call" [("call", .mk none (.task ⟨"test://a", passAll, .final, ⟨none, none⟩, none,
      ⟨[], [⟨["States.ALL"], "end", none⟩]⟩, none, none, none⟩)),
    ("end", .mk none (.succeed passAll))] none none

/-- A call that fails races with a Fail state; goes on when the Fail state is first. -/
def racing : Workflow :=
  .mk "race" [("race", .mk none (.parallel ⟨passAll, .final, ⟨none, none⟩, ⟨[], [⟨["B"], "end", none⟩]⟩⟩
      [callA, single (.fail ⟨some "B", some "b"⟩)])),
    ("end", .mk none (.succeed passAll))] none none

theorem patient_racing_halts : ∀ w ∈ [patient, racing],
    (branchAlone testSetting 4 together .null default w).Halts
      fun _ answer => answer.result = .error (.io "a") := by
  refine List.forall_mem_cons.2 ⟨?_, List.forall_mem_cons.2 ⟨?_, nofun⟩⟩
  · rintro ⟨delay, result⟩ ⟨⟩
    cases delay <;> trivial
  · refine Halts.of_sim ?_ (driveWithin_sim 30 testSetting 4 _)
    rintro ⟨delay, result⟩ ⟨⟩
    cases delay <;> trivial

/-- By themselves both branches get the slow answer and succeed; gathered, the first gets it and the second
a quick one, so that its call wins the race. -/
theorem attemptParallel_ne_alone_of_race :
    (slowFirst (.error (.io "a"))).Reply (fun _ => .error (.io "a")) ∧
      (∀ w ∈ [patient, racing], (branchAlone testSetting 4 together .null default w).Halts
        fun _ answer => answer.result = .error (.io "a")) ∧
      (∀ w ∈ [patient, racing], ∃ y t, (branchAlone testSetting 4 together .null default w).run
        (slowFirst (.error (.io "a"))) none (.start 0) = (.finished (y, .ok .null), t) ∧
          y.Succeeded .null) ∧
      ((attemptParallel (drive testSetting 4) together [patient, racing] .null 0 default).run
          (slowFirst (.error (.io "a"))) none (.start 0)).1 =
        .finished (.error ⟨"States.BranchFailed", "state 'race' failed: " ++
          "States.BranchFailed: state 'only' failed: States.TaskFailed: io error: a"⟩) := by
  refine ⟨fun _ _ => rfl, patient_racing_halts, List.forall_mem_cons.2 ⟨?_, List.forall_mem_cons.2 ⟨?_, nofun⟩⟩, ?_⟩
  · refine ⟨_, _, rfl, rfl, rfl⟩
  · rw [(driveWithin_sim 30 testSetting 4 _).run_eq (by nofun)]
    exact ⟨_, _, rfl, rfl, rfl⟩
  · have hwithin := attemptParallelWithin_sim 30 testSetting 4 together [patient, racing] .null 0 default
    rw [hwithin.run_eq (by nofun)]
    rfl

end Execution
end StepFlow
