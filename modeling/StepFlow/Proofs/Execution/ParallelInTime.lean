import StepFlow.Proofs.Execution.MapInTurn
import StepFlow.Proofs.Execution.Prompt
import StepFlow.Proofs.Process.FirstFailure

/-!
# Which branch fails a Parallel state, and when

An attempt at a Parallel state with up to thirty branches fails as soon as one of its branches does, with
the failure of that branch. With more branches the failure of a branch counts only when all branches before
it have ended: the attempt may fail later, and with another branch, than the first that fails in time
(`attemptParallel_ne_first`).
-/

namespace StepFlow.Execution
open Process

/-- The branches of a Parallel state, each of them begun. -/
def branchSlots (drive : Execution → Process Execution (Execution × Except RuntimeError Document))
    (s : ParallelState) (branches : List Workflow) (input : Document) (x : Execution) :
    List (Slot Execution TaskFailure Document) :=
  branches.map fun w => nestedSlot drive (branch x (s.filters.input x.tree input) w)

section
variable {drive : Execution → Process Execution (Execution × Except RuntimeError Document)}
  {s : ParallelState} {branches : List Workflow} {input : Document} {k : Nat} {x : Execution}
  {log : List Exchange} {d : Duration} {r : Option (Except TaskFailure Document)}

theorem failure?_nestedSlots {ι : Type} (start : ι → Execution) (is : List ι) :
    failure? (is.map fun i => nestedSlot drive (start i)) = none := by
  refine failure?_eq_none_iff.2 fun e hmem => ?_
  obtain ⟨i, -, heq⟩ := List.mem_map.1 hmem
  cases heq

/-- An attempt takes as long as the branches that it gathers; what comes after takes no time. -/
theorem attemptParallel_gathers (h : (attemptParallel drive s branches input k x).Lasts log d r) :
    ∃ g, r = g.map (collect s.results s.filters x.tree input) ∧
      (gather x k (if branches.length ≤ maxEagerBranches then .firstFailure else .inOrder branches.length)
        (branchSlots drive s branches input x)).Lasts log d g := by
  rw [attemptParallel_eq] at h
  rcases h.of_bind with ⟨log₁, log₂, d₁, d₂, result, rfl, rfl, hgather, hdone⟩ | ⟨rfl, hgather⟩
  · obtain ⟨rfl, rfl, rfl⟩ := lasts_done.1 hdone
    rw [List.append_nil, Nat.add_zero]
    exact ⟨some result, rfl, hgather⟩
  · exact ⟨none, rfl, hgather⟩

end

/-- How an attempt at a Parallel state comes to its end, in a run of its own or among others. With up to
thirty branches the first branch that fails decides, in time and at one instant by number: if a branch
fails, so does the attempt. With more branches their results are taken in order, and the attempt takes as
long as the longest of the branches up to the first of them that fails. -/
theorem attemptParallel_decides (setting : Setting) (budget : Nat) (s : ParallelState)
    (branches : List Workflow) (input : Document) (k : Nat) (x : Execution) :
    (∀ (ω : Type) (runners : Runners ω) (t : Timeline ω), ∃ log d r,
      (attemptParallel (drive setting budget) s branches input k x).Lasts log d r ∧
        runners.Answer t.world log ∧
        ∃ t', (attemptParallel (drive setting budget) s branches input k x).run runners none t =
          (.ofOutcome r, t') ∧ t'.clock = t.clock + d) ∧
    ∀ log d r, (attemptParallel (drive setting budget) s branches input k x).Lasts log d r →
      let slots := branchSlots (drive setting budget) s branches input x
      ∃ g, r = g.map (collect s.results s.filters x.tree input) ∧
        (branches.length ≤ maxEagerBranches →
          FirstDecides k log slots d g ∧
            ∀ i d' f, MayCome k log slots i d' (some (.error f)) →
              (∀ j d'', MayCome k log slots j d'' none → d' < d'') → ∃ f', g = some (.error f')) ∧
        (maxEagerBranches < branches.length →
          (∀ result, g = some result → Taken k log 0 slots d result) ∧
            (g = none → ∃ i, Comes k log slots i d none)) := by
  refine ⟨fun ω runners t => ?_, fun log d r h => ?_⟩
  · obtain ⟨log, d, r, hlasts, hanswer, hend, hclock, -⟩ := Lasts.of_run runners
      (attemptParallel (drive setting budget) s branches input k x) t
    exact ⟨log, d, r, hlasts, hanswer, _, Prod.ext hend rfl, hclock⟩
  obtain ⟨g, hg, hgather⟩ := attemptParallel_gathers h
  refine ⟨g, hg, fun hfew => ?_, fun hmany => ⟨?_, ?_⟩⟩
  · rw [if_pos hfew] at hgather
    have hfirst := firstDecides_of_gather (nestedSlots_prompt (drive_prompt setting budget) _ _)
      (failure?_nestedSlots _ _) hgather
    exact ⟨hfirst, fun i d' f hi hstuck => hfirst.fails hi hstuck⟩
  all_goals
    rw [if_neg (Nat.not_le_of_lt hmany)] at hgather
    have hlength : (branchSlots (drive setting budget) s branches input x).length ≤ branches.length :=
      Nat.le_of_eq (List.length_map _)
    have hpos : 0 < branches.length := Nat.lt_of_le_of_lt (Nat.zero_le _) hmany
  · rintro result rfl
    exact taken_of_gather hpos hlength hgather
  · rintro rfl
    exact stuck_of_gather hpos hlength hgather

/-! ### Few branches and many -/

/-- A state that only gathers its branches. -/
def together : ParallelState := ⟨passAll, .final, ⟨none, none⟩, ⟨[], []⟩⟩

/-- A graph that waits and then fails. -/
def failing (seconds : Nat) (error : String) : Workflow :=
  .mk "wait" [("wait", .mk none (.wait ⟨passAll, .next "fail", .seconds seconds⟩)),
    ("fail", .mk none (.fail ⟨some error, none⟩))] none none

/-- Two branches that fail at the same instant, while the first one waits. -/
def fewBranches : List Workflow :=
  [single (.wait ⟨passAll, .final, .seconds 10⟩), failing 2 "B", failing 2 "C"]

theorem fewBranches_not_stuck {log : List Exchange} {j : Nat} {d : Duration} :
    ¬ MayCome 0 log (branchSlots (drive default 3) together fewBranches .null default) j d none := by
  rintro ⟨s, more, hs, d', -, hlasts⟩
  refine Halts.not_stuck (Halts.inside ?_ _) hlasts
  obtain ⟨w, hw, rfl⟩ := List.mem_map.1 (List.mem_of_getElem? hs)
  simp only [fewBranches, List.mem_cons, List.not_mem_nil, or_false] at hw
  rcases hw with rfl | rfl | rfl <;> exact Halts.bind (by trivial) fun _ => trivial

/-- The attempt fails with the second branch, at the time at which it fails. -/
theorem attemptParallel_decides_fewBranches :
    ∃ g, (attemptParallel (drive default 3) together fewBranches .null 0 default).Lasts []
        (Duration.ofSeconds 2) (some (.error ⟨"B", ""⟩)) ∧
      FirstDecides 0 [] (branchSlots (drive default 3) together fewBranches .null default)
        (Duration.ofSeconds 2) g ∧ g = some (.error ⟨"B", ""⟩) := by
  have hlasts : (attemptParallel (drive default 3) together fewBranches .null 0 default).Lasts []
      (Duration.ofSeconds 2) (some (.error ⟨"B", ""⟩)) :=
    .of_idle_sim (attemptParallelWithin_sim 40 default 3 together fewBranches .null 0 default)
      (fun _ _ => ((), ⟨0, .ok ⟨0, ""⟩⟩)) () ⟨_, _, rfl⟩
  obtain ⟨g, hg, hfew, -⟩ := (attemptParallel_decides default 3 together fewBranches .null 0 default).2 _ _ _ hlasts
  obtain ⟨hfirst, hfails⟩ := hfew (by decide)
  have hbranch : MayCome 0 [] (branchSlots (drive default 3) together fewBranches .null default) 1
      (Duration.ofSeconds 2) (some (.error ⟨"B", ""⟩)) := by
    refine ⟨_, [], rfl, Slot.lasts_ready.2 ?_⟩
    exact Lasts.of_idle_run (fun _ _ => ((), ⟨0, .ok ⟨0, ""⟩⟩)) () ⟨_, _, rfl⟩
  obtain ⟨f, rfl⟩ := hfails 1 _ _ hbranch fun j d hstuck => (fewBranches_not_stuck hstuck).elim
  cases hg
  exact ⟨_, hlasts, hfirst, rfl⟩

/-- A branch that fails at once is the last of thirty-one. -/
def manyBranches : List Workflow :=
  failing 10 "A" :: (List.replicate 29 (single (.succeed passAll)) ++ [single (.fail ⟨some "B", none⟩)])

/-- With one branch too many the attempt fails ten seconds after a branch has failed, and not with the failure
of that branch. -/
theorem attemptParallel_ne_first :
    (attemptParallel (drive default 3) together manyBranches .null 0 default).Lasts []
        (Duration.ofSeconds 10) (some (.error ⟨"A", ""⟩)) ∧
      Comes 0 [] (branchSlots (drive default 3) together manyBranches .null default) 30 0
        (some (.error ⟨"B", ""⟩)) ∧
      ¬ FirstDecides 0 [] (branchSlots (drive default 3) together manyBranches .null default)
        (Duration.ofSeconds 10) (some (.error ⟨"A", ""⟩)) := by
  have hbranch : Comes 0 [] (branchSlots (drive default 3) together manyBranches .null default) 30 0
      (some (.error ⟨"B", ""⟩)) := by
    refine ⟨_, rfl, Slot.lasts_ready.2 ?_⟩
    exact Lasts.of_idle_run (fun _ _ => ((), ⟨0, .ok ⟨0, ""⟩⟩)) () ⟨_, _, rfl⟩
  refine ⟨?_, hbranch, ?_⟩
  · exact .of_idle_sim (attemptParallelWithin_sim 200 default 3 together manyBranches .null 0 default)
      (fun _ _ => ((), ⟨0, .ok ⟨0, ""⟩⟩)) () ⟨_, _, rfl⟩
  · intro hdecides
    cases hdecides with
    | breaks _ _ hfirst =>
      rcases hfirst 30 0 _ (by nofun) hbranch.mayCome with hlater | ⟨hlater, -⟩
      · exact absurd hlater (by decide)
      · exact absurd hlater (by decide)

end StepFlow.Execution
