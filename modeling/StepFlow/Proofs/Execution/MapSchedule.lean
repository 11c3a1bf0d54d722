import StepFlow.Proofs.Execution.ParallelInTime
import StepFlow.Proofs.Process.Places

/-!
# When the iterations of a Map state run

A Map state keeps at most as many iterations under way as its limit says. An iteration keeps its place
until its output is taken, in the order of the items: the one number `j` starts when the output number
`j - m` is taken, and the attempt ends when the last output is taken.
-/

namespace StepFlow.Execution
open Process

section
variable {drive : Execution → Process Execution (Execution × Except RuntimeError Document)}
  {s : MapState} {iterator : Workflow} {input : Document} {attempt : Nat} {x : Execution}
  {items : List Document} {now stop : Duration} {trace : Trace}

/-- The process of an iteration. -/
def iterationProcess (drive : Execution → Process Execution (Execution × Except RuntimeError Document))
    (s : MapState) (iterator : Workflow) (input : Document) (x : Execution) (j : Nat) (item : Document) :
    Process Execution (Except TaskFailure Document) :=
  Process.bind (fun (y, result) => .done (nestedResult y result))
    (drive (iteration s iterator x (s.filters.input x.tree input) j item))

theorem iterations_eq :
    iterations drive s iterator input x items =
      (items.zipIdx.map fun (item, j) => iterationProcess drive s iterator input x j item).map .ready := by
  rw [List.map_map]
  rfl

theorem attemptMap_runs {o : Option (Except TaskFailure Document)}
    (hitems : items? s input x = some items)
    (h : (attemptMap drive s iterator input attempt x).Runs now trace stop o) :
    ∃ g, o = g.map (collect s.results s.filters x.tree input) ∧
      (gather x attempt (.inOrder (limit s items)) (iterations drive s iterator input x items)).Runs now
        trace stop g := by
  rw [attemptMap_eq, hitems] at h
  rcases h.of_bind with ⟨trace₁, trace₂, mid, result, rfl, hgather, hdone⟩ | ⟨rfl, hgather⟩
  · obtain ⟨rfl, rfl, rfl⟩ := runs_done.1 hdone
    rw [List.append_nil]
    exact ⟨some result, rfl, hgather⟩
  · exact ⟨none, rfl, hgather⟩

/-- An iteration that succeeds begins with its first state. -/
theorem iterationProcess_begins {setting : Setting} {budget j : Nat} {item : Document} {b : Branch}
    {log : List Exchange} {d : Duration} {v : Document}
    (h : ((iterationProcess (Execution.drive setting budget) s iterator input x j item).inside b).Lasts log d
      (some (.ok v))) :
    ∃ site event rest,
      iterationProcess (Execution.drive setting budget) s iterator input x j item = .emit site event rest := by
  unfold iterationProcess at h ⊢
  generalize hy : iteration s iterator x (s.filters.input x.tree input) j item = y at h ⊢
  have hend : ¬ y.isEnd := by rw [← hy]; exact nofun
  have hbegin : begin y = .done { y with status := .running } := by rw [← hy]; rfl
  cases budget with
  | zero => exact (not_lasts_stuck h).elim
  | succ budget =>
    rw [Execution.drive, driveVia, if_neg hend, stepWithVia, if_neg hend] at h ⊢
    rcases hstate : y.workflow.state? y.current with _ | state
    · rw [hstate] at h
      obtain ⟨-, -, hresult⟩ := lasts_done.1 h
      nomatch hresult
    · dsimp only
      rw [hbegin]
      exact ⟨_, _, _, rfl⟩

end

/-- How the iterations of an attempt at a Map state run, in a run of its own or among others, if all of
them succeed: the one number `j`, taking `d j` with what it is answered, does all that it does from
`startAt m d j` on, counted from the start of the attempt, where `m` is the limit on those under way. No
iteration does anything before one with a lower number has begun. -/
theorem attemptMap_schedule (setting : Setting) (budget : Nat) (s : MapState) (iterator : Workflow)
    (input : Document) (attempt : Nat) (x : Execution) (items : List Document)
    (hitems : items? s input x = some items) (hsome : items ≠ []) :
    (∀ (ω : Type) (runners : Runners ω) (t : Timeline ω), ∃ trace stop o,
      (attemptMap (drive setting budget) s iterator input attempt x).Runs t.clock trace stop o ∧
        runners.Answer t.world trace.exchanges ∧
        ∃ world, (attemptMap (drive setting budget) s iterator input attempt x).run runners none t =
          (.ofOutcome o, ⟨stop, world, t.events ++ trace.events, t.calls ++ trace.calls⟩)) ∧
    ∀ now trace stop o, (attemptMap (drive setting budget) s iterator input attempt x).Runs now trace stop o →
      ∀ (d : Nat → Duration) (v : Nat → Document),
      (∀ j item, items[j]? = some item →
        ((iterationProcess (drive setting budget) s iterator input x j item).inside ⟨attempt, j⟩).Lasts
          (ofBranch ⟨attempt, j⟩ trace.exchanges) (d j) (some (.ok (v j)))) →
      let n := items.length
      let m := limit s items
      o = some (shapeResult s.results s.filters x.tree input (.arr ((List.range n).map v))) ∧
        stop = now + takenAt m d (n - 1) ∧
        (∀ j item, items[j]? = some item →
          ((iterationProcess (drive setting budget) s iterator input x j item).inside ⟨attempt, j⟩).Runs
            (now + startAt m d j) (trace.within ⟨attempt, j⟩) (now + startAt m d j + d j)
            (some (.ok (v j)))) ∧
        (∀ i j, i < j → j < n → startAt m d i ≤ startAt m d j ∧
          ∀ l ∈ trace.takeWhile (fun l => l.site.head? ≠ some ⟨attempt, i⟩),
            l.site.head? ≠ some ⟨attempt, j⟩) ∧
        (∀ t, ((Finset.range n).filter fun j => startAt m d j ≤ t ∧ t < takenAt m d j).card ≤ m) ∧
        (s.maxConcurrency = 1 → (∀ i j, i < j → startAt m d i + d i ≤ startAt m d j) ∧
          stop = now + ∑ j ∈ Finset.range n, d j) ∧
        (s.maxConcurrency = 0 → (∀ j < n, startAt m d j = 0) ∧
          stop = now + (Finset.range n).sup d) := by
  refine ⟨fun ω runners t => Runs.of_run runners _ t, fun now trace stop o h d v hd => ?_⟩
  intro n m
  have hm : 0 < m := limit_pos s items
  have hn : 0 < n := List.length_pos_iff.2 hsome
  obtain ⟨g, rfl, hgather⟩ := attemptMap_runs hitems h
  have hget {j : Nat} {item : Document} (hitem : items[j]? = some item) :
      (items.zipIdx.map fun (item, j) =>
        iterationProcess (drive setting budget) s iterator input x j item)[j]? =
          some (iterationProcess (drive setting budget) s iterator input x j item) := by
    rw [List.getElem?_map, List.getElem?_zipIdx, hitem]
    simp
  have hlength : (items.zipIdx.map fun (item, j) =>
      iterationProcess (drive setting budget) s iterator input x j item).length = n := by
    rw [List.length_map, List.length_zipIdx]
  rw [iterations_eq] at hgather
  obtain ⟨rfl, hstop, hruns⟩ := runs_of_gather hm hgather fun j p hp => by
    have hj : j < n := hlength ▸ (List.getElem?_eq_some_iff.1 hp).1
    have hitem := List.getElem?_eq_getElem hj
    obtain rfl := Option.some.inj ((hget hitem).symm.trans hp)
    exact hd j _ hitem
  rw [hlength] at hstop ⊢
  have hstop := hstop hn
  refine ⟨rfl, hstop, fun j item hitem => hruns j _ (hget hitem), fun i j hij hj =>
    ⟨startAt_mono hm hij.le, ?_⟩, fun t => card_held_le hm t, fun hone => ?_, fun hzero => ?_⟩
  · have hitem := List.getElem?_eq_getElem (hij.trans hj)
    obtain ⟨site, event, rest, hbegins⟩ := iterationProcess_begins (hd i _ hitem)
    have hslot := congrArg (Option.map Slot.ready) (hget hitem)
    rw [← List.getElem?_map, hbegins] at hslot
    exact begins_before hij hslot hgather
  · have hmone : m = 1 := by rw [← hone]; exact if_neg (by omega)
    rw [hmone] at hstop ⊢
    refine ⟨fun i j hij => end_le_startAt_one hij, ?_⟩
    rw [hstop, takenAt_one, Nat.sub_add_cancel hn]
  · have hall : n ≤ m := by
      have hmax : m = max items.length 1 := if_pos hzero
      omega
    refine ⟨fun j hj => startAt_of_lt (hj.trans_le hall), ?_⟩
    rw [hstop, takenAt_of_lt hm (by omega), Nat.sub_add_cancel hn]

/-! ### Three waits on two places -/

def waitForItem : Workflow :=
  single (.wait ⟨passAll, .final, .secondsPath ⟨"$.seconds", false, [.child (.key (.name "seconds"))]⟩⟩)

def onTwoPlaces : MapState := { overItems with maxConcurrency := 2 }

def threeWaits : List Document := [3, 1, 2].map fun n => .obj [("seconds", .num (.int n))]

def waits (j : Nat) : Duration := Duration.ofSeconds ([3, 1, 2].getD j 0)

theorem threeWaits_last {j : Nat} {item : Document} (hitem : threeWaits[j]? = some item) :
    ((iterationProcess (drive testSetting 2) onTwoPlaces waitForItem (.arr threeWaits) default j item).inside
      ⟨0, j⟩).Lasts [] (waits j) (some (.ok (threeWaits.getD j .null))) := by
  match j, hitem with
  | 0, rfl => exact Lasts.of_idle_run (fun _ _ => ((), ⟨0, .ok ⟨0, ""⟩⟩)) () ⟨_, _, rfl⟩
  | 1, rfl => exact Lasts.of_idle_run (fun _ _ => ((), ⟨0, .ok ⟨0, ""⟩⟩)) () ⟨_, _, rfl⟩
  | 2, rfl => exact Lasts.of_idle_run (fun _ _ => ((), ⟨0, .ok ⟨0, ""⟩⟩)) () ⟨_, _, rfl⟩

theorem takenAt_waits : takenAt 2 waits 2 = Duration.ofSeconds 5 := by
  have htwo : 0 < 2 := by decide
  have hfirst : takenAt 2 waits 0 = Duration.ofSeconds 3 := by
    rw [takenAt_zero htwo, startAt_of_lt (by decide)]; rfl
  have hsecond : takenAt 2 waits 1 = Duration.ofSeconds 3 := by
    rw [takenAt_succ htwo, hfirst, startAt_of_lt (by decide)]; rfl
  rw [takenAt_succ htwo, hsecond, startAt_of_le (by decide), hfirst]
  rfl

/-- The third wait begins when the first is over, though the second has been over for two seconds. -/
theorem attemptMap_schedule_threeWaits :
    ∃ trace o, (attemptMap (drive testSetting 2) onTwoPlaces waitForItem (.arr threeWaits) 0 default).Runs 0
        trace (Duration.ofSeconds 5) o ∧
      ((iterationProcess (drive testSetting 2) onTwoPlaces waitForItem (.arr threeWaits) default 2
        (threeWaits.getD 2 .null)).inside ⟨0, 2⟩).Runs (Duration.ofSeconds 3) (trace.within ⟨0, 2⟩)
          (Duration.ofSeconds 5) (some (.ok (threeWaits.getD 2 .null))) := by
  obtain ⟨hrun, hschedule⟩ := attemptMap_schedule testSetting 2 onTwoPlaces waitForItem (.arr threeWaits) 0
    default threeWaits rfl nofun
  obtain ⟨trace, stop, o, hruns, -⟩ := hrun Unit (fun _ _ => ((), ⟨0, .ok ⟨0, ""⟩⟩)) (.start ())
  have hidle : trace.exchanges = [] := by
    obtain ⟨d, -, hlasts⟩ := hruns.lasts
    have hnone : (attemptMap (drive testSetting 2) onTwoPlaces waitForItem (.arr threeWaits) 0 default).Lasts
        [] (Duration.ofSeconds 5) (some (.ok (.arr threeWaits))) :=
      .of_idle_sim (attemptMapWithin_sim 40 testSetting 2 onTwoPlaces waitForItem (.arr threeWaits) 0 default)
        (fun _ _ => ((), ⟨0, .ok ⟨0, ""⟩⟩)) () ⟨_, _, rfl⟩
    exact (hnone.unique (List.nil_append trace.exchanges ▸ hlasts)).1
  obtain ⟨-, hstop, hiterations, -⟩ := hschedule 0 trace stop o hruns waits (threeWaits.getD · .null)
    fun j item hitem => hidle ▸ threeWaits_last hitem
  obtain rfl : stop = Duration.ofSeconds 5 := hstop.trans ((Nat.zero_add _).trans takenAt_waits)
  refine ⟨trace, o, hruns, ?_⟩
  have hthird := hiterations 2 _ rfl
  have hstart : startAt 2 waits 2 = Duration.ofSeconds 3 := by
    rw [startAt_of_le (by decide), takenAt_zero (by decide), startAt_of_lt (by decide)]; rfl
  have hlimit : limit onTwoPlaces threeWaits = 2 := rfl
  rw [hlimit, hstart, Nat.zero_add] at hthird
  exact hthird

end StepFlow.Execution
