import StepFlow.Proofs.Execution.Course
import StepFlow.Proofs.Execution.MapInTurn
import StepFlow.Proofs.Process.Run

/-!
# When a state is left that keeps failing

A visit is given as many failures as it makes attempts (`Supplies`). It ends with the first failure
that is not retried (`Ends`). While one retrier takes the failures, that comes after its `maxAttempts`
retries; every time that another retrier takes over, the count starts again, so the number of attempts
is bounded by that of the take-overs (`length_le_of_retried`), and by the list of retriers alone only
where no two of them can take turns (`bounded_iff`).
-/

namespace StepFlow

/-- The first failures of a supply, newest first. -/
def newestFirst (fs : Nat → TaskFailure) : Nat → List TaskFailure
  | 0 => []
  | n + 1 => fs n :: newestFirst fs n

@[simp] theorem length_newestFirst (fs : Nat → TaskFailure) (n : Nat) :
    (newestFirst fs n).length = n := by
  induction n with
  | zero => rfl
  | succ n ih => rw [newestFirst, List.length_cons, ih]

namespace Recovery

variable {r : Recovery} {f g : TaskFailure} {failures past : List TaskFailure} {fs : Nat → TaskFailure}

/-- How often a failure goes to another retrier than the one before it. -/
def takeOvers (r : Recovery) : List TaskFailure → Nat
  | [] => 0
  | [_] => 0
  | f :: g :: past => takeOvers r (g :: past) + if r.position? f = r.position? g then 0 else 1

/-- The most retries that one retrier makes in a row. -/
def mostAttempts (r : Recovery) : Nat := (r.retriers.map (·.maxAttempts)).foldr max 0

/-- No retrier allows so many retries that counting the failure after the last of them takes more than 32
bits. -/
def FitsCount (r : Recovery) : Prop := ∀ retrier ∈ r.retriers, retrier.maxAttempts + 1 < Nat.pow 2 32

instance (r : Recovery) : Decidable r.FitsCount := inferInstanceAs (Decidable (∀ retrier ∈ _, _))

/-- A failure that is retried when it is the first one. -/
def Retries (r : Recovery) (f : TaskFailure) : Prop := (r.retryDelay? [f]).isSome

instance (r : Recovery) (f : TaskFailure) : Decidable (r.Retries f) :=
  inferInstanceAs (Decidable ((r.retryDelay? [f]).isSome = true))

/-- What a failure that is not retried makes of the visit. -/
def leaving (r : Recovery) (name : String) (input : Document) (f : TaskFailure) :
    Except RuntimeError Outcome :=
  (r.fallback name input f).map fun (next, output) => ⟨some next, output⟩

theorem isSome_retryDelay?_iff :
    (r.retryDelay? failures).isSome ↔
      ∃ retrier, r.newest? failures = some retrier ∧ r.streak failures ≤ retrier.maxAttempts := by
  rw [retryDelay?]
  rcases hnewest : r.newest? failures with _ | retrier
  · simp
  · by_cases hle : r.streak failures ≤ retrier.maxAttempts <;> simp [hle]

theorem maxAttempts_le {retrier : Retrier} (h : r.newest? failures = some retrier) :
    retrier.maxAttempts ≤ r.mostAttempts := by
  obtain ⟨f, past, rfl⟩ : ∃ f past, failures = f :: past := by
    rcases failures with _ | ⟨f, past⟩
    · exact absurd h.symm (Option.some_ne_none _)
    · exact ⟨f, past, rfl⟩
  obtain ⟨i, -, hi⟩ := Option.bind_eq_some_iff.1 h
  have hmem := List.mem_of_getElem? hi
  unfold mostAttempts
  generalize r.retriers = retriers at hmem
  induction retriers with
  | nil => nomatch hmem
  | cons a rest ih =>
    rw [List.map_cons, List.foldr_cons]
    rcases List.mem_cons.1 hmem with rfl | hrest
    · exact Nat.le_max_left ..
    · exact (ih hrest).trans (Nat.le_max_right ..)

theorem streak_le_of_retried (h : (r.retryDelay? failures).isSome) :
    r.streak failures ≤ r.mostAttempts := by
  obtain ⟨retrier, hnewest, hle⟩ := isSome_retryDelay?_iff.1 h
  exact hle.trans (maxAttempts_le hnewest)

theorem FitsCount.mostAttempts_lt (h : r.FitsCount) : r.mostAttempts + 1 < Nat.pow 2 32 := by
  unfold FitsCount at h
  unfold mostAttempts
  generalize r.retriers = retriers at h
  induction retriers with
  | nil => decide
  | cons a rest ih =>
    obtain ⟨ha, hrest⟩ := List.forall_mem_cons.1 h
    rw [List.map_cons, List.foldr_cons, ← Nat.add_max_add_right]
    exact Nat.max_lt.2 ⟨ha, ih hrest⟩

theorem streak_pos (f : TaskFailure) (past : List TaskFailure) : 0 < r.streak (f :: past) :=
  Nat.succ_pos _

/-- A failure that is retried at any time is one that is retried when it is the first. -/
theorem retries_of_retried (h : (r.retryDelay? (f :: past)).isSome) : r.Retries f := by
  obtain ⟨retrier, hnewest, hle⟩ := isSome_retryDelay?_iff.1 h
  have hpos := streak_pos (r := r) f past
  have hone : r.streak [f] = 1 := rfl
  exact isSome_retryDelay?_iff.2 ⟨retrier, hnewest, by omega⟩

/-- Where the retrier changes, it is as if the failure were the first. -/
theorem retried_of_takeOver (h : r.Retries f) (hfg : r.position? f ≠ r.position? g) :
    (r.retryDelay? (f :: g :: past)).isSome := by
  obtain ⟨retrier, hnewest, hle⟩ := isSome_retryDelay?_iff.1 h
  refine isSome_retryDelay?_iff.2 ⟨retrier, hnewest, ?_⟩
  rw [streak_cons_of_ne hfg]
  exact hle

/-- The first failures of a supply are all retried. -/
def Granted (r : Recovery) (fs : Nat → TaskFailure) (n : Nat) : Prop :=
  ∀ m < n, (r.retryDelay? (newestFirst fs (m + 1))).isSome

theorem Granted.mono {m n : Nat} (h : r.Granted fs n) (hmn : m ≤ n) : r.Granted fs m :=
  fun k hk => h k (hk.trans_le hmn)

theorem streak_cons_le (f g : TaskFailure) (past : List TaskFailure) :
    r.streak (f :: g :: past) ≤ r.streak (g :: past) + 1 := by
  by_cases hsame : r.position? f = r.position? g
  · exact (streak_cons_of_eq hsame).le
  · rw [streak_cons_of_ne hsame]
    exact Nat.succ_le_succ (Nat.zero_le _)

/-- While the failures are retried, the next one is at most one too many for its retrier. -/
theorem Granted.streak_le {n : Nat} (h : r.Granted fs n) :
    r.streak (newestFirst fs (n + 1)) ≤ r.mostAttempts + 1 := by
  cases n with
  | zero => exact Nat.succ_le_succ (Nat.zero_le _)
  | succ n => exact (streak_cons_le ..).trans (Nat.succ_le_succ (streak_le_of_retried (h n n.lt_succ_self)))

/-- The record counts no further than that. -/
theorem Granted.retryCount_le {n : Nat} (h : r.Granted fs n) (record : StateRecord) :
    (r.recordAfter record (newestFirst fs (n + 1))).retryCount ≤ max record.retryCount (r.mostAttempts + 1) := by
  have hstreak := h.streak_le
  simp only [newestFirst] at hstreak ⊢
  rw [recordAfter]
  split
  · exact hstreak.trans (Nat.le_max_right ..)
  -- No retrier takes the newest failure, so that the count is what the failure before it has left.
  · cases n with
    | zero => exact Nat.le_max_left ..
    | succ n =>
      have hretried := h n n.lt_succ_self
      obtain ⟨retrier, hnewest, -⟩ := isSome_retryDelay?_iff.1 hretried
      simp only [newestFirst] at hnewest hretried ⊢
      rw [recordAfter_eq hnewest]
      exact ((streak_le_of_retried hretried).trans (Nat.le_succ _)).trans (Nat.le_max_right ..)

/-- Between two take-overs there are at most as many failures as a retrier makes retries. -/
theorem length_le_of_retried {n : Nat} (h : r.Granted fs n) :
    n ≤ r.takeOvers (newestFirst fs n) * r.mostAttempts + r.streak (newestFirst fs n) := by
  induction n with
  | zero => exact Nat.zero_le _
  | succ n ih =>
    have ih := ih (h.mono n.le_succ)
    cases n with
    | zero => simp [newestFirst, streak, takeOvers]
    | succ n =>
      have hstreak := streak_le_of_retried (h n (by omega))
      simp only [newestFirst] at ih hstreak ⊢
      by_cases hsame : r.position? (fs (n + 1)) = r.position? (fs n)
      · simp only [takeOvers, if_pos hsame, streak_cons_of_eq hsame, Nat.add_zero]
        omega
      · rw [takeOvers, if_neg hsame, streak_cons_of_ne hsame, Nat.add_mul, Nat.one_mul]
        omega

theorem le_of_takeOvers {n s : Nat} (h : r.Granted fs n) (hs : r.takeOvers (newestFirst fs n) ≤ s) :
    n ≤ (s + 1) * r.mostAttempts := by
  rcases n with _ | n
  · exact Nat.zero_le _
  have hlength := length_le_of_retried h
  have hstreak := streak_le_of_retried (h n n.lt_succ_self)
  have hmul := Nat.mul_le_mul_right r.mostAttempts hs
  rw [Nat.add_mul, Nat.one_mul]
  omega

theorem takeOvers_eq_zero {n : Nat} (h : ∀ m < n, r.position? (fs (m + 1)) = r.position? (fs m)) :
    r.takeOvers (newestFirst fs (n + 1)) = 0 := by
  induction n with
  | zero => rfl
  | succ n ih =>
    have ih := ih fun m hm => h m (hm.trans n.lt_succ_self)
    simp only [newestFirst] at ih ⊢
    rw [takeOvers, if_pos (h n n.lt_succ_self), ih]

/-- Some failure is not retried, unless all are: the first of them. -/
theorem exists_first_of_not_granted {n : Nat} (h : ¬ r.Granted fs n) :
    ∃ m < n, r.Granted fs m ∧ r.retryDelay? (newestFirst fs (m + 1)) = none := by
  induction n with
  | zero => exact absurd (fun _ hm => absurd hm (Nat.not_lt_zero _)) h
  | succ n ih =>
    by_cases hn : r.Granted fs n
    · refine ⟨n, n.lt_succ_self, hn, ?_⟩
      by_contra hsome
      refine h fun m hm => ?_
      rcases (Nat.lt_succ_iff.1 hm).lt_or_eq with hlt | rfl
      · exact hn m hlt
      · exact Option.isSome_iff_ne_none.2 hsome
    · obtain ⟨m, hm, hfirst⟩ := ih hn
      exact ⟨m, hm.trans n.lt_succ_self, hfirst⟩

/-- When one retrier at most makes retries, the failures are soon too many for it. -/
theorem not_granted_of_same (h : ∀ f g, r.Retries f → r.Retries g → r.position? f = r.position? g)
    (fs : Nat → TaskFailure) : ¬ r.Granted fs (r.mostAttempts + 1) := by
  intro hgranted
  have hretries (m : Nat) (hm : m < r.mostAttempts + 1) : r.Retries (fs m) :=
    retries_of_retried (hgranted m hm)
  have hzero : r.takeOvers (newestFirst fs (r.mostAttempts + 1)) = 0 :=
    takeOvers_eq_zero fun m hm => h _ _ (hretries (m + 1) (by omega)) (hretries m (by omega))
  have hle := le_of_takeOvers hgranted hzero.le
  omega

/-- When the retrier changes with every failure, all of them are retried. -/
theorem granted_of_alternating (hretries : ∀ k, r.Retries (fs k))
    (hchange : ∀ k, r.position? (fs (k + 1)) ≠ r.position? (fs k)) (n : Nat) : r.Granted fs n := by
  intro m _
  cases m with
  | zero => exact hretries 0
  | succ m => exact retried_of_takeOver (hretries (m + 1)) (hchange m)

/-- The retriers alone bound the number of attempts exactly if no two of them can take turns. -/
theorem bounded_iff : (∃ n, ∀ fs, ¬ r.Granted fs n) ↔
    ∀ f g, r.Retries f → r.Retries g → r.position? f = r.position? g := by
  constructor
  · rintro ⟨n, hn⟩ f g hf hg
    by_contra hfg
    refine hn (fun k => if k % 2 = 0 then f else g) (granted_of_alternating (fun k => ?_) (fun k => ?_) n)
    · split <;> assumption
    · rcases Nat.mod_two_eq_zero_or_one k with hk | hk
      · have hk' : (k + 1) % 2 ≠ 0 := by omega
        rw [if_neg hk', if_pos hk]
        exact Ne.symm hfg
      · have hk' : (k + 1) % 2 = 0 := by omega
        rw [if_pos hk', if_neg (by omega)]
        exact hfg
  · exact fun h => ⟨_, not_granted_of_same h⟩

end Recovery

namespace Execution
open Process

variable {ω : Type} {runners : Runners ω} {run : Nat → Execution → Attempt} {r : Recovery}
  {x y : Execution} {fs : Nat → TaskFailure} {W : Nat → ω → Prop}

/-- The execution `x` in a visit of its state, as the attempt after the first `k` failures finds it. -/
def afterFailures (x : Execution) (r : Recovery) (fs : Nat → TaskFailure) : Nat → Execution
  | 0 => x.sync.sync
  | k + 1 => ((afterFailures x r fs k).withRecord
      (r.recordAfter x.context.state (newestFirst fs (k + 1)))).sync

/-- The attempts of a visit of `x` end one after the other, whenever they are made, with the failures
`fs`; the runners are in a state of `W k` when `k` attempts have been made. -/
def Supplies (runners : Runners ω) (run : Nat → Execution → Attempt) (r : Recovery) (x : Execution)
    (fs : Nat → TaskFailure) (W : Nat → ω → Prop) : Prop :=
  ∀ k (t : Timeline ω), W k t.world → ∃ t', W (k + 1) t'.world ∧
    (run k (x.afterFailures r fs k)).run runners none t = (.finished (.error (fs k)), t')

/-- A visit that may make as many attempts as its budget says goes on with all attempts that it has,
up to attempt number `n` (counted from zero), after which it ends with `result`. -/
structure Ends (runners : Runners ω) (W : Nat → ω → Prop)
    (visit : Nat → Process Execution (Execution × Except RuntimeError Outcome)) (n : Nat)
    (result : Except RuntimeError Outcome) : Prop where
  goesOn : ∀ budget ≤ n, ∀ t : Timeline ω, W 0 t.world →
    ∃ t', W budget t'.world ∧ (visit budget).run runners none t = (.stuck, t')
  leaves : ∀ budget > n, ∀ t : Timeline ω, W 0 t.world →
    ∃ y t', W (n + 1) t'.world ∧ (visit budget).run runners none t = (.finished (y, result), t')

section
variable (h : Supplies runners run r x fs W) {transition : Transition} {name : String}
  {input : Document} {k : Nat} {t : Timeline ω}
include h

theorem Supplies.run_retry (ht : W k t.world) (hy : y.sync = x.afterFailures r fs k)
    (hretry : (r.retryDelay? (newestFirst fs (k + 1))).isSome) (budget : Nat) :
    ∃ y' t', y'.sync = x.afterFailures r fs (k + 1) ∧ W (k + 1) t'.world ∧
      (protocol run transition r name input x.context.state (budget + 1) (newestFirst fs k) y).run
          runners none t =
        (protocol run transition r name input x.context.state budget (newestFirst fs (k + 1)) y').run
          runners none t' := by
  obtain ⟨delay, hdelay⟩ := Option.isSome_iff_exists.1 hretry
  obtain ⟨t₁, ht₁, hrun⟩ := h k t ht
  have hsleep (z : Execution) (t₂ : Timeline ω) (ht₂ : W (k + 1) t₂.world) :
      ∃ t', W (k + 1) t'.world ∧ (Process.sleep z delay).run runners none t₂ = (.finished (), t') := by
    unfold Process.sleep
    split
    · exact ⟨t₂, ht₂, rfl⟩
    · exact ⟨{ t₂ with clock := t₂.clock + delay.onTimer }, ht₂, rfl⟩
  let z := (x.afterFailures r fs k).withRecord
    (r.recordAfter x.context.state (newestFirst fs (k + 1)))
  obtain ⟨t', ht', hwake⟩ := hsleep z
    (t₁.logEvent [] (.taskRetrying name (fs k).error (r.streak (newestFirst fs (k + 1)))
      (Duration.toMillisWord delay))) ht₁
  refine ⟨z, t', rfl, ht', ?_⟩
  rw [protocol, hy, length_newestFirst]
  refine (run_bind _ _ t).trans ?_
  rw [hrun]
  dsimp only
  rw [newestFirst] at hdelay
  rw [hdelay]
  refine (run_bind _ (Process.sleep z delay) _).trans ?_
  rw [newestFirst] at hwake
  rw [hwake]
  rfl

theorem Supplies.run_leave (ht : W k t.world) (hy : y.sync = x.afterFailures r fs k)
    (hnone : r.retryDelay? (newestFirst fs (k + 1)) = none) (budget : Nat) :
    ∃ y' t', W (k + 1) t'.world ∧
      (protocol run transition r name input x.context.state (budget + 1) (newestFirst fs k) y).run
        runners none t = (.finished (y', r.leaving name input (fs k)), t') := by
  obtain ⟨t₁, ht₁, hrun⟩ := h k t ht
  rw [newestFirst] at hnone
  rw [protocol, hy, length_newestFirst, Recovery.leaving]
  let y' := (x.afterFailures r fs k).withRecord
    (r.recordAfter x.context.state (newestFirst fs (k + 1)))
  rcases hfallback : r.fallback name input (fs k) with e | ⟨next, output⟩
  · refine ⟨y', t₁, ht₁, (run_bind _ _ t).trans ?_⟩
    rw [hrun]
    dsimp only
    rw [hnone]
    dsimp only
    rw [hfallback]
    rfl
  · refine ⟨y', t₁.logEvent [] (.taskCaught name (fs k).error next), ht₁, (run_bind _ _ t).trans ?_⟩
    rw [hrun]
    dsimp only
    rw [hnone]
    dsimp only
    rw [hfallback]
    rfl

/-- While the failures are retried, the visit goes from attempt to attempt. -/
theorem Supplies.run_granted (ht : W 0 t.world) (hy : y.sync = x.afterFailures r fs 0)
    (hgranted : r.Granted fs k) (budget : Nat) :
    ∃ y' t', y'.sync = x.afterFailures r fs k ∧ W k t'.world ∧
      (protocol run transition r name input x.context.state (budget + k) [] y).run runners none t =
        (protocol run transition r name input x.context.state budget (newestFirst fs k) y').run
          runners none t' := by
  induction k generalizing budget with
  | zero => exact ⟨y, t, hy, ht, rfl⟩
  | succ k ih =>
    obtain ⟨y₁, t₁, hy₁, ht₁, hrun⟩ := ih (hgranted.mono k.le_succ) (budget + 1)
    obtain ⟨y', t', hy', ht', hrun'⟩ := h.run_retry ht₁ hy₁ (hgranted k k.lt_succ_self) budget
    refine ⟨y', t', hy', ht', ?_⟩
    rw [← hrun', ← hrun, Nat.add_assoc, Nat.add_comm 1 k]

theorem Supplies.run_stuck (ht : W 0 t.world) {budget : Nat} (hgranted : r.Granted fs budget) :
    ∃ t', W budget t'.world ∧
      (protocol run transition r name input x.context.state budget [] x.sync).run runners none t =
        (.stuck, t') := by
  obtain ⟨y', t', -, ht', hrun⟩ := h.run_granted ht rfl hgranted 0
  rw [Nat.zero_add] at hrun
  exact ⟨t', ht', hrun⟩

theorem Supplies.ends {n : Nat} (hgranted : r.Granted fs n)
    (hnone : r.retryDelay? (newestFirst fs (n + 1)) = none) :
    Ends runners W (fun budget =>
        protocol run transition r name input x.context.state budget [] x.sync)
      n (r.leaving name input (fs n)) where
  goesOn budget hbudget t ht := h.run_stuck ht (hgranted.mono hbudget)
  leaves budget hbudget t ht := by
    obtain ⟨b, rfl⟩ : ∃ b, budget = b + 1 + n := ⟨budget - n - 1, by omega⟩
    obtain ⟨y₁, t₁, hy₁, ht₁, hrun⟩ := h.run_granted ht rfl hgranted (b + 1)
    obtain ⟨y', t', ht', hrun'⟩ := h.run_leave ht₁ hy₁ hnone b
    exact ⟨y', t', ht', hrun.trans hrun'⟩

end

theorem runState_eq_protocol
    (drive : Execution → Process Execution (Execution × Except RuntimeError Document)) (setting : Setting)
    (state : State) (name : String) (input : Document)
    (hrun : state.attempt? drive setting input = some run) :
    ∃ transition, state.transition?.bind Transition.next? = transition.next? ∧
      ∀ budget x, runState drive setting budget name state input x =
        protocol run transition state.recovery name input x.context.state budget [] x.sync := by
  obtain ⟨comment, action⟩ := state
  cases action with
  | task s | map s _ | parallel s _ =>
    cases hrun
    exact ⟨s.transition, rfl, fun budget x => recoverable_start ..⟩
  | pass | choice | wait | succeed | fail => nomatch hrun

/-- A Task, Map or Parallel state whose attempts all fail. If the retriers take over from one another
at most `s` times in the first failures, one of the first `(s + 1) * mostAttempts + 1` attempts is the
last, and its failure is what the visit ends with; if no two retriers can take turns at all, one of the
first `mostAttempts + 1`, whatever the failures. If a retrier takes over with every failure, the visit
never ends. All the time the count of retries takes no more than 32 bits. -/
theorem runState_leaves
    (drive : Execution → Process Execution (Execution × Except RuntimeError Document))
    (setting : Setting) (state : State) (name : String) (input : Document)
    (hrun : state.attempt? drive setting input = some run)
    (hfits : state.recovery.FitsCount) (h : Supplies runners run state.recovery x fs W) :
    let r := state.recovery
    let visit := fun budget => runState drive setting budget name state input x
    (∀ k, r.Granted fs k → x.context.state.retryCount < Nat.pow 2 32 →
      (r.recordAfter x.context.state (newestFirst fs (k + 1))).retryCount < Nat.pow 2 32) ∧
    (∀ s, r.takeOvers (newestFirst fs ((s + 1) * r.mostAttempts + 1)) ≤ s →
      ∃ n ≤ (s + 1) * r.mostAttempts, Ends runners W visit n (r.leaving name input (fs n))) ∧
    ((∀ f g, r.Retries f → r.Retries g → r.position? f = r.position? g) →
      ∃ n ≤ r.mostAttempts, Ends runners W visit n (r.leaving name input (fs n))) ∧
    ((∀ k, r.Retries (fs k) ∧ r.position? (fs (k + 1)) ≠ r.position? (fs k)) →
      ∀ budget (t : Timeline ω), W 0 t.world →
        ∃ t', W budget t'.world ∧ (visit budget).run runners none t = (.stuck, t')) := by
  intro r visit
  obtain ⟨transition, -, hprotocol⟩ := runState_eq_protocol drive setting state name input hrun
  have hvisit : visit = fun budget =>
      protocol run transition r name input x.context.state budget [] x.sync := funext (hprotocol · x)
  rw [hvisit]
  have hends {n : Nat} (hn : ¬ r.Granted fs (n + 1)) :
      ∃ m ≤ n, Ends runners W (fun budget =>
        protocol run transition r name input x.context.state budget [] x.sync) m
          (r.leaving name input (fs m)) := by
    obtain ⟨m, hm, hgranted, hnone⟩ := Recovery.exists_first_of_not_granted hn
    exact ⟨m, Nat.lt_succ_iff.1 hm, h.ends hgranted hnone⟩
  refine ⟨fun k hgranted hrecord => (hgranted.retryCount_le _).trans_lt
      (Nat.max_lt.2 ⟨hrecord, hfits.mostAttempts_lt⟩),
    fun s hs => hends fun hgranted => ?_, fun hsame => hends (Recovery.not_granted_of_same hsame fs),
    fun hchange budget t ht => h.run_stuck ht
      (Recovery.granted_of_alternating (fun k => (hchange k).1) (fun k => (hchange k).2) budget)⟩
  exact absurd (Recovery.le_of_takeOvers hgranted hs) (by omega)

/-! ### Two retriers -/

/-- A task that is tried again once after an exit status and once after a timeout. -/
def flakyTask : TaskState :=
  ⟨"test://a", passAll, .final, ⟨none, none⟩, none,
    ⟨[⟨["States.TaskFailed"], .zero, 1, .zero⟩, ⟨["States.Timeout"], .zero, 1, .zero⟩], []⟩, none, none,
    none⟩

def flaky : State := .mk none (.task flakyTask)

/-- Runners that fail every time. -/
def failingBy (errors : Nat → RunnerError) : Runners Nat := fun n _ => (n + 1, ⟨0, .error (errors n)⟩)

theorem flaky_supplies (errors : Nat → RunnerError) :
    Supplies (failingBy errors) (fun _ => attemptTask testSetting flakyTask .null) flakyTask.recovery
      default (fun k => .ofRunnerError (errors k)) fun k n => n = k := by
  rintro k ⟨clock, _, events, calls⟩ rfl
  exact ⟨_, rfl, rfl⟩

/-- An exit status first, then timeouts only. -/
def statusThenTimeouts (k : Nat) : RunnerError := if k = 0 then .io "a" else .timeout "test://a" 1

theorem runState_leaves_flaky : ∃ n ≤ 2, Ends (failingBy statusThenTimeouts) (fun k n => n = k)
    (fun budget => runState (drive testSetting 1) testSetting budget "flaky" flaky .null default) n
    (flaky.recovery.leaving "flaky" .null (.ofRunnerError (statusThenTimeouts n))) :=
  (runState_leaves (drive testSetting 1) testSetting flaky "flaky" .null rfl (by decide)
    (flaky_supplies statusThenTimeouts)).2.1 1 (by decide)

/-- Exit statuses and timeouts in turn. -/
def statusAndTimeout (k : Nat) : RunnerError := if k % 2 = 0 then .io "a" else .timeout "test://a" 1

/-- With two retriers that take turns there is no last attempt, however many are allowed. -/
theorem runState_stays :
    Supplies (failingBy statusAndTimeout) (fun _ => attemptTask testSetting flakyTask .null)
      flaky.recovery default (fun k => .ofRunnerError (statusAndTimeout k)) (fun k n => n = k) ∧
    ¬ ∃ budget outcome t,
      (runState (drive testSetting 1) testSetting budget "flaky" flaky .null default).run
        (failingBy statusAndTimeout) none (.start 0) = (.finished outcome, t) := by
  refine ⟨flaky_supplies statusAndTimeout, fun ⟨budget, outcome, t, hrun⟩ => ?_⟩
  have hstart : (Timeline.start 0).world = 0 := rfl
  have hretries (k : Nat) : flaky.recovery.Retries (.ofRunnerError (statusAndTimeout k)) := by
    rcases Nat.mod_two_eq_zero_or_one k with hk | hk
    · simp only [statusAndTimeout, hk]; decide
    · simp only [statusAndTimeout, hk]; decide
  have hchange (k : Nat) : flaky.recovery.position? (.ofRunnerError (statusAndTimeout (k + 1))) ≠
      flaky.recovery.position? (.ofRunnerError (statusAndTimeout k)) := by
    rcases Nat.mod_two_eq_zero_or_one k with hk | hk
    · have hk' : (k + 1) % 2 = 1 := by omega
      simp only [statusAndTimeout, hk, hk']; decide
    · have hk' : (k + 1) % 2 = 0 := by omega
      simp only [statusAndTimeout, hk, hk']; decide
  obtain ⟨transition, -, hprotocol⟩ := runState_eq_protocol (drive testSetting 1) testSetting flaky
    "flaky" .null rfl
  obtain ⟨t', -, hstuck⟩ := (flaky_supplies statusAndTimeout).run_stuck hstart
    (Recovery.granted_of_alternating hretries hchange budget)
  rw [hprotocol budget] at hrun
  nomatch hstuck.symm.trans hrun

end Execution

end StepFlow
