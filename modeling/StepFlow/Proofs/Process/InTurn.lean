import StepFlow.Proofs.Process.Exchanges
import StepFlow.Proofs.Process.Sim

/-!
# Gathering in order is running one after the other

`inTurn` runs processes one after the other up to the first failure. Under the discipline `inOrder`,
and for at most one process under any, what `gather` gives is what `inTurn` gives with the same answers:
each process gets those that it got among the others (`Yields.of_gather`). `TakenInTurn` says what the
results of the single processes add up to.
-/

namespace StepFlow

variable {σ α ε β : Type}

namespace Process

/-- The process at a place among the nested executions. -/
def inside (b : Branch) : Process σ α → Process σ α
  | done a => done a
  | stuck => stuck
  | emit site event rest => emit (b :: site) event fun u => inside b (rest u)
  | call site request rest => call (b :: site) request fun answer => inside b (rest answer)
  | pause seen span rest => pause seen span fun u => inside b (rest u)

/-- Runs processes, numbered from `i` on, one after the other; the first failure is that of all. -/
def inTurn (attempt : Nat) : (i : Nat) → List (Process σ (Except ε β)) → Process σ (Except ε (List β))
  | _, [] => done (.ok [])
  | i, p :: ps => do
    match ← p.inside ⟨attempt, i⟩ with
    | .error e => return .error e
    | .ok b =>
      match ← inTurn attempt (i + 1) ps with
      | .error e => return .error e
      | .ok bs => return .ok (b :: bs)

end Process

open Process

/-- What is left of the slot's process. -/
def Slot.rest : Slot σ ε β → Process σ (Except ε β)
  | ready p => p
  | asleep _ p => p
  | ended result => .done result

theorem Slot.Sim.rest {S : Prop} {Q : Request → Request → Prop} {s s' : Slot σ ε β}
    (h : Slot.Sim S Q s s') : s.rest.Sim S Q s'.rest := by
  cases h with
  | ready h => exact h
  | asleep left h => exact h
  | ended result => exact .done result

theorem map_rest_advance (span : Nat) (slots : List (Slot σ ε β)) :
    (advanceAll span slots).map Slot.rest = slots.map Slot.rest := by
  rw [advanceAll, List.map_map]
  refine List.map_congr_left fun s _ => ?_
  cases s with
  | asleep left p =>
    simp only [Function.comp_apply, Slot.advance]
    split <;> rfl
  | ready | ended => rfl

/-- What results add up to when they are taken one after the other up to the first failure: `P i p r`
says that `p`, the process number `i`, has the result `r`. -/
inductive TakenInTurn (P : Nat → Process σ (Except ε β) → Except ε β → Prop) :
    Nat → List (Process σ (Except ε β)) → Except ε (List β) → Prop where
  | nil (i : Nat) : TakenInTurn P i [] (.ok [])
  | error {i : Nat} {p : Process σ (Except ε β)} {ps : List (Process σ (Except ε β))} {e : ε}
      (h : P i p (.error e)) : TakenInTurn P i (p :: ps) (.error e)
  | ok {i : Nat} {p : Process σ (Except ε β)} {ps : List (Process σ (Except ε β))} {b : β}
      {r : Except ε (List β)} (h : P i p (.ok b)) (hr : TakenInTurn P (i + 1) ps r) :
      TakenInTurn P i (p :: ps) (r.map (b :: ·))

namespace TakenInTurn

variable {P Q : Nat → Process σ (Except ε β) → Except ε β → Prop} {i : Nat}
  {p q : Process σ (Except ε β)} {ps before after : List (Process σ (Except ε β))}
  {r r' : Except ε (List β)}

theorem mono (h : TakenInTurn P i ps r) (hPQ : ∀ j, i ≤ j → ∀ p r, P j p r → Q j p r) :
    TakenInTurn Q i ps r := by
  induction h with
  | nil i => exact .nil i
  | @error i _ _ _ h => exact .error (hPQ i (Nat.le_refl i) _ _ h)
  | @ok i _ _ _ _ h _ ih =>
    exact .ok (hPQ i (Nat.le_refl i) _ _ h) (ih fun j hj => hPQ j (Nat.le_of_succ_le hj))

/-- One process is replaced: of the others, `Q` says what `P` says. -/
theorem replace (h : TakenInTurn P i (before ++ q :: after) r)
    (hothers : ∀ j, j ≠ i + before.length → ∀ p r, P j p r → Q j p r)
    (hmiddle : ∀ r, P (i + before.length) q r → Q (i + before.length) p r) :
    TakenInTurn Q i (before ++ p :: after) r := by
  induction before generalizing i r with
  | nil =>
    have hlater : ∀ j, i + 1 ≤ j → ∀ p r, P j p r → Q j p r :=
      fun j hj => hothers j (by simp only [List.length_nil]; omega)
    cases h with
    | error h => exact .error (hmiddle _ h)
    | ok h hr => exact .ok (hmiddle _ h) (hr.mono hlater)
  | cons p' before ih =>
    have hlength : i + (p' :: before).length = i + 1 + before.length := by
      simp only [List.length_cons]; omega
    rw [hlength] at hothers hmiddle
    have hfirst := hothers i (by omega) p'
    cases h with
    | error h => exact .error (hfirst _ h)
    | ok h hr => exact .ok (hfirst _ h) (ih hr hothers hmiddle)

end TakenInTurn

/-! ### Gathered -/

theorem failure?_eq_nextFailure? {slots : List (Slot σ ε β)} (h : slots.length ≤ 1) :
    failure? slots = nextFailure? slots := by
  match slots, h with
  | [], _ => rfl
  | [.ready _], _ => rfl
  | [.asleep ..], _ => rfl
  | [.ended (.ok _)], _ => rfl
  | [.ended (.error _)], _ => rfl

/-- A single process is always gathered in order. -/
theorem Discipline.verdict_eq_inOrder {d : Discipline} {slots : List (Slot σ ε β)}
    (h : d = .firstFailure → slots.length ≤ 1) (limit : Nat) :
    d.verdict slots = (inOrder limit).verdict slots := by
  cases d with
  | firstFailure => simp only [verdict, failure?_eq_nextFailure? (h rfl)]
  | inOrder => rfl

section
variable {P : Nat → Process σ (Except ε β) → Except ε β → Prop} (hP : ∀ i r, P i (.done r) r)
include hP

theorem takenInTurn_of_nextFailure? {slots : List (Slot σ ε β)} {e : ε} (h : nextFailure? slots = some e)
    (i : Nat) : TakenInTurn P i (slots.map Slot.rest) (.error e) := by
  fun_induction nextFailure? slots generalizing i with
  | case1 b rest ih => exact .ok (hP i (.ok b)) (ih h (i + 1))
  | case2 e' rest =>
    cases h
    exact .error (hP i (.error e))
  | case3 => cases h

theorem takenInTurn_of_taken {slots : List (Slot σ ε β)} (h : (taken slots).length = slots.length)
    (i : Nat) : TakenInTurn P i (slots.map Slot.rest) (.ok (taken slots)) := by
  fun_induction taken slots generalizing i with
  | case1 b rest ih =>
    simp only [List.length_cons, Nat.add_right_cancel_iff] at h
    exact .ok (hP i (.ok b)) (ih h (i + 1))
  | case2 slots =>
    rw [List.length_nil, eq_comm, List.length_eq_zero_iff] at h
    subst h
    exact .nil i

theorem takenInTurn_of_verdict {limit : Nat} {slots : List (Slot σ ε β)} {r : Except ε (List β)}
    (h : (Discipline.inOrder limit).verdict slots = some r) :
    TakenInTurn P 0 (slots.map Slot.rest) r := by
  rcases verdict_cases h with ⟨hd, -⟩ | ⟨-, e, he, rfl⟩ | ⟨htaken, rfl⟩
  · cases hd
  · exact takenInTurn_of_nextFailure? hP he 0
  · exact takenInTurn_of_taken hP htaken 0

end

/-- The exchanges of one of the nested executions. -/
def ofBranch (b : Branch) (log : List Exchange) : List Exchange :=
  log.filter fun e => e.site.head? = some b

theorem ofBranch_cons_self (b : Branch) (site : Site) (request : Request) (answer : Answer)
    (log : List Exchange) :
    ofBranch b (⟨b :: site, request, answer⟩ :: log) = ⟨b :: site, request, answer⟩ :: ofBranch b log := by
  simp [ofBranch]

theorem ofBranch_cons_of_ne {b b' : Branch} (h : b' ≠ b) (site : Site) (request : Request)
    (answer : Answer) (log : List Exchange) :
    ofBranch b (⟨b' :: site, request, answer⟩ :: log) = ofBranch b log := by
  simp [ofBranch, h]

theorem Process.Allowed.ofBranches {A : Request → Answer → Prop} {log : List Exchange} (h : Allowed A log)
    {attempt : Nat} {is : List Nat} : Allowed A (is.flatMap fun i => ofBranch ⟨attempt, i⟩ log) := by
  intro e he
  obtain ⟨i, -, he⟩ := List.mem_flatMap.1 he
  exact h e (List.mem_filter.1 he).1

/-- What the processes, each with its part of the exchanges, add up to. -/
def partsInTurn (attempt : Nat) (log : List Exchange) (i : Nat) (p : Process σ (Except ε β))
    (r : Except ε β) : Prop :=
  (p.inside ⟨attempt, i⟩).Yields (ofBranch ⟨attempt, i⟩ log) r

theorem Process.Yields.of_gather {seen : σ} {attempt : Nat} {d : Discipline} {slots : List (Slot σ ε β)}
    {log : List Exchange} {r : Except ε (List β)} (hd : d = .firstFailure → slots.length ≤ 1)
    (h : (gather seen attempt d slots).Yields log r) :
    TakenInTurn (partsInTurn attempt log) 0 (slots.map Slot.rest) r := by
  revert log
  fun_induction gather seen attempt d slots with
  | case1 slots result hverdict =>
    intro log h
    cases h
    rw [Discipline.verdict_eq_inOrder hd 0] at hverdict
    exact takenInTurn_of_verdict (fun _ r => Yields.done r) hverdict
  | case2 slots hverdict before after result hready _ ih =>
    intro log h
    obtain rfl := firstReady_eq hready
    have hlater := ih (by simpa using hd) h
    rw [List.map_append, List.map_cons] at hlater ⊢
    exact hlater
  | case3 =>
    intro log h
    cases h
  | case4 slots hverdict before after inside site event rest hready _ ih =>
    intro log h
    obtain rfl := firstReady_eq hready
    cases h with
    | emit h =>
      have hlater := ih (by simpa using hd) h
      rw [List.map_append, List.map_cons] at hlater ⊢
      exact hlater.replace (fun _ _ _ _ h => h) fun r h => .emit h
  | case5 slots hverdict before after inside site request rest hready _ ih =>
    intro log h
    obtain rfl := firstReady_eq hready
    cases h with
    | @call _ _ _ log _ answer h =>
      have hlater := ih answer (by simpa using hd) h
      have hlength : 0 + (before.map Slot.rest).length = before.length := by simp
      rw [List.map_append, List.map_cons] at hlater ⊢
      refine hlater.replace (fun j hj p r h => ?_) fun r h => ?_
      · have hbranch : (⟨attempt, before.length⟩ : Branch) ≠ ⟨attempt, j⟩ := by
          rw [hlength] at hj
          exact fun heq => hj (congrArg Branch.index heq).symm
        rw [partsInTurn, ofBranch_cons_of_ne hbranch]
        exact h
      · rw [hlength, partsInTurn] at h ⊢
        rw [ofBranch_cons_self]
        exact .call answer h
  | case6 slots hverdict before after seen' span rest hready _ ih =>
    intro log h
    obtain rfl := firstReady_eq hready
    have hlater := ih (by simpa using hd) h
    rw [List.map_append, List.map_cons] at hlater ⊢
    exact hlater.replace (fun _ _ _ _ h => h) fun r h => .pause h
  | case7 slots hverdict hready span hwaking ih =>
    intro log h
    cases h with
    | pause h =>
      have hlater := ih (by simpa [advanceAll] using hd) h
      rw [map_rest_advance] at hlater
      exact hlater
  | case8 =>
    intro log h
    cases h

/-- What results add up to, the processes run one after the other give for the same answers: those of
the first `k` processes, each with its own. -/
theorem TakenInTurn.yields {attempt i : Nat} {log : List Exchange}
    {ps : List (Process σ (Except ε β))} {r : Except ε (List β)}
    (h : TakenInTurn (partsInTurn attempt log) i ps r) :
    ∃ k, (inTurn attempt i ps).Yields ((List.range' i k).flatMap fun j => ofBranch ⟨attempt, j⟩ log) r := by
  induction h with
  | nil i => exact ⟨0, .done _⟩
  | @error i p ps e h =>
    refine ⟨1, ?_⟩
    rw [List.range'_one, List.flatMap_singleton, ← List.append_nil (ofBranch _ log)]
    exact Yields.bind h (.done _)
  | @ok i p ps b r h _ ih =>
    obtain ⟨k, ih⟩ := ih
    refine ⟨k + 1, ?_⟩
    rw [List.range'_succ, List.flatMap_cons, ← List.append_nil (List.flatMap _ _)]
    refine Yields.bind h (Yields.bind ih ?_)
    cases r <;> exact .done _

namespace Process

variable {A : Request → Answer → Prop}

/-! ### Coming to an end -/

theorem Halts.inside {p : Process σ α} (h : p.Halts A) (b : Branch) : (p.inside b).Halts A := by
  induction p with
  | done a => trivial
  | stuck => exact h
  | emit site event rest ih => exact ih () h
  | call site request rest ih => exact fun answer hanswer => ih answer (h answer hanswer)
  | pause seen span rest ih => exact ih () h

theorem Halts.inTurn {attempt i : Nat} {ps : List (Process σ (Except ε β))} (h : ∀ p ∈ ps, p.Halts A) :
    (Process.inTurn attempt i ps).Halts A := by
  induction ps generalizing i with
  | nil => trivial
  | cons p ps ih =>
    obtain ⟨hp, hps⟩ := List.forall_mem_cons.1 h
    refine (hp.inside _).bind fun r => ?_
    cases r with
    | error e => trivial
    | ok b =>
      refine (ih hps).bind fun r => ?_
      cases r <;> trivial

theorem Halts.gather {seen : σ} {attempt : Nat} {d : Discipline} {slots : List (Slot σ ε β)}
    (hd : ∀ limit, d = .inOrder limit → 0 < limit) (h : ∀ s ∈ slots, s.rest.Halts A) :
    (StepFlow.gather seen attempt d slots).Halts A := by
  have replace {before after : List (Slot σ ε β)} {s s' : Slot σ ε β}
      (h : ∀ u ∈ before ++ s :: after, u.rest.Halts A) (hs' : s.rest.Halts A → s'.rest.Halts A) :
      ∀ u ∈ before ++ s' :: after, u.rest.Halts A := by
    rw [List.forall_mem_append, List.forall_mem_cons] at h ⊢
    exact ⟨h.1, hs' h.2.1, h.2.2⟩
  fun_induction StepFlow.gather seen attempt d slots with
  | case1 => trivial
  | case2 slots hverdict before after result hready _ ih =>
    obtain rfl := firstReady_eq hready
    exact ih (replace h fun _ => trivial)
  | case3 slots hverdict before after hready =>
    obtain rfl := firstReady_eq hready
    exact h (.ready .stuck) (by simp)
  | case4 slots hverdict before after inside site event rest hready _ ih =>
    obtain rfl := firstReady_eq hready
    exact ih (replace h id)
  | case5 slots hverdict before after inside site request rest hready _ ih =>
    obtain rfl := firstReady_eq hready
    exact fun answer hanswer => ih answer (replace h fun h => h answer hanswer)
  | case6 slots hverdict before after seen' span rest hready _ ih =>
    obtain rfl := firstReady_eq hready
    exact ih (replace h id)
  | case7 slots hverdict hready span hwaking ih =>
    refine ih fun u hu => ?_
    have hrest := List.mem_map_of_mem (f := Slot.rest) hu
    rw [map_rest_advance, List.mem_map] at hrest
    obtain ⟨s, hs, heq⟩ := hrest
    exact heq ▸ h s hs
  | case8 slots hverdict hready hwaking =>
    exact verdict_of_idle hd hready hwaking hverdict

/-- A process goes on to its end where one does that it follows. -/
theorem Halts.of_sim {S : Prop} {p q : Process σ α} (h : p.Halts A) (hsim : p.Sim S Eq q) : q.Halts A := by
  induction hsim with
  | done a => trivial
  | stuck => exact h
  | further => exact h.elim
  | emit _ ih => exact ih h
  | call hrequest _ ih => exact fun answer hanswer => ih answer (h answer (hrequest ▸ hanswer))
  | pause _ ih => exact ih h

/-! ### Coming to one end -/

theorem Yields.of_inside {p : Process σ α} {b : Branch} {log : List Exchange} {a : α}
    (h : (p.inside b).Yields log a) :
    ∃ log', p.Yields log' a ∧ log = log'.map fun e => { e with site := b :: e.site } := by
  induction p generalizing log with
  | done a' =>
    cases h
    exact ⟨[], .done _, rfl⟩
  | stuck => cases h
  | emit site event rest ih =>
    cases h with
    | emit h =>
      obtain ⟨log', h', rfl⟩ := ih () h
      exact ⟨log', .emit h', rfl⟩
  | call site request rest ih =>
    cases h with
    | call answer h =>
      obtain ⟨log', h', rfl⟩ := ih answer h
      exact ⟨_, .call answer h', rfl⟩
  | pause seen span rest ih =>
    cases h with
    | pause h =>
      obtain ⟨log', h', rfl⟩ := ih () h
      exact ⟨log', .pause h', rfl⟩

namespace Determinate

theorem inside {p : Process σ α} (h : p.Determinate A) (b : Branch) : (p.inside b).Determinate A := by
  intro log log' a a' ha ha' hlog hlog'
  obtain ⟨_, hp, rfl⟩ := ha.of_inside
  obtain ⟨_, hp', rfl⟩ := ha'.of_inside
  rw [Allowed, List.forall_mem_map] at hlog hlog'
  exact h _ _ _ _ hp hp' hlog hlog'

theorem inTurn {attempt i : Nat} {ps : List (Process σ (Except ε β))} (h : ∀ p ∈ ps, p.Determinate A) :
    (Process.inTurn attempt i ps).Determinate A := by
  induction ps generalizing i with
  | nil => exact done _
  | cons p ps ih =>
    obtain ⟨hp, hps⟩ := List.forall_mem_cons.1 h
    refine (hp.inside _).bind fun r => ?_
    cases r with
    | error e => exact done _
    | ok b =>
      refine (ih hps).bind fun r => ?_
      cases r <;> exact done _

theorem gather {seen : σ} {attempt : Nat} {d : Discipline} {slots : List (Slot σ ε β)}
    (hd : d = .firstFailure → slots.length ≤ 1) (h : ∀ s ∈ slots, s.rest.Determinate A) :
    (StepFlow.gather seen attempt d slots).Determinate A := by
  intro log log' r r' hr hr' hlog hlog'
  obtain ⟨k, hk⟩ := (hr.of_gather hd).yields
  obtain ⟨k', hk'⟩ := (hr'.of_gather hd).yields
  exact inTurn (List.forall_mem_map.2 h) _ _ _ _ hk hk' hlog.ofBranches hlog'.ofBranches

end Determinate

/-! ### Similar processes -/

theorem Sim.inside {S : Prop} {Q : Request → Request → Prop} {p q : Process σ α} (h : p.Sim S Q q)
    (b : Branch) : (p.inside b).Sim S Q (q.inside b) := by
  induction h with
  | done a => exact .done a
  | stuck => exact .stuck
  | further h q => exact .further h _
  | emit _ ih => exact .emit ih
  | call hrequest _ ih => exact .call hrequest ih
  | pause _ ih => exact .pause ih

theorem Sim.inTurn {S : Prop} {Q : Request → Request → Prop} {attempt i : Nat}
    {slots slots' : List (Slot σ ε β)} (h : Slots.Sim S Q slots slots') :
    (Process.inTurn attempt i (slots.map Slot.rest)).Sim S Q
      (Process.inTurn attempt i (slots'.map Slot.rest)) := by
  induction h generalizing i with
  | nil => exact .done _
  | cons hs _ ih =>
    have hrest := fun b => Sim.inside (Slot.Sim.rest hs) b
    refine (hrest _).bind fun r => ?_
    cases r with
    | error e => exact .done _
    | ok b =>
      refine ih.bind fun r => ?_
      cases r <;> exact .done _

end Process

end StepFlow
