import StepFlow.Process

/-!
# Gathering

`gather` runs several processes as one. At every instant the first process that is not asleep goes on
until it sleeps or ends; when all sleep, so does the whole, until the first of them wakes.

Two disciplines decide when the whole ends. Under `firstFailure` all processes run at once and the
first failure ends the whole. Under `inOrder` a limited number runs at a time, and results are taken
strictly in the order of the processes: a result, be it a failure, counts only when all before it have
been taken, and a process starts when a place becomes free by taking a result.
-/

namespace StepFlow

/-- How processes run together. -/
inductive Discipline where
  | firstFailure
  /-- Results are taken in order, from at most `limit` processes under way. -/
  | inOrder (limit : Nat)
  deriving DecidableEq, Repr, Inhabited

/-- How far one of the processes has come. -/
inductive Slot (σ ε β : Type) where
  | ready (p : Process σ (Except ε β))
  | asleep (left : Nat) (p : Process σ (Except ε β))
  | ended (result : Except ε β)

namespace Slot

variable {σ ε β : Type}

def process? : Slot σ ε β → Option (Process σ (Except ε β))
  | ready p => some p
  | asleep _ p => some p
  | ended _ => none

/-- The slot after some time has passed. -/
def advance (span : Nat) : Slot σ ε β → Slot σ ε β
  | asleep left p => if left ≤ span then ready p else asleep (left - span) p
  | s => s

end Slot

section
variable {σ ε β : Type}

/-- The first failure among the results. -/
def failure? : List (Slot σ ε β) → Option ε
  | [] => none
  | .ended (.error e) :: _ => some e
  | _ :: rest => failure? rest

/-- The results from the front on that are there. -/
def taken : List (Slot σ ε β) → List β
  | .ended (.ok b) :: rest => b :: taken rest
  | _ => []

/-- The failure that comes next when results are taken from the front on. -/
def nextFailure? : List (Slot σ ε β) → Option ε
  | .ended (.ok _) :: rest => nextFailure? rest
  | .ended (.error e) :: _ => some e
  | _ => none

namespace Discipline

/-- The result of the whole, once it is certain. -/
def verdict (d : Discipline) (slots : List (Slot σ ε β)) : Option (Except ε (List β)) :=
  let failure := match d with
    | firstFailure => failure? slots
    | inOrder _ => nextFailure? slots
  match failure with
  | some e => some (.error e)
  | none => if (taken slots).length = slots.length then some (.ok (taken slots)) else none

/-- The number of processes, from the front on, that have been started. -/
def started (d : Discipline) (slots : List (Slot σ ε β)) : Nat :=
  match d with
  | firstFailure => slots.length
  | inOrder limit => (taken slots).length + limit

end Discipline

/-- The first process among `n` that is ready, with the slots before and after it. -/
def firstReady (n : Nat) (slots : List (Slot σ ε β)) :
    Option (List (Slot σ ε β) × Process σ (Except ε β) × List (Slot σ ε β)) :=
  match n, slots with
  | 0, _ => none
  | _, [] => none
  | _, .ready p :: rest => some ([], p, rest)
  | n + 1, s :: rest => (firstReady n rest).map fun (before, p, after) => (s :: before, p, after)

/-- The least time until a process wakes. -/
def nextWaking : List (Slot σ ε β) → Option Nat
  | [] => none
  | .asleep left _ :: rest =>
    match nextWaking rest with
    | some other => some (min left other)
    | none => some left
  | _ :: rest => nextWaking rest

/-- The slots after some time has passed. -/
def advanceAll (span : Nat) (slots : List (Slot σ ε β)) : List (Slot σ ε β) :=
  slots.map (Slot.advance span)

/-! ### Termination

Every turn takes one process a step further, ends it, or wakes one. -/

/-- A process less far than another: further on, or at its end. -/
inductive Further : Option (Process σ (Except ε β)) → Option (Process σ (Except ε β)) → Prop where
  | ended (p) : Further none (some p)
  | step {q p} : Process.After q p → Further (some q) (some p)

/-- One entry of a list goes further and the others stay. -/
inductive OneFurther {α : Type} (r : α → α → Prop) : List α → List α → Prop where
  | mk (before : List α) {x y : α} (after : List α) (h : r y x) :
      OneFurther r (before ++ y :: after) (before ++ x :: after)

theorem acc_further_none : Acc (Further (σ := σ) (ε := ε) (β := β)) none :=
  ⟨_, fun _ h => nomatch h⟩

theorem further_wf : WellFounded (Further (σ := σ) (ε := ε) (β := β)) := by
  constructor
  intro s
  cases s with
  | none => exact acc_further_none
  | some p =>
    induction p using Process.after_wf.induction with
    | _ p ih =>
      refine ⟨_, fun t h => ?_⟩
      cases h with
      | ended => exact acc_further_none
      | step h => exact ih _ h

theorem acc_oneFurther_cons {α : Type} {r : α → α → Prop} {x : α} (hx : Acc r x) :
    ∀ {l : List α}, Acc (OneFurther r) l → Acc (OneFurther r) (x :: l) := by
  induction hx with
  | intro x hx ihx =>
    intro l hl
    induction hl with
    | intro l hl ihl =>
      refine ⟨_, fun t h => ?_⟩
      generalize hs : x :: l = s at h
      cases h with
      | mk before after h =>
        cases before with
        | nil =>
          obtain ⟨rfl, rfl⟩ := List.cons.inj hs
          exact ihx _ h ⟨_, hl⟩
        | cons b before =>
          obtain ⟨rfl, rfl⟩ := List.cons.inj hs
          exact ihl _ ⟨before, after, h⟩

theorem oneFurther_wf {α : Type} {r : α → α → Prop} (h : WellFounded r) :
    WellFounded (OneFurther r) := by
  constructor
  intro l
  induction l with
  | nil =>
    refine ⟨_, fun t h => ?_⟩
    generalize hs : ([] : List α) = s at h
    cases h with
    | mk before after h => cases before <;> cases hs
  | cons x l ih => exact acc_oneFurther_cons (h.apply x) ih

/-- The processes of the slots. -/
def processes (slots : List (Slot σ ε β)) : List (Option (Process σ (Except ε β))) :=
  slots.map Slot.process?

/-- The number of processes that are asleep. -/
def sleepers : List (Slot σ ε β) → Nat
  | [] => 0
  | .asleep .. :: rest => sleepers rest + 1
  | _ :: rest => sleepers rest

theorem firstReady_eq {n : Nat} {slots before after : List (Slot σ ε β)}
    {p : Process σ (Except ε β)} (h : firstReady n slots = some (before, p, after)) :
    slots = before ++ .ready p :: after := by
  fun_induction firstReady n slots generalizing before with
  | case1 | case2 => simp at h
  | case3 =>
    simp only [Option.some.injEq, Prod.mk.injEq] at h
    obtain ⟨rfl, rfl, rfl⟩ := h
    rfl
  | case4 n s rest _ ih =>
    obtain ⟨⟨b, q, a⟩, hq, he⟩ := Option.map_eq_some_iff.1 h
    simp only [Prod.mk.injEq] at he
    obtain ⟨rfl, rfl, rfl⟩ := he
    simp [← ih hq]

theorem process?_advance (span : Nat) (s : Slot σ ε β) :
    (s.advance span).process? = s.process? := by
  cases s with
  | asleep left p =>
    simp only [Slot.advance]
    split <;> rfl
  | ready | ended => rfl

theorem processes_advance (span : Nat) (slots : List (Slot σ ε β)) :
    processes (advanceAll span slots) = processes slots := by
  simp [processes, advanceAll, process?_advance]

theorem sleepers_advance_le (span : Nat) (slots : List (Slot σ ε β)) :
    sleepers (advanceAll span slots) ≤ sleepers slots := by
  induction slots with
  | nil => simp [advanceAll, sleepers]
  | cons s rest ih =>
    simp only [advanceAll, List.map_cons] at ih ⊢
    cases s with
    | asleep left p =>
      simp only [Slot.advance]
      split <;> simp only [sleepers] <;> omega
    | ready | ended => simpa [Slot.advance, sleepers] using ih

theorem sleepers_advance_lt {span : Nat} {slots : List (Slot σ ε β)}
    (h : nextWaking slots = some span) :
    sleepers (advanceAll span slots) < sleepers slots := by
  induction slots generalizing span with
  | nil => simp [nextWaking] at h
  | cons s rest ih =>
    cases s with
    | asleep left p =>
      have hle := sleepers_advance_le span rest
      simp only [nextWaking] at h
      simp only [advanceAll, List.map_cons, Slot.advance] at ih hle ⊢
      split
      · simp only [sleepers]; omega
      · rename_i hleft
        simp only [sleepers]
        split at h
        · rename_i other hother
          have := ih hother
          have hspan : other = span := by
            simp only [Option.some.injEq] at h
            omega
          rw [hspan] at this
          omega
        · simp only [Option.some.injEq] at h
          omega
    | ready | ended =>
      simpa [advanceAll, Slot.advance, sleepers] using ih (by simpa [nextWaking] using h)

/-- The order in which slots come further. -/
instance slotsOrder : WellFoundedRelation (List (Slot σ ε β)) :=
  invImage (fun slots => (processes slots, sleepers slots))
    ⟨Prod.Lex (OneFurther Further) (· < ·),
      (Prod.lex ⟨_, oneFurther_wf further_wf⟩ ⟨_, Nat.lt_wfRel.wf⟩).wf⟩

theorem slotsOrder_step {slots before after : List (Slot σ ε β)} {p : Process σ (Except ε β)}
    {s : Slot σ ε β} {n : Nat} (h : firstReady n slots = some (before, p, after))
    (hs : Further s.process? (some p)) :
    slotsOrder.rel (before ++ s :: after) slots := by
  rw [firstReady_eq h]
  apply Prod.Lex.left
  simp only [processes, List.map_append, List.map_cons]
  exact OneFurther.mk _ _ hs

theorem slotsOrder_advance {span : Nat} {slots : List (Slot σ ε β)}
    (h : nextWaking slots = some span) :
    slotsOrder.rel (advanceAll span slots) slots := by
  show Prod.Lex _ _ (processes _, sleepers _) (processes _, sleepers _)
  rw [processes_advance]
  exact Prod.Lex.right _ (sleepers_advance_lt h)

/-! ### Running together -/

/-- The processes of the slots as one. Meanwhile `seen` is all that can be seen, and what comes from
the process number `i` is marked as coming from branch `i` of this attempt. -/
def gather (seen : σ) (attempt : Nat) (d : Discipline) (slots : List (Slot σ ε β)) :
    Process σ (Except ε (List β)) :=
  match d.verdict slots with
  | some result => .done result
  | none =>
    match _h : firstReady (d.started slots) slots with
    | some (before, p, after) =>
      let inside (site : Site) : Site := ⟨attempt, before.length⟩ :: site
      match p with
      | .done result => gather seen attempt d (before ++ .ended result :: after)
      | .stuck => .stuck
      | .emit site event rest =>
        .emit (inside site) event fun _ =>
          gather seen attempt d (before ++ .ready (rest ()) :: after)
      | .call site request rest =>
        .call (inside site) request fun answer =>
          gather seen attempt d (before ++ .ready (rest answer) :: after)
      | .pause _ span rest => gather seen attempt d (before ++ .asleep span (rest ()) :: after)
    | none =>
      match _hw : nextWaking slots with
      | some span =>
        .pause seen span fun _ => gather seen attempt d (advanceAll span slots)
      | none => .stuck
termination_by slots
decreasing_by
  · exact slotsOrder_step _h (.ended _)
  · exact slotsOrder_step _h (.step (.emit ..))
  · exact slotsOrder_step _h (.step (.call ..))
  · exact slotsOrder_step _h (.step (.pause ..))
  · exact slotsOrder_advance _hw

end

end StepFlow
