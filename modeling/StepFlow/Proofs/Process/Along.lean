import StepFlow.Proofs.Process.Gather
import StepFlow.Process.Timeline

/-!
# Processes along functions

`p.along g h` does what `p` does, with `g` of what is seen and `h` of what `p` ends with. What is put
together or gathered from such processes is again one of them, and runs go along: they happen on the
same timeline (`run_along`).
-/

namespace StepFlow

variable {ω σ τ α β γ δ ε : Type}

namespace Process

def along (g : σ → τ) (h : α → β) : Process σ α → Process τ β
  | done a => done (h a)
  | stuck => stuck
  | emit site event rest => emit site event fun u => along g h (rest u)
  | call site request rest => call site request fun answer => along g h (rest answer)
  | pause seen span rest => pause (g seen) span fun u => along g h (rest u)

variable {g : σ → τ} {h : α → β} {k : γ → δ}

/-! ### Processes put together -/

theorem along_bind {f : α → Process σ γ} {f' : β → Process τ δ} (hf : ∀ a, f' (h a) = (f a).along g k)
    (p : Process σ α) : bind f' (p.along g h) = (bind f p).along g k := by
  induction p with
  | done a => exact hf a
  | stuck => rfl
  | emit site event rest ih => simp only [along, bind, ih]
  | call site request rest ih => simp only [along, bind, ih]
  | pause seen span rest ih => simp only [along, bind, ih]

theorem along_sleep (g : σ → τ) (seen : σ) (span : Duration) :
    sleep (g seen) span = (sleep seen span).along g id := by
  unfold sleep
  split <;> rfl

theorem along_ask (g : σ → τ) (seen : σ) (request : Request) :
    ask (g seen) request = (ask seen request).along g id := by
  simp only [ask, along]
  congr 1
  funext answer
  rw [along_sleep g]
  refine along_bind ?_ _
  exact fun _ => rfl

theorem bind_tell_along {event : Event} {rest : Unit → Process σ γ} {rest' : Unit → Process τ δ}
    (hrest : rest' () = (rest ()).along g k) :
    bind rest' (tell event) = (bind rest (tell event)).along g k :=
  congrArg (emit [] event) (funext fun _ => hrest)

theorem bind_sleep_along {seen : σ} {span : Duration} {rest : Unit → Process σ γ}
    {rest' : Unit → Process τ δ} (hrest : rest' () = (rest ()).along g k) :
    bind rest' (sleep (g seen) span) = (bind rest (sleep seen span)).along g k := by
  rw [along_sleep g]
  exact along_bind (fun _ => hrest) _

end Process

/-! ### Gathered processes -/

/-- The slot, with `g` of what its process lets see. -/
def Slot.along (g : σ → τ) : Slot σ ε β → Slot τ ε β
  | ready p => ready (p.along g id)
  | asleep left p => asleep left (p.along g id)
  | ended result => ended result

section
variable (g : σ → τ) (slots : List (Slot σ ε β))

theorem failure?_along : failure? (slots.map (Slot.along g)) = failure? slots := by
  induction slots with
  | nil => rfl
  | cons s rest ih =>
    cases s with
    | ready | asleep => exact ih
    | ended result =>
      cases result with
      | ok b => exact ih
      | error e => rfl

theorem taken_along : taken (slots.map (Slot.along g)) = taken slots := by
  induction slots with
  | nil => rfl
  | cons s rest ih =>
    cases s with
    | ready | asleep => rfl
    | ended result =>
      cases result with
      | ok b => exact congrArg (b :: ·) ih
      | error e => rfl

theorem nextFailure?_along : nextFailure? (slots.map (Slot.along g)) = nextFailure? slots := by
  induction slots with
  | nil => rfl
  | cons s rest ih =>
    cases s with
    | ready | asleep => rfl
    | ended result =>
      cases result with
      | ok b => exact ih
      | error e => rfl

theorem nextWaking_along : nextWaking (slots.map (Slot.along g)) = nextWaking slots := by
  induction slots with
  | nil => rfl
  | cons s rest ih => cases s <;> simp only [List.map_cons, Slot.along, nextWaking, ih]

theorem verdict_along (d : Discipline) : d.verdict (slots.map (Slot.along g)) = d.verdict slots := by
  simp only [Discipline.verdict, failure?_along, nextFailure?_along, taken_along, List.length_map]

theorem started_along (d : Discipline) : d.started (slots.map (Slot.along g)) = d.started slots := by
  simp only [Discipline.started, taken_along, List.length_map]

theorem advanceAll_along (span : Nat) :
    advanceAll span (slots.map (Slot.along g)) = (advanceAll span slots).map (Slot.along g) := by
  simp only [advanceAll, List.map_map]
  refine List.map_congr_left fun s _ => ?_
  cases s with
  | asleep left p =>
    simp only [Function.comp, Slot.along, Slot.advance]
    split <;> rfl
  | ready | ended => rfl

theorem firstReady_along (n : Nat) :
    firstReady n (slots.map (Slot.along g)) =
      (firstReady n slots).map fun (before, p, after) =>
        (before.map (Slot.along g), p.along g id, after.map (Slot.along g)) := by
  induction slots generalizing n with
  | nil => cases n <;> rfl
  | cons s rest ih =>
    cases n with
    | zero => rfl
    | succ n =>
      cases s with
      | ready p => rfl
      | asleep | ended => simp only [List.map_cons, Slot.along, firstReady, ih, Option.map_map]; rfl

variable {slots} in
theorem ready_along {d : Discipline} {before after : List (Slot σ ε β)} {p : Process σ (Except ε β)}
    (hready : firstReady (d.started slots) slots = some (before, p, after)) :
    firstReady (d.started (slots.map (Slot.along g))) (slots.map (Slot.along g)) =
      some (before.map (Slot.along g), p.along g id, after.map (Slot.along g)) := by
  rw [started_along, firstReady_along, hready]
  rfl

/-- What gathered processes let see is not seen of the whole. -/
theorem gather_along (seen : σ) (attempt : Nat) (d : Discipline) :
    gather (g seen) attempt d (slots.map (Slot.along g)) =
      (gather seen attempt d slots).along g id := by
  fun_induction gather seen attempt d slots with
  | case1 slots result hverdict =>
    rw [gather_verdict ((verdict_along g slots d).trans hverdict)]
    rfl
  | case2 slots hverdict before after result hready _ ih =>
    rw [gather_ready ((verdict_along g slots d).trans hverdict) (ready_along g hready), ← ih,
      List.map_append, List.map_cons]
    rfl
  | case3 slots hverdict before after hready =>
    rw [gather_ready ((verdict_along g slots d).trans hverdict) (ready_along g hready)]
    rfl
  | case4 slots hverdict before after inside site event rest hready _ =>
    rename_i ih
    rw [gather_ready ((verdict_along g slots d).trans hverdict) (ready_along g hready)]
    simp only [Process.along, ← ih, List.map_append, List.map_cons, List.length_map]
    rfl
  | case5 slots hverdict before after inside site request rest hready _ =>
    rename_i ih
    rw [gather_ready ((verdict_along g slots d).trans hverdict) (ready_along g hready)]
    simp only [Process.along, ← ih, List.map_append, List.map_cons, List.length_map]
    rfl
  | case6 slots hverdict before after seen' span rest hready _ ih =>
    rw [gather_ready ((verdict_along g slots d).trans hverdict) (ready_along g hready), ← ih,
      List.map_append, List.map_cons]
    rfl
  | case7 slots hverdict hready span hwaking ih =>
    rw [gather_asleep ((verdict_along g slots d).trans hverdict)
      (by rw [started_along, firstReady_along, hready]; rfl) ((nextWaking_along g slots).trans hwaking),
      advanceAll_along, ih]
    rfl
  | case8 slots hverdict hready hwaking =>
    rw [gather_idle ((verdict_along g slots d).trans hverdict)
      (by rw [started_along, firstReady_along, hready]; rfl) ((nextWaking_along g slots).trans hwaking)]
    rfl

end

/-! ### Runs -/

/-- The ending, with `g` of what is seen and `h` of the value. -/
def Ending.along (g : σ → τ) (h : α → β) : Ending σ α → Ending τ β
  | .finished a => .finished (h a)
  | .cut seen => .cut (g seen)
  | .stuck => .stuck

theorem Process.run_along (g : σ → τ) (h : α → β) (runners : Runners ω) (deadline : Option Duration)
    (p : Process σ α) (t : Timeline ω) :
    (p.along g h).run runners deadline t =
      ((p.run runners deadline t).1.along g h, (p.run runners deadline t).2) := by
  induction p generalizing t with
  | done | stuck => rfl
  | emit site event rest ih => exact ih () _
  | call site request rest ih => exact ih _ _
  | pause seen span rest ih =>
    simp only [along, run]
    split
    · rfl
    · exact ih () _

end StepFlow
