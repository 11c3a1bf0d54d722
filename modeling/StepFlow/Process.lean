import StepFlow.Execution.Event
import StepFlow.Runner.Request

/-!
# Processes

What an execution does, as a tree: it tells of events, asks runners and waits for an answer, sleeps,
and in the end gives a value. The tree does nothing by itself; a schedule runs it (`Process/Timeline`)
or merges several into one (`Process/Gather`). Every event and request carries the place it comes from
among nested executions, and every sleep shows what can be seen of the execution meanwhile.

A process is `stuck` where the budget of steps that it was built with is used up.
-/

namespace StepFlow

/-- One nested execution: the attempt of a state that started it and its number in it. -/
structure Branch where
  attempt : Nat
  index : Nat
  deriving DecidableEq, Repr, Inhabited

/-- The nested executions that something lies in, from the outermost to the innermost. -/
abbrev Site := List Branch

/-- The answer to a request: how long it takes, and what comes of it. -/
structure Answer where
  delay : Duration
  result : Except RunnerError Report

inductive Process (σ α : Type) where
  | done (a : α)
  | stuck
  | emit (site : Site) (event : Event) (rest : Unit → Process σ α)
  | call (site : Site) (request : Request) (rest : Answer → Process σ α)
  | pause (seen : σ) (span : Duration) (rest : Unit → Process σ α)

namespace Process

variable {σ α β : Type}

instance : Inhabited (Process σ α) := ⟨.stuck⟩

/-- One process after another. -/
def bind (f : α → Process σ β) : Process σ α → Process σ β
  | done a => f a
  | stuck => stuck
  | emit site event rest => emit site event fun u => bind f (rest u)
  | call site request rest => call site request fun answer => bind f (rest answer)
  | pause seen span rest => pause seen span fun u => bind f (rest u)

instance : Monad (Process σ) where
  pure := done
  bind p f := bind f p

/-- Tells of an event. -/
def tell (event : Event) : Process σ Unit := emit [] event fun _ => done ()

/-- Sleeps as long as a timer takes for a span; sleeping for no time at all is no sleep. -/
def sleep (seen : σ) (span : Duration) : Process σ Unit :=
  if span = 0 then done () else pause seen span.onTimer fun _ => done ()

/-- Asks a runner and waits for its answer. -/
def ask (seen : σ) (request : Request) : Process σ (Except RunnerError Report) :=
  call [] request fun answer => bind (fun _ => done answer.result) (sleep seen answer.delay)

/-! ### What comes after -/

/-- `After q p`: the process `q` is what is left of `p` after its first step. -/
inductive After : Process σ α → Process σ α → Prop where
  | emit (site : Site) (event : Event) (rest : Unit → Process σ α) :
      After (rest ()) (.emit site event rest)
  | call (site : Site) (request : Request) (rest : Answer → Process σ α) (answer : Answer) :
      After (rest answer) (.call site request rest)
  | pause (seen : σ) (span : Duration) (rest : Unit → Process σ α) :
      After (rest ()) (.pause seen span rest)

theorem after_wf : WellFounded (After (σ := σ) (α := α)) := by
  constructor
  intro p
  induction p with
  | done | stuck => exact ⟨_, fun _ h => nomatch h⟩
  | emit _ _ _ ih => exact ⟨_, fun _ h => by cases h; exact ih ()⟩
  | call _ _ _ ih => exact ⟨_, fun _ h => by cases h; exact ih _⟩
  | pause _ _ _ ih => exact ⟨_, fun _ h => by cases h; exact ih ()⟩

end Process

end StepFlow
