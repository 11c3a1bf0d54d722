import StepFlow.Process

/-!
# Running processes in time

`Process.run` runs a process against runners that are a function of their own state and the request.
Time passes only while the process sleeps. What it tells and asks is written down with the time and
the place. A deadline cuts the process off when it would sleep beyond it; what is due at the very
instant of the deadline is still done.
-/

namespace StepFlow

/-- Something that happened, with its time and place. -/
structure Logged (α : Type) where
  time : Duration
  site : Site
  what : α
  deriving Inhabited

/-- The time, the state of the runners, and all that has happened. -/
structure Timeline (ω : Type) where
  clock : Duration
  world : ω
  events : List (Logged Event)
  calls : List (Logged Request)
  deriving Inhabited

namespace Timeline

variable {ω : Type}

def start (world : ω) : Timeline ω := ⟨0, world, [], []⟩

def logEvent (site : Site) (event : Event) (t : Timeline ω) : Timeline ω :=
  { t with events := t.events ++ [⟨t.clock, site, event⟩] }

def logCall (site : Site) (request : Request) (world : ω) (t : Timeline ω) : Timeline ω :=
  { t with world, calls := t.calls ++ [⟨t.clock, site, request⟩] }

end Timeline

/-- Runners as a function. -/
abbrev Runners (ω : Type) := ω → Request → ω × Answer

/-- How running a process ends. -/
inductive Ending (σ α : Type) where
  | finished (a : α)
  /-- Cut off by the deadline, with what could be seen then. -/
  | cut (seen : σ)
  | stuck

namespace Process

variable {ω σ α : Type}

/-- Would a sleep go on beyond the deadline? -/
def beyond (deadline : Option Duration) (time : Duration) : Bool :=
  match deadline with
  | some d => decide (d < time)
  | none => false

def run (runners : Runners ω) (deadline : Option Duration) :
    Process σ α → Timeline ω → Ending σ α × Timeline ω
  | done a, t => (.finished a, t)
  | stuck, t => (.stuck, t)
  | emit site event rest, t => run runners deadline (rest ()) (t.logEvent site event)
  | call site request rest, t =>
    let (world, answer) := runners t.world request
    run runners deadline (rest answer) (t.logCall site request world)
  | pause seen span rest, t =>
    if beyond deadline (t.clock + span) then
      (.cut seen, { t with clock := deadline.getD t.clock })
    else run runners deadline (rest ()) { t with clock := t.clock + span }

end Process

end StepFlow
