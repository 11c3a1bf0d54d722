import StepFlow.Process.Timeline

/-!
# Scripted runners

Runners that answer from a script, for trying a workflow out without containers. A scheme's script
maps targets to lists of replies, `*` standing for all targets without a list of their own. Every list
counts its own calls, and its last reply is repeated for ever.
-/

namespace StepFlow

inductive ScriptedFailure where
  /-- A timeout after the given limit, or that of the request. -/
  | timeout (limit : Option Duration)
  | unsupported
  | invalidResource (reason : String)
  | invalidInput (reason : String)
  | io (reason : String)
  | spawn (program : String)
  deriving DecidableEq, Repr, Inhabited

inductive ScriptedResult where
  /-- The environment of the request as its output. -/
  | echo
  | report (r : Report)
  | fail (failure : ScriptedFailure)
  deriving DecidableEq, Repr, Inhabited

structure ScriptedReply where
  delay : Duration
  result : ScriptedResult
  deriving DecidableEq, Repr, Inhabited

/-- By target, the replies in their order. -/
abbrev Script := Table (List ScriptedReply)

/-- The number of calls that each list of replies has answered, by scheme and target. -/
abbrev CallCounts := List ((String × String) × Nat)

namespace ScriptedReply

def failure (f : ScriptedFailure) (r : Request) : RunnerError :=
  match f with
  | .timeout limit => .timeout r.resource ((limit.or r.timeout).getD 0)
  | .unsupported => .unsupportedScheme r.resource
  | .invalidResource reason => .invalidResource r.resource reason
  | .invalidInput reason => .invalidInput (.other reason)
  | .io reason => .io reason
  | .spawn program => .spawn program

def answer (reply : ScriptedReply) (r : Request) : Answer where
  delay := reply.delay
  result := match reply.result with
    | .echo => .ok ⟨0, r.env.toDocument.compact⟩
    | .report report => .ok report
    | .fail f => .error (failure f r)

end ScriptedReply

namespace Script

/-- The list of replies for a target, with the name it stands under. -/
def repliesFor (target : String) (script : Script) : String × List ScriptedReply :=
  match Table.get? target script with
  | some replies => (target, replies)
  | none => ("*", (Table.get? "*" script).getD [])

def count (key : String × String) (counts : CallCounts) : Nat :=
  ((counts.find? (·.1 = key)).map (·.2)).getD 0

/-- Runners that answer from scripts by scheme. A scheme or target without any reply is not
served. -/
def runners (scripts : Table Script) : Runners CallCounts := fun counts r =>
  let scheme := (Resource.scheme? r.resource).getD ""
  let (name, replies) := repliesFor r.target ((Table.get? scheme scripts).getD [])
  let key := (scheme, name)
  let n := count key counts
  let counts := (key, n + 1) :: counts.filter (·.1 ≠ key)
  match replies[min n (replies.length - 1)]? with
  | some reply => (counts, reply.answer r)
  | none => (counts, ⟨0, .error (.unsupportedScheme r.resource)⟩)

end Script

end StepFlow
