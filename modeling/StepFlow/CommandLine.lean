import StepFlow.CommandLine.Options
import StepFlow.Definition.Reader
import StepFlow.Document.Printer
import StepFlow.Runner.Container
import StepFlow.Session

/-!
# The command line

Runs the workflow in a file on an input and writes the output. Everything is read before anything
runs: the workflow, the input, the credentials and the configuration of the runners, in this order, so
that of several faults the first in this order is told.
-/

namespace StepFlow.CommandLine

/-- Why the command line fails. -/
inductive Failure where
  | workflowUnreadable (path : String)
  | inputMalformed
  | stdinMalformed
  | credentialsMalformed
  | credentialsFileMissing (path : String)
  | credentialsFileMalformed (path : String)
  | credentialsNotAnObject
  | runnerConfig (e : RunnerError)
  /-- The execution was aborted. -/
  | aborted (e : RuntimeError)
  /-- The execution ended in a Fail state. -/
  | failed (failure : Option ExecutionFailure)
  deriving Inhabited

namespace Failure

def message : Failure → String
  | workflowUnreadable path => "failed to load workflow: " ++ path
  | inputMalformed => "failed to parse --input JSON"
  | stdinMalformed => "failed to parse input JSON from stdin"
  | credentialsMalformed => "failed to parse --credentials JSON"
  | credentialsFileMissing path => "failed to read credentials file: " ++ path
  | credentialsFileMalformed path => "failed to parse credentials file: " ++ path
  | credentialsNotAnObject => "credentials must be a JSON object"
  | runnerConfig _ => "failed to load runner configuration"
  | aborted _ => "workflow execution failed"
  | failed failure =>
    "workflow failed: " ++ ((failure.map ExecutionFailure.render).getD "workflow failed")

/-- What lies behind the failure of an execution. -/
def cause? : Failure → Option String
  | aborted e => some e.message
  | _ => none

end Failure

/-- What the command line finds around it. -/
structure Surroundings where
  /-- The text of a file; none when it cannot be read. -/
  file : String → Option String
  stdin : String
  /-- The configuration that is read when there is such a file and no other is given. -/
  defaultConfig : String
  programs : Programs
  handles : Handles
  stamps : Stamps
  now : Timestamp
  executionId : String

/-- All that has been read before the run. -/
structure Job where
  workflow : Workflow
  input : Document
  credentials : Document
  config : RunnerConfig
  deriving Inhabited

def readWorkflow (s : Surroundings) (path : String) : Except Failure Workflow :=
  let workflow := do
    let text ← s.file path
    let definition ← (Definition.Graph.parse text).toOption
    (Workflow.ofDefinition definition).toOption
  workflow.elim (.error (.workflowUnreadable path)) .ok

/-- The input: that of the option or else that on standard input, where blanks stand for an empty
object. -/
def readInput (s : Surroundings) (option : Option String) : Except Failure Document :=
  match option with
  | some text => (Document.parse text).mapError fun _ => .inputMalformed
  | none =>
    if (Text.trim s.stdin).isEmpty then .ok (.obj [])
    else (Document.parse s.stdin).mapError fun _ => .stdinMalformed

def readCredentials (s : Surroundings) (source : Option CredentialsSource) :
    Except Failure Document := do
  let d ← match source with
    | none => .ok (.obj [])
    | some (.text json) => (Document.parse json).mapError fun _ => .credentialsMalformed
    | some (.file path) =>
      match s.file path with
      | none => .error (.credentialsFileMissing path)
      | some text => (Document.parse text).mapError fun _ => .credentialsFileMalformed path
  match d with
  | .obj _ => .ok d
  | _ => .error .credentialsNotAnObject

def readConfig (s : Surroundings) (o : Options) : Except Failure RunnerConfig := do
  let config ← match o.runnerConfig with
    | some path => (RunnerConfig.ofFile path (s.file path)).mapError .runnerConfig
    | none =>
      match s.file s.defaultConfig with
      | some text => (RunnerConfig.ofFile s.defaultConfig (some text)).mapError .runnerConfig
      | none => .ok .default
  return { config with tool := o.tool.getD config.tool }

def readJob (s : Surroundings) (o : Options) : Except Failure Job := do
  return {
    workflow := ← readWorkflow s o.workflow
    input := ← readInput s o.input
    credentials := ← readCredentials s o.credentials
    config := ← readConfig s o }

namespace Job

def registry (j : Job) : Registry ContainerRunner := .ofConfig j.config

def setting (s : Surroundings) (j : Job) : Setting where
  runners := j.registry.map fun (scheme, _) => (scheme, ())
  credentials := j.credentials
  stamps := s.stamps
  now := s.now

/-- Runs the workflow; none when the budget is used up. -/
def run (s : Surroundings) (budget : Nat) (j : Job) :
    Option (Session CommandLog × Except Failure Document) := do
  let execution := Execution.start j.workflow s.executionId s.stamps.time j.input
  let runners := j.registry.runners s.programs s.handles
  let (session, result) ← (Session.start execution []).run (j.setting s) runners budget
  match result with
  | .error e => return (session, .error (.aborted e))
  | .ok output =>
    if session.execution.status = .errored then
      return (session, .error (.failed session.execution.failure))
    else return (session, .ok output)

end Job

/-- What the command line leaves behind. -/
structure Finish where
  exitCode : Nat
  stdout : String
  usage : Option UsageError
  failure : Option Failure
  /-- The commands that were started or could not be started. -/
  commands : List Command
  /-- The time that the run took. -/
  elapsed : Duration
  deriving Inhabited

namespace Finish

def written (stdout : String) : Finish := ⟨0, stdout, none, none, [], 0⟩

def misused (e : UsageError) : Finish := ⟨2, "", some e, none, [], 0⟩

def failing (failure : Failure) : Finish := ⟨1, "", none, some failure, [], 0⟩

/-- The end of a run. -/
def ofResult (t : Timeline CommandLog) (result : Except Failure Document) : Finish :=
  let finish := match result with
    | .error failure => failing failure
    | .ok output => written (output.pretty ++ "\n")
  { finish with commands := t.commands, elapsed := t.clock }

/-- What is told on standard error. -/
def complaint? (f : Finish) : Option String :=
  match f.usage, f.failure with
  | some e, _ => some ("error: " ++ e.message)
  | none, some failure =>
    let cause := (failure.cause?.map fun text => "\n\nCaused by:\n    " ++ text).getD ""
    some ("Error: " ++ failure.message ++ cause)
  | none, none => none

end Finish

def versionText : String := "floe 0.0.1-alpha.0\n"

def helpText : String :=
  "Usage: floe [OPTIONS] [FILE]\n\n"
    ++ "Arguments:\n"
    ++ "  [FILE]                     Path to the workflow definition (JSON)\n\n"
    ++ "Options:\n"
    ++ "  --workflow <FILE>          Path to the workflow definition, as a flag\n"
    ++ "  --input <JSON>             Workflow input as JSON (default: standard input)\n"
    ++ "  --credentials <JSON>       Credentials as a JSON object\n"
    ++ "  --credentials-file <FILE>  Path to a JSON file of credentials\n"
    ++ "  --docker-runner <NAME>     Backend for docker:// resources\n"
    ++ "  --runner-config <FILE>     Path to the runner configuration\n"
    ++ "  -h, --help                 Print help\n"
    ++ "  -V, --version              Print version\n"

/-- Does what the options ask for; none when the budget is used up. -/
def perform (s : Surroundings) (budget : Nat) (o : Options) : Option Finish :=
  match readJob s o with
  | .error failure => some (.failing failure)
  | .ok job => (job.run s budget).map fun (session, result) => .ofResult session.timeline result

/-- Does what the arguments ask for; none when the budget is used up. -/
def execute (s : Surroundings) (budget : Nat) (args : List String) : Option Finish :=
  match Invocation.ofArgs args with
  | .error e => some (.misused e)
  | .ok .version => some (.written versionText)
  | .ok .help => some (.written helpText)
  | .ok (.run o) => perform s budget o

end StepFlow.CommandLine
