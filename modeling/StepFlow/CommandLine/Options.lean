import StepFlow.Runner.Config

/-!
# Arguments of the command line

The arguments name the file of a workflow and set options, each with a value, as `--name value` or
`--name=value`. After `--` every argument is a file. Arguments are taken from left to right, and what
asks for the version or for help ends that at once; which options go together is looked at last.
-/

namespace StepFlow.CommandLine

/-- What takes a value: the file by its place, and the options. -/
inductive Slot where
  | file
  | workflow
  | input
  | credentials
  | credentialsFile
  | dockerRunner
  | runnerConfig
  deriving DecidableEq, Repr, Inhabited

namespace Slot

/-- How the slot is written. -/
def name : Slot → String
  | file => "FILE"
  | workflow => "--workflow"
  | input => "--input"
  | credentials => "--credentials"
  | credentialsFile => "--credentials-file"
  | dockerRunner => "--docker-runner"
  | runnerConfig => "--runner-config"

def options : List Slot :=
  [workflow, input, credentials, credentialsFile, dockerRunner, runnerConfig]

def ofName? (name : String) : Option Slot := options.find? (·.name = name)

end Slot

/-- Why arguments make no sense. -/
inductive UsageError where
  | unknown (arg : String)
  | missingValue (slot : Slot)
  | badValue (slot : Slot) (reason : String)
  | repeated (slot : Slot)
  | conflict (a b : Slot)
  | noWorkflow
  deriving DecidableEq, Repr, Inhabited

def UsageError.message : UsageError → String
  | unknown arg => "unexpected argument '" ++ arg ++ "'"
  | missingValue slot => "a value is required for '" ++ slot.name ++ "'"
  | badValue slot reason => "invalid value for '" ++ slot.name ++ "': " ++ reason
  | repeated slot => "'" ++ slot.name ++ "' cannot be used multiple times"
  | conflict a b => "'" ++ a.name ++ "' cannot be used with '" ++ b.name ++ "'"
  | noWorkflow => "a workflow file is required"

/-- Where credentials come from. -/
inductive CredentialsSource where
  | text (json : String)
  | file (path : String)
  deriving DecidableEq, Repr, Inhabited

structure Options where
  /-- The file of the workflow. -/
  workflow : String
  input : Option String
  credentials : Option CredentialsSource
  tool : Option ContainerTool
  runnerConfig : Option String
  deriving DecidableEq, Repr, Inhabited

/-- What the arguments ask for. -/
inductive Invocation where
  | run (options : Options)
  | version
  | help
  deriving DecidableEq, Repr, Inhabited

/-- The values set so far. -/
abbrev Values := List (Slot × String)

namespace Values

def get? (values : Values) (slot : Slot) : Option String :=
  (values.find? (·.1 = slot)).map (·.2)

/-- Why a slot does not take a value. -/
def flaw? (slot : Slot) (value : String) : Option String :=
  match slot with
  | .input | .credentials => none
  | .dockerRunner =>
    if (ContainerTool.ofName? value).isSome then none else some (ContainerTool.unknownName value)
  | .file | .workflow | .credentialsFile | .runnerConfig =>
    if value.isEmpty then some "an empty path" else none

/-- Sets a slot, once only. -/
def set (values : Values) (slot : Slot) (value : String) : Except UsageError Values :=
  match flaw? slot value with
  | some reason => .error (.badValue slot reason)
  | none =>
    if (values.get? slot).isSome then .error (.repeated slot) else .ok ((slot, value) :: values)

/-- The options that the values make up. -/
def options (values : Values) : Except UsageError Options :=
  let credentials := match values.get? .credentials, values.get? .credentialsFile with
    | some _, some _ => .error (.conflict .credentials .credentialsFile)
    | some json, none => .ok (some (.text json))
    | none, some path => .ok (some (.file path))
    | none, none => .ok none
  let workflow := match values.get? .file, values.get? .workflow with
    | some _, some _ => .error (.conflict .workflow .file)
    | some path, none => .ok path
    | none, some path => .ok path
    | none, none => .error .noWorkflow
  do
    return {
      workflow := ← workflow
      input := values.get? .input
      credentials := ← credentials
      tool := (values.get? .dockerRunner).bind ContainerTool.ofName?
      runnerConfig := values.get? .runnerConfig }

end Values

/-- An argument before any `--`. -/
inductive Argument where
  /-- All arguments that follow are files. -/
  | separator
  /-- An option, with the value after its equals sign. -/
  | option (name : String) (value : Option String)
  /-- One or more letters after a single hyphen. -/
  | letters (first : Char)
  | plain
  deriving DecidableEq, Repr, Inhabited

def Argument.ofString (arg : String) : Argument :=
  match arg.toList with
  | ['-', '-'] => .separator
  | '-' :: '-' :: rest =>
    let name := String.ofList (rest.takeWhile (· ≠ '='))
    match rest.dropWhile (· ≠ '=') with
    | _ :: value => .option ("--" ++ name) (some (String.ofList value))
    | [] => .option ("--" ++ name) none
  | '-' :: c :: _ => .letters c
  | _ => .plain

/-- Takes files up to the end of the arguments. -/
def takeFiles (values : Values) : List String → Except UsageError Invocation
  | [] => values.options.map .run
  | arg :: rest => do takeFiles (← values.set .file arg) rest

/-- Takes the arguments one by one; `awaiting` is the option that still wants its value. -/
def takeArgs (values : Values) (awaiting : Option Slot) : List String →
    Except UsageError Invocation
  | [] =>
    match awaiting with
    | some slot => .error (.missingValue slot)
    | none => values.options.map .run
  | arg :: rest =>
    match Argument.ofString arg, awaiting with
    | .plain, some slot => do takeArgs (← values.set slot arg) none rest
    | _, some slot => .error (.missingValue slot)
    | .plain, none => do takeArgs (← values.set .file arg) none rest
    | .separator, none => takeFiles values rest
    | .letters 'V', none => .ok .version
    | .letters 'h', none => .ok .help
    | .letters _, none => .error (.unknown arg)
    | .option "--version" none, none => .ok .version
    | .option "--help" none, none => .ok .help
    | .option name value, none =>
      match Slot.ofName? name, value with
      | some slot, some value => do takeArgs (← values.set slot value) none rest
      | some slot, none => takeArgs values (some slot) rest
      | none, _ => .error (.unknown arg)

/-- What the arguments ask for. -/
def Invocation.ofArgs (args : List String) : Except UsageError Invocation := takeArgs [] none args

end StepFlow.CommandLine
