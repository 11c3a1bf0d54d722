import StepFlow.Process.Timeline
import StepFlow.Runner.Config
import StepFlow.Runner.Registry
import StepFlow.Text.Quoted
import StepFlow.Text.Utf8

/-!
# Container runners

A task is run by starting the program of a container tool: `docker` and `podman` with the same
arguments, a cluster through `kubectl`. The environment goes into the arguments one by one.
Credentials are never among the arguments of an engine, which mounts a directory with a file of them;
a pod gets them in a variable of its own.

What programs do is a function from the command to how it ends by itself; what a runner makes of that
is worked out here. A program that takes longer than the limit of the request is ended, and a pod whose
program was ended is deleted by a second command.
-/

namespace StepFlow

/-- A program to start. -/
structure Command where
  program : String
  args : List String
  /-- What stands in the credentials file of the directory that the container mounts. -/
  mounted : Option String
  deriving DecidableEq, Repr, Inhabited

/-- How a program that was started ends by itself. -/
structure ProgramRun where
  time : Duration
  /-- None when a signal ended it. -/
  exitCode : Option Int
  /-- What it wrote to its standard output. -/
  output : List UInt8
  deriving DecidableEq, Repr, Inhabited

/-- What commands do; none for one that cannot be started. -/
abbrev Programs := Command → Option ProgramRun

/-- What is made anew for a run. -/
structure Handles where
  pod : String
  secretsDir : String
  deriving DecidableEq, Repr, Inhabited

/-- The runner of one container tool: the program that it starts and how. -/
inductive ContainerRunner where
  | engine (binary : String) (config : EngineConfig)
  | cluster (binary : String) (config : ClusterConfig)
  deriving DecidableEq, Repr, Inhabited

def ProgramRun.report (run : ProgramRun) : Report :=
  ⟨run.exitCode.getD (-1), Text.ofBytes run.output⟩

namespace Command

/-- The text before which nothing of an argument is hidden, and after which everything is. -/
def credentialsMark : List Char := "_CREDENTIALS=".toList

/-- The text up to the end of the first mark in it, if there is one. -/
def throughMark? : List Char → Option (List Char)
  | [] => none
  | c :: rest =>
    if credentialsMark.isPrefixOf (c :: rest) then some credentialsMark
    else (throughMark? rest).map (c :: ·)

/-- An argument with the credentials that it may set hidden. -/
def redact (arg : String) : String :=
  match throughMark? arg.toList with
  | some front => String.ofList front ++ "<redacted>"
  | none => arg

/-- The arguments as they are logged. -/
def logged (c : Command) : String := Text.quotedList (c.args.map redact)

/-- How the command ends; one with a null character in an argument cannot be started. -/
def run? (programs : Programs) (c : Command) : Option ProgramRun :=
  if (c.program :: c.args).any fun s => s.toList.contains '\x00' then none else programs c

/-- The answer to a request for which a command is run. -/
def answer (programs : Programs) (r : Request) (c : Command) : Answer :=
  match c.run? programs with
  | none => ⟨0, .error (.spawn c.program)⟩
  | some run =>
    match r.timeout with
    | none => ⟨run.time, .ok run.report⟩
    | some limit =>
      if limit < run.time then ⟨limit, .error (.timeout r.resource limit)⟩
      else ⟨run.time, .ok run.report⟩

end Command

/-- The directory and the file in which a container finds its credentials. -/
def secretsMount : String := "/run/secrets"

def secretsFile : String := secretsMount ++ "/credentials.json"

/-- An option with its value, when there is one. -/
def optionArg (name : String) (value : Option String) : List String :=
  value.toList.map fun v => name ++ "=" ++ v

/-- The setting of a variable. -/
def assignment (name value : String) : String := name ++ "=" ++ value

/-- The target of a request as the name of an image. -/
def Request.image (r : Request) : Except RunnerError String :=
  if r.target.isEmpty then .error (.invalidResource r.resource "missing image") else .ok r.target

/-- The arguments of an engine. -/
def EngineConfig.args (config : EngineConfig) (secretsDir : Option String) (r : Request) :
    Except RunnerError (List String) := do
  let image ← r.image
  let assigned := r.env.flatMap fun (name, value) => ["-e", assignment name value]
  let secrets := match secretsDir with
    | some dir =>
      ["-v", dir ++ ":" ++ secretsMount ++ ":ro", "-e", assignment "_CREDENTIALS" secretsFile]
    | none => []
  return ["run", "--rm"] ++ optionArg "--network" config.network ++ optionArg "--pull" config.pull
    ++ assigned ++ secrets ++ [image]

namespace ClusterConfig

def namespaceArgs (config : ClusterConfig) : List String :=
  optionArg "--namespace" config.podNamespace

/-- The arguments that run a pod. -/
def args (config : ClusterConfig) (pod : String) (r : Request) :
    Except RunnerError (List String) := do
  let image ← r.image
  let assigned := r.env.map fun (name, value) => "--env=" ++ assignment name value
  let secrets :=
    if r.hasSecrets then ["--env=" ++ assignment "_CREDENTIALS" r.secrets.compact] else []
  return ["run", pod, "--rm", "-i", "--quiet", "--restart=Never", "--image=" ++ image]
    ++ config.namespaceArgs ++ optionArg "--image-pull-policy" config.imagePullPolicy
    ++ assigned ++ secrets

/-- The arguments that delete a pod. -/
def deleteArgs (config : ClusterConfig) (pod : String) : List String :=
  ["delete", "pod", pod, "--ignore-not-found", "--wait=false"] ++ config.namespaceArgs

end ClusterConfig

/-- A command with the time from the request to its start. -/
structure TimedCommand where
  delay : Duration
  command : Command
  deriving DecidableEq, Repr, Inhabited

namespace ContainerRunner

/-- An engine by its usual name or the program set in its place. -/
def ofEngine (name : String) (config : EngineConfig) : ContainerRunner :=
  engine (config.binary.getD name) config

def ofCluster (config : ClusterConfig) : ContainerRunner :=
  cluster (config.binary.getD "kubectl") config

/-- The runner of the tool that the configuration selects. -/
def ofConfig (config : RunnerConfig) : ContainerRunner :=
  match config.tool with
  | .docker => ofEngine "docker" config.docker
  | .podman => ofEngine "podman" config.podman
  | .kubernetes => ofCluster config.kubernetes

def binary : ContainerRunner → String
  | engine binary _ => binary
  | cluster binary _ => binary

/-- The command for a request. -/
def command (handles : Handles) (r : Request) : ContainerRunner → Except RunnerError Command
  | engine binary config => do
    let secretsDir := if r.hasSecrets then some handles.secretsDir else none
    let args ← config.args secretsDir r
    return ⟨binary, args, secretsDir.map fun _ => r.secrets.compact⟩
  | cluster binary config => do
    let args ← config.args handles.pod r
    return ⟨binary, args, none⟩

/-- The command that follows one that was ended with the limit. -/
def cleanup (handles : Handles) : ContainerRunner → Option Command
  | engine .. => none
  | cluster binary config => some ⟨binary, config.deleteArgs handles.pod, none⟩

/-- The commands that a request leads to, and its answer. -/
def serve (programs : Programs) (handles : Handles) (r : Request) (runner : ContainerRunner) :
    List TimedCommand × Answer :=
  match runner.command handles r with
  | .error e => ([], ⟨0, .error e⟩)
  | .ok c =>
    let answer := c.answer programs r
    match answer.result with
    | .error (.timeout ..) =>
      let more := (runner.cleanup handles).toList.map fun c => ⟨answer.delay, c⟩
      (⟨0, c⟩ :: more, answer)
    | _ => ([⟨0, c⟩], answer)

end ContainerRunner

/-- The runners that a configuration asks for. -/
def Registry.ofConfig (config : RunnerConfig) : Registry ContainerRunner :=
  Registry.register "docker" (.ofConfig config) []

/-- For every request, in their order, the commands that it led to. -/
abbrev CommandLog := List (List TimedCommand)

/-- Runners that start programs. -/
def Registry.runners (programs : Programs) (handles : Handles) (registry : Registry ContainerRunner) :
    Runners CommandLog := fun log r =>
  match registry.resolve r.resource with
  | .error e => (log ++ [[]], ⟨0, .error e⟩)
  | .ok runner =>
    let (commands, answer) := runner.serve programs handles r
    (log ++ [commands], answer)

/-- The commands that were started up to the present, in the order of time. -/
def Timeline.commands (t : Timeline CommandLog) : List Command :=
  let timed := (t.calls.zip t.world).flatMap fun (call, commands) =>
    commands.map fun c => (call.time + c.delay, c.command)
  ((timed.filter fun (time, _) => decide (time ≤ t.clock)).mergeSort fun a b =>
    decide (a.1 ≤ b.1)).map (·.2)

end StepFlow
