import StepFlow.CommandLine
import Std.Time.Format

/-!
# The program

Gathers what the command line needs to know of the outside, lets `CommandLine.execute` decide, and
writes down what it decided. It starts no programs: tasks fail as they do where the container tool is
not installed.
-/

namespace StepFlow.Program

open Std.Time (PlainDateTime TimeZone)

/-- The text of a file; none when it cannot be read. -/
def readText? (path : String) : IO (Option String) := do
  try return some (← IO.FS.readFile path) catch _ => return none

/-- Random hexadecimal digits. -/
def randomDigits (n : Nat) : IO String := do
  let mut digits := []
  for _ in [0:n] do
    digits := hexDigit (← IO.rand 0 15) :: digits
  return String.ofList digits

/-- A random identifier in five groups of digits. -/
def randomId : IO String := do
  let groups ← [8, 4, 3, 3, 12].mapM randomDigits
  match groups with
  | [a, b, c, d, e] => return "-".intercalate [a, b, "4" ++ c, "a" ++ d, e]
  | _ => return ""

/-- The instant and the stamps of a run that starts now. -/
def clock : IO (Timestamp × Stamps) := do
  let now ← Std.Time.Timestamp.now
  let nanos := now.toNanosecondsSinceUnixEpoch.val
  let time := (PlainDateTime.ofWallTime (now.toWallTime TimeZone.Offset.zero)).format
    "uuuu-MM-dd'T'HH:mm:ss.SSS'Z'"
  return (⟨nanos / 1000000000, (nanos % 1000000000).toNat⟩, ⟨time, ← randomId, .num (.float .zero)⟩)

/-- Where the configuration of the runners is looked for. -/
def defaultConfig : IO String := do
  let base ← match ← IO.getEnv "XDG_CONFIG_HOME" with
    | some dir => pure dir
    | none => pure (((← IO.getEnv "HOME").getD "") ++ "/.config")
  return base ++ "/floe/runner.json"

/-- What is piped in; nothing at a terminal. -/
def standardInput : IO String := do
  let stdin ← IO.getStdin
  if ← stdin.isTty then return "" else stdin.readToEnd

/-- The files that a run may read, with their texts. -/
def readFiles (paths : List String) : IO (List (String × Option String)) :=
  paths.mapM fun path => return (path, ← readText? path)

/-- The files that the arguments name. -/
def namedFiles (args : List String) : List String :=
  match CommandLine.Invocation.ofArgs args with
  | .ok (.run o) =>
    let credentials := match o.credentials with
      | some (.file path) => [path]
      | _ => []
    o.workflow :: credentials ++ o.runnerConfig.toList
  | _ => []

/-- Does a run with these arguments read its standard input? -/
def wantsInput (args : List String) : Bool :=
  match CommandLine.Invocation.ofArgs args with
  | .ok (.run o) => o.input.isNone
  | _ => false

def surroundings (args : List String) : IO CommandLine.Surroundings := do
  let config ← defaultConfig
  let files ← readFiles (config :: namedFiles args)
  let stdin ← if wantsInput args then standardInput else pure ""
  let (now, stamps) ← clock
  return {
    file := fun path => ((files.find? (·.1 = path)).map (·.2)).join
    stdin := stdin
    defaultConfig := config
    programs := fun _ => none
    handles := ⟨"floe-task-" ++ (← randomDigits 12), "/tmp/" ++ (← randomDigits 12)⟩
    stamps := stamps
    now := now
    executionId := ← randomId }

/-- The most steps that a run takes. -/
def budget : Nat := Nat.pow 2 60

/-- Runs the program; gives its exit code. -/
def run (args : List String) : IO UInt32 := do
  match CommandLine.execute (← surroundings args) budget args with
  | none => return 1
  | some finish =>
    IO.sleep (Duration.toMillis finish.elapsed).toUInt32
    IO.print finish.stdout
    if let some text := finish.complaint? then IO.eprintln text
    return finish.exitCode.toUInt32

end StepFlow.Program

def main (args : List String) : IO UInt32 := StepFlow.Program.run args
