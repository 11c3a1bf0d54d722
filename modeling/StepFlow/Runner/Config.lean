import StepFlow.Document.Record
import StepFlow.Document.Shape
import StepFlow.Runner.Error

/-!
# Runner configuration

Which container tool serves the resources of the scheme `docker`, and how each tool is called. All
settings may be left out.
-/

namespace StepFlow

/-- The tools that run containers. -/
inductive ContainerTool where
  | docker
  | podman
  | kubernetes
  deriving DecidableEq, Repr, Inhabited

namespace ContainerTool

def name : ContainerTool → String
  | docker => "docker"
  | podman => "podman"
  | kubernetes => "kubernetes"

def all : List ContainerTool := [docker, podman, kubernetes]

def ofName? (name : String) : Option ContainerTool := all.find? (·.name = name)

/-- What is said of a name that no tool has. -/
def unknownName (name : String) : String :=
  "unknown docker runner '" ++ name ++ "' (expected docker, podman or kubernetes)"

end ContainerTool

/-- How docker and podman are called. -/
structure EngineConfig where
  /-- The program in place of the usual one. -/
  binary : Option String
  /-- The network of every container. -/
  network : Option String
  /-- When images are pulled. -/
  pull : Option String
  deriving DecidableEq, Repr, Inhabited

/-- How a cluster is asked to run pods. -/
structure ClusterConfig where
  binary : Option String
  podNamespace : Option String
  imagePullPolicy : Option String
  deriving DecidableEq, Repr, Inhabited

structure RunnerConfig where
  /-- The tool that serves the scheme `docker`. -/
  tool : ContainerTool
  docker : EngineConfig
  podman : EngineConfig
  kubernetes : ClusterConfig
  deriving DecidableEq, Repr, Inhabited

/-- A setting that is a text. -/
def settingField (name : String) : Fields → Option (Option String) :=
  Record.optional [name] Document.toStr?

/-- The layout of a record that may be left out field by field. -/
def spareLayout (names : List String) : Layout := names.map fun name => (name, true)

/-- The members of a record of texts. -/
def settingsShape (names : List String) : Shape :=
  Shape.record (names.map fun name => ⟨name, true, Shape.optional Shape.text⟩)

namespace EngineConfig

def default : EngineConfig := ⟨none, none, none⟩

def names : List String := ["binary", "network", "pull"]

def ofDocument? (d : Document) : Option EngineConfig := do
  let fields ← d.members? (spareLayout names)
  return {
    binary := ← settingField "binary" fields
    network := ← settingField "network" fields
    pull := ← settingField "pull" fields }

def toDocument (c : EngineConfig) : Document :=
  .ofList [("binary", .ofOption .str c.binary), ("network", .ofOption .str c.network),
    ("pull", .ofOption .str c.pull)]

end EngineConfig

namespace ClusterConfig

def default : ClusterConfig := ⟨none, none, none⟩

def names : List String := ["binary", "namespace", "image_pull_policy"]

def ofDocument? (d : Document) : Option ClusterConfig := do
  let fields ← d.members? (spareLayout names)
  return {
    binary := ← settingField "binary" fields
    podNamespace := ← settingField "namespace" fields
    imagePullPolicy := ← settingField "image_pull_policy" fields }

def toDocument (c : ClusterConfig) : Document :=
  .ofList [("binary", .ofOption .str c.binary), ("namespace", .ofOption .str c.podNamespace),
    ("image_pull_policy", .ofOption .str c.imagePullPolicy)]

end ClusterConfig

namespace RunnerConfig

def default : RunnerConfig := ⟨.docker, .default, .default, .default⟩

def names : List String := ["docker_runner", "docker", "podman", "kubernetes"]

def ofDocument? (d : Document) : Option RunnerConfig := do
  let fields ← d.members? (spareLayout names)
  return {
    tool := ← Record.defaulted ["docker_runner"] (Document.toWord? ContainerTool.ofName?) .docker
      fields
    docker := ← Record.defaulted ["docker"] EngineConfig.ofDocument? .default fields
    podman := ← Record.defaulted ["podman"] EngineConfig.ofDocument? .default fields
    kubernetes := ← Record.defaulted ["kubernetes"] ClusterConfig.ofDocument? .default fields }

def toDocument (c : RunnerConfig) : Document :=
  .ofList [("docker_runner", .str c.tool.name), ("docker", c.docker.toDocument),
    ("podman", c.podman.toDocument), ("kubernetes", c.kubernetes.toDocument)]

/-- The shape of the text of a configuration. -/
def shape : Shape :=
  Shape.record [
    ⟨"docker_runner", true, Shape.oneOf (ContainerTool.all.map (·.name))⟩,
    ⟨"docker", true, settingsShape EngineConfig.names⟩,
    ⟨"podman", true, settingsShape EngineConfig.names⟩,
    ⟨"kubernetes", true, settingsShape ClusterConfig.names⟩]

def parse (text : String) : Except Fault RunnerConfig := do
  let d ← shape.read text Shape.maxDepth
  match ofDocument? d with
  | some config => .ok config
  | none => .error .mismatched

/-- The configuration in a file, given its text if it can be read. -/
def ofFile (path : String) (text : Option String) : Except RunnerError RunnerConfig :=
  match text with
  | none => .error (.configMissing path)
  | some text => (parse text).mapError (.configUnreadable path)

end RunnerConfig

end StepFlow
