import StepFlow.Runner.Request

/-!
# Registries

The schemes that runners serve. A resource is resolved by what stands before its first `://`.
-/

namespace StepFlow

/-- Runners by scheme. -/
abbrev Registry (ρ : Type) := Table ρ

namespace Registry

variable {ρ : Type}

/-- Serves a scheme, in place of an earlier runner of it. -/
def register (scheme : String) (runner : ρ) (registry : Registry ρ) : Registry ρ :=
  Table.insert scheme runner registry

/-- The runner for a resource. -/
def resolve (resource : String) (registry : Registry ρ) : Except RunnerError ρ :=
  match (Resource.scheme? resource).bind fun scheme => Table.get? scheme registry with
  | some runner => .ok runner
  | none => .error (.unsupportedScheme resource)

end Registry

end StepFlow
