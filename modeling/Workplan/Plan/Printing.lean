import Workplan.Plan.Loading
import Workplan.Plan.Writing
import Workplan.Yaml.Layout

/-!
# Printing plans

The normal form of a plan as a text: every default filled in, every field in its place.
-/

namespace Workplan.Plan

/-- A plan as a text. -/
def toYaml (p : Plan) : String :=
  Yaml.print p.written

/-- Whether a printed plan is a valid plan that prints the same. -/
def isStable (p : Plan) : Bool :=
  match load p.toYaml with
  | .ok q => q.toYaml == p.toYaml
  | .error _ => false

end Workplan.Plan
