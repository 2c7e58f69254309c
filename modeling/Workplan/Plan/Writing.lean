import Workplan.Plan.Basic

/-!
# Writing plans

A plan as a value, with the fields of each record in the order in which they are written
out.  Fields without a value and an empty store are left out; lists are always there.
`toJson` is the same value with all names in order.
-/

namespace Workplan

namespace Json

mutual

/-- The same value with the fields of every object ordered by name. -/
def sorted : Json → Json
  | arr items => arr (sortedItems items)
  | obj fields => ofEntries (sortedFields fields)
  | v => v

def sortedItems : List Json → List Json
  | [] => []
  | v :: rest => sorted v :: sortedItems rest

def sortedFields : List (String × Json) → List (String × Json)
  | [] => []
  | (name, v) :: rest => (name, sorted v) :: sortedFields rest

end

end Json

/-- A field that is left out when it has no value. -/
def optional (name : String) : Option Json → List (String × Json)
  | none => []
  | some v => [(name, v)]

namespace ExecutorSpec

/-- An executor, its kind first. -/
def written (e : ExecutorSpec) : Json :=
  .obj <| ("type", .str e.kind.name) ::
    match e with
    | echo => []
    | template text => [("template", .str text)]
    | command program args => [("program", .str program), ("args", .ofTexts args)]
    | fail message => [("message", .str message)]
    | sleep ms => [("ms", .ofWord ms)]
    | storeSet key => [("key", .str key)]

/-- An executor as a value. -/
def toJson (e : ExecutorSpec) : Json := e.written.sorted

end ExecutorSpec

namespace StepBody

/-- The fields of a body, behind the kind. -/
def writtenFields : StepBody → List (String × Json)
  | prompt text => [("text", .str text)]
  | sequence executors => [("executors", .arr (executors.map ExecutorSpec.written))]
  | parallel executors => [("executors", .arr (executors.map ExecutorSpec.written))]
  | iterate items key agent =>
    optional "items" (items.map .arr) ++ optional "key" (key.map .str)
      ++ [("agent", agent.written)]

end StepBody

namespace StepSpec

/-- A step: description and handlers, then the kind, then the body. -/
def written (s : StepSpec) : Json :=
  .obj <|
    optional "description" (s.description.map .str)
      ++ optional "on_success" (s.onSuccess.map ExecutorSpec.written)
      ++ optional "on_fail" (s.onFail.map ExecutorSpec.written)
      ++ ("kind", .str s.kind.name) :: s.body.writtenFields

end StepSpec

namespace Plan

/-- A plan. -/
def written (p : Plan) : Json :=
  .obj <|
    ("name", .str p.name) :: optional "prompt" (p.prompt.map .str)
      ++ (if p.seed.isEmpty then [] else [("store", p.seed.snapshot)])
      ++ [("steps", .arr (p.steps.map StepSpec.written))]

/-- A plan as a value. -/
def toJson (p : Plan) : Json := p.written.sorted

end Plan
end Workplan
