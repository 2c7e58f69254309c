import Workplan.Plan.Basic

/-!
# Valid plans

The rules that the shape of a plan cannot express: a name that is more than blanks, one
source of items for each iterate step, and a program that is more than blanks for each
command.  `validate` reports the first violation: the name before the steps, earlier steps
before later ones, and inside a step the items before the programs.
-/

namespace Workplan

/-- A broken rule.  Steps are counted from one. -/
inductive Violation where
  | emptyName
  | iterateSource (step : Nat)
  | emptyProgram (step : Nat)
deriving DecidableEq

namespace Violation

/-- The wording of a violation. -/
def message : Violation → String
  | emptyName => "plan name must not be empty"
  | iterateSource step =>
    "step " ++ toString step ++ ": iterate must set exactly one of `items` or `key`"
  | emptyProgram step => "step " ++ toString step ++ ": command program must not be empty"

end Violation

namespace ExecutorSpec

/-- Whether an executor is a command without a program. -/
def lacksProgram : ExecutorSpec → Bool
  | command program _ => Text.isAllBlank program
  | _ => false

end ExecutorSpec

namespace StepSpec

/-- Whether an iterate step names no source of items, or two. -/
def lacksSource (s : StepSpec) : Bool :=
  match s.body with
  | .iterate items key _ => items.isSome == key.isSome
  | _ => false

/-- The first rule that a step breaks. -/
def violation? (number : Nat) (s : StepSpec) : Option Violation :=
  if s.lacksSource then some (.iterateSource number)
  else if s.executors.any ExecutorSpec.lacksProgram then some (.emptyProgram number)
  else none

end StepSpec

namespace Plan

/-- The first rule broken by a list of steps, counted from the given number. -/
def stepViolation? (number : Nat) : List StepSpec → Option Violation
  | [] => none
  | s :: rest =>
    match s.violation? number with
    | some v => some v
    | none => stepViolation? (number + 1) rest

/-- The first rule that a plan breaks. -/
def violation? (p : Plan) : Option Violation :=
  if Text.isAllBlank p.name then some .emptyName else stepViolation? 1 p.steps

/-- Accepts a plan that breaks no rule. -/
def validate (p : Plan) : Except Violation Unit :=
  match p.violation? with
  | some v => .error v
  | none => .ok ()

end Plan
end Workplan
