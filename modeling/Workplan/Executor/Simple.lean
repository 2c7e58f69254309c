import Workplan.Executor.Basic

/-!
# Small executors

Executors for workflows that are built in code rather than read from a plan: each does one
thing, and two of them can be joined.
-/

namespace Workplan

/-- What a small executor does. -/
inductive Behaviour where
  /-- Returns its input. -/
  | echo
  /-- Returns a fixed value. -/
  | const (value : Json)
  /-- Adds a suffix to a text; any other input counts as the empty text. -/
  | append (suffix : String)
  /-- Puts its input into an object. -/
  | wrap
  /-- Counts up under a key. -/
  | count (key : String)
  /-- Returns the value of a key, or null. -/
  | get (key : String)
  /-- Writes a value under a key and returns its input. -/
  | set (key : String) (value : Json)
  /-- Notes its name and input in the trace. -/
  | trace
  /-- Waits, then returns its input. -/
  | delay (ms : Nat)
  /-- Cancels the run or loop that is going on. -/
  | cancel
  /-- Always fails. -/
  | fail (error : ExecutorError)
  /-- Fails on one input. -/
  | failIf (value : Json) (message : String)
  /-- Panics, with a report that names it. -/
  | panic

namespace Behaviour

/-- What an executor with a name does with an input, if it holds a handle on a store. -/
def task (store : StoreHandle) (name : String) (input : Json) : Behaviour → Task
  | echo => .value input
  | const v => .value v
  | append suffix => .value (.str (input.text?.getD "" ++ suffix))
  | wrap => .value (.ofEntries [("got", input)])
  | count key => .read store key fun v =>
      let n := Json.ofWord (((v.bind Json.word?).getD 0) + 1)
      .write store key n (.value n)
  | get key => .read store key fun v => .value (v.getD .null)
  | set key v => .write store key v (.value input)
  | trace => .trace name input (.value input)
  | delay ms => .sleep ms (.value input)
  | cancel => .cancel (.value input)
  | fail error => .fail error
  | failIf v message => if input.alike v then .fail (.failed message) else .value input
  | panic => .panic (name ++ " panicked")

end Behaviour

namespace Executor

/-- The executor with a given behaviour and a handle on a store; what it ends with goes on
to a second executor, if there is one. -/
def ofBehaviour (serial : Nat) (name : String) (b : Behaviour) (next : Option Executor)
    (store : StoreHandle := {}) : Executor :=
  ⟨serial, name, fun input =>
    match next with
    | none => b.task store name input
    | some e => (b.task store name input).andThen e.run⟩

end Executor
end Workplan
