import Workplan.Executor.Basic

/-!
# Talking to a launched program

A launched program has three pipes to the one that launched it: it reads the rendered
input from one of them and writes its output and its complaints to the other two.  The
launching side writes the input and closes the pipe after it, or gives up when it can no
longer be written, and collects both outputs until they end, all at the same time.  Nobody
else holds an end of these pipes.

A pipe holds only so many bytes, and more than one party may be able to move, so an
exchange is a sequence of *moves* of which any may come next.  The program is arbitrary:
what it does next may depend on all that it has read and been told so far.
-/

namespace Workplan.Pipes

universe u

/-- The two pipes that a program writes to. -/
inductive OutStream where
  | stdout
  | stderr
deriving DecidableEq

/-- A pipe, with what has gone into it and what has come out of it. -/
structure Pipe where
  capacity : Nat
  /-- What has been written to it so far. -/
  sent : List UInt8 := []
  /-- What has been read from it so far. -/
  received : List UInt8 := []
  /-- What lies in it. -/
  content : List UInt8 := []
  /-- Whether the end for writing is open. -/
  writable : Bool := true
  /-- Whether the end for reading is open. -/
  readable : Bool := true
  /-- Whether its reader has been told that nothing more will come. -/
  ended : Bool := false
  positive : 0 < capacity
  fits : content.length ≤ capacity

namespace Pipe

/-- A pipe that nobody has used. -/
def fresh (capacity : { n : Nat // 0 < n }) : Pipe where
  capacity := capacity.val
  positive := capacity.property
  fits := Nat.zero_le _

/-- How many more bytes it can hold. -/
def room (p : Pipe) : Nat :=
  p.capacity - p.content.length

/-- The pipe with more bytes in it. -/
def put (p : Pipe) (bytes : List UInt8) (h : bytes.length ≤ p.room) : Pipe :=
  { p with
    sent := p.sent ++ bytes
    content := p.content ++ bytes
    fits := by
      have := p.fits
      unfold room at h
      rw [List.length_append]
      omega }

/-- The pipe without its first bytes. -/
def draw (p : Pipe) (n : Nat) : Pipe :=
  { p with
    received := p.received ++ p.content.take n
    content := p.content.drop n
    fits := by
      have := p.fits
      rw [List.length_drop]
      omega }

/-- The pipe once its writer has closed it. -/
def closeWriter (p : Pipe) : Pipe :=
  { p with writable := false }

/-- The pipe once its reader has closed it. -/
def closeReader (p : Pipe) : Pipe :=
  { p with readable := false }

/-- The pipe once its reader knows that nothing more will come. -/
def finish (p : Pipe) : Pipe :=
  { p with ended := true }

/-- Writes the first `n` of some bytes, and tells how many they are; or tells that the
pipe is closed at either end.  At least one byte is written if there is any, and a writer
for whose bytes there is no room has to wait, which is no result at all. -/
def write (p : Pipe) (bytes : List UInt8) (n : Nat) : Option (Option Nat × Pipe) :=
  if p.writable && p.readable then
    if h : n ≤ bytes.length ∧ n ≤ p.room ∧ (n = 0 → bytes = []) then
      some (some n, p.put (bytes.take n) (by rw [List.length_take]; omega))
    else none
  else some (none, p)

/-- Reads the first `n` bytes that lie in the pipe, at least one and at most `more + 1` of
them; no bytes are the end of what will come.  Nothing is read from a pipe that its reader
has closed, and the reader of an empty pipe that is open for writing has to wait. -/
def read (p : Pipe) (more n : Nat) : Option (Option (List UInt8) × Pipe) :=
  if p.readable then
    if p.content = [] then
      if p.writable then none else some (some [], p.finish)
    else if 0 < n ∧ n ≤ more + 1 ∧ n ≤ p.content.length then
      some (some (p.content.take n), p.draw n)
    else none
  else some (none, p)

end Pipe

/-- What a program does next, and where it then stands. -/
inductive Act (σ : Type u) where
  | exit (status : ExitStatus)
  /-- Something that has nothing to do with the pipes. -/
  | work (next : σ)
  /-- Reads at most `more + 1` bytes of the input. -/
  | read (more : Nat) (next : Option (List UInt8) → σ)
  | write (stream : OutStream) (bytes : List UInt8) (next : Option Nat → σ)
  | closeInput (next : σ)
  | closeOutput (stream : OutStream) (next : σ)

/-- A program, by what it does wherever it may stand. -/
abbrev Program (σ : Type u) := σ → Act σ

/-- How far a launched program has come. -/
inductive Child (σ : Type u) where
  | running (place : σ)
  | exited (status : ExitStatus)

/-- An exchange with a launched program. -/
structure State (σ : Type u) where
  child : Child σ
  /-- What is still to be written of the input, until its pipe is closed. -/
  pending : Option (List UInt8)
  input : Pipe
  /-- The pipes for the outputs; what has been received from them is what has been
  collected. -/
  output : OutStream → Pipe

/-- One move of an exchange.  Where bytes are written or read, it is left open how many. -/
inductive Move where
  | child (n : Nat)
  /-- The launching side goes on writing the input. -/
  | feed (n : Nat)
  /-- The launching side goes on collecting an output. -/
  | drain (stream : OutStream) (n : Nat)

namespace State

variable {σ : Type u}

/-- A program that has just been launched. -/
def start (bytes : List UInt8) (first : σ) (inputCapacity : { n : Nat // 0 < n })
    (outputCapacity : OutStream → { n : Nat // 0 < n }) : State σ where
  child := .running first
  pending := some bytes
  input := .fresh inputCapacity
  output := fun stream => .fresh (outputCapacity stream)

/-- The exchange with another pipe for an output. -/
def setOutput (s : State σ) (stream : OutStream) (p : Pipe) : State σ :=
  { s with output := fun other => if other = stream then p else s.output other }

/-- The program goes on.  Its ends of the pipes are closed when it exits. -/
def childMove (program : Program σ) (s : State σ) (n : Nat) : Option (State σ) :=
  match s.child with
  | .exited _ => none
  | .running place =>
    match program place with
    -- An exit closes every end of a pipe that the program holds.
    | .exit status =>
      some { s with
        child := .exited status
        input := s.input.closeReader
        output := fun stream => (s.output stream).closeWriter }
    | .work next => some { s with child := .running next }
    | .read more next =>
      (s.input.read more n).map fun (got, input) =>
        { s with child := .running (next got), input }
    | .write stream bytes next =>
      ((s.output stream).write bytes n).map fun (told, p) =>
        { s.setOutput stream p with child := .running (next told) }
    | .closeInput next =>
      some { s with child := .running next, input := s.input.closeReader }
    | .closeOutput stream next =>
      some { s.setOutput stream (s.output stream).closeWriter with child := .running next }

/-- The pipe of the input is closed, whether or not all has been written. -/
def stopFeeding (s : State σ) : State σ :=
  { s with pending := none, input := s.input.closeWriter }

/-- The input is written, and its pipe is closed when nothing of it is left or it cannot
be written. -/
def feedMove (s : State σ) (n : Nat) : Option (State σ) :=
  match s.pending with
  | none => none
  | some [] => some s.stopFeeding
  | some (b :: rest) =>
    (s.input.write (b :: rest) n).map fun
      | (none, _) => s.stopFeeding
      | (some k, input) => { s with pending := some ((b :: rest).drop k), input }

/-- An output is collected until it ends. -/
def drainMove (s : State σ) (stream : OutStream) (n : Nat) : Option (State σ) :=
  if (s.output stream).ended then none
  else ((s.output stream).read n n).map fun (_, p) => s.setOutput stream p

/-- Takes a move, if it can be taken. -/
def take (program : Program σ) (s : State σ) : Move → Option (State σ)
  | .child n => s.childMove program n
  | .feed n => s.feedMove n
  | .drain stream n => s.drainMove stream n

/-- Takes moves one after another. -/
def follow (program : Program σ) (s : State σ) : List Move → Option (State σ)
  | [] => some s
  | m :: ms => (s.take program m).bind fun next => next.follow program ms

/-- What is left of the program once the exchange is over: it has exited, nothing is left
to write, and both outputs have been collected to their ends. -/
def exit? (s : State σ) : Option Exit :=
  match s.child with
  | .running _ => none
  | .exited status =>
    if s.pending.isNone && (s.output .stdout).ended && (s.output .stderr).ended then
      some ⟨status, (s.output .stdout).received, (s.output .stderr).received⟩
    else none

/-- Whether an exchange is over. -/
def isOver (s : State σ) : Bool :=
  s.exit?.isSome

end State
end Workplan.Pipes
