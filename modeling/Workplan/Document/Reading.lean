import Workplan.Document.Basic

/-!
# Reading typed values

Readers in place take a document and its path; readers of held-back data take `Content`
and fail without a place, which the reader around them adds.  A record is read entry by
entry, so that the first entry at fault decides the failure, and a missing field is
reported after that.
-/

namespace Workplan.Document

/-! ## In place -/

/-- A text, as it is written. -/
def readText (path : Path) (d : Document) : Except Failure String :=
  match d.unmarked with
  | .scalar ⟨some s, _, _, _⟩ => .ok s
  | _ => wrongType path "a string" d

/-- A value that may be missing. -/
def readOption {α : Type} (read : Document → Except Failure α)
    (path : Path) (d : Document) :
    Except Failure (Option α) :=
  match d with
  | .scalar ⟨_, .error cause, _, _⟩ => failAt path cause
  | .scalar ⟨_, .ok true, _, _⟩ => .ok none
  | .unreadable => failAt path .unreadable
  | d => (read d).map some

/-- A truth value. -/
def readBool (path : Path) (d : Document) : Except Failure Bool :=
  match d with
  | .scalar ⟨_, _, _, .ok (.bool b)⟩ => .ok b
  | d => wrongType path "a boolean" d

/-- An unsigned word given by an atom. -/
def wordOfAtom (a : Atom) : Except Cause UInt64 :=
  match a with
  | .int n =>
    match n.toWord? with
    | some w => .ok w
    | none => .error (.wrongValue a.found "u64")
  | a => .error (.wrongType a.found "u64")

/-- An unsigned word. -/
def readWord (path : Path) (d : Document) : Except Failure UInt64 :=
  match d with
  | .scalar ⟨_, _, _, .ok a⟩ => placed path (wordOfAtom a)
  | d => wrongType path "u64" d

/-- The items of a list. -/
def readItems (path : Path) (wanted : String) (d : Document) :
    Except Failure (List Document) :=
  match d.unmarked with
  | .list items => .ok items
  | .scalar ⟨_, _, true, _⟩ => .ok []
  | _ => wrongType path wanted d

/-- Reads every item of a list at its own path. -/
def readEach {α : Type} (read : Path → Document → Except Failure α)
    (path : Path) (index : Nat) :
    List Document → Except Failure (List α)
  | [] => .ok []
  | d :: rest =>
    return (← read (path.item index) d) :: (← readEach read path (index + 1) rest)

/-- The entries of a table. -/
def readEntries (path : Path) (wanted : String) (d : Document) :
    Except Failure (List (Option String × Document × Document)) :=
  match d.unmarked with
  | .table entries => .ok entries
  | .scalar ⟨_, _, true, _⟩ => .ok []
  | _ => wrongType path wanted d

/-- The name of a field. -/
def readName (path : Path) (key : Document) : Except Failure String :=
  match key.unmarked with
  | .scalar ⟨some s, _, _, _⟩ => .ok s
  | _ => wrongType path "field identifier" key

/-- Reads the entries of a record, each field by its name, and drops entries of other
names.  No field may occur twice. -/
def readFields {σ : Type} (read : (name : String) → Path → Document →
    Option (Except Failure σ)) (path : Path) (seen : List String) :
    List (Option String × Document × Document) → Except Failure (List (String × σ))
  | [] => .ok []
  | (label, key, value) :: rest => do
    let name ← readName path key
    match read name (path.part label) value with
    | none => readFields read path seen rest
    | some result =>
      if name ∈ seen then failAt path (.duplicateField name)
      else
        let v ← result
        return (name, v) :: (← readFields read path (name :: seen) rest)

/-- Reads fields by position, each at its own path. -/
def readPositions {σ : Type} (read : (name : String) → Path → Document →
    Option (Except Failure σ))
    (index : Nat) : List String → List Document → Except Failure (List (String × σ))
  | name :: names, d :: rest =>
    match read name (Path.item [] index) d with
    | some result =>
      return (name, ← result) :: (← readPositions read (index + 1) names rest)
    | none => readPositions read (index + 1) names rest
  | _, _ => .ok []

end Document

/-! ## Held back -/

namespace Content

open Document (Cause)

/-- A text. -/
def readText : Content → Except Cause String
  | atom (.text s) => .ok s
  | c => .error (.wrongType c.found "a string")

/-- An unsigned word. -/
def readWord : Content → Except Cause UInt64
  | atom a => Document.wordOfAtom a
  | c => .error (.wrongType c.found "u64")

/-- The items of a list. -/
def readItems : Content → Except Cause (List Content)
  | list items => .ok items
  | c => .error (.wrongType c.found "a sequence")

/-- A value that may be missing. -/
def readOption {α : Type} (read : Content → Except Cause α) :
    Content → Except Cause (Option α)
  | atom .unit => .ok none
  | c => (read c).map some

/-- The variant that a tag selects: by its name, or by its position. -/
def readVariant {τ : Type} (known : List (String × τ)) : Content → Except Cause τ
  | atom (.text s) =>
    match known.lookup s with
    | some variant => .ok variant
    | none => .error (.unknownVariant s (known.map Prod.fst))
  | atom (.int n) =>
    if n.val < 0 then .error (.wrongType (.int n.val) "variant identifier")
    else
      match known[n.val.toNat]? with
      | some (_, variant) => .ok variant
      | none =>
        .error
          (.wrongValue (.int n.val) ("variant index 0 <= i < " ++ toString known.length))
  | c => .error (.wrongType c.found "variant identifier")

/-- The field that a key selects, if it is one of the known fields: a name, or its
position. -/
def readField (known : List String) : Content → Except Cause (Option String)
  | atom (.text s) => .ok (if s ∈ known then some s else none)
  | atom (.int n) =>
    if n.val < 0 then .error (.wrongType (.int n.val) "field identifier")
    else .ok known[n.val.toNat]?
  | c => .error (.wrongType c.found "field identifier")

/-- Reads the entries of a record, each known field by its own reader, and drops the
others.  No field may occur twice. -/
def readFields {σ : Type} (readers : List (String × (Content → Except Cause σ)))
    (seen : List String) : List (Content × Content) → Except Cause (List (String × σ))
  | [] => .ok []
  | (key, value) :: rest => do
    match ← readField (readers.map Prod.fst) key with
    | none => readFields readers seen rest
    | some name =>
      match readers.lookup name with
      | none => readFields readers seen rest
      | some read =>
        if name ∈ seen then .error (.duplicateField name)
        else
          let v ← read value
          return (name, v) :: (← readFields readers (name :: seen) rest)

/-- Reads the fields of a record from their positions, as many as there are. -/
def readPositions {σ : Type} :
    List (String × (Content → Except Cause σ)) → List Content →
      Except Cause (List (String × σ))
  | (name, read) :: readers, c :: rest =>
    return (name, ← read c) :: (← readPositions readers rest)
  | _, _ => .ok []

end Content
end Workplan
