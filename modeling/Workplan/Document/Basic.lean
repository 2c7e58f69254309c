import Workplan.Document.Cause

/-!
# Documents

A `Document` is what a text of either notation says before any type is asked of it.  A
scalar may be read in two ways: directly as text, where its notation allows that, or by
its value.  Parts whose type depends on a field that may come later are first held back as
`Content`, where every scalar has been read by its value.
-/

namespace Workplan

open Document

/-- The value of a scalar. -/
inductive Atom where
  | unit
  | bool (b : Bool)
  | int (n : WordInt)
  | float (f : Double.Extended)
  | text (s : String)
deriving DecidableEq

/-- How a message names an atom. -/
def Atom.found : Atom → Found
  | unit => .unit
  | bool b => .bool b
  | int n => .int n.val
  | float f => .float f
  | text s => .text s

namespace Document

/-- The readings of a scalar. -/
structure Scalar where
  /-- The text it gives where text is wanted. -/
  text : Option String
  /-- Whether it stands for nothing where a value may be missing. -/
  absent : Except Cause Bool
  /-- Whether it stands for an empty list or table where one of those is wanted. -/
  vacant : Bool
  /-- Its value. -/
  value : Except Cause Atom

end Document

/-- A document, or a part of one. -/
inductive Document where
  | scalar (s : Document.Scalar)
  | list (items : List Document)
  /-- Entries in document order: the name to show in paths, the key and the value. -/
  | table (entries : List (Option String × Document × Document))
  /-- A part with a mark of its own. -/
  | marked (mark : String) (part : Document)
  | unreadable

/-- Data held back until its type is known. -/
inductive Content where
  | atom (a : Atom)
  | list (items : List Content)
  | table (entries : List (Content × Content))

namespace Content

/-- A text. -/
def text (s : String) : Content := atom (.text s)

/-- How a message names the data. -/
def found : Content → Found
  | atom a => a.found
  | list _ => .list
  | table _ => .table

mutual

/-- The structured value of some data.  Doubles that are not finite have none of their own
and become null; the names of a table must be texts. -/
def toJson : Content → Except Cause Json
  | atom .unit => .ok .null
  | atom (.bool b) => .ok (.bool b)
  | atom (.int n) => .ok (.int n)
  | atom (.float (.finite d)) => .ok (.double d)
  | atom (.float _) => .ok .null
  | atom (.text s) => .ok (.str s)
  | list items => return .arr (← toJsonItems items)
  | table entries => return .ofEntries (← toJsonEntries true entries)

def toJsonItems : List Content → Except Cause (List Json)
  | [] => .ok []
  | c :: rest => return (← toJson c) :: (← toJsonItems rest)

def toJsonEntries (first : Bool) :
    List (Content × Content) → Except Cause (List (String × Json))
  | [] => .ok []
  | (atom (.text name), value) :: rest =>
    return (name, ← toJson value) :: (← toJsonEntries false rest)
  | (key, _) :: _ =>
    .error (.wrongType key.found (if first then "a string key" else "a string"))

end

mutual

/-- A structured value as data. -/
def ofJson : Json → Content
  | .null => atom .unit
  | .bool b => atom (.bool b)
  | .int n => atom (.int n)
  | .double d => atom (.float (.finite d))
  | .str s => text s
  | .arr items => list (ofJsonItems items)
  | .obj fields => table (ofJsonFields fields)

def ofJsonItems : List Json → List Content
  | [] => []
  | v :: rest => ofJson v :: ofJsonItems rest

def ofJsonFields : List (String × Json) → List (Content × Content)
  | [] => []
  | (name, v) :: rest => (text name, ofJson v) :: ofJsonFields rest

end

end Content

namespace Document

/-- A text as a scalar. -/
def ofText (s : String) : Document :=
  scalar ⟨some s, .ok false, false, .ok (.text s)⟩

/-- A scalar that is no text. -/
def ofAtom (a : Atom) : Document :=
  scalar ⟨none, .ok (a == .unit), false, .ok a⟩

mutual

/-- A structured value as a document. -/
def ofJson : Json → Document
  | .null => ofAtom .unit
  | .bool b => ofAtom (.bool b)
  | .int n => ofAtom (.int n)
  | .double d => ofAtom (.float (.finite d))
  | .str s => ofText s
  | .arr items => list (ofJsonItems items)
  | .obj fields => table (ofJsonFields fields)

def ofJsonItems : List Json → List Document
  | [] => []
  | v :: rest => ofJson v :: ofJsonItems rest

def ofJsonFields : List (String × Json) → List (Option String × Document × Document)
  | [] => []
  | (name, v) :: rest => (some name, ofText name, ofJson v) :: ofJsonFields rest

end

/-- The document without the marks around it. -/
def unmarked : Document → Document
  | marked _ part => unmarked part
  | d => d

/-- How a message names a document that has the wrong type. -/
def found (d : Document) : Except Cause Found :=
  match d.unmarked with
  | scalar s => s.value.map Atom.found
  | list _ => .ok .list
  | table _ => .ok .table
  | marked _ _ => .ok .mark
  | unreadable => .error .unreadable

/-- Fails because a document has another type than the one wanted. -/
def wrongType {α : Type} (path : Path) (wanted : String) (d : Document) :
    Except Failure α :=
  match d.found with
  | .ok found => failAt path (.wrongType found wanted)
  | .error cause => failAt path cause

mutual

/-- Holds a part back as data. -/
def toContent (path : Path) : Document → Except Failure Content
  | scalar s => (placed path s.value).map .atom
  | list items => return .list (← toContentItems path 0 items)
  | table entries => return .table (← toContentEntries path entries)
  | marked _ _ => failAt path .markedData
  | unreadable => failAt path .unreadable

def toContentItems (path : Path) (index : Nat) :
    List Document → Except Failure (List Content)
  | [] => .ok []
  | d :: rest =>
    return (← toContent (path.item index) d) :: (← toContentItems path (index + 1) rest)

def toContentEntries (path : Path) :
    List (Option String × Document × Document) → Except Failure (List (Content × Content))
  | [] => .ok []
  | (name, key, value) :: rest =>
    return (← toContent path key, ← toContent (path.part name) value)
      :: (← toContentEntries path rest)

end

mutual

/-- The structured value of a part that is read in place.  Names are read as text. -/
def toJson (path : Path) : Document → Except Failure Json
  | scalar s =>
    match s.value with
    | .ok a => placed path (Content.atom a).toJson
    | .error cause => failAt path cause
  | list items => return .arr (← toJsonItems path 0 items)
  | table entries => return .ofEntries (← toJsonEntries path true entries)
  | marked _ _ => failAt path (.wrongType .mark "any valid JSON value")
  | unreadable => failAt path .unreadable

def toJsonItems (path : Path) (index : Nat) : List Document → Except Failure (List Json)
  | [] => .ok []
  | d :: rest =>
    return (← toJson (path.item index) d) :: (← toJsonItems path (index + 1) rest)

def toJsonEntries (path : Path) (first : Bool) :
    List (Option String × Document × Document) → Except Failure (List (String × Json))
  | [] => .ok []
  | (name, key, value) :: rest => do
    let keyText ← match key.unmarked with
      | scalar ⟨some s, _, _, _⟩ => .ok s
      | other => wrongType path (if first then "a string key" else "a string") other
    return (keyText, ← toJson (path.part name) value) :: (← toJsonEntries path false rest)

end

end Document
end Workplan
