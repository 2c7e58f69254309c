import Workplan.Document.Basic

/-!
# TOML tables

What a TOML document describes, and the rule by which its lines add up: no key is
defined twice, a table is defined by at most one header, and a table made by dotted keys
belongs to the lines that made it.
-/

namespace Workplan.Toml

/-- How a table came about. -/
inductive Origin where
  /-- By a header of its own. -/
  | header
  /-- By a header of a table inside it. -/
  | implied
  /-- By dotted keys. -/
  | dotted
deriving DecidableEq

/-- What a key stands for. -/
inductive Item where
  | text (s : String)
  | int (n : WordInt)
  | float (f : Double.Extended)
  | bool (b : Bool)
  /-- A date, a time, or both. -/
  | moment (written : String)
  | list (items : List Item)
  /-- A table in braces, which nothing can be added to. -/
  | inline (entries : List (String × Item))
  | table (origin : Origin) (entries : List (String × Item))
  /-- Tables with one header, the latest first. -/
  | tables (entries : List (List (String × Item)))

/-- The entries of a table. -/
abbrev Entries := List (String × Item)

namespace Entries

/-- The item of a key. -/
def get? (key : String) (es : Entries) : Option Item :=
  es.lookup key

/-- Replaces the item of a key, or adds it at the end. -/
def put (key : String) (item : Item) : Entries → Entries
  | [] => [(key, item)]
  | (k, old) :: rest =>
    if k == key then (k, item) :: rest else (k, old) :: put key item rest

/-- Changes the table that a path of keys leads to; missing tables are made on the way.
Dotted keys may lead only through tables that have no header of their own. -/
def update (dotted : Bool) (change : Origin → Entries → Option Entries) :
    List String → Origin → Entries → Option Entries
  | [], origin, es => change origin es
  | key :: path, _, es =>
    match es.get? key with
    | none => do
      let origin := if dotted then Origin.dotted else Origin.implied
      let inner ← update dotted change path origin []
      return es.put key (.table origin inner)
    | some (.table origin inner) =>
      if dotted && origin == .header then none
      else do
        let inner ← update dotted change path origin inner
        return es.put key (.table origin inner)
    -- A path into tables with one header means the latest of them.
    | some (.tables (last :: others)) => do
      let last ← update dotted change path .header last
      return es.put key (.tables (last :: others))
    | some _ => none

/-- Gives a key its item, at the end of a path of dotted keys.  Without a path the key
goes into the table itself, with one only into a table made by dotted keys. -/
def define (path : List String) (key : String) (item : Item) (es : Entries) :
    Option Entries :=
  update true (fun origin inner =>
    if (origin == .dotted) == path.isEmpty then none
    else if (inner.get? key).isSome then none
    else some (inner ++ [(key, item)])) path .header es

/-- Opens the table of a header. -/
def openTable (path : List String) (key : String) (es : Entries) : Option Entries :=
  update false (fun _ inner =>
    match inner.get? key with
    | none => some (inner ++ [(key, .table .header [])])
    -- A table that has only been passed through may still get its header, once.
    | some (.table .implied old) => some (inner.put key (.table .header old))
    | some _ => none) path .implied es

/-- Opens a further table of a header in double brackets. -/
def openFurther (path : List String) (key : String) (es : Entries) : Option Entries :=
  update false (fun _ inner =>
    match inner.get? key with
    | none => some (inner ++ [(key, .tables [[]])])
    | some (.tables others) => some (inner.put key (.tables ([] :: others)))
    | some _ => none) path .implied es

/-- Gives a key its item inside the table that the last header opened. -/
def defineUnder (header : List String) (path : List String) (key : String) (item : Item)
    (es : Entries) : Option Entries :=
  update false (fun _ inner => define path key item inner) header .implied es

end Entries

mutual

/-- The document of an item.  A date or time is a record of its own, neither a text
nor a number. -/
def Item.toDocument : Item → Document
  | .text s => .ofText s
  | .int n => .ofAtom (.int n)
  | .float f => .ofAtom (.float f)
  | .bool b => .ofAtom (.bool b)
  | .moment s => .table [(some "moment", .ofText "moment", .ofText s)]
  | .list items => .list (itemsToDocuments items)
  | .inline entries => .table (entriesToDocument entries)
  | .table _ entries => .table (entriesToDocument entries)
  | .tables rows => .list (rowsToDocuments rows)

def itemsToDocuments : List Item → List Document
  | [] => []
  | i :: rest => i.toDocument :: itemsToDocuments rest

def entriesToDocument :
    List (String × Item) → List (Option String × Document × Document)
  | [] => []
  | (key, i) :: rest => (some key, .ofText key, i.toDocument) :: entriesToDocument rest

def rowsToDocuments : List (List (String × Item)) → List Document
  | [] => []
  | row :: rest => .table (entriesToDocument row) :: rowsToDocuments rest

end

end Workplan.Toml
