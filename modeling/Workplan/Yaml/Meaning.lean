import Workplan.Yaml.Node
import Workplan.Yaml.Resolution

/-!
# Documents of nodes

A source becomes a document by putting the target of each alias in its place.  A part that
is nested too deeply, or reached through too many aliases, becomes unreadable: aliases can
describe documents without end.
-/

namespace Workplan.Yaml

/-- How deep collections may be nested. -/
def maxDepth : Nat := 128

/-- A part with a mark, if its tag is local. -/
def withMark (tag : Option String) (d : Document) : Document :=
  match tag with
  | some t => if isLocalTag t then .marked t d else d
  | none => d

/-- The name that paths show for an entry with the given key. -/
def label : Node → Option String
  | .scalar _ _ text => some text
  | _ => none

mutual

/-- The document of a node.  The first number is the recursion bound, the second how many
collections may still be opened, and the third how many aliases may still be followed. -/
def expand (s : Source) : Nat → Nat → Nat → Node → Document × Nat
  | 0, _, jumps, _ => (.unreadable, jumps)
  | _ + 1, _, jumps, .scalar tag style text =>
    (withMark tag (.scalar (readScalar tag style text)), jumps)
  | fuel + 1, depth, jumps, .reference number =>
    match jumps, s.target? number with
    | jumps + 1, some target => expand s fuel depth jumps target
    | jumps, _ => (.unreadable, jumps)
  | fuel + 1, depth, jumps, .list tag items =>
    match depth with
    | 0 => (.unreadable, jumps)
    | depth + 1 =>
      let (ds, jumps) := expandItems s fuel depth jumps items
      (withMark tag (.list ds), jumps)
  | fuel + 1, depth, jumps, .table tag entries =>
    match depth with
    | 0 => (.unreadable, jumps)
    | depth + 1 =>
      let (ds, jumps) := expandEntries s fuel depth jumps entries
      (withMark tag (.table ds), jumps)

def expandItems (s : Source) : Nat → Nat → Nat → List Node → List Document × Nat
  | 0, _, jumps, _ => ([.unreadable], jumps)
  | _ + 1, _, jumps, [] => ([], jumps)
  | fuel + 1, depth, jumps, n :: rest =>
    let (d, jumps) := expand s fuel depth jumps n
    let (ds, jumps) := expandItems s fuel depth jumps rest
    (d :: ds, jumps)

def expandEntries (s : Source) :
    Nat → Nat → Nat → List (Node × Node) → List (Option String × Document × Document) × Nat
  | 0, _, jumps, _ => ([(none, .unreadable, .unreadable)], jumps)
  | _ + 1, _, jumps, [] => ([], jumps)
  | fuel + 1, depth, jumps, (k, v) :: rest =>
    let (kd, jumps) := expand s fuel depth jumps k
    let (vd, jumps) := expand s fuel depth jumps v
    let (ds, jumps) := expandEntries s fuel depth jumps rest
    ((label k, kd, vd) :: ds, jumps)

end

/-- The document of a source.  At most a hundred aliases may be followed for each mark of
the written form. -/
def Source.toDocument (s : Source) : Document :=
  let widest := s.anchors.foldl (fun n a => n + a.node.size) s.size
  (expand s ((maxDepth + 2) * (widest + 2)) maxDepth (100 * s.size) s.root).1

/-- The document that a text holds; `none` if the text is not well formed. -/
def parse? (text : String) : Option Document := do
  let tokens ← Token.sequence? text
  let source ← Source.ofTokens? tokens
  return source.toDocument

/-! ## Plain data

A document holds plain data when all of it can be looked at and no table has a key twice. -/

/-- Equality of scalar values. -/
private def sameAtom : Atom → Atom → Bool
  | .float (.finite a), .float (.finite b) => a.numEq b
  | a, b => a == b

mutual

/-- Equality of parts, tables without regard to the order of entries. -/
def same : Document → Document → Bool
  | .scalar a, .scalar b =>
    match a.value, b.value with
    | .ok x, .ok y => sameAtom x y
    | _, _ => false
  | .list as, .list bs => sameItems as bs
  | .table as, .table bs => as.length == bs.length && sameEntries as bs
  | .marked m a, .marked n b => m == n && same a b
  | _, _ => false

def sameItems : List Document → List Document → Bool
  | [], [] => true
  | a :: as, b :: bs => same a b && sameItems as bs
  | _, _ => false

def sameEntries :
    List (Option String × Document × Document) →
      List (Option String × Document × Document) → Bool
  | [], _ => true
  | (_, k, v) :: rest, bs =>
    (bs.any fun e => same k e.2.1 && same v e.2.2) && sameEntries rest bs

end

/-- Whether no two keys are the same. -/
def distinctKeys : List Document → Bool
  | [] => true
  | k :: rest => !(rest.any (same k)) && distinctKeys rest

mutual

/-- Whether a document holds plain data. -/
def isPlainData : Document → Bool
  | .scalar s => match s.value with
    | .ok _ => true
    | .error _ => false
  | .list items => isPlainItems items
  | .table entries => isPlainEntries entries && distinctKeys (entries.map fun e => e.2.1)
  | .marked _ d => isPlainData d
  | .unreadable => false

def isPlainItems : List Document → Bool
  | [] => true
  | d :: rest => isPlainData d && isPlainItems rest

def isPlainEntries : List (Option String × Document × Document) → Bool
  | [] => true
  | (_, k, v) :: rest => isPlainData k && isPlainData v && isPlainEntries rest

end

end Workplan.Yaml
