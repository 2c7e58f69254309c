import Workplan.Yaml.Tokens

/-!
# Nodes

The tree that a sequence of tokens describes: scalars, lists and tables, with the tags
they were given and with aliases still unresolved.  A text holds at most one document.

An alias refers to the anchor that was last given its name.  Anchors are counted by the
names known when they appear, so that an anchor that reuses a name shares its number with
the next new name; of several anchors with one number the one that starts last is meant.
-/

namespace Workplan.Yaml

/-- A node. -/
inductive Node where
  | scalar (tag : Option String) (style : Style) (text : String)
  | list (tag : Option String) (items : List Node)
  | table (tag : Option String) (entries : List (Node × Node))
  | reference (anchor : Nat)

namespace Node

/-- The node of a place where nothing stands. -/
def empty : Node := scalar none .plain ""

mutual

/-- Number of marks in the written form: one for a scalar or alias, two for the ends of a
collection. -/
def size : Node → Nat
  | scalar _ _ _ => 1
  | reference _ => 1
  | list _ items => 2 + sizeItems items
  | table _ entries => 2 + sizeEntries entries

def sizeItems : List Node → Nat
  | [] => 0
  | n :: rest => size n + sizeItems rest

def sizeEntries : List (Node × Node) → Nat
  | [] => 0
  | (k, v) :: rest => size k + size v + sizeEntries rest

end

end Node

/-- An anchored node: its number, the order in which it started, and the node. -/
structure Anchor where
  number : Nat
  start : Nat
  node : Node

/-- How far the tokens of a text have been turned into nodes. -/
structure Build where
  tokens : List Token
  /-- The numbers of the anchor names, latest first. -/
  names : List (String × Nat)
  /-- Number of different anchor names. -/
  nameCount : Nat
  starts : Nat
  anchors : List Anchor
  /-- What the handles of tags stand for. -/
  handles : List (String × String)

namespace Build

/-- The next token. -/
def peek (b : Build) : Option Token :=
  b.tokens.head?

/-- Moves over a token. -/
def next (b : Build) : Build :=
  { b with tokens := b.tokens.drop 1 }

/-- Whether the next token is one of the given ones, or there is none. -/
def atOneOf (ts : List Token) (b : Build) : Bool :=
  b.peek.all (ts.contains ·)

/-- Gives an anchor its number. -/
def register (name : String) (b : Build) : Nat × Build :=
  let number := b.nameCount
  (number, { b with
    names := (name, number) :: b.names
    nameCount := if (b.names.lookup name).isSome then b.nameCount else b.nameCount + 1
    starts := b.starts + 1 })

/-- The full form of a tag. -/
def expandTag (handle suffix : String) (b : Build) : Option String :=
  if handle.isEmpty then some suffix
  else (b.handles.lookup handle).map (· ++ suffix)

/-- What stands in front of a node: an anchor and a tag, in either order. -/
def properties (b : Build) : Option (Option String × Option String × Build) :=
  match b.tokens with
  | .anchor name :: .tag handle suffix :: rest => do
    let tag ← b.expandTag handle suffix
    some (some name, some tag, { b with tokens := rest })
  | .anchor name :: rest => some (some name, none, { b with tokens := rest })
  | .tag handle suffix :: .anchor name :: rest => do
    let tag ← b.expandTag handle suffix
    some (some name, some tag, { b with tokens := rest })
  | .tag handle suffix :: rest => do
    let tag ← b.expandTag handle suffix
    some (none, some tag, { b with tokens := rest })
  | _ => some (none, none, b)

/-- A scalar node.  The tag `!` says no more than no tag. -/
def scalarNode (tag : Option String) (style : Style) (text : String) : Node :=
  .scalar (if tag == some "!" then none else tag) style text

mutual

/-- A node.  `block` allows block collections, and `indentless` lists whose entries stand
in the column of the key before them.  The fuel bounds the number of tokens. -/
def node (block indentless : Bool) : Nat → Build → Option (Node × Build)
  | 0, _ => none
  | fuel + 1, b =>
    match b.peek with
    | some (.reference name) => do
      let number ← b.names.lookup name
      some (.reference number, b.next)
    | _ => do
      let (anchor, tag, b) ← b.properties
      let start := b.starts
      -- The name is taken before the node is read, so that aliases inside the node
      -- may use it.
      let (number, b) := match anchor with
        | some name => b.register name
        | none => (0, b)
      let (n, b) ← match b.peek with
        | some .blockEntry => do
          if indentless then
            let (items, b) ← indentlessItems fuel [] b
            some (Node.list tag items, b)
          else if anchor.isSome || tag.isSome then some (.scalar tag .plain "", b)
          else none
        | some (.scalar text style) => some (scalarNode tag style text, b.next)
        | some .flowListStart => do
          let (items, b) ← flowItems fuel true [] b.next
          some (.list tag items, b)
        | some .flowTableStart => do
          let (entries, b) ← flowEntries fuel true [] b.next
          some (.table tag entries, b)
        | some .blockListStart =>
          if block then do
            let (items, b) ← blockItems fuel [] b.next
            some (.list tag items, b)
          else if anchor.isSome || tag.isSome then some (.scalar tag .plain "", b)
          else none
        | some .blockTableStart =>
          if block then do
            let (entries, b) ← blockEntries fuel [] b.next
            some (.table tag entries, b)
          else if anchor.isSome || tag.isSome then some (.scalar tag .plain "", b)
          else none
        | _ => if anchor.isSome || tag.isSome then some (.scalar tag .plain "", b) else none
      match anchor with
      | some _ => some (n, { b with anchors := ⟨number, start, n⟩ :: b.anchors })
      | none => some (n, b)

/-- A node, or an empty one if the next token is one of those that cannot start a node
here. -/
def nodeOrEmpty (block indentless : Bool) (ends : List Token) :
    Nat → Build → Option (Node × Build)
  | 0, _ => none
  | fuel + 1, b => if b.atOneOf ends then some (.empty, b) else node block indentless fuel b

/-- The entries of a block list. -/
def blockItems : Nat → List Node → Build → Option (List Node × Build)
  | 0, _, _ => none
  | fuel + 1, acc, b =>
    match b.peek with
    | some .blockEntry => do
      let (n, b) ← nodeOrEmpty true false [.blockEntry, .blockEnd] fuel b.next
      blockItems fuel (n :: acc) b
    | some .blockEnd => some (acc.reverse, b.next)
    | _ => none

/-- The entries of a list in the column of its key. -/
def indentlessItems : Nat → List Node → Build → Option (List Node × Build)
  | 0, _, _ => none
  | fuel + 1, acc, b =>
    match b.peek with
    | some .blockEntry => do
      let (n, b) ← nodeOrEmpty true false [.blockEntry, .key, .value, .blockEnd] fuel b.next
      indentlessItems fuel (n :: acc) b
    | _ => some (acc.reverse, b)

/-- The entries of a block table. -/
def blockEntries : Nat → List (Node × Node) → Build → Option (List (Node × Node) × Build)
  | 0, _, _ => none
  | fuel + 1, acc, b => do
    match b.peek with
    | some .key =>
      let (k, b) ← nodeOrEmpty true true [.key, .value, .blockEnd] fuel b.next
      let (v, b) ← blockValue fuel b
      blockEntries fuel ((k, v) :: acc) b
    | some .blockEnd => some (acc.reverse, b.next)
    | _ => none

/-- The value of an entry of a block table. -/
def blockValue : Nat → Build → Option (Node × Build)
  | 0, _ => none
  | fuel + 1, b =>
    match b.peek with
    | some .value => nodeOrEmpty true true [.key, .value, .blockEnd] fuel b.next
    | _ => some (.empty, b)

/-- The entries of a list in brackets. -/
def flowItems : Nat → Bool → List Node → Build → Option (List Node × Build)
  | 0, _, _, _ => none
  | fuel + 1, first, acc, b =>
    if b.peek == some .flowListEnd then some (acc.reverse, b.next)
    else if !first && b.peek != some .flowEntry then none
    else
      let b := if first then b else b.next
      match b.peek with
      | some .key => do
        let (entry, b) ← flowPair fuel b.next
        flowItems fuel false (.table none [entry] :: acc) b
      -- Nothing need follow the last comma.
      | some .flowListEnd => some (acc.reverse, b.next)
      | _ => do
        let (n, b) ← node false false fuel b
        flowItems fuel false (n :: acc) b

/-- A single entry of a table that stands as an item of a list.  A missing key takes the
token in its place with it. -/
def flowPair : Nat → Build → Option ((Node × Node) × Build)
  | 0, _ => none
  | fuel + 1, b => do
    let (k, b) ←
      if b.atOneOf [.value, .flowEntry, .flowListEnd] then some (Node.empty, b.next)
      else node false false fuel b
    match b.peek with
    | some .value =>
      let (v, b) ← nodeOrEmpty false false [.flowEntry, .flowListEnd] fuel b.next
      some ((k, v), b)
    | _ => some ((k, .empty), b)

/-- The entries of a table in braces. -/
def flowEntries : Nat → Bool → List (Node × Node) → Build →
    Option (List (Node × Node) × Build)
  | 0, _, _, _ => none
  | fuel + 1, first, acc, b =>
    if b.peek == some .flowTableEnd then some (acc.reverse, b.next)
    else if !first && b.peek != some .flowEntry then none
    else
      let b := if first then b else b.next
      match b.peek with
      | some .key => do
        let (k, b) ←
          nodeOrEmpty false false [.value, .flowEntry, .flowTableEnd] fuel b.next
        match b.peek with
        | some .value =>
          let (v, b) ← nodeOrEmpty false false [.flowEntry, .flowTableEnd] fuel b.next
          flowEntries fuel false ((k, v) :: acc) b
        | _ => flowEntries fuel false ((k, .empty) :: acc) b
      -- Nothing need follow the last comma.
      | some .flowTableEnd => some (acc.reverse, b.next)
      | _ => do
        let (k, b) ← node false false fuel b
        flowEntries fuel false ((k, .empty) :: acc) b

end

/-- The directives in front of a document: at most one version, which must be known, and
handles that differ from each other. -/
def directives (version : Bool) (own : List (String × String)) :
    List Token → Option (List (String × String) × List Token)
  | .version major minor :: rest =>
    if version || major != 1 || (minor != 1 && minor != 2) then none
    else directives true own rest
  | .tagPrefix handle expansion :: rest =>
    if (own.lookup handle).isSome then none
    else directives version ((handle, expansion) :: own) rest
  | rest => some (own, rest)

end Build

/-- A document: its root, its anchors, and the size of its written form. -/
structure Source where
  root : Node
  anchors : List Anchor

namespace Source

/-- Number of marks in the written form. -/
def size (s : Source) : Nat :=
  s.root.size

/-- The node that an alias stands for. -/
def target? (number : Nat) (s : Source) : Option Node :=
  let candidates := s.anchors.filter (·.number == number)
  (candidates.foldl (fun (best : Option Anchor) a =>
    match best with
    | some b => if b.start < a.start then some a else best
    | none => some a) none).map (·.node)

/-- The only document of a sequence of tokens.  A text without any document holds
an empty one. -/
def ofTokens? (tokens : List Token) : Option Source :=
  let fuel := 4 * tokens.length + 8
  let base (own : List (String × String)) (tokens : List Token) : Build := {
    tokens, names := [], nameCount := 0, starts := 0, anchors := []
    handles := own ++ [("!", "!"), ("!!", "tag:yaml.org,2002:")] }
  let finish (n : Node) (b : Build) : Option Source :=
    if (b.tokens.dropWhile (· == .documentEnd)).isEmpty then some ⟨n, b.anchors⟩ else none
  match tokens with
  | [] => some ⟨.empty, []⟩
  | t :: _ =>
    let explicit := match t with
      | .version _ _ | .tagPrefix _ _ | .documentStart => true
      | _ => false
    if explicit then
      match Build.directives false [] tokens with
      | some (own, .documentStart :: rest) => do
        let b := base own rest
        -- A document that has been started may still be empty.
        let endsAtOnce := match rest with
          | [] => true
          | .version _ _ :: _ | .tagPrefix _ _ :: _ | .documentStart :: _
          | .documentEnd :: _ => true
          | _ => false
        if endsAtOnce then finish .empty b
        else
          let (n, b) ← Build.node true false fuel b
          finish n b
      | _ => none
    else do
      let (n, b) ← Build.node true false fuel (base [] tokens)
      finish n b

end Source
end Workplan.Yaml
