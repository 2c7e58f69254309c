import Workplan.Document.Reading
import Workplan.Plan.Basic

/-!
# Reading plans

A plan is read from a document.  Of a step, the description and the handlers are read in
place; all other entries are held back until the kind of the step is known, since it may
come last.  The kind of an executor governs its other entries in the same way.  Entries
that no type asks for are ignored.
-/

namespace Workplan

open Document

/-- A kind of step on its own: its name, alone or as the only key of a table with
nothing under it. -/
def StepKind.ofContent : Content → Except Cause StepKind
  | .atom (.text s) => (Content.text s).readVariant named
  | .table [(key, value)] => do
    let kind ← key.readVariant named
    match value with
    | .atom .unit => .ok kind
    | other => .error (.wrongType other.found "unit")
  | .table _ => .error (.wrongValue .table "map with a single key")
  | c => .error (.wrongType c.found "string or map")

/-! ## Executors -/

namespace ExecutorSpec

/-- What to say when something else stands where an executor is wanted. -/
def wanted : String := "internally tagged enum ExecutorSpec"

/-- The parameters of an executor: by name, or by position. -/
inductive Parameters where
  | named (entries : List (Content × Content))
  | positional (items : List Content)

/-- One parameter, read. -/
inductive Parameter where
  | text (s : String)
  | texts (ss : List String)
  | word (n : UInt64)

def asText (c : Content) : Except Cause Parameter :=
  c.readText.map .text

def asTexts (c : Content) : Except Cause Parameter := do
  let items ← c.readItems
  return .texts (← items.mapM Content.readText)

def asWord (c : Content) : Except Cause Parameter :=
  c.readWord.map .word

/-- The parameters of each kind, in order of position. -/
def readers : ExecutorKind → List (String × (Content → Except Cause Parameter))
  | .echo => []
  | .template => [("template", asText)]
  | .command => [("program", asText), ("args", asTexts)]
  | .fail => [("message", asText)]
  | .sleep => [("ms", asWord)]
  | .storeSet => [("key", asText)]

/-- The name of a kind in messages about its length. -/
def variantName : ExecutorKind → String
  | .echo => "Echo"
  | .template => "Template"
  | .command => "Command"
  | .fail => "Fail"
  | .sleep => "Sleep"
  | .storeSet => "StoreSet"

def elements (n : Nat) : String :=
  toString n ++ (if n = 1 then " element" else " elements")

/-- How a missing parameter is reported. -/
def missing (kind : ExecutorKind) (parameters : Parameters) (position : Nat)
    (name : String) : Cause :=
  match parameters with
  | .named _ => .missingField name
  | .positional _ =>
    .wrongLength position
      ("struct variant ExecutorSpec::" ++ variantName kind ++ " with "
        ++ elements (readers kind).length)

/-- Reads the parameters of a kind. -/
def readParameters (kind : ExecutorKind) :
    Parameters → Except Cause (List (String × Parameter))
  | .named entries =>
    if (readers kind).isEmpty then .ok [] else Content.readFields (readers kind) [] entries
  | .positional items => Content.readPositions (readers kind) items

/-- Positions beyond those of the kind are refused. -/
def checkLength (kind : ExecutorKind) : Parameters → Except Cause Unit
  | .named _ => .ok ()
  | .positional items =>
    if (readers kind).length < items.length then
      .error (.wrongLength items.length (elements (readers kind).length ++ " in sequence"))
    else .ok ()

/-- The executor of a kind with the given parameters. -/
def ofParameters (kind : ExecutorKind) (parameters : Parameters) :
    Except Cause ExecutorSpec := do
  let values ← readParameters kind parameters
  let text (position : Nat) (name : String) : Except Cause String :=
    match values.lookup name with
    | some (.text s) => .ok s
    | _ => .error (missing kind parameters position name)
  let spec ← match kind with
    | .echo => .ok echo
    | .template => (text 0 "template").map .template
    | .command => do
      let program ← text 0 "program"
      match values.lookup "args" with
      | some (.texts args) => .ok (.command program args)
      | _ => .ok (.command program [])
    | .fail => (text 0 "message").map .fail
    | .sleep =>
      match values.lookup "ms" with
      | some (.word ms) => .ok (.sleep ms)
      | _ => .error (missing kind parameters 0 "ms")
    | .storeSet => (text 0 "key").map .storeSet
  -- Too many positions are noticed only when all that are needed have been read.
  checkLength kind parameters
  return spec

/-- Splits held-back entries into the kind and the others. -/
def splitEntries (kind : Option ExecutorKind) (others : List (Content × Content)) :
    List (Content × Content) → Except Cause (ExecutorKind × List (Content × Content))
  | [] =>
    match kind with
    | some k => .ok (k, others.reverse)
    | none => .error (.missingField "type")
  | (.atom (.text "type"), value) :: rest => do
    if kind.isSome then .error (.duplicateField "type")
    else
      let k ← value.readVariant ExecutorKind.named
      splitEntries (some k) others rest
  | entry :: rest => splitEntries kind (entry :: others) rest

/-- An executor from held-back data. -/
def ofContent : Content → Except Cause ExecutorSpec
  | .table entries => do
    let (kind, others) ← splitEntries none [] entries
    ofParameters kind (.named others)
  | .list [] => .error (.missingField "type")
  | .list (tag :: items) => do
    let kind ← tag.readVariant ExecutorKind.named
    ofParameters kind (.positional items)
  | c => .error (.wrongType c.found wanted)

/-- The kind given by a tag that is read in place. -/
def readKind (path : Path) (d : Document) : Except Failure ExecutorKind :=
  match d.unmarked with
  | .scalar ⟨some s, _, _, _⟩ =>
    placed path (Content.readVariant ExecutorKind.named (Content.text s))
  | _ => wrongType path "variant identifier" d

/-- Splits entries read in place into the kind and the others, which are held back. -/
def splitEntriesInPlace (path : Path) (kind : Option ExecutorKind)
    (others : List (Content × Content)) :
    List (Option String × Document × Document) →
      Except Failure (ExecutorKind × List (Content × Content))
  | [] =>
    match kind with
    | some k => .ok (k, others.reverse)
    | none => failAt path (.missingField "type")
  | (label, key, value) :: rest => do
    match ← key.toContent path with
    | .atom (.text "type") =>
      if kind.isSome then failAt path (.duplicateField "type")
      else
        let k ← readKind (path.part label) value
        splitEntriesInPlace path (some k) others rest
    | held =>
      let v ← value.toContent (path.part label)
      splitEntriesInPlace path kind ((held, v) :: others) rest

/-- An executor read in place.  Its parameters are held back, so that a fault in them has
no place of its own. -/
def ofDocument (path : Path) (d : Document) : Except Failure ExecutorSpec :=
  let finish (kind : ExecutorKind)
      (parameters : Parameters) : Except Failure ExecutorSpec :=
    match ofParameters kind parameters with
    | .ok spec => .ok spec
    | .error cause => .error ⟨none, cause⟩
  match d with
  | .table entries => do
    let (kind, others) ← splitEntriesInPlace path none [] entries
    finish kind (.named others)
  | .list [] => failAt path (.missingField "type")
  | .list (tag :: items) => do
    let kind ← readKind (path.item 0) tag
    let held ← toContentItems path 1 items
    finish kind (.positional held)
  | .marked _ _ => failAt path (.wrongType .mark wanted)
  | d => wrongType path wanted d

end ExecutorSpec

/-! ## Steps -/

namespace StepBody

/-- A field of an iterate step, read. -/
inductive IterateField where
  | items (items : Option (List Json))
  | key (key : Option String)
  | agent (agent : ExecutorSpec)

def readExecutors (c : Content) : Except Cause (List ExecutorSpec) := do
  (← c.readItems).mapM ExecutorSpec.ofContent

def readValues (c : Content) : Except Cause (List Json) := do
  (← c.readItems).mapM Content.toJson

/-- Splits held-back entries into the kind of step and the others. -/
def splitEntries (kind : Option StepKind) (others : List (Content × Content)) :
    List (Content × Content) → Except Cause (StepKind × List (Content × Content))
  | [] =>
    match kind with
    | some k => .ok (k, others.reverse)
    | none => .error (.missingField "kind")
  | (.atom (.text "kind"), value) :: rest => do
    if kind.isSome then .error (.duplicateField "kind")
    else
      let k ← value.readVariant StepKind.named
      splitEntries (some k) others rest
  | entry :: rest => splitEntries kind (entry :: others) rest

/-- The body that held-back entries describe. -/
def ofContent (entries : List (Content × Content)) : Except Cause StepBody := do
  let (kind, others) ← splitEntries none [] entries
  match kind with
  | .prompt =>
    let fields ← Content.readFields [("text", Content.readText)] [] others
    match fields.lookup "text" with
    | some text => .ok (.prompt text)
    | none => .error (.missingField "text")
  | .sequence =>
    let fields ← Content.readFields [("executors", readExecutors)] [] others
    .ok (.sequence ((fields.lookup "executors").getD []))
  | .parallel =>
    let fields ← Content.readFields [("executors", readExecutors)] [] others
    .ok (.parallel ((fields.lookup "executors").getD []))
  | .iterate =>
    let fields ← Content.readFields
      [("items", fun c => (c.readOption readValues).map IterateField.items),
       ("key", fun c => (c.readOption Content.readText).map IterateField.key),
       ("agent", fun c => (ExecutorSpec.ofContent c).map IterateField.agent)] [] others
    let items := match fields.lookup "items" with
      | some (.items items) => items
      | _ => none
    let key := match fields.lookup "key" with
      | some (.key key) => key
      | _ => none
    match fields.lookup "agent" with
    | some (.agent agent) => .ok (.iterate items key agent)
    | _ => .error (.missingField "agent")

end StepBody

namespace StepSpec

/-- What has been read of a step: the fields read in place, and the entries held back. -/
structure Partial where
  description : Option (Option String)
  onSuccess : Option (Option ExecutorSpec)
  onFail : Option (Option ExecutorSpec)
  held : List (Content × Content)

/-- Reads the entries of a step in order. -/
def readEntriesInto (path : Path) (acc : Partial) :
    List (Option String × Document × Document) → Except Failure Partial
  | [] => .ok { acc with held := acc.held.reverse }
  | (label, key, value) :: rest => do
    let name ← readName path key
    let place := path.part label
    if name = "description" then
      if acc.description.isSome then failAt path (.duplicateField name)
      else
        let v ← readOption (readText place) place value
        readEntriesInto path { acc with description := some v } rest
    else if name = "on_success" then
      if acc.onSuccess.isSome then failAt path (.duplicateField name)
      else
        let v ← readOption (ExecutorSpec.ofDocument place) place value
        readEntriesInto path { acc with onSuccess := some v } rest
    else if name = "on_fail" then
      if acc.onFail.isSome then failAt path (.duplicateField name)
      else
        let v ← readOption (ExecutorSpec.ofDocument place) place value
        readEntriesInto path { acc with onFail := some v } rest
    else
      -- What no field of the step claims is part of its body.
      let v ← value.toContent place
      readEntriesInto path { acc with held := (Content.text name, v) :: acc.held } rest

/-- A step read in place.  A fault without a place of its own is placed at the step. -/
def ofDocument (path : Path) (d : Document) : Except Failure StepSpec :=
  let result : Except Failure StepSpec := do
    let entries ← readEntries path "struct StepSpec" d
    let parts ← readEntriesInto path ⟨none, none, none, []⟩ entries
    let body ← placed path (StepBody.ofContent parts.held)
    return {
      description := parts.description.getD none
      onSuccess := parts.onSuccess.getD none
      onFail := parts.onFail.getD none
      body }
  match result with
  | .error ⟨none, cause⟩ => failAt path cause
  | other => other

end StepSpec

/-! ## Plans -/

namespace Plan

/-- A top-level field of a plan, read. -/
inductive Field where
  | name (s : String)
  | prompt (s : Option String)
  | store (s : Store)
  | steps (s : List StepSpec)

/-- The names of a store that is read in place, with their values. -/
def readStoreEntries (path : Path) :
    List (Option String × Document × Document) → Except Failure (List (String × Json))
  | [] => .ok []
  | (label, key, value) :: rest => do
    let name ← readText path key
    return (name, ← value.toJson (path.part label)) :: (← readStoreEntries path rest)

def readStore (path : Path) (d : Document) : Except Failure Store := do
  return .ofEntries (← readStoreEntries path (← readEntries path "a map" d))

def readSteps (path : Path) (d : Document) : Except Failure (List StepSpec) := do
  readEach StepSpec.ofDocument path 0 (← readItems path "a sequence" d)

/-- Reads the field of a name. -/
def readField (name : String) (path : Path) (d : Document) :
    Option (Except Failure Field) :=
  match name with
  | "name" => some ((readText path d).map .name)
  | "prompt" => some ((readOption (readText path) path d).map .prompt)
  | "store" => some ((readStore path d).map .store)
  | "steps" => some ((readSteps path d).map .steps)
  | _ => none

/-- The names of the fields, by position. -/
def fieldNames : List String := ["name", "prompt", "store", "steps"]

/-- The plan with the given fields, or the cause if the name is missing. -/
def ofFields (absent : Cause) (fields : List (String × Field)) : Except Failure Plan :=
  match fields.lookup "name" with
  | some (.name name) => .ok {
      name
      prompt := match fields.lookup "prompt" with
        | some (.prompt p) => p
        | _ => none
      seed := match fields.lookup "store" with
        | some (.store s) => s
        | _ => .empty
      steps := match fields.lookup "steps" with
        | some (.steps s) => s
        | _ => [] }
  | _ => failAt [] absent

/-- A plan from a document.  Where the notation allows it, the fields may also
stand in a list. -/
def ofDocument (dialect : Dialect) (d : Document) : Except Failure Plan :=
  match dialect, d with
  | .json, .list items => do
    let fields ← readPositions readField 0 fieldNames items
    let plan ← ofFields (.wrongLength items.length "struct PlanFile with 4 elements") fields
    -- Items that are left over are noticed behind those that are missing.
    if 4 < items.length then
      failAt [] (.wrongLength items.length "fewer elements in array")
    else return plan
  | _, d => do
    let entries ← readEntries [] "struct PlanFile" d
    let fields ← readFields readField [] [] entries
    ofFields (.missingField "name") fields

end Plan
end Workplan
