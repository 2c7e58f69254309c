/-!
# Tokens

The tokens of a YAML text.  Indentation appears as opening and closing tokens, so that
what follows needs no columns.
-/

namespace Workplan.Yaml

/-- How a scalar was written. -/
inductive Style where
  | plain
  | quoted
deriving DecidableEq

/-- A token. -/
inductive Token where
  | version (major minor : Nat)
  | tagPrefix (handle : String) (expansion : String)
  | documentStart
  | documentEnd
  | blockListStart
  | blockTableStart
  | blockEnd
  | flowListStart
  | flowListEnd
  | flowTableStart
  | flowTableEnd
  | blockEntry
  | flowEntry
  | key
  | value
  | reference (name : String)
  | anchor (name : String)
  | tag (handle : String) (suffix : String)
  | scalar (text : String) (style : Style)
deriving DecidableEq

end Workplan.Yaml
