import Workplan.Plan.Reading
import Workplan.Plan.Validity
import Workplan.Text.Utf8
import Workplan.Yaml.Meaning

/-!
# Loading plans

From a text, or from the content of a file, to a valid plan.  A text that cannot be read
as a plan although it holds plain data fails for the reason that the reader gives; any
other text that cannot be read is malformed.
-/

namespace Workplan

open Document

/-- Why the content of a file cannot be had. -/
inductive FileError where
  | notFound
  | notText
  | isDirectory
  /-- For a reason that the system gives. -/
  | unreadable (reason : String)
deriving DecidableEq

namespace FileError

/-- The wording of a file error. -/
def message : FileError → String
  | notFound => "No such file or directory (os error 2)"
  | notText => "stream did not contain valid UTF-8"
  | isDirectory => "Is a directory (os error 21)"
  | unreadable reason => reason

end FileError

/-- What is found under a path. -/
inductive FileContent where
  | missing
  | bytes (content : List UInt8)
  | directory
  /-- A file that cannot be read, with what the system says of it. -/
  | unreadable (reason : String)

/-- The text of a file. -/
def FileContent.text : FileContent → Except FileError String
  | missing => .error .notFound
  | directory => .error .isDirectory
  | unreadable reason => .error (.unreadable reason)
  | bytes content =>
    match Text.Utf8.decode? content with
    | some s => .ok s
    | none => .error .notText

/-- Why a text is no plan. -/
inductive ParseError where
  | malformed
  | misread (failure : Failure)
deriving DecidableEq

/-- The wording of a parse error. -/
def ParseError.message : ParseError → String
  | malformed => "<malformed>"
  | misread failure => failure.message .yaml

/-- Why there is no plan to be had. -/
inductive LoadError where
  | io (path : String) (error : FileError)
  | parse (error : ParseError)
  | invalid (violation : Violation)
deriving DecidableEq

/-- The wording of a load error. -/
def LoadError.message : LoadError → String
  | io path error => "failed to read plan file " ++ path ++ ": " ++ error.message
  | parse error => "invalid plan YAML: " ++ error.message
  | invalid violation => "invalid plan: " ++ violation.message

namespace Plan

/-- The plan that a text describes, valid or not. -/
def ofYaml (text : String) : Except ParseError Plan :=
  match Yaml.parse? text with
  | none => .error .malformed
  | some d =>
    match Plan.ofDocument .yaml d with
    | .ok p => .ok p
    | .error failure => .error (if Yaml.isPlainData d then .misread failure else .malformed)

/-- The valid plan that a text describes. -/
def load (text : String) : Except LoadError Plan :=
  match ofYaml text with
  | .error e => .error (.parse e)
  | .ok p =>
    match p.validate with
    | .error v => .error (.invalid v)
    | .ok () => .ok p

/-- The valid plan in a file. -/
def loadFile (path : String) (content : FileContent) : Except LoadError Plan :=
  match content.text with
  | .error e => .error (.io path e)
  | .ok text => load text

/-- The plan that a value describes, valid or not. -/
def ofJson (v : Json) : Except Failure Plan :=
  Plan.ofDocument .json (Document.ofJson v)

end Plan
end Workplan
