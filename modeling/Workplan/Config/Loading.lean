import Workplan.Config.Basic
import Workplan.Plan.Loading
import Workplan.Toml.Reader

/-!
# Loading the configuration

The configuration of a file is all or nothing: a file that is missing, cannot be read, is
no document or has a field of a wrong type gives the default configuration.
-/

namespace Workplan.GlobalConfig

/-- The configuration that a text describes. -/
def ofToml? (text : String) : Option GlobalConfig := do
  let entries ← Toml.parse? text
  (ofDocument (.table (Toml.entriesToDocument entries))).toOption

/-- The configuration of a file. -/
def load (content : FileContent) : GlobalConfig :=
  match content.text with
  | .error _ => {}
  | .ok text => (ofToml? text).getD {}

end Workplan.GlobalConfig
