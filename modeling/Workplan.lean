import Workplan.Text.Quoted
import Workplan.Text.Utf8
import Workplan.Json.Text
import Workplan.Json.Reader
import Workplan.Document.Basic
import Workplan.Document.Reading
import Workplan.Plan.Reading
import Workplan.Plan.Validity
import Workplan.Plan.Writing
import Workplan.Config.Basic
import Workplan.Yaml.Tokens
import Workplan.Yaml.Node
import Workplan.Yaml.Meaning
import Workplan.Plan.Loading
import Workplan.Plan.Printing
import Workplan.Config.Loading
import Workplan.Store.Calls
import Workplan.Executor.Simple
import Workplan.Workflow.Assembly
import Workplan.Engine.Schedule
import Workplan.Host.Shell
import Workplan.Cli.Program
import Workplan.Main
import Workplan.Proofs.Engine.FanOut
import Workplan.Proofs.Engine.Cancellation
import Workplan.Proofs.Plan.RoundTrip
import Workplan.Proofs.Engine.Loops
import Workplan.Proofs.Engine.Replays
import Workplan.Proofs.Engine.Rules
import Workplan.Proofs.Engine.Iterations
import Workplan.Proofs.Engine.Ledgers
import Workplan.Proofs.Engine.Outliving
import Workplan.Proofs.Engine.Overlap
import Workplan.Proofs.Engine.Alone
import Workplan.Proofs.Engine.Independence
import Workplan.Proofs.Plan.Assembled
import Workplan.Proofs.Plan.Steady
import Workplan.Proofs.Plan.Faithful
import Workplan.Proofs.Plan.Violations
import Workplan.Proofs.Engine.Writes
import Workplan.Proofs.Plan.Frame
import Workplan.Proofs.Plan.Documents
import Workplan.Proofs.Engine.Prompts
import Workplan.Proofs.Engine.Resemblance
import Workplan.Proofs.Engine.Rescue
import Workplan.Proofs.Engine.Sequences
import Workplan.Proofs.Workflow.Built
import Workplan.Proofs.Engine.Barriers
import Workplan.Proofs.Plan.Repeated
import Workplan.Proofs.Plan.Unordered
import Workplan.Proofs.Executor.Pipes
import Workplan.Proofs.Store.Histories
import Workplan.Proofs.Executor.Template
import Workplan.Proofs.Json.Readable
import Workplan.Proofs.Executor.Rendering
import Workplan.Proofs.Toml.Grammar
import Workplan.Proofs.Toml.Blanks
import Workplan.Proofs.Toml.Texts
import Workplan.Proofs.Toml.Numbers
import Workplan.Proofs.Toml.Moments
import Workplan.Proofs.Toml.Values
import Workplan.Proofs.Toml.Documents
import Workplan.Proofs.Toml.Entries
import Workplan.Proofs.Config.Loading
import Workplan.Proofs.Cli.Rearranged
