import MixedMode.Call.Basic
import MixedMode.Call.Enter
import MixedMode.Call.Entry
import MixedMode.Call.Frame
import MixedMode.Config.Basic
import MixedMode.Config.Document
import MixedMode.Convention
import MixedMode.Error
import MixedMode.Json.Basic
import MixedMode.Json.Lexer
import MixedMode.Json.Reader
import MixedMode.Json.Record
import MixedMode.Json.Text
import MixedMode.Loader
import MixedMode.Log.Event
import MixedMode.Log.Filter
import MixedMode.Log.Layout
import MixedMode.Machine
import MixedMode.Module
import MixedMode.Path
import MixedMode.Program
import MixedMode.Proofs.Balance
import MixedMode.Proofs.Moment
import MixedMode.Proofs.Words
import MixedMode.Report
import MixedMode.Run
import MixedMode.Script.Body
import MixedMode.Script.Instr
import MixedMode.Script.Journal
import MixedMode.Script.Loader
import MixedMode.Stack
import MixedMode.Stats
import MixedMode.Text.Blank
import MixedMode.Text.Decoding
import MixedMode.Text.Quoted
import MixedMode.Text.Unprinted
import MixedMode.Proofs.Reached
import MixedMode.Proofs.Placing
import MixedMode.Proofs.StackEffect
import MixedMode.Proofs.Chain
import MixedMode.Proofs.Arguments
import MixedMode.Proofs.Counterpart
import MixedMode.Proofs.Twin
import MixedMode.Proofs.Alike
import MixedMode.Proofs.Tally
import MixedMode.Proofs.Lockstep
import MixedMode.Proofs.Iterations
import MixedMode.Proofs.LifeCycle
import MixedMode.Proofs.Outcome
import MixedMode.Proofs.Isolation
import MixedMode.Proofs.CallPaths
import MixedMode.Proofs.Accounting
import MixedMode.Proofs.Unobserved
import MixedMode.Proofs.Invocations
import MixedMode.Proofs.Sequences
import MixedMode.Proofs.Documents
import MixedMode.Proofs.Limits
import MixedMode.Proofs.Nesting
import MixedMode.Proofs.SharedMap
import MixedMode.Proofs.Records
import MixedMode.Proofs.PartialDocuments
import MixedMode.Proofs.BoundedList
import MixedMode.Proofs.Reports
import MixedMode.Proofs.EventLog
import MixedMode.Proofs.Diagnostics
import MixedMode.Proofs.Filtering
import MixedMode.Proofs.Names
import MixedMode.Proofs.Layout
