import Cutscene.Text.Blank
import Cutscene.Text.Search
import Cutscene.Decimal.Layout
import Cutscene.Decimal.Reading
import Cutscene.Decimal.Rounding
import Cutscene.Table
import Cutscene.Json.Parser
import Cutscene.Json.Printer
import Cutscene.Json.Record
import Cutscene.Value
import Cutscene.Descriptor.Reference
import Cutscene.Descriptor.Operand
import Cutscene.Event.Library
import Cutscene.Event.HostCall
import Cutscene.Custom.Arguments
import Cutscene.Text.Visible
import Cutscene.Text.Quoted
import Cutscene.Script.Token
import Cutscene.Script.Basic
import Cutscene.Script.Parser
import Cutscene.Script.Simplify
import Cutscene.Script.Data
import Cutscene.Random
import Cutscene.Script.Eval
import Cutscene.Descriptor.Condition
import Cutscene.Template
import Cutscene.Action.Arithmetic
import Cutscene.Action.Basic
import Cutscene.Program.Key
import Cutscene.Program.Block
import Cutscene.Program.Reading
import Cutscene.Program.Step
import Cutscene.Program.Layout
import Cutscene.Scene.Store
import Cutscene.Run.Machine
import Cutscene.Run.Variable
import Cutscene.Run.Operand
import Cutscene.Run.Condition
import Cutscene.Run.Action
import Cutscene.Run.Advance
import Cutscene.Scheduler.Basic
import Cutscene.Scheduler.Snapshot
import Cutscene.Project
import Cutscene.Files.Disk
import Cutscene.Files.Tree
import Cutscene.Scenario.Basic
import Cutscene.Scenario.Play
import Cutscene.Player.Invocation
import Cutscene.Player.Play
import Cutscene.Player.State
import Cutscene.Player.Command
import Cutscene.Main
import Cutscene.Proofs.Program.Body
import Cutscene.Proofs.Program.Key
import Cutscene.Proofs.Program.Entry
import Cutscene.Proofs.Program.Read
import Cutscene.Proofs.Program.Lookup
import Cutscene.Proofs.Program.Held
import Cutscene.Proofs.Program.Child
import Cutscene.Proofs.Program.Outline
import Cutscene.Proofs.Program.Unit
import Cutscene.Proofs.Program.Resolve
import Cutscene.Proofs.Run.Effect
import Cutscene.Proofs.Run.Timeless
import Cutscene.Proofs.Run.Trace
import Cutscene.Proofs.Run.Ending
import Cutscene.Proofs.Run.Turn
import Cutscene.Proofs.Run.Resemble
import Cutscene.Proofs.Run.Uphold
import Cutscene.Proofs.Run.Placed
import Cutscene.Proofs.Scheduler.Operation
import Cutscene.Proofs.Scheduler.Sustain
import Cutscene.Proofs.Outcome
import Cutscene.Proofs.Scheduler.Saving
import Cutscene.Proofs.Scheduler.Maintain
import Cutscene.Proofs.Iteration.Depth
import Cutscene.Proofs.Iteration.Balance
import Cutscene.Proofs.Scene.Removal
import Cutscene.Proofs.Scene.Links
import Cutscene.Proofs.Scene.Chronicle
import Cutscene.Proofs.Scene.Ancestry
import Cutscene.Proofs.Scene.Sound
import Cutscene.Proofs.Scene.Subtree
import Cutscene.Proofs.Scheduler.Change
import Cutscene.Proofs.Descriptor.Nesting
import Cutscene.Proofs.Run.Cell
import Cutscene.Proofs.Scheduler.Owner
import Cutscene.Proofs.Run.Mirror
import Cutscene.Proofs.Scheduler.Mirror
import Cutscene.Proofs.Scheduler.Transparent
import Cutscene.Proofs.Scheduler.Range
import Cutscene.Proofs.Scheduler.Roundtrip
import Cutscene.Proofs.Scheduler.Restore
import Cutscene.Proofs.Run.Spawn
import Cutscene.Proofs.Scheduler.Plan
import Cutscene.Proofs.Scheduler.Return
import Cutscene.Proofs.Call.Life
import Cutscene.Proofs.Call.Parameters
import Cutscene.Proofs.Call.Record
import Cutscene.Proofs.Run.Pace
import Cutscene.Proofs.Walk.Tree
import Cutscene.Proofs.Walk.Basic
import Cutscene.Proofs.Walk.Plain
import Cutscene.Proofs.Walk.Choice
import Cutscene.Proofs.Walk.Follow
import Cutscene.Proofs.Walk.Track
import Cutscene.Proofs.Walk.Pass
import Cutscene.Proofs.Walk.Lowering
import Cutscene.Proofs.Walk.Persist
import Cutscene.Proofs.Run.Roll
import Cutscene.Proofs.Run.Rest
import Cutscene.Proofs.Scheduler.Prepare
import Cutscene.Proofs.Scheduler.Moment
import Cutscene.Proofs.Scheduler.Isolation
import Cutscene.Proofs.Scheduler.Lineage
import Cutscene.Proofs.Scheduler.Request
import Cutscene.Proofs.Scheduler.Roll
import Cutscene.Proofs.Scheduler.Conserve
import Cutscene.Proofs.Scheduler.Rest
import Cutscene.Proofs.Scheduler.Untouched
import Cutscene.Proofs.Scheduler.Wake
import Cutscene.Proofs.Run.Spend
import Cutscene.Proofs.Decimal.Value
import Cutscene.Proofs.Decimal.Whole
import Cutscene.Proofs.Json.Number
import Cutscene.Proofs.Json.Pretty
import Cutscene.Proofs.Json.Codec
import Cutscene.Proofs.Scheduler.Legible
import Cutscene.Proofs.Json.Undo
import Cutscene.Proofs.Descriptor.Reference
import Cutscene.Proofs.Descriptor.Operand
import Cutscene.Proofs.Event.Form
import Cutscene.Proofs.Event.Library
import Cutscene.Proofs.Template.Split
import Cutscene.Proofs.Scheduler.Form
import Cutscene.Proofs.Json.Format
import Cutscene.Proofs.Files.Disk
import Cutscene.Proofs.Player.Play
import Cutscene.Proofs.Player.Rounds
import Cutscene.Proofs.Player.Command
import Cutscene.Proofs.Player.Sources
import Cutscene.Proofs.Player.Pieces
import Cutscene.Proofs.Player.Saved
import Cutscene.Proofs.Action.Missing
import Cutscene.Proofs.Action.Precedence
import Cutscene.Proofs.Iteration.Items
import Cutscene.Proofs.Iteration.Jump
import Cutscene.Proofs.Iteration.Region
import Cutscene.Proofs.Custom.Quoting
import Cutscene.Proofs.Custom.Separator
import Cutscene.Proofs.Custom.Lookup
import Cutscene.Proofs.Random.Draw
import Cutscene.Proofs.Random.Cycle
import Cutscene.Proofs.Random.Range
import Cutscene.Proofs.Scheduler.Surplus
import Cutscene.Proofs.Run.Steady
import Cutscene.Proofs.Scheduler.Slice
