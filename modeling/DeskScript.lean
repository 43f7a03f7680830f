import DeskScript.Command
import DeskScript.Command.Data
import DeskScript.Console.Args
import DeskScript.Console.Disk
import DeskScript.Console.Program
import DeskScript.Console.Terminal
import DeskScript.Context
import DeskScript.Context.Drive
import DeskScript.Context.Joint
import DeskScript.Context.Timeline
import DeskScript.Event
import DeskScript.Event.Bus
import DeskScript.Event.Channel
import DeskScript.Fault
import DeskScript.Host
import DeskScript.Json
import DeskScript.Json.Reader
import DeskScript.Json.Writer
import DeskScript.Machine
import DeskScript.Machine.Step
import DeskScript.Machine.Task
import DeskScript.Main
import DeskScript.Native
import DeskScript.Number.Binary
import DeskScript.Number.Decimal
import DeskScript.Outcome
import DeskScript.Position
import DeskScript.Program
import DeskScript.Program.Cursor
import DeskScript.Program.Phrase
import DeskScript.Program.Sentence
import DeskScript.Scope
import DeskScript.Scope.Collect
import DeskScript.Scope.Renaming
import DeskScript.Session
import DeskScript.Settings
import DeskScript.Table
import DeskScript.Text.Blank
import DeskScript.Text.LetterCase
import DeskScript.Text.LetterCase.Table
import DeskScript.Text.Printable
import DeskScript.Text.Quoted
import DeskScript.Text.Ranges
import DeskScript.Text.Split
import DeskScript.Token
import DeskScript.Token.Lexer
import DeskScript.Value
import DeskScript.Value.Data
import DeskScript.Value.Operator
import DeskScript.Value.Path
import DeskScript.Verb
import DeskScript.Proofs.Value.Rename
import DeskScript.Proofs.Value.Operation
import DeskScript.Proofs.Value.Blind
import DeskScript.Proofs.Value.Mild
import DeskScript.Proofs.Value.Functions
import DeskScript.Proofs.Number.Rounding
import DeskScript.Proofs.Number.Whole
import DeskScript.Proofs.Number.Value
import DeskScript.Proofs.Number.Nearest
import DeskScript.Proofs.Value.Equality
import DeskScript.Proofs.Value.Data
import DeskScript.Proofs.Value.Range
import DeskScript.Proofs.Scope.Slots
import DeskScript.Proofs.Scope.Reach
import DeskScript.Proofs.Scope.Sound
import DeskScript.Proofs.Scope.Release
import DeskScript.Proofs.Scope.Running
import DeskScript.Proofs.Scope.Pins
import DeskScript.Proofs.Scope.Exact
import DeskScript.Proofs.Scope.Names
import DeskScript.Proofs.Scope.Bindings
import DeskScript.Proofs.Scope.Lexical
import DeskScript.Proofs.Value.Assignment
import DeskScript.Proofs.Machine.Rename
import DeskScript.Proofs.Machine.Twin
import DeskScript.Proofs.Machine.Alike
import DeskScript.Proofs.Machine.Run
import DeskScript.Proofs.Machine.Effect
import DeskScript.Proofs.Machine.Balance
import DeskScript.Proofs.Machine.Origin
import DeskScript.Proofs.Machine.Recast
import DeskScript.Proofs.Machine.Outbox
import DeskScript.Proofs.Machine.Hygiene
import DeskScript.Proofs.Session.Life
import DeskScript.Proofs.Session.Balance
import DeskScript.Proofs.Session.Faults
import DeskScript.Proofs.Session.Jumps
import DeskScript.Proofs.Session.Hygiene
import DeskScript.Proofs.Session.Lasting
import DeskScript.Proofs.Session.Dispatch
import DeskScript.Proofs.Session.Collection
import DeskScript.Proofs.Program.Reading
import DeskScript.Proofs.Program.Shape
import DeskScript.Proofs.Program.Yield
import DeskScript.Proofs.Program.Spelling
import DeskScript.Proofs.Program.Bare
import DeskScript.Proofs.Program.Attempt
import DeskScript.Proofs.Program.Sites
import DeskScript.Proofs.Program.Formed
import DeskScript.Proofs.Program.Precedence
import DeskScript.Proofs.Program.Render
import DeskScript.Proofs.Program.RoundTrip
import DeskScript.Proofs.Program.Depth
import DeskScript.Proofs.Program.Cut
import DeskScript.Proofs.Program.Limit
import DeskScript.Proofs.Program.CallChain
import DeskScript.Proofs.Token.Lexeme
import DeskScript.Proofs.Token.Lossless
import DeskScript.Proofs.Token.Literal
import DeskScript.Proofs.Token.Relayout
import DeskScript.Proofs.Program.Flush
import DeskScript.Proofs.Program.Text
import DeskScript.Proofs.Text.Split
import DeskScript.Proofs.Context.Lived
import DeskScript.Proofs.Context.Errors
import DeskScript.Proofs.Context.Chronicle
import DeskScript.Proofs.Context.PrivateBus
import DeskScript.Proofs.Event.Broadcast
import DeskScript.Proofs.Event.Log
import DeskScript.Proofs.Context.Member
import DeskScript.Proofs.Context.Delivery
import DeskScript.Proofs.Context.Cancellation
import DeskScript.Proofs.Context.Record
import DeskScript.Proofs.Context.CallLimit
import DeskScript.Proofs.Host.Recording
import DeskScript.Proofs.Program.InPlace
import DeskScript.Proofs.Program.Tracking
import DeskScript.Proofs.Program.Phrases
import DeskScript.Proofs.Program.Sentences
import DeskScript.Proofs.Program.Progress
import DeskScript.Proofs.Machine.Arguments
import DeskScript.Proofs.Session.Commands
