import Macropad.CommandLine
import Macropad.CommandLine.Arguments
import Macropad.Config.Basic
import Macropad.Config.Check
import Macropad.Config.Loading
import Macropad.Config.Reader
import Macropad.Engine.Action
import Macropad.Engine.Outcome
import Macropad.Engine.Run
import Macropad.Engine.State
import Macropad.File.Folder
import Macropad.Input.Keyboard
import Macropad.Input.Operation
import Macropad.Json.Number
import Macropad.Json.Record
import Macropad.Json.Token
import Macropad.Json.Value
import Macropad.Keys.Injection
import Macropad.Keys.Name
import Macropad.Keys.Reader
import Macropad.Keys.Stroke
import Macropad.Language.Description
import Macropad.Language.Fault
import Macropad.Language.Instruction
import Macropad.Language.Loop
import Macropad.Language.Opcode
import Macropad.Language.Phrasing
import Macropad.Language.Segment
import Macropad.Language.Validation
import Macropad.LogLevel
import Macropad.Main
import Macropad.Number.Double
import Macropad.Number.Double.Reading
import Macropad.Number.Double.Shortest
import Macropad.Number.Integer
import Macropad.Player
import Macropad.Player.Desktop
import Macropad.Proofs.Engine.Alike
import Macropad.Proofs.Engine.CallDepth
import Macropad.Proofs.Engine.Correspondence
import Macropad.Proofs.Engine.Counting
import Macropad.Proofs.Engine.DepthGuard
import Macropad.Proofs.Engine.Effect
import Macropad.Proofs.Engine.FrameDepth
import Macropad.Proofs.Engine.Halting
import Macropad.Proofs.Engine.InputFailure
import Macropad.Proofs.Engine.Justification
import Macropad.Proofs.Engine.LastInstance
import Macropad.Proofs.Engine.Machine
import Macropad.Proofs.Engine.Malformed
import Macropad.Proofs.Engine.MouseButton
import Macropad.Proofs.Engine.Overflow
import Macropad.Proofs.Engine.Ranges
import Macropad.Proofs.Engine.Reachable
import Macropad.Proofs.Engine.Running
import Macropad.Proofs.Engine.Settings
import Macropad.Proofs.Engine.Stopping
import Macropad.Proofs.Engine.Succession
import Macropad.Proofs.Engine.Transcript
import Macropad.Proofs.Engine.TypingText
import Macropad.Proofs.Engine.Unrolling
import Macropad.Proofs.Engine.ValidRuns
import Macropad.Proofs.Engine.Validity
import Macropad.Proofs.Json.WrittenObjects
import Macropad.Proofs.Keys.Braces
import Macropad.Proofs.Keys.Concatenation
import Macropad.Proofs.Keys.Escaping
import Macropad.Proofs.Keys.Failing
import Macropad.Proofs.Keys.Grammar
import Macropad.Proofs.Keys.NormalForm
import Macropad.Proofs.Keys.Offsets
import Macropad.Proofs.Keys.Reading
import Macropad.Proofs.Keys.Recognition
import Macropad.Proofs.Keys.Scanning
import Macropad.Proofs.Keys.Verbatim
import Macropad.Proofs.Language.Checking
import Macropad.Proofs.Language.Composition
import Macropad.Proofs.Language.Positions
import Macropad.Proofs.Language.Rendering
import Macropad.Proofs.Language.Segments
import Macropad.Proofs.Language.Translation
import Macropad.Proofs.Player.Bounds
import Macropad.Proofs.Player.ConfiguredValues
import Macropad.Proofs.Player.DryRun
import Macropad.Proofs.Player.Frames
import Macropad.Proofs.Player.Requests
import Macropad.Proofs.Player.StoredCommands
import Macropad.Proofs.Screen.AnchoredPlaces
import Macropad.Proofs.Screen.Answers
import Macropad.Proofs.Screen.ClickPoints
import Macropad.Proofs.Screen.FixedDisplay
import Macropad.Proofs.Screen.Instances
import Macropad.Proofs.Screen.Matching
import Macropad.Proofs.Screen.References
import Macropad.Proofs.Screen.WrittenForm
import Macropad.Proofs.Setting.Ranges
import Macropad.Proofs.Trigger.Admission
import Macropad.Proofs.Trigger.Clipboard
import Macropad.Proofs.Trigger.Glob
import Macropad.Proofs.Trigger.Inbox
import Macropad.Proofs.Trigger.Polls
import Macropad.Proofs.Trigger.RequestFile
import Macropad.Proofs.Trigger.WrittenRequests
import Macropad.Screen.Anchor
import Macropad.Screen.Frame
import Macropad.Screen.Image
import Macropad.Screen.Locator
import Macropad.Screen.Point
import Macropad.Screen.Polling
import Macropad.Setting.Session
import Macropad.Setting.Update
import Macropad.Text.Blank
import Macropad.Text.Cut
import Macropad.Text.DecimalDigit
import Macropad.Text.Table
import Macropad.Trigger.Clipboard
import Macropad.Trigger.Gate
import Macropad.Trigger.Glob
import Macropad.Trigger.Inbox
import Macropad.Trigger.Receiver
import Macropad.Trigger.Request
import Macropad.Trigger.RequestFile
import Macropad.Trigger.Timetable
