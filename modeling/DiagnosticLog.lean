import DiagnosticLog.Bytes
import DiagnosticLog.Config
import DiagnosticLog.Error
import DiagnosticLog.Lock.Checked
import DiagnosticLog.Lock.Raw
import DiagnosticLog.Log.Fatal
import DiagnosticLog.Log.Foreign
import DiagnosticLog.Log.Lock
import DiagnosticLog.Log.Print
import DiagnosticLog.Log.Record
import DiagnosticLog.Log.Setup
import DiagnosticLog.Program
import DiagnosticLog.Proofs.Crew
import DiagnosticLog.Proofs.FatalCalls
import DiagnosticLog.Proofs.Foreign
import DiagnosticLog.Proofs.LastWords
import DiagnosticLog.Proofs.LineEnd.Builds
import DiagnosticLog.Proofs.LineEnd.Conversion
import DiagnosticLog.Proofs.LineEnd.Scripts
import DiagnosticLog.Proofs.Logger
import DiagnosticLog.Proofs.Mutex.Bracketed
import DiagnosticLog.Proofs.Mutex.Exclusion
import DiagnosticLog.Proofs.Mutex.Installation
import DiagnosticLog.Proofs.Mutex.Refinement
import DiagnosticLog.Proofs.Mutex.Stage
import DiagnosticLog.Proofs.Opening
import DiagnosticLog.Proofs.Output.Choosing
import DiagnosticLog.Proofs.Output.Closing
import DiagnosticLog.Proofs.Output.Composed
import DiagnosticLog.Proofs.Output.Console
import DiagnosticLog.Proofs.Output.Directed
import DiagnosticLog.Proofs.Output.Formatting
import DiagnosticLog.Proofs.Output.Interrupted
import DiagnosticLog.Proofs.Output.Laws
import DiagnosticLog.Proofs.Output.Ledger
import DiagnosticLog.Proofs.Output.Lines
import DiagnosticLog.Proofs.Output.Nesting
import DiagnosticLog.Proofs.Output.Order
import DiagnosticLog.Proofs.Output.Quiet
import DiagnosticLog.Proofs.Output.Routing
import DiagnosticLog.Proofs.Output.Unwinding
import DiagnosticLog.Proofs.Plays
import DiagnosticLog.Proofs.Refusal.Beside
import DiagnosticLog.Proofs.Refusal.Choices
import DiagnosticLog.Proofs.Refusal.Operations
import DiagnosticLog.Proofs.Refusal.Scripts
import DiagnosticLog.Proofs.Refusal.Steady
import DiagnosticLog.Proofs.Session.Amid
import DiagnosticLog.Proofs.Session.Choice
import DiagnosticLog.Proofs.Session.Contents
import DiagnosticLog.Proofs.Session.Files
import DiagnosticLog.Proofs.Session.LastLine
import DiagnosticLog.Proofs.Session.Move
import DiagnosticLog.Proofs.Session.Printers
import DiagnosticLog.Proofs.Session.Printing
import DiagnosticLog.Proofs.Session.WayOut
import DiagnosticLog.Proofs.Setup
import DiagnosticLog.Proofs.Simulation
import DiagnosticLog.Proofs.Statement.Alone
import DiagnosticLog.Proofs.Statement.Line
import DiagnosticLog.Proofs.Statement.Release
import DiagnosticLog.Proofs.Statement.Truncation
import DiagnosticLog.Proofs.Statement.Whole
import DiagnosticLog.Proofs.Survival.Histories
import DiagnosticLog.Proofs.Survival.Idle
import DiagnosticLog.Proofs.Survival.Uses
import DiagnosticLog.Proofs.Text.BitPatterns
import DiagnosticLog.Proofs.Text.Characters
import DiagnosticLog.Proofs.Text.Cutting
import DiagnosticLog.Proofs.Text.ReadBack
import DiagnosticLog.Proofs.Text.Rounding
import DiagnosticLog.Proofs.Text.Sequences
import DiagnosticLog.Request
import DiagnosticLog.Script.Call
import DiagnosticLog.Script.Contention
import DiagnosticLog.Script.Report
import DiagnosticLog.Script.Run
import DiagnosticLog.Script.Step
import DiagnosticLog.Session.Basic
import DiagnosticLog.Session.Guest
import DiagnosticLog.Session.Hosted
import DiagnosticLog.Stream.FileTree
import DiagnosticLog.Stream.LineBuffer
import DiagnosticLog.Stream.Sink
import DiagnosticLog.Stream.Transcript
import DiagnosticLog.Text.Lossy
import DiagnosticLog.Text.Numeral
import DiagnosticLog.Text.SixPlaces
import DiagnosticLog.Text.Utf8
import DiagnosticLog.Thread
