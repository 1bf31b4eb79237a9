import DiagnosticLog.Error
import DiagnosticLog.Stream.Sink
import DiagnosticLog.Thread

/-!
# What the log asks of its surroundings

Every operation of the log is a program of the requests listed here: accesses to locks, pieces
put to a channel, and the few questions about threads, sinks and consoles.  The programs do not
know the build they run in; how a piece is spelled, where a print goes and what an ending is, is
decided where the requests are carried out.
-/

namespace DiagnosticLog

inductive Level where
  | error
  | warn
  | info
  | debug
  | trace
  deriving DecidableEq, Repr

/-- The more verbose a level is, the higher it ranks. -/
def Level.rank : Level → Nat
  | error => 1
  | warn => 2
  | info => 3
  | debug => 4
  | trace => 5

/-- Whether records of a level are let through, by the most verbose level that is, if any is. -/
def Level.passes (level : Level) (most : Option Level) : Bool :=
  level.rank ≤ (most.map rank).getD 0

def Level.name : Level → String
  | error => "ERROR"
  | warn => "WARN"
  | info => "INFO"
  | debug => "DEBUG"
  | trace => "TRACE"

/-- A console a guest's runtime provides. -/
abbrev ConsoleId : Type := Fin 2

inductive Answer where
  /-- The step was unwound by a formatting error. -/
  | panic
  | ok
  | sink (s : Sink)
  | logError (e : LogError)
  | mutexError (e : MutexError)
  /-- A logger is registered already. -/
  | loggerSet
  | flag (value : Bool)
  /-- The most verbose level that is let through, if any is. -/
  | maxLevel (level : Option Level)
  | token (t : Token)
  /-- A thread, counted in the order of first appearance. -/
  | thread (index : Nat) (reserved : Bool)
  deriving DecidableEq, Repr

/-- What a step says when it is unwound. -/
def Answer.panicMessage : String :=
  "a formatting trait implementation returned an error when the underlying stream did not"

/-- What a print hands to its destination in one go. -/
inductive Piece where
  | text (bytes : Bytes)
  | lineEnd
  deriving DecidableEq, Repr

inductive Channel where
  | standardOut
  | standardError
  | file
  | console (id : ConsoleId)
  deriving DecidableEq, Repr

def Sink.channel : Sink → Channel
  | unresolved => .standardOut
  | standardOut => .standardOut
  | standardError => .standardError
  | file _ => .file

/-- What a print finds when it looks where to go. -/
inductive Outlet where
  /-- A guest without a console. -/
  | nowhere
  | console (id : ConsoleId)
  | sink (s : Sink)
  deriving DecidableEq, Repr

def Outlet.channel? : Outlet → Option Channel
  | nowhere => none
  | console id => some (.console id)
  | sink s => some s.channel

/-- Whether a print or flush may wait for the writer of a log file. -/
inductive Urgency where
  | patient
  /-- It may not: the caller may be the one that uses the writer. -/
  | urgent
  deriving DecidableEq, Repr

/-- Whether a caller does not wait for the channel: it is urgent, and the channel leads to the
writer of a file. -/
def Urgency.passesBy (urgency : Urgency) (channel : Channel) : Bool :=
  urgency = .urgent ∧ channel = .file

/-- How far the formatting of a message came. -/
inductive Formatting where
  | complete
  /-- The destination refused a piece, and the rest was not formatted. -/
  | refused
  /-- A part could not be formatted, nor was the rest. -/
  | fault
  /-- A task in the middle of the message was unwound, and the rest was not formatted. -/
  | unwound
  deriving DecidableEq, Repr

inductive Finish where
  | returned
  /-- It is unwound by a formatting error. -/
  | unwound
  deriving DecidableEq, Repr

/-- The locks of a run: that of the log, and those a script makes for itself. -/
inductive LockName where
  | log
  | own (id : String)
  deriving DecidableEq, Repr

inductive LockKind where
  | checked
  | bare
  deriving DecidableEq, Repr

inductive Request where
  | self
  /-- What a script is told of the calling thread. -/
  | identify
  | access (lock : LockName) (a : Access)
  /-- The address at which the log lock is. -/
  | lockAddress
  | formatsReals
  /-- Begin a print: where will it go? -/
  | beginPrint (urgency : Urgency)
  /-- Wait until the print that has begun can write to its channel. -/
  | takeChannel (channel : Channel)
  /-- Take the channel for the print that has begun, unless it is in use. -/
  | tryTakeChannel (channel : Channel)
  /-- Put one piece of the print that has begun. -/
  | put (channel : Channel) (piece : Piece)
  | endPrint (channel : Channel) (formatting : Formatting)
  /-- Write a text to standard error, whatever the sink is. -/
  | complain (text : Bytes)
  | flush (urgency : Urgency) (channel : Channel)
  | currentSink
  /-- Open the sink that is meant by the given path, if there is one; the log is not set up with it
  yet. -/
  | openSink (path : Option Bytes)
  /-- Set the log up with what the calling thread has opened. -/
  | publishSink
  | currentConsole
  /-- End the run: that of a guest through the given console. -/
  | stop (console : Option ConsoleId) (code : Int32)
  | installConsole (id : ConsoleId)
  /-- Make the calling thread report another token. -/
  | setToken (t : Token)
  | registerLogger
  | loggerRegistered
  | setMaxLevel (level : Level)
  | maxLevel
  | pushGuard
  /-- Give up the guard kept last. -/
  | popGuard
  /-- Make a lock of the script's own. -/
  | makeLock (id : String) (kind : LockKind)
  | lockKind (id : String)
  /-- Remember the answer of a step that ran inside another. -/
  | note (answer : Option Answer)

@[reducible] def Request.Reply : Request → Type
  | self => Token
  | identify => Answer
  | access _ a => a.Reply
  | lockAddress => UInt64
  | formatsReals => Bool
  | beginPrint _ => Outlet
  | takeChannel _ => Unit
  /- Whether the channel could be taken. -/
  | tryTakeChannel _ => Bool
  /- Whether the piece was taken. -/
  | put _ _ => Bool
  | endPrint _ _ => Finish
  | complain _ => Unit
  | flush _ _ => Unit
  /- Nothing, where there are no sinks. -/
  | currentSink => Option Sink
  | openSink _ => Except OpenError Unit
  /- The sink, unless the log has been set up by somebody else. -/
  | publishSink => Option Sink
  | currentConsole => Option ConsoleId
  | stop _ _ => Empty
  | installConsole _ => Except LogError Unit
  | setToken _ => Unit
  /- Whether there was no logger before. -/
  | registerLogger => Bool
  | loggerRegistered => Bool
  | setMaxLevel _ => Unit
  | maxLevel => Option Level
  | pushGuard => Unit
  /- Whether there was a guard to give up. -/
  | popGuard => Bool
  | makeLock _ _ => Unit
  | lockKind _ => LockKind
  | note _ => Unit

/-- A request, and who makes it. -/
structure Demand where
  caller : Caller
  request : Request

@[reducible] def Demand.Reply (d : Demand) : Type :=
  d.request.Reply

abbrev Request.interface : Interface :=
  ⟨Demand, Demand.Reply⟩

abbrev Task (α : Type) : Type :=
  Program Request.interface α

abbrev Request.demand (r : Request) : Demand :=
  ⟨.runner, r⟩

def Request.make (r : Request) : Task r.Reply :=
  .ask r.demand .done

@[simp] theorem Request.make_bind {α : Type} (r : Request) (f : r.Reply → Task α) :
    (Request.make r >>= f) = .ask r.demand f := rfl

def Demand.makeAs (caller : Caller) (d : Demand) : Task d.Reply :=
  .ask ⟨caller, d.request⟩ .done

def Task.asStarted {α : Type} (n : Nat) (task : Task α) : Task α :=
  task.relay (Demand.makeAs (.started n))

end DiagnosticLog
