import DiagnosticLog.Script.Contention

/-!
# Calls

A call is one use of an operation of the log that takes no message.  Its task answers what the
operation gives back, if it gives anything back.
-/

namespace DiagnosticLog

inductive ForeignCall where
  | openStream (path : Log.Foreign.CString)
  | lock
  | unlock
  | flush
  | int (n : Int32)
  | boolean (c : Int8)
  | char (n : Int32)
  | long (n : Int64)
  | buffer (s : Log.Foreign.CString)
  | word (w : UInt64)
  | newline
  | float (bits : UInt32)
  | double (bits : UInt64)
  | assertion (condition : Int8) (text file : Log.Foreign.CString) (line : Int32)
  deriving DecidableEq, Repr

inductive Call where
  | int (n : Int32)
  | char (n : Int32)
  | long (n : Int64)
  | word (w : UInt64)
  | bool (b : Bool)
  | newline
  | buffer (b : Bytes)
  | bytes (b : Bytes)
  | float (bits : UInt32)
  | double (bits : UInt64)
  | emptyLine
  | flush
  | lock
  | unlock
  | acquireGuard
  | dropGuard
  | exit (code : Int32)
  | openStream (path : Option Bytes)
  | tryOpenStream (path : Option Bytes)
  | currentSink
  | foreign (c : ForeignCall)
  | registerLogger
  | enabled (level : Level)
  | flushLogger
  | maxLevel
  | makeLock (id : String) (kind : LockKind)
  | enterLock (id : String)
  | leaveLock (id : String)
  | tryLock (id : String)
  | lockState (id : String)
  | identify
  | installConsole (id : ConsoleId)
  | setToken (t : Token)
  /-- Threads of their own log lines at the same time. -/
  | contend (form : StatementForm) (threads statements : Nat)
  deriving DecidableEq, Repr

namespace Answer

/-- A step that gives control back says nothing; one that is unwound says so. -/
def ofFinish : Finish → Option Answer
  | .returned => none
  | .unwound => some .panic

def ofMutex : Except MutexError Unit → Answer
  | .ok () => .ok
  | .error e => .mutexError e

def ofInstall : Except LogError Unit → Answer
  | .ok () => .ok
  | .error e => .logError e

def ofChoice : Except LogError Sink → Answer
  | .ok s => .sink s
  | .error e => .logError e

end Answer

def silent {α : Type} (task : Task α) : Task (Option Answer) := do
  let _ ← task
  return none

def ForeignCall.task : ForeignCall → Task (Option Answer)
  | openStream path => silent (Log.Foreign.openStream path)
  | lock => silent Log.Foreign.lock
  | unlock => silent Log.Foreign.unlock
  | flush => silent Log.Foreign.flush
  | int n => silent (Log.Foreign.printInt n)
  | boolean c => silent (Log.Foreign.printBoolean c)
  | char n => silent (Log.Foreign.printChar n)
  | long n => silent (Log.Foreign.printLong n)
  | buffer s => silent (Log.Foreign.printBuffer s)
  | word w => silent (Log.Foreign.printWord w)
  | newline => silent Log.Foreign.printNewline
  | float bits => silent (Log.Foreign.printFloat bits)
  | double bits => silent (Log.Foreign.printDouble bits)
  | assertion condition text file line => do
      return Answer.ofFinish (← Log.Foreign.assertCondition condition text file line)

namespace Call

/-- Enter one of the script's own locks; a bare one is just taken. -/
def enterOwn (id : String) : Task (Option Answer) := do
  match ← Request.make (.lockKind id) with
  | .checked => return some (Answer.ofMutex (← Log.enter (.own id)))
  | .bare => silent (Request.make (.access (.own id) .lockRaw))

/-- Leave one of the script's own locks; a bare one is just freed, whoever took it. -/
def leaveOwn (id : String) : Task (Option Answer) := do
  match ← Request.make (.lockKind id) with
  | .checked => return some (Answer.ofMutex (← Log.leave (.own id)))
  | .bare => silent (Request.make (.access (.own id) .unlockRaw))

def task : Call → Task (Option Answer)
  | int n => silent (Log.printInt n)
  | char n => silent (Log.printChar n)
  | long n => silent (Log.printLong n)
  | word w => silent (Log.printWord w)
  | bool b => silent (Log.printBool b)
  | newline => silent Log.printNewline
  | buffer b => silent (Log.printBuffer b)
  | bytes b => silent (Log.printBytes b)
  | float bits => silent (Log.printFloat bits)
  | double bits => silent (Log.printDouble bits)
  | emptyLine => do
      return Answer.ofFinish (← Log.printlnEmpty)
  | flush => silent Log.flush
  | lock => silent Log.lock
  | unlock => silent Log.unlock
  | acquireGuard => silent Log.acquireGuard
  | dropGuard => silent Log.dropGuard
  | exit code => Log.exit code
  | openStream path => silent (Log.openStream path)
  | tryOpenStream path => do
      return (← Log.tryOpenStream path).map Answer.ofChoice
  | currentSink => do
      return (← Log.currentSink).map .sink
  | foreign c => c.task
  | registerLogger => do
      return some (if ← Log.registerLogger then .ok else .loggerSet)
  | enabled level => return some (.flag (Log.enabled level))
  | flushLogger => silent Log.flushLogger
  | maxLevel => do
      return some (.maxLevel (← Log.maxLevel))
  | makeLock id kind => silent (Request.make (.makeLock id kind))
  | enterLock id => enterOwn id
  | leaveLock id => leaveOwn id
  | tryLock id => do
      return some (.flag (← Request.make (.access (.own id) .tryLockRaw)))
  | lockState id => do
      return some (.flag (← Request.make (.access (.own id) .isLocked)))
  | identify => do
      return some (← Request.make .identify)
  | installConsole id => do
      return some (Answer.ofInstall (← Log.installConsole id))
  | setToken t => silent (Request.make (.setToken t))
  | contend form threads statements => silent (Contention.task form threads statements)

end Call

end DiagnosticLog
