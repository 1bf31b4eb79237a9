import DiagnosticLog.Log.Fatal

/-!
# The log lock

A statement that consists of several prints is kept whole by taking the log lock before and
releasing it after.  Misusing the lock ends the run.
-/

namespace DiagnosticLog.Log

/-- Carry out the accesses of a program on one of the locks. -/
def onLock {α : Type} (name : LockName) (p : Program Access.interface α) : Task α :=
  p.relay fun a => Request.make (.access name a)

def enter (name : LockName) : Task (Except MutexError Unit) := do
  let me ← Request.make .self
  onLock name (CheckedMutex.enterAs me)

def leave (name : LockName) : Task (Except MutexError Unit) := do
  let me ← Request.make .self
  onLock name (CheckedMutex.exitAs me)

def mutexFailureMessage (token address : UInt64) (operation : String) (e : MutexError) : Message :=
  Message.text "Thread " ++ Message.ofPieces (Piece.ofGroups (Numeral.shortWordGroups token)) ++
    Message.text " could not " ++ Message.text operation ++ Message.text " mutex " ++
    Message.ofPieces (Piece.ofGroups (Numeral.shortWordGroups address)) ++
    Message.text ": " ++ Message.text e.message

def mutexFailure {α : Type} (operation : String) (e : MutexError) : Task α := do
  let token ← Request.make .self
  let address ← Request.make .lockAddress
  let _ ← printUrgent (mutexFailureMessage token address operation e)
  endLineAndExit Config.mutexFailureCode

def lock : Task Unit := do
  match ← enter .log with
  | .ok () => return ()
  | .error e => mutexFailure "lock" e

def unlock : Task Unit := do
  match ← leave .log with
  | .ok () => return ()
  | .error e => mutexFailure "unlock" e

def acquireGuard : Task Unit := do
  lock
  Request.make .pushGuard

/-- Give up the guard kept last, and with it the log lock. -/
def dropGuard : Task Unit := do
  if ← Request.make .popGuard then unlock

/-! ## Whole statements -/

/-- Run a body under the log lock, which is released however the body finishes. -/
def bracketed (body : Task Finish) : Task Finish := do
  lock
  let finish ← body
  unlock
  return finish

def line (m : Message) : Task Finish := do
  match ← print m with
  | .returned => print Message.lineEnd
  | .unwound => return .unwound

def println (m : Message) : Task Finish :=
  bracketed (line m)

def printlnEmpty : Task Finish :=
  bracketed (print Message.lineEnd)

end DiagnosticLog.Log
