import DiagnosticLog.Log.Print

/-!
# Last words

The operations that end the run.  None of them takes the log lock and none waits for the writer
of a log file: the caller may hold the one and be using the other.
-/

namespace DiagnosticLog.Log

def printUrgent (m : Message) : Task Finish :=
  printWith .urgent m

/-- Flush without waiting for the writer of a file.  Where no sink has been chosen this is a flush
like any other. -/
def flushUrgent : Task Unit := do
  match ← currentSink with
  | none => return ()
  | some sink =>
      if sink.isResolved then Request.make (.flush .urgent sink.channel) else flush

/-- End the run.  A guest that has no console now never gets any further. -/
def stop {α : Type} (code : Int32) : Task α := do
  let console ← Request.make .currentConsole
  let never ← Request.make (.stop console code)
  nomatch never

def exit {α : Type} (code : Int32) : Task α := do
  flushUrgent
  stop code

def endLineAndExit {α : Type} (code : Int32) : Task α := do
  let _ ← printUrgent Message.lineEnd
  exit code

/-- Log a message as one line and end the run.  A message that unwinds takes the exit with it. -/
def exitWith (code : Int32) (m : Message) : Task Finish := do
  match ← printUrgent m with
  | .returned => endLineAndExit code
  | .unwound => return .unwound

/-- The line a failed assertion leaves. -/
def assertionMessage (text file : Message) (line : Int32) : Message :=
  Message.text "log_assert " ++ file ++ Message.text "[" ++
    Message.ofPieces (Piece.integer line.toInt) ++ Message.text "]: " ++ text

/-- Unless the condition holds, log where it was asserted and end the run. -/
def assertCondition (holds : Bool) (text file : Message) (line : Int32) : Task Finish :=
  if holds then return .returned
  else exitWith Config.assertionFailureCode (assertionMessage text file line)

end DiagnosticLog.Log
