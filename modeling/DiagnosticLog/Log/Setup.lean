import DiagnosticLog.Log.Fatal

/-!
# Setting up the log

A process chooses the sink of its log once, by a path; a guest installs its console once.
-/

namespace DiagnosticLog.Log

/-- Choose the sink: by the given path, else by the environment, else the default.  There is
nothing to choose in a guest.  Another thread may come first while the sink is being opened. -/
def tryOpenStream (path : Option Bytes) : Task (Option (Except LogError Sink)) := do
  match ← currentSink with
  | none => return none
  | some sink =>
      if sink.isResolved then return some (.error .alreadyInitialized)
      else
        match ← Request.make (.openSink path) with
        | .error e => return some (.error (.notOpened e))
        | .ok () =>
            match ← Request.make .publishSink with
            | none => return some (.error .alreadyInitialized)
            | some sink => return some (.ok sink)

/-- Choose the sink.  It is no matter if that has been done; a file that cannot be opened ends
the run, with a line on standard error that ends in a line feed in every build. -/
def openStream (path : Option Bytes) : Task Unit := do
  match ← tryOpenStream path with
  | some (.error (.notOpened e)) =>
      Request.make (.complain (e.message ++ [Bytes.lineFeed]))
      stop Config.openFailureCode
  | _ => return ()

/-- Install the console all output of a guest goes to; only the first one is taken. -/
def installConsole (id : ConsoleId) : Task (Except LogError Unit) :=
  Request.make (.installConsole id)

end DiagnosticLog.Log
