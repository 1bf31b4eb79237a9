import DiagnosticLog.Lock.Checked
import DiagnosticLog.Stream.FileTree
import DiagnosticLog.Text.Lossy

/-!
# Errors of the log

Each error is a cause with one wording; a log file that cannot be opened also names the failure
beneath it.
-/

namespace DiagnosticLog

/-- A log file could not be created. -/
structure OpenError where
  path : Bytes
  cause : OpenFailure
  deriving DecidableEq, Repr

/-- The error in words; the path is shown as text whatever its bytes are. -/
def OpenError.message (e : OpenError) : Bytes :=
  Bytes.ofString "Could not open file for VM output stream: " ++ Lossy.text e.path

inductive LogError where
  | alreadyInitialized
  | consoleInstalled
  | notOpened (e : OpenError)
  deriving DecidableEq, Repr

def LogError.message : LogError → Bytes
  | alreadyInitialized => Bytes.ofString "log stream already initialized"
  | consoleInstalled => Bytes.ofString "guest console already installed"
  | notOpened e => e.message

inductive Failure where
  | mutex (e : MutexError)
  | log (e : LogError)
  | opening (e : OpenError)
  deriving DecidableEq, Repr

namespace Failure

def message : Failure → Bytes
  | mutex e => Bytes.ofString e.message
  | log e => e.message
  | opening e => e.message

/-- The failure beneath the error, if there is one. -/
def cause? : Failure → Option OpenFailure
  | log (.notOpened e) => some e.cause
  | opening e => some e.cause
  | _ => none

end Failure

end DiagnosticLog
