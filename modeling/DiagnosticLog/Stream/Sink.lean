import DiagnosticLog.Config

/-!
# Sinks and log paths

The log goes to standard output, to standard error or to a file; which one is chosen once by a
path.  Only two exact paths name the standard streams, every other one is that of a file.
-/

namespace DiagnosticLog

inductive Sink where
  /-- Not chosen yet; until then prints go to standard output. -/
  | unresolved
  | standardOut
  | standardError
  | file (path : Bytes)
  deriving DecidableEq, Repr

namespace Sink

def ofPath (path : Bytes) : Sink :=
  if path = Config.standardOutPath then standardOut
  else if path = Config.standardErrorPath then standardError
  else file path

def isResolved : Sink → Bool
  | unresolved => false
  | _ => true

theorem eq_unresolved {sink : Sink} (h : sink.isResolved = false) : sink = unresolved := by
  cases sink <;> first | rfl | cases h

theorem isResolved_ofPath (path : Bytes) : (ofPath path).isResolved = true := by
  unfold ofPath
  split
  · rfl
  · split <;> rfl

end Sink

/-- The log path: the one that is given, else that of the environment, else the default. -/
def resolvePath (given environment : Option Bytes) : Bytes :=
  (given.or environment).getD Config.defaultPath

end DiagnosticLog
