import DiagnosticLog.Bytes

/-!
# Configuration of a build

What is fixed when the log is built: whether it runs in a process of an operating system or in a
bare guest, how lines end, and which environment variable names the log file.
-/

namespace DiagnosticLog

inductive Mode where
  /-- In a process, with standard streams, files and an environment. -/
  | hosted
  /-- In a guest, with nothing but the console its runtime installs. -/
  | guest
  deriving DecidableEq, Repr

inductive LineEnd where
  | lf
  | crlf
  deriving DecidableEq, Repr

def LineEnd.bytes : LineEnd → Bytes
  | lf => [0x0A]
  | crlf => [0x0D, 0x0A]

structure Build where
  mode : Mode
  lineEnd : LineEnd
  /-- Whether the log of the tele runtime is built. -/
  tele : Bool
  deriving DecidableEq, Repr

namespace Build

/-- The environment variable consulted when no path is given. -/
def logFileVariable (build : Build) : String :=
  if build.tele then "TELE_LOG_FILE" else "MAXINE_LOG_FILE"

end Build

namespace Config

def standardOutPath : Bytes := Bytes.ofString "stdout"

def standardErrorPath : Bytes := Bytes.ofString "stderr"

def defaultPath : Bytes := standardOutPath

def openFailureCode : Int32 := 1

def mutexFailureCode : Int32 := -1

def assertionFailureCode : Int32 := 1

def floatPlaceholder : Bytes := Bytes.ofString "not supported"

end Config

end DiagnosticLog
