import DiagnosticLog.Log.Lock
import DiagnosticLog.Log.Setup
import DiagnosticLog.Text.SixPlaces

/-!
# The C entry points

The operations of the log for callers that pass C values: strings that end at their first zero
byte and may be missing, and truth values that are characters.
-/

namespace DiagnosticLog.Log

/-- Print a binary32 value, widened without loss. -/
def printFloat (bits : UInt32) : Task Unit :=
  printDouble (SixPlaces.widen bits)

namespace Foreign

/-- A C string, by the bytes that lie at its address; nothing for a null pointer. -/
abbrev CString : Type := Option Bytes

/-- The bytes that are shown for a C string. -/
def shownBytes : CString → Bytes
  | some b => b.beforeZero
  | none => Bytes.ofString "(null)"

/-- Every character but zero is true. -/
def truth (c : Int8) : Bool :=
  c != 0

/-- A missing path is none; a path that is empty is one. -/
def openStream (path : CString) : Task Unit :=
  Log.openStream (path.map Bytes.beforeZero)

def lock : Task Unit :=
  Log.lock

def unlock : Task Unit :=
  Log.unlock

def flush : Task Unit :=
  Log.flush

def printInt (n : Int32) : Task Unit :=
  Log.printInt n

def printBoolean (c : Int8) : Task Unit :=
  Log.printBool (truth c)

def printChar (n : Int32) : Task Unit :=
  Log.printChar n

def printLong (n : Int64) : Task Unit :=
  Log.printLong n

def printBuffer (s : CString) : Task Unit :=
  Log.printBytes (shownBytes s)

def printWord (w : UInt64) : Task Unit :=
  Log.printWord w

def printNewline : Task Unit :=
  Log.printNewline

def printFloat (bits : UInt32) : Task Unit :=
  Log.printFloat bits

def printDouble (bits : UInt64) : Task Unit :=
  Log.printDouble bits

/-- The texts are not looked at if the condition holds. -/
def assertCondition (condition : Int8) (text file : CString) (line : Int32) : Task Finish :=
  if truth condition then return .returned
  else
    Log.assertCondition false (Message.ofPieces (Piece.shown (shownBytes text)))
      (Message.ofPieces (Piece.shown (shownBytes file))) line

end Foreign

end DiagnosticLog.Log
