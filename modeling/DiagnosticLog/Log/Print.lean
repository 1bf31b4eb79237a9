import DiagnosticLog.Request
import DiagnosticLog.Text.SixPlaces

/-!
# Printing

A message is a list of fragments that are formatted one after another, each piece being put to
the destination as soon as it is formatted.  A fragment may also be a task of its own, which runs
in the middle of the formatting, or fail to be formatted.  A task that is unwound takes the
formatting around it with it.

The printers never take the log lock.  A print holds on to the destination that was current when
it began, whatever happens while it is formatted.
-/

namespace DiagnosticLog

inductive Fragment where
  | piece (p : Piece)
  /-- Formats to nothing, and runs a task where it stands. -/
  | effect (task : Task Finish)
  /-- Cannot be formatted. -/
  | fault

abbrev Message : Type :=
  List Fragment

namespace Message

def ofPieces (ps : List Piece) : Message :=
  ps.map .piece

def text (s : String) : Message :=
  [.piece (.text (Bytes.ofString s))]

def lineEnd : Message :=
  [.piece .lineEnd]

end Message

namespace Piece

def ofChars (cs : List Char) : Piece :=
  .text (Bytes.ofChars cs)

def ofGroups (groups : List (List Char)) : List Piece :=
  groups.map ofChars

def integer (n : Int) : List Piece :=
  ofGroups (Numeral.integerGroups n)

def shown (b : Bytes) : List Piece :=
  (Lossy.pieces b).map .text

end Piece

namespace Log

/-! ## The print primitive -/

/-- Format a message into a channel, up to its end, the first piece that is refused, the first
fragment that cannot be formatted, or the first task that is unwound. -/
def deliver (channel : Channel) : Message → Task Formatting
  | [] => return .complete
  | .piece p :: rest => do
      if ← Request.make (.put channel p) then deliver channel rest else return .refused
  | .effect task :: rest => do
      match ← task with
      | .returned => deliver channel rest
      | .unwound => return .unwound
  | .fault :: _ => return .fault

/-- Wait for the channel of a print that has begun.  An urgent print turns to standard error if the
writer of the log file is in use. -/
def takeChannel (urgency : Urgency) (channel : Channel) : Task Channel := do
  if urgency.passesBy channel then
    if ← Request.make (.tryTakeChannel channel) then return channel
    else
      Request.make (.takeChannel .standardError)
      return .standardError
  else
    Request.make (.takeChannel channel)
    return channel

def takeOutlet (urgency : Urgency) (outlet : Outlet) : Task (Option Channel) :=
  match outlet.channel? with
  | none => return none
  | some channel => do
      return some (← takeChannel urgency channel)

def beginPatient : Task (Option Channel) := do
  takeOutlet .patient (← Request.make (.beginPrint .patient))

/-- Begin an urgent print.  Where no sink has been chosen it is a print like any other. -/
def beginUrgent : Task (Option Channel) := do
  let outlet ← Request.make (.beginPrint .urgent)
  if outlet = .sink .unresolved then beginPatient else takeOutlet .urgent outlet

def beginPrint : Urgency → Task (Option Channel)
  | .patient => beginPatient
  | .urgent => beginUrgent

/-- Print a message to the channel that has been taken for it.  Without one nothing is formatted. -/
def printTo (m : Message) : Option Channel → Task Finish
  | none => return .returned
  | some channel => do
      let formatting ← deliver channel m
      Request.make (.endPrint channel formatting)

def printWith (urgency : Urgency) (m : Message) : Task Finish := do
  printTo m (← beginPrint urgency)

def print (m : Message) : Task Finish :=
  printWith .patient m

def printPieces (ps : List Piece) : Task Unit := do
  let _ ← print (Message.ofPieces ps)

def currentSink : Task (Option Sink) :=
  Request.make .currentSink

/-- Push out a line that is only partly written.  Guests keep nothing back. -/
def flush : Task Unit := do
  match ← currentSink with
  | none => return ()
  | some sink => Request.make (.flush .patient sink.channel)

/-! ## Printers of values -/

def printInt (n : Int32) : Task Unit :=
  printPieces (Piece.integer n.toInt)

def printLong (n : Int64) : Task Unit :=
  printPieces (Piece.integer n.toInt)

def printBool (b : Bool) : Task Unit :=
  printPieces [.ofChars (if b then "true".toList else "false".toList)]

/-- The scalar value a number stands for, U+FFFD if there is none. -/
def scalarOf (n : Int32) : Char :=
  if h : 0 ≤ n.toInt ∧ n.toInt.toNat.isValidChar then
    Char.ofNatAux n.toInt.toNat h.2
  else
    '\uFFFD'

def printChar (n : Int32) : Task Unit :=
  printPieces [.ofChars [scalarOf n]]

def printWord (w : UInt64) : Task Unit :=
  printPieces (Piece.ofGroups (Numeral.wordGroups w))

def printNewline : Task Unit :=
  printPieces [.lineEnd]

def printBuffer (b : Bytes) : Task Unit :=
  printPieces [.text b]

/-- Print bytes that may not be text. -/
def printBytes (b : Bytes) : Task Unit :=
  printPieces (Piece.shown b)

/-- Print a binary64 value, given by its bit pattern, or a placeholder. -/
def printDouble (bits : UInt64) : Task Unit := do
  if ← Request.make .formatsReals then
    printPieces (Piece.ofGroups (SixPlaces.groups bits))
  else
    printPieces [.text Config.floatPlaceholder]

end Log

end DiagnosticLog
