import DiagnosticLog.Log.Foreign
import DiagnosticLog.Log.Record

/-!
# Contention

A task can start threads that all log the same number of whole lines at the same time, and wait
for their end.  Each line is a statement under the log lock in one of the forms a statement can
have.

All threads come to the log lock before the first of them takes it, and then they take turns.
Whole statements do not interleave, so apart from the order of the lines this is what any other
schedule comes to.
-/

namespace DiagnosticLog

inductive StatementForm where
  | locked
  | guarded
  | lineMessage
  /-- Prints between taking and releasing the lock, by the C entry points. -/
  | foreign
  | record
  deriving DecidableEq, Repr

namespace Contention

def half (letter : Char) (t n : Nat) : Bytes :=
  Bytes.ofChars (letter :: Numeral.decimal t ++ '-' :: Numeral.decimal n)

def lineText (t n : Nat) : Bytes :=
  half 'A' t n ++ Bytes.ofString " " ++ half 'B' t n

def statement (form : StatementForm) (t n : Nat) : Task Unit :=
  match form with
  | .locked => do
      Log.lock
      Log.printBuffer (lineText t n)
      Log.printNewline
      Log.unlock
  | .guarded => do
      Log.acquireGuard
      Log.printBuffer (lineText t n)
      Log.printNewline
      Log.dropGuard
  | .lineMessage => do
      let _ ← Log.println [.piece (.text (lineText t n))]
  | .foreign => do
      Log.Foreign.lock
      Log.Foreign.printBuffer (some (lineText t n))
      Log.Foreign.printNewline
      Log.Foreign.unlock
  | .record => do
      let _ ← Log.record .info [.piece (.text (lineText t n))]

def statements (form : StatementForm) (t : Nat) : List Nat → Task Unit
  | [] => return ()
  | n :: rest => do
      statement form t n
      statements form t rest

def worker (form : StatementForm) (count t : Nat) : Task Unit :=
  (statements form t (List.range count)).asStarted t

/-- Whether a demand takes the log lock, for which it may have to wait. -/
def takesLock (d : Demand) : Bool :=
  match d.request with
  | .access .log .lockRaw => true
  | _ => false

/-- Bring every task to the log lock; what is left of each is to take it and go on. -/
def gather : List (Task Unit) → Task (List (Task Unit))
  | [] => return []
  | task :: rest => do
      let left ← task.upTo takesLock
      return left :: (← gather rest)

def inTurn : List (Task Unit) → Task Unit
  | [] => return ()
  | task :: rest => do
      task
      inTurn rest

/-- Start threads that log `count` lines each, and wait for their end. -/
def task (form : StatementForm) (threads count : Nat) : Task Unit := do
  inTurn (← gather ((List.range threads).map (worker form count)))

end Contention

end DiagnosticLog
