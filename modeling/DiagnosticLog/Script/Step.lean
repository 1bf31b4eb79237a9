import DiagnosticLog.Script.Call

/-!
# Steps

A step of a script is a call, or an operation with a message; and a part of a message may itself
run steps in the middle of the formatting.  A step that runs inside another is a step of the same
thread.  What it answers is noted when it is done; a step that is unwound is not done, and unwinds
the step around it.
-/

namespace DiagnosticLog

inductive Route where
  | logger
  | direct
  deriving DecidableEq, Repr

mutual

inductive Step where
  | call (c : Call)
  | print (message : List Part)
  | println (message : List Part)
  | record (route : Route) (level : Level) (message : List Part)
  | assertion (holds : Bool) (text file : List Part) (line : Int32)
  | exitWith (code : Int32) (message : List Part)

inductive Part where
  | text (bytes : Bytes)
  | integer (n : Int64)
  /-- Formats to nothing, and runs steps where it stands. -/
  | run (steps : List Step)
  /-- Cannot be formatted. -/
  | fail

end

mutual

def Step.task : Step → Task (Option Answer)
  | .call c => c.task
  | .print parts => do
      return Answer.ofFinish (← Log.print (Part.message parts))
  | .println parts => do
      return Answer.ofFinish (← Log.println (Part.message parts))
  | .record .direct level parts => do
      return Answer.ofFinish (← Log.record level (Part.message parts))
  | .record .logger level parts => do
      return Answer.ofFinish (← Log.logRecord level (Part.message parts))
  | .assertion holds text file line => do
      return Answer.ofFinish
        (← Log.assertCondition holds (Part.message text) (Part.message file) line)
  | .exitWith code parts => do
      return Answer.ofFinish (← Log.exitWith code (Part.message parts))

def Part.message : List Part → Message
  | [] => []
  | part :: rest => part.fragments ++ Part.message rest

def Part.fragments : Part → Message
  | .text b => [.piece (.text b)]
  | .integer n => Message.ofPieces (Piece.integer n.toInt)
  | .run steps => [.effect (Step.runInside steps)]
  | .fail => [.fault]

/-- Run steps inside another and note their answers, up to the first that is unwound. -/
def Step.runInside : List Step → Task Finish
  | [] => return .returned
  | step :: rest => do
      let answer ← step.task
      if answer = some .panic then
        return .unwound
      else
        Request.make (.note answer)
        Step.runInside rest

end

end DiagnosticLog
