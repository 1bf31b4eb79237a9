import DiagnosticLog.Log.Lock

/-!
# Records with a level

Records reach the log either directly or through the global logger.  The global logger drops them
until the log has been registered as that logger, which can be done once.
-/

namespace DiagnosticLog.Log

def levelHeader (level : Level) : Message :=
  Message.text "[" ++ Message.text level.name ++ Message.text "] "

def record (level : Level) (m : Message) : Task Finish :=
  bracketed (line (levelHeader level ++ m))

/-- Make the log the global logger, which lets records of every level through then; tells whether
there was none before. -/
def registerLogger : Task Bool := do
  if ← Request.make .registerLogger then
    Request.make (.setMaxLevel .trace)
    return true
  else
    return false

/-- Log a record through the global logger.  A record that is not let through is not even formatted,
nor is one that comes before there is a logger. -/
def logRecord (level : Level) (m : Message) : Task Finish := do
  if level.passes (← Request.make .maxLevel) then
    if ← Request.make .loggerRegistered then record level m else return .returned
  else
    return .returned

/-- The log lets records of every level through. -/
def enabled (_ : Level) : Bool :=
  true

def flushLogger : Task Unit := do
  if ← Request.make .loggerRegistered then flush

/-- The most verbose level the global logger lets through, if any. -/
def maxLevel : Task (Option Level) :=
  Request.make .maxLevel

end DiagnosticLog.Log
