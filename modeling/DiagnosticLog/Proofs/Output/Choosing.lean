import DiagnosticLog.Log.Record
import DiagnosticLog.Log.Setup
import DiagnosticLog.Proofs.Output.Formatting

/-!
# What a choice of the sink asks

A thread that chooses the sink looks whether one has been chosen, opens the one it wants and sets
the log up with it.  Each of these is a request of its own, and other threads may make theirs in
between.  It is the same with a thread that registers the log as the global logger, and then has it
let records through.
-/

namespace DiagnosticLog

open Program (Reaches)

/-- A thread is told that no sink has been chosen. -/
def Talk.unset : Talk :=
  Request.currentSink.talk (some .unresolved)

def Log.publish : Task (Option (Except LogError Sink)) := do
  match ← Request.make .publishSink with
  | none => return some (.error .alreadyInitialized)
  | some sink => return some (.ok sink)

def Log.openAndPublish (path : Option Bytes) : Task (Option (Except LogError Sink)) := do
  match ← Request.make (.openSink path) with
  | .error e => return some (.error (.notOpened e))
  | .ok () => publish

/-- How far a choice of the sink comes by which exchanges.  It opens nothing unless it has just been
told that no sink has been chosen. -/
inductive Choosing (path : Option Bytes) :
    List Talk → Task (Option (Except LogError Sink)) → Prop where
  | before : Choosing path [] (Log.tryOpenStream path)
  /-- A guest has no sinks. -/
  | nowhere : Choosing path [Request.currentSink.talk none] (.done none)
  | late {sink : Sink} (resolved : sink.isResolved = true) :
      Choosing path [Request.currentSink.talk (some sink)]
        (.done (some (.error .alreadyInitialized)))
  | looked : Choosing path [Talk.unset] (Log.openAndPublish path)
  | failed (e : OpenError) :
      Choosing path [Talk.unset, (Request.openSink path).talk (.error e)]
        (.done (some (.error (.notOpened e))))
  | opened : Choosing path [Talk.unset, (Request.openSink path).talk (.ok ())] Log.publish
  /-- Another thread has set the log up meanwhile. -/
  | overtaken :
      Choosing path
        [Talk.unset, (Request.openSink path).talk (.ok ()), Request.publishSink.talk none]
        (.done (some (.error .alreadyInitialized)))
  | chosen (sink : Sink) :
      Choosing path
        [Talk.unset, (Request.openSink path).talk (.ok ()), Request.publishSink.talk (some sink)]
        (.done (some (.ok sink)))

section Stages

variable {path : Option Bytes} {xs : List Talk} {q : Task (Option (Except LogError Sink))}

theorem choosing_of_openAndPublish (h : Reaches (Log.openAndPublish path) xs q) :
    Choosing path (Talk.unset :: xs) q := by
  cases h with
  | nil => exact .looked
  | @cons _ _ opened _ _ after =>
      cases opened with
      | error e =>
          cases after with
          | nil => exact .failed e
      | ok _ =>
          cases after with
          | nil => exact .opened
          | @cons _ _ published _ _ after =>
              cases published with
              | none =>
                  cases after with
                  | nil => exact .overtaken
              | some sink =>
                  cases after with
                  | nil => exact .chosen sink

theorem reaches_tryOpenStream_iff : Reaches (Log.tryOpenStream path) xs q ↔ Choosing path xs q := by
  constructor
  · intro h
    cases h with
    | nil => exact .before
    | @cons _ _ sink _ _ after =>
        cases sink with
        | none =>
            cases after with
            | nil => exact .nowhere
        | some sink =>
            cases sink with
            | unresolved => exact choosing_of_openAndPublish after
            | standardOut | standardError | file path =>
                cases after with
                | nil => exact .late rfl
  · intro h
    cases h with
    | before => exact .nil
    | nowhere => exact .cons .nil
    | @late sink resolved =>
        cases sink with
        | unresolved => cases resolved
        | standardOut | standardError | file path => exact .cons .nil
    | looked => exact .cons .nil
    | failed e | opened => exact .cons (.cons .nil)
    | overtaken | chosen sink => exact .cons (.cons (.cons .nil))

theorem Choosing.asks {d : Demand} {next : d.Reply → Task (Option (Except LogError Sink))}
    (h : Choosing path xs q) (hq : q = .ask d next) :
    d = Request.currentSink.demand ∨ d = (Request.openSink path).demand ∨
      d = Request.publishSink.demand := by
  cases h with
  | before =>
      cases hq
      exact .inl rfl
  | looked =>
      cases hq
      exact .inr (.inl rfl)
  | opened =>
      cases hq
      exact .inr (.inr rfl)
  | _ => cases hq

end Stages

/-! ## Registration -/

/-- How far a registration of the logger comes by which exchanges.  It lets records through just if
it has been told that there was no logger before. -/
inductive Registering : List Talk → Task Bool → Prop where
  | before : Registering [] Log.registerLogger
  | late : Registering [Request.registerLogger.talk false] (.done false)
  | first :
      Registering [Request.registerLogger.talk true]
        (Request.make (.setMaxLevel .trace) >>= fun _ => .done true)
  | after :
      Registering [Request.registerLogger.talk true, (Request.setMaxLevel .trace).talk ()]
        (.done true)

theorem reaches_registerLogger_iff {xs : List Talk} {q : Task Bool} :
    Reaches Log.registerLogger xs q ↔ Registering xs q := by
  constructor
  · intro h
    cases h with
    | nil => exact .before
    | @cons _ _ first _ _ after =>
        cases first with
        | true =>
            cases after with
            | nil => exact .first
            | cons after =>
                cases after with
                | nil => exact .after
        | false =>
            cases after with
            | nil => exact .late
  · intro h
    cases h with
    | before => exact .nil
    | late => exact .cons .nil
    | first => exact .cons .nil
    | after => exact .cons (.cons .nil)

theorem Registering.asks {xs : List Talk} {q : Task Bool} {d : Demand}
    {next : d.Reply → Task Bool} (h : Registering xs q) (hq : q = .ask d next) :
    d = Request.registerLogger.demand ∨ d = (Request.setMaxLevel .trace).demand := by
  cases h with
  | before =>
      cases hq
      exact .inl rfl
  | first =>
      cases hq
      exact .inr rfl
  | _ => cases hq

end DiagnosticLog
