import DiagnosticLog.Session.Guest
import DiagnosticLog.Session.Hosted

/-!
# Sessions

A session is the state of one run of the log: its platform, the locks, and what is known of the
threads.  `Session.performAs` says what each request of a thread does to it, so that a session is a
machine on which the tasks of the log run.
-/

namespace DiagnosticLog

inductive Platform where
  | hosted (h : Hosted)
  | guest (g : Guest)

inductive Ending where
  /-- The process exits with a status from 0 to 255. -/
  | exit (status : Nat)
  /-- The guest is halted through its console. -/
  | halt (console : ConsoleId) (code : Int32)
  deriving DecidableEq, Repr

structure Session where
  lineEnd : LineEnd
  /-- The environment variable that names the log file. -/
  logFileVariable : String
  platform : Platform
  locks : LockName → CheckedMutex SpinLock
  lockKinds : String → LockKind
  lockAddress : UInt64
  /-- The token each thread reports when it is known. -/
  tokens : ThreadId → Token
  guards : ThreadId → Nat
  /-- Whether the log is the global logger. -/
  loggerRegistered : Bool
  /-- The most verbose level of records that the global logger is given, if it is given any. -/
  maxLevel : Option Level
  /-- The tokens of the threads of a process that were identified, in order of appearance. -/
  roster : List Token
  /-- The answers of the steps that ran inside the step of a thread. -/
  notes : ThreadId → List (Option Answer)

namespace Session

/-! ## Platforms -/

def spell (s : Session) : Piece → Bytes
  | .text b => b
  | .lineEnd => s.lineEnd.bytes

/-- The token a thread reports: guests do not know their threads before a console is there. -/
def tokenOf (s : Session) (t : ThreadId) : Token :=
  match s.platform with
  | .hosted _ => s.tokens t
  | .guest g => if g.installed.isSome then s.tokens t else Token.anonymous

/-- How a print gives control back.  A fragment that cannot be formatted unwinds the print in a
process and only cuts it short in a guest; an unwinding that reaches the print goes on. -/
def finishOf (s : Session) : Formatting → Finish
  | .complete => .returned
  | .refused => .returned
  | .fault =>
      match s.platform with
      | .hosted _ => .unwound
      | .guest _ => .returned
  | .unwound => .unwound

/-- What a script is told of a thread: its token in a guest; in a process, where tokens are
arbitrary, its number among the threads that have been identified. -/
def identify (s : Session) (t : ThreadId) : Answer × Session :=
  let token := s.tokenOf t
  match s.platform with
  | .guest _ => (.token token, s)
  | .hosted _ =>
      let roster := if token ∈ s.roster then s.roster else s.roster ++ [token]
      (.thread (roster.idxOf token) token.reserved, { s with roster })

def exitStatus (code : Int32) : Nat :=
  (code.toInt % 256).toNat

/-! ## Requests -/

/-- What a request of thread `t` does to the session. -/
def performAs (t : ThreadId) : (r : Request) → Session → Effect Session Ending r.Reply
  | .self, s => .reply (s.tokenOf t) s
  | .identify, s => .reply (s.identify t).1 (s.identify t).2
  | .access name a, s =>
      match CheckedMutex.perform a (s.locks name) with
      | .reply answer m => .reply answer { s with locks := update s.locks name m }
      | .wait => .wait
      | .stop never _ => nomatch never
  | .lockAddress, s => .reply s.lockAddress s
  | .formatsReals, s =>
      match s.platform with
      | .hosted _ => .reply true s
      | .guest _ => .reply false s
  | .beginPrint _, s =>
      match s.platform with
      | .hosted h => .reply (.sink h.sink) s
      | .guest g => .reply g.outlet s
  | .takeChannel channel, s =>
      match s.platform with
      | .hosted h =>
          match h.takeChannel t channel with
          | some h => .reply () { s with platform := .hosted h }
          | none => .wait
      | .guest _ => .reply () s
  | .tryTakeChannel channel, s =>
      match s.platform with
      | .hosted h =>
          match h.takeChannel t channel with
          | some h => .reply true { s with platform := .hosted h }
          | none => .reply false s
      | .guest _ => .reply true s
  | .put channel piece, s =>
      match s.platform with
      | .hosted h =>
          let put := h.put channel (s.spell piece)
          .reply put.1 { s with platform := .hosted put.2 }
      | .guest g => .reply true { s with platform := .guest (g.put channel (s.spell piece)) }
  | .endPrint channel formatting, s =>
      .reply (s.finishOf formatting)
        (match s.platform with
        | .hosted h => { s with platform := .hosted (h.endPrint t channel) }
        | .guest _ => s)
  | .complain text, s =>
      match s.platform with
      | .hosted h =>
          match h.complain t text with
          | some h => .reply () { s with platform := .hosted h }
          | none => .wait
      | .guest _ => .reply () s
  | .flush urgency channel, s =>
      match s.platform with
      | .hosted h =>
          match h.flush t urgency channel with
          | some h => .reply () { s with platform := .hosted h }
          | none => .wait
      | .guest _ => .reply () s
  | .currentSink, s =>
      match s.platform with
      | .hosted h => .reply (some h.sink) s
      | .guest _ => .reply none s
  | .openSink path, s =>
      match s.platform with
      | .hosted h =>
          let opening := h.openSink t s.logFileVariable path
          .reply opening.1 { s with platform := .hosted opening.2 }
      | .guest _ => .reply (.ok ()) s
  | .publishSink, s =>
      match s.platform with
      | .hosted h =>
          let publication := h.publishSink t
          .reply publication.1 { s with platform := .hosted publication.2 }
      | .guest _ => .reply none s
  | .currentConsole, s =>
      match s.platform with
      | .hosted _ => .reply none s
      | .guest g => .reply g.installed s
  | .stop console code, s =>
      match s.platform with
      | .hosted h =>
          .stop (.exit (exitStatus code)) { s with platform := .hosted (h.close (some t)) }
      | .guest _ =>
          match console with
          | some id => .stop (.halt id code) s
          | none => .wait
  | .installConsole id, s =>
      match s.platform with
      | .hosted _ => .reply (.error .consoleInstalled) s
      | .guest g =>
          let installation := g.install id
          .reply installation.1 { s with platform := .guest installation.2 }
  | .setToken token, s => .reply () { s with tokens := update s.tokens t token }
  | .registerLogger, s => .reply (!s.loggerRegistered) { s with loggerRegistered := true }
  | .loggerRegistered, s => .reply s.loggerRegistered s
  | .setMaxLevel level, s => .reply () { s with maxLevel := some level }
  | .maxLevel, s => .reply s.maxLevel s
  | .pushGuard, s => .reply () { s with guards := update s.guards t (s.guards t + 1) }
  | .popGuard, s =>
      match s.guards t with
      | 0 => .reply false s
      | n + 1 => .reply true { s with guards := update s.guards t n }
  | .makeLock id kind, s =>
      .reply () { s with
        locks := update s.locks (.own id) CheckedMutex.unowned
        lockKinds := update s.lockKinds id kind }
  | .lockKind id, s => .reply (s.lockKinds id) s
  | .note answer, s => .reply () { s with notes := update s.notes t (s.notes t ++ [answer]) }

/-- The session as a machine for the tasks that thread `t` runs. -/
def perform (t : ThreadId) : Machine Request.interface Session Ending :=
  fun d s => performAs (d.caller.thread t) d.request s

@[simp] theorem perform_demand (t : ThreadId) (r : Request) (s : Session) :
    perform t r.demand s = performAs t r s := rfl

/-! ## Beginning and end -/

/-- The token a thread reports at first.  Guests' runtimes count their threads; in a process it
is the address of a thread's own storage. -/
def firstToken : Mode → ThreadId → Token
  | .guest, .lasting n => UInt64.ofNat (n + 1)
  | .guest, .passing n => UInt64.ofNat (n + 1000)
  | .hosted, .lasting n => UInt64.ofNat (0x700000000000 + 16 * n)
  | .hosted, .passing n => UInt64.ofNat (0x700000000008 + 16 * n)

/-- A run that has not begun: nothing is set up, nothing is locked. -/
def start (build : Build) (environment : String → Option Bytes) (tree : FileTree) : Session where
  lineEnd := build.lineEnd
  logFileVariable := build.logFileVariable
  platform :=
    match build.mode with
    | .hosted => .hosted (Hosted.start environment tree)
    | .guest => .guest ⟨none, Vector.replicate 2 Transcript.empty⟩
  locks := fun _ => CheckedMutex.unowned
  lockKinds := fun _ => .checked
  lockAddress := 0x500000001000
  tokens := firstToken build.mode
  guards := fun _ => 0
  loggerRegistered := false
  maxLevel := none
  roster := []
  notes := fun _ => []

def close (s : Session) : Session :=
  match s.platform with
  | .hosted h => { s with platform := .hosted (h.close none) }
  | .guest _ => s

end Session

end DiagnosticLog
