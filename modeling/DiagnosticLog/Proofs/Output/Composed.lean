import DiagnosticLog.Proofs.Crew
import DiagnosticLog.Script.Step
import DiagnosticLog.Session.Basic

/-!
# How the tasks of steps are put together

Every step that starts no threads of its own is put together from requests that stand for
themselves, from whole prints, whose messages may hold tasks of the same kind, from choices of the
sink and registrations of the logger, and from calls that end the run.  What holds of all steps is
shown by induction over `Composed`, and the operations of the log are opened here only.
-/

namespace DiagnosticLog

variable {α β : Type}

namespace Request

def isApart : Request → Bool
  | .beginPrint _ => false
  | .takeChannel _ => false
  | .tryTakeChannel _ => false
  | .put _ _ => false
  | .endPrint _ _ => false
  | _ => true

/-- The request belongs to no print, no choice of the sink and no registration of the logger. -/
def isPlain : Request → Bool
  | .openSink _ => false
  | .publishSink => false
  | .setMaxLevel _ => false
  | r => r.isApart

theorem isApart_of_isPlain {r : Request} (h : r.isPlain) : r.isApart := by
  cases r <;> first | rfl | exact h

def isStop : Request → Bool
  | .stop _ _ => true
  | _ => false

def Gives (r : Request) (reply : r.Reply) : Prop :=
  ∃ t s s', Session.performAs t r s = .reply reply s'

end Request

/-! ## Calls that end the run -/

/-- A call that ends the run when it has said its last words. -/
inductive FinalCall where
  | exit (code : Int32)
  | exitWith (code : Int32) (m : Message)
  /-- The log lock has been misused. -/
  | misuse (operation : String) (e : MutexError)
  /-- The log file could not be opened. -/
  | unopened (e : OpenError)

namespace FinalCall

def code : FinalCall → Int32
  | exit code => code
  | exitWith code _ => code
  | misuse _ _ => Config.mutexFailureCode
  | unopened _ => Config.openFailureCode

def lineEndAndFlush : Task Finish := do
  let _ ← Log.printUrgent Message.lineEnd
  Log.flushUrgent
  return .returned

def words : FinalCall → Task Finish
  | exit _ => do
      Log.flushUrgent
      return .returned
  | exitWith _ m => do
      match ← Log.printUrgent m with
      | .returned => lineEndAndFlush
      | .unwound => return .unwound
  | misuse operation e => do
      let token ← Request.make .self
      let address ← Request.make .lockAddress
      let _ ← Log.printUrgent (Log.mutexFailureMessage token address operation e)
      lineEndAndFlush
  | unopened e => do
      Request.make (.complain (e.message ++ [Bytes.lineFeed]))
      return .returned

def close (call : FinalCall) : Finish → Task Finish
  | .returned => Log.stop call.code
  | .unwound => return .unwound

def task (call : FinalCall) : Task Finish := do
  call.close (← call.words)

theorem stop_bind (code : Int32) (f : α → Task β) : (Log.stop code >>= f) = Log.stop code :=
  congrArg (Program.ask _) (funext fun _ => congrArg (Program.ask _) (funext nofun))

theorem exit_eq (code : Int32) (f : Finish → Task α) :
    Log.exit code = (exit code).task >>= f := by
  have hstop : Log.stop code = (exit code).close .returned >>= f := (stop_bind code f).symm
  rw [Log.exit, hstop]
  simp only [task, words, Program.bind_assoc]
  rfl

theorem endLineAndExit_eq (call : FinalCall) (f : Finish → Task α) :
    Log.endLineAndExit call.code = lineEndAndFlush >>= fun finish => call.close finish >>= f := by
  have hstop : Log.stop call.code = call.close .returned >>= f := (stop_bind call.code f).symm
  rw [Log.endLineAndExit, Log.exit, hstop, lineEndAndFlush, Program.bind_assoc]
  congr
  funext finish
  rw [Program.bind_assoc]
  rfl

theorem exitWith_eq (code : Int32) (m : Message) :
    Log.exitWith code m = (exitWith code m).task := by
  unfold Log.exitWith task words
  rw [Program.bind_assoc]
  congr
  funext finish
  cases finish with
  | returned =>
      have hline := endLineAndExit_eq (exitWith code m) .done
      simp only [Program.bind_done] at hline
      exact hline
  | unwound => rfl

theorem mutexFailure_eq (operation : String) (e : MutexError) (f : Finish → Task α) :
    Log.mutexFailure operation e = (misuse operation e).task >>= f := by
  have hline := endLineAndExit_eq (misuse operation e) f
  unfold Log.mutexFailure
  rw [show Config.mutexFailureCode = (misuse operation e).code from rfl, hline]
  simp only [task, words, Program.bind_assoc]

theorem reaches_close_done {call : FinalCall} {finish finish' : Finish}
    {xs : List (Program.Exchange Request.interface)}
    (h : Program.Reaches (call.close finish) xs (.done finish')) :
    finish = .unwound ∧ finish' = .unwound ∧ xs = [] := by
  cases finish with
  | returned =>
      cases h with
      | cons after =>
          cases after with
          | @cons _ _ never _ _ _ => exact nomatch never
  | unwound =>
      cases h
      exact ⟨rfl, rfl, rfl⟩

theorem openStream_eq (path : Option Bytes) :
    Log.openStream path = Log.tryOpenStream path >>= fun
      | some (.error (.notOpened e)) => (unopened e).task >>= fun _ => .done ()
      | _ => .done () := by
  unfold Log.openStream
  congr
  funext choice
  rcases choice with _ | (e | e) | sink
  case some.error.notOpened e =>
    have hstop : Log.stop Config.openFailureCode =
        (unopened e).close .returned >>= fun _ => Program.done () := (stop_bind _ _).symm
    rw [hstop]
    rfl
  all_goals rfl

end FinalCall

/-! ## Tasks put together -/

/-- The fragments are pieces, which can always be formatted. -/
def Message.IsPlain (m : Message) : Prop :=
  ∀ fragment ∈ m, ∃ p, fragment = .piece p

/-- A task that is put together.  By its result it unwinds just if a print in it has been unwound,
provided that requests are answered as sessions answer them. -/
inductive Composed : {α : Type} → (α → Prop) → Task α → Prop where
  | done {α : Type} {unwinds : α → Prop} {a : α} (returns : ¬ unwinds a) :
      Composed unwinds (.done a)
  | request {r : Request} {unwinds : r.Reply → Prop} (plain : r.isPlain)
      (goesOn : r.isStop = false) (returns : ∀ reply, r.Gives reply → ¬ unwinds reply) :
      Composed unwinds (Request.make r)
  | print {urgency : Urgency} {m : Message}
      (effects : ∀ task, Fragment.effect task ∈ m → Composed (· = .unwound) task) :
      Composed (· = .unwound) (Log.printWith urgency m)
  | pieces {urgency : Urgency} {m : Message} (plain : m.IsPlain) :
      Composed (fun _ => False) (Log.printWith urgency m)
  | choice {path : Option Bytes} : Composed (fun _ => False) (Log.tryOpenStream path)
  | registration : Composed (fun _ => False) Log.registerLogger
  | final {call : FinalCall} {unwinds : Finish → Prop} (words : Composed unwinds call.words)
      (returns : ¬ unwinds .returned) : Composed unwinds call.task
  | bind {α β : Type} {p : Task α} {f : α → Task β} {unwinds : α → Prop} {unwinds' : β → Prop}
      (first : Composed unwinds p) (rest : ∀ a, ¬ unwinds a → Composed unwinds' (f a))
      (unwinding : ∀ a, unwinds a → Composed (fun _ => False) (f a))
      (unwound : ∀ a, unwinds a → ∀ xs b, Program.Reaches (f a) xs (.done b) → unwinds' b) :
      Composed unwinds' (p >>= f)

/-- No print in the task is unwound. -/
abbrev Composes (task : Task α) : Prop :=
  Composed (fun _ => False) task

namespace Composed

variable {unwinds : α → Prop} {unwinds' : β → Prop} {p : Task α} {f : α → Task β}

theorem plain {r : Request} (plain : r.isPlain) (goesOn : r.isStop = false) :
    Composes (Request.make r) :=
  .request plain goesOn fun _ _ => id

theorem andThen (first : Composes p) (rest : ∀ a, Composed unwinds' (f a)) :
    Composed unwinds' (p >>= f) :=
  first.bind (fun a _ => rest a) (fun _ => False.elim) fun _ => False.elim

/-- What comes after a task that has been unwound is done at once. -/
theorem orElse (first : Composed unwinds p) (rest : ∀ a, ¬ unwinds a → Composed unwinds' (f a))
    (unwound : ∀ a, unwinds a → ∃ b, f a = .done b ∧ unwinds' b) :
    Composed unwinds' (p >>= f) := by
  apply first.bind rest
  · intro a ha
    obtain ⟨b, hb, -⟩ := unwound a ha
    rw [hb]
    exact .done id
  · intro a ha xs b reaches
    obtain ⟨b', hb, hunwinds⟩ := unwound a ha
    rw [hb] at reaches
    cases reaches
    exact hunwinds

theorem thenDone {g : α → β} (first : Composed unwinds p)
    (h : ∀ a, unwinds' (g a) ↔ unwinds a) : Composed unwinds' (p >>= fun a => .done (g a)) :=
  first.orElse (fun a ha => .done fun hg => ha ((h a).mp hg))
    fun a ha => ⟨g a, rfl, (h a).mpr ha⟩

theorem ite {c : Prop} [Decidable c] {p q : Task α} (hp : Composed unwinds p)
    (hq : Composed unwinds q) : Composed unwinds (if c then p else q) := by
  split
  · exact hp
  · exact hq

theorem silent (h : Composes p) : Composed (· = some .panic) (DiagnosticLog.silent p) :=
  h.thenDone fun _ => by simp

theorem answers {p : Task Finish} (h : Composed (· = .unwound) p) :
    Composed (· = some .panic) (do return Answer.ofFinish (← p)) :=
  h.thenDone fun finish => by cases finish <;> simp [Answer.ofFinish]

end Composed

namespace Message

/-- What the tasks in the middle of a message are put together from. -/
def Composed (m : Message) : Prop :=
  ∀ task, Fragment.effect task ∈ m → DiagnosticLog.Composed (· = .unwound) task

theorem isPlain_ofPieces (ps : List Piece) : (ofPieces ps).IsPlain := by
  intro fragment hfragment
  obtain ⟨p, -, rfl⟩ := List.mem_map.mp hfragment
  exact ⟨p, rfl⟩

theorem IsPlain.append {m m' : Message} (h : m.IsPlain) (h' : m'.IsPlain) : IsPlain (m ++ m') := by
  intro fragment hfragment
  rcases List.mem_append.mp hfragment with hm | hm'
  · exact h fragment hm
  · exact h' fragment hm'

theorem IsPlain.effect_not_mem {m : Message} (h : m.IsPlain) (task : Task Finish) :
    Fragment.effect task ∉ m := by
  intro htask
  obtain ⟨p, hp⟩ := h _ htask
  cases hp

theorem IsPlain.composed {m : Message} (h : m.IsPlain) : m.Composed :=
  fun task htask => absurd htask (h.effect_not_mem task)

theorem Composed.append {m m' : Message} (h : m.Composed) (h' : m'.Composed) :
    Composed (m ++ m') := by
  intro task htask
  rcases List.mem_append.mp htask with hm | hm'
  · exact h task hm
  · exact h' task hm'

end Message

/-! ## Prints and last words -/

theorem composed_printPieces (ps : List Piece) : Composes (Log.printPieces ps) :=
  (Composed.pieces (Message.isPlain_ofPieces ps)).andThen fun _ => .done id

theorem composed_printDouble (bits : UInt64) : Composes (Log.printDouble bits) :=
  (Composed.plain rfl rfl).andThen fun _ =>
    .ite (composed_printPieces _) (composed_printPieces _)

namespace Log

theorem isPlain_mutexFailureMessage (token address : UInt64) (operation : String)
    (e : MutexError) : (mutexFailureMessage token address operation e).IsPlain := by
  have hps (ps : List Piece) : (Message.ofPieces ps).IsPlain := Message.isPlain_ofPieces ps
  exact (((((((hps [_]).append (hps _)).append (hps [_])).append (hps [_])).append
    (hps [_])).append (hps _)).append (hps [_])).append (hps [_])

theorem isPlain_levelHeader (level : Level) : (levelHeader level).IsPlain := by
  have hps (ps : List Piece) : (Message.ofPieces ps).IsPlain := Message.isPlain_ofPieces ps
  exact ((hps [_]).append (hps [_])).append (hps [_])

end Log

theorem composed_flushChannel (urgency : Urgency) (c : Channel) :
    Composes (Request.make (.flush urgency c)) :=
  .plain rfl rfl

theorem composed_flush : Composes Log.flush := by
  apply (Composed.plain rfl rfl).andThen
  intro sink
  cases sink with
  | none => exact .done id
  | some sink => exact composed_flushChannel .patient sink.channel

theorem composed_flushUrgent : Composes Log.flushUrgent := by
  apply (Composed.plain rfl rfl).andThen
  intro sink
  cases sink with
  | none => exact .done id
  | some sink => exact .ite (composed_flushChannel .urgent sink.channel) composed_flush

namespace FinalCall

theorem composed_lineEndAndFlush {unwinds : Finish → Prop} (returns : ¬ unwinds .returned) :
    Composed unwinds lineEndAndFlush :=
  (Composed.pieces (Message.isPlain_ofPieces [.lineEnd])).andThen fun _ =>
    composed_flushUrgent.andThen fun _ => .done returns

theorem composed_exit (code : Int32) : Composes (exit code).words :=
  composed_flushUrgent.andThen fun _ => .done id

theorem composed_exitWith (code : Int32) {m : Message} (h : m.Composed) :
    Composed (· = .unwound) (exitWith code m).words := by
  apply (Composed.print h).orElse
  · intro finish hfinish
    cases finish with
    | returned => exact composed_lineEndAndFlush nofun
    | unwound => exact absurd rfl hfinish
  · rintro finish rfl
    exact ⟨.unwound, rfl, rfl⟩

theorem composed_misuse (operation : String) (e : MutexError) :
    Composes (misuse operation e).words := by
  apply (Composed.plain rfl rfl).andThen
  intro token
  apply (Composed.plain rfl rfl).andThen
  intro address
  have hmessage := Log.isPlain_mutexFailureMessage token address operation e
  exact (Composed.pieces hmessage).andThen fun _ => composed_lineEndAndFlush id

theorem composed_unopened (e : OpenError) : Composes (unopened e).words :=
  (Composed.plain rfl rfl).andThen fun _ => .done id

end FinalCall

theorem composed_exitWith (code : Int32) {m : Message} (h : m.Composed) :
    Composed (· = .unwound) (Log.exitWith code m) := by
  rw [FinalCall.exitWith_eq]
  exact .final (FinalCall.composed_exitWith code h) nofun

theorem Log.composed_assertionMessage {text file : Message} (line : Int32) (htext : text.Composed)
    (hfile : file.Composed) : (assertionMessage text file line).Composed := by
  have hline (ps : List Piece) : (Message.ofPieces ps).Composed :=
    (Message.isPlain_ofPieces ps).composed
  exact (((((hline [_]).append hfile).append (hline [_])).append (hline _)).append
    (hline [_])).append htext

theorem composed_assertCondition (holds : Bool) {text file : Message} (line : Int32)
    (htext : text.Composed) (hfile : file.Composed) :
    Composed (· = .unwound) (Log.assertCondition holds text file line) :=
  .ite (.done nofun) (composed_exitWith _ (Log.composed_assertionMessage line htext hfile))

theorem composed_mutexFailure (operation : String) (e : MutexError) :
    Composes (Log.mutexFailure operation e : Task Unit) := by
  rw [FinalCall.mutexFailure_eq operation e fun _ => .done ()]
  exact (Composed.final (FinalCall.composed_misuse operation e) id).andThen fun _ => .done id

/-! ## The log lock and the sink -/

theorem composed_onLock (name : LockName) (p : Program Access.interface α) :
    Composes (Log.onLock name p) := by
  induction p with
  | done a => exact .done id
  | ask a next ih => exact (Composed.plain rfl rfl).andThen ih

theorem composed_enter (name : LockName) : Composes (Log.enter name) :=
  (Composed.plain rfl rfl).andThen fun _ => composed_onLock name _

theorem composed_leave (name : LockName) : Composes (Log.leave name) :=
  (Composed.plain rfl rfl).andThen fun _ => composed_onLock name _

theorem composed_lock : Composes Log.lock := by
  apply (composed_enter .log).andThen
  intro entered
  cases entered with
  | ok _ => exact .done id
  | error e => exact composed_mutexFailure "lock" e

theorem composed_unlock : Composes Log.unlock := by
  apply (composed_leave .log).andThen
  intro left
  cases left with
  | ok _ => exact .done id
  | error e => exact composed_mutexFailure "unlock" e

theorem composed_dropGuard : Composes Log.dropGuard :=
  (Composed.plain rfl rfl).andThen fun _ => .ite composed_unlock (.done id)

theorem composed_openStream (path : Option Bytes) : Composes (Log.openStream path) := by
  rw [FinalCall.openStream_eq]
  apply Composed.choice.andThen
  intro choice
  split
  · rename_i e
    exact (Composed.final (FinalCall.composed_unopened e) id).andThen fun _ => .done id
  · exact .done id

/-! ## Whole statements -/

/-- An unwinding is not stopped by the release of the lock. -/
theorem composed_bracketed {body : Task Finish} (h : Composed (· = .unwound) body) :
    Composed (· = .unwound) (Log.bracketed body) := by
  have hunlock {unwinds : Finish → Prop} (finish : Finish) (returns : ¬ unwinds finish) :
      Composed unwinds (do Log.unlock; return finish) :=
    composed_unlock.andThen fun _ => .done returns
  apply composed_lock.andThen
  intro _
  apply h.bind
  · exact fun finish hfinish => hunlock finish hfinish
  · exact fun finish _ => hunlock finish id
  · rintro finish rfl xs b reaches
    obtain ⟨_, _, _, -, -, hlast⟩ := Program.reaches_bind_done reaches
    cases hlast
    rfl

theorem composed_line {m : Message} (h : m.Composed) : Composed (· = .unwound) (Log.line m) := by
  apply (Composed.print h).orElse
  · intro finish hfinish
    cases finish with
    | returned => exact .print (Message.isPlain_ofPieces [.lineEnd]).composed
    | unwound => exact absurd rfl hfinish
  · rintro finish rfl
    exact ⟨.unwound, rfl, rfl⟩

theorem composed_record (level : Level) {m : Message} (h : m.Composed) :
    Composed (· = .unwound) (Log.record level m) :=
  composed_bracketed (composed_line ((Log.isPlain_levelHeader level).composed.append h))

theorem composed_logRecord (level : Level) {m : Message} (h : m.Composed) :
    Composed (· = .unwound) (Log.logRecord level m) :=
  (Composed.plain rfl rfl).andThen fun _ => .ite
    ((Composed.plain rfl rfl).andThen fun _ => .ite (composed_record level h) (.done nofun))
    (.done nofun)

/-! ## Steps -/

theorem composed_foreign_assertion (condition : Int8) (text file : Log.Foreign.CString)
    (line : Int32) :
    Composed (· = .unwound) (Log.Foreign.assertCondition condition text file line) :=
  .ite (.done nofun) (composed_assertCondition false line
    (Message.isPlain_ofPieces _).composed (Message.isPlain_ofPieces _).composed)

theorem ForeignCall.composed (c : ForeignCall) : Composed (· = some .panic) c.task := by
  cases c with
  | openStream path => exact (composed_openStream _).silent
  | lock => exact composed_lock.silent
  | unlock => exact composed_unlock.silent
  | flush => exact composed_flush.silent
  | float bits => exact (composed_printDouble _).silent
  | double bits => exact (composed_printDouble _).silent
  | assertion condition text file line =>
      exact (composed_foreign_assertion condition text file line).answers
  | _ => exact (composed_printPieces _).silent

theorem ne_panic_of_identify {answer : Answer} (gives : Request.identify.Gives answer) :
    answer ≠ .panic := by
  obtain ⟨t, s, s', reply⟩ := gives
  rintro rfl
  have hanswer : (s.identify t).1 = .panic := by
    simp only [Session.performAs, Effect.reply.injEq] at reply
    exact reply.1
  unfold Session.identify at hanswer
  split at hanswer <;> cases hanswer

namespace Call

def isSolo : Call → Bool
  | contend _ _ _ => false
  | _ => true

theorem composed_enterOwn (id : String) : Composed (· = some .panic) (enterOwn id) := by
  apply (Composed.plain rfl rfl).andThen
  intro kind
  cases kind with
  | checked =>
      apply (composed_enter _).thenDone
      intro entered
      cases entered <;> simp [Answer.ofMutex]
  | bare => exact (Composed.plain rfl rfl).silent

theorem composed_leaveOwn (id : String) : Composed (· = some .panic) (leaveOwn id) := by
  apply (Composed.plain rfl rfl).andThen
  intro kind
  cases kind with
  | checked =>
      apply (composed_leave _).thenDone
      intro left
      cases left <;> simp [Answer.ofMutex]
  | bare => exact (Composed.plain rfl rfl).silent

theorem composed_exit (code : Int32) : Composed (· = some .panic) (exit code).task := by
  rw [task, FinalCall.exit_eq code fun _ => .done none]
  exact (Composed.final (FinalCall.composed_exit code) id).andThen fun _ => .done nofun

theorem composed_identify : Composed (· = some .panic) identify.task := by
  have hidentify : Composed (· = .panic) (Request.make .identify) :=
    .request rfl rfl fun _ gives => ne_panic_of_identify gives
  exact hidentify.thenDone fun _ => by simp

theorem composed {c : Call} (solo : c.isSolo) : Composed (· = some .panic) c.task := by
  cases c with
  | float bits => exact (composed_printDouble _).silent
  | double bits => exact (composed_printDouble _).silent
  | emptyLine =>
      exact (composed_bracketed
        (.print (Message.isPlain_ofPieces [.lineEnd]).composed)).answers
  | lock => exact composed_lock.silent
  | unlock => exact composed_unlock.silent
  | acquireGuard => exact (composed_lock.andThen fun _ => Composed.plain rfl rfl).silent
  | dropGuard => exact composed_dropGuard.silent
  | exit code => exact composed_exit code
  | openStream path => exact (composed_openStream path).silent
  | foreign c => exact c.composed
  | enterLock id => exact composed_enterOwn id
  | leaveLock id => exact composed_leaveOwn id
  | identify => exact composed_identify
  | enabled level => exact .done nofun
  | flushLogger =>
      exact ((Composed.plain rfl rfl).andThen fun _ =>
        .ite composed_flush (.done id)).silent
  | maxLevel => exact (Composed.plain rfl rfl).andThen fun _ => .done nofun
  | flush => exact composed_flush.silent
  | makeLock | setToken => exact (Composed.plain rfl rfl).silent
  | tryOpenStream path =>
      apply Composed.choice.andThen
      intro choice
      rcases choice with _ | e | sink <;> exact .done nofun
  | currentSink =>
      apply (Composed.plain rfl rfl).andThen
      intro sink
      cases sink <;> exact .done nofun
  | installConsole id =>
      apply (Composed.plain rfl rfl).andThen
      intro installed
      cases installed <;> exact .done nofun
  | registerLogger =>
      apply Composed.registration.andThen
      intro registered
      cases registered <;> exact .done nofun
  | tryLock | lockState => exact (Composed.plain rfl rfl).andThen fun _ => .done nofun
  | contend => cases solo
  | _ => exact (composed_printPieces _).silent

end Call

mutual

/-- The step starts no threads, nor do the steps inside it. -/
def Step.isSolo : Step → Bool
  | .call c => c.isSolo
  | .print parts => Part.areSolo parts
  | .println parts => Part.areSolo parts
  | .record _ _ parts => Part.areSolo parts
  | .assertion _ text file _ => Part.areSolo text && Part.areSolo file
  | .exitWith _ parts => Part.areSolo parts

def Part.areSolo : List Part → Bool
  | [] => true
  | part :: rest => part.isSolo && Part.areSolo rest

def Part.isSolo : Part → Bool
  | .run steps => Step.areSolo steps
  | _ => true

def Step.areSolo : List Step → Bool
  | [] => true
  | step :: rest => step.isSolo && Step.areSolo rest

end

mutual

theorem Step.composed : (step : Step) → step.isSolo → Composed (· = some .panic) step.task
  | .call _, solo => Call.composed solo
  | .print parts, solo => (Composed.print (Part.composed_message parts solo)).answers
  | .println parts, solo =>
      (composed_bracketed (composed_line (Part.composed_message parts solo))).answers
  | .record .direct level parts, solo =>
      (composed_record level (Part.composed_message parts solo)).answers
  | .record .logger level parts, solo =>
      (composed_logRecord level (Part.composed_message parts solo)).answers
  | .assertion holds text file line, solo =>
      (composed_assertCondition holds line
        (Part.composed_message text (Bool.and_eq_true_iff.mp solo).1)
        (Part.composed_message file (Bool.and_eq_true_iff.mp solo).2)).answers
  | .exitWith code parts, solo =>
      (composed_exitWith code (Part.composed_message parts solo)).answers

theorem Part.composed_message : (parts : List Part) → Part.areSolo parts →
    (Part.message parts).Composed
  | [], _ => fun _ htask => nomatch htask
  | part :: rest, solo =>
      (Part.composed_fragments part (Bool.and_eq_true_iff.mp solo).1).append
        (Part.composed_message rest (Bool.and_eq_true_iff.mp solo).2)

theorem Part.composed_fragments : (part : Part) → part.isSolo →
    Message.Composed part.fragments
  | .text _, _ => (Message.isPlain_ofPieces [_]).composed
  | .integer _, _ => (Message.isPlain_ofPieces _).composed
  | .run steps, solo => by
      intro task htask
      have hsteps := Step.composed_runInside steps solo
      rw [Part.fragments, List.mem_singleton] at htask
      cases htask
      exact hsteps
  | .fail, _ => by
      intro task htask
      rw [Part.fragments, List.mem_singleton] at htask
      cases htask

theorem Step.composed_runInside : (steps : List Step) → Step.areSolo steps →
    Composed (· = .unwound) (Step.runInside steps)
  | [], _ => .done nofun
  | step :: rest, solo => by
      have hstep := Step.composed step (Bool.and_eq_true_iff.mp solo).1
      have hrest := Step.composed_runInside rest (Bool.and_eq_true_iff.mp solo).2
      apply hstep.orElse
      · intro answer hanswer
        rw [if_neg hanswer]
        exact (Composed.plain rfl rfl).andThen fun _ => hrest
      · intro answer hanswer
        exact ⟨.unwound, if_pos hanswer, rfl⟩

end

end DiagnosticLog
