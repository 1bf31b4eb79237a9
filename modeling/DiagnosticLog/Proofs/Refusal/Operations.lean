import DiagnosticLog.Proofs.Refusal.Steady

/-!
# The operations of the log are steady

Every step whose messages run nothing is a steady task, unless it chooses the sink or asks for it.
-/

namespace DiagnosticLog

open Log

variable {α : Type} {Q : α → Prop} {m : Message}

/-! ## Prints and last words -/

theorem steady_printPieces (ps : List Piece) : Steady (fun _ => True) (printPieces ps) :=
  (Steady.printWith _ (Message.isStill_ofPieces ps)).andThen fun _ => .done trivial

theorem steady_printDouble (bits : UInt64) : Steady (fun _ => True) (printDouble bits) :=
  (Steady.make rfl).andThen fun _ => .ite (steady_printPieces _) (steady_printPieces _)

theorem steady_stop (code : Int32) : Steady Q (stop code) :=
  (Steady.make rfl).andThen fun _ => (Steady.make rfl).andThen fun never => nomatch never

theorem steady_exit (code : Int32) : Steady Q (exit code) :=
  Steady.flushUrgent.andThen fun _ => steady_stop code

theorem steady_endLineAndExit (code : Int32) : Steady Q (endLineAndExit code) :=
  (Steady.printWith _ (Message.isStill_ofPieces [.lineEnd])).andThen fun _ => steady_exit code

theorem steady_exitWith (code : Int32) (still : m.IsStill) :
    Steady (· = .returned) (exitWith code m) := by
  apply (Steady.printWith _ still).bind
  rintro _ rfl
  exact steady_endLineAndExit code

theorem isStill_assertionMessage {text file : Message} (line : Int32) (htext : text.IsStill)
    (hfile : file.IsStill) : (assertionMessage text file line).IsStill := by
  have hline (ps : List Piece) : (Message.ofPieces ps).IsStill := Message.isStill_ofPieces ps
  exact (((((hline [_]).append hfile).append (hline [_])).append (hline _)).append
    (hline [_])).append htext

theorem steady_assertCondition (holds : Bool) {text file : Message} (line : Int32)
    (htext : text.IsStill) (hfile : file.IsStill) :
    Steady (· = .returned) (assertCondition holds text file line) :=
  .ite (.done rfl) (steady_exitWith _ (isStill_assertionMessage line htext hfile))

theorem steady_mutexFailure (operation : String) (e : MutexError) :
    Steady Q (mutexFailure operation e) :=
  (Steady.make rfl).andThen fun token => (Steady.make rfl).andThen fun address =>
    (Steady.printWith _ (isPlain_mutexFailureMessage token address operation e).isStill).andThen
      fun _ => steady_endLineAndExit _

/-! ## The log lock -/

theorem steady_onLock (name : LockName) (p : Program Access.interface α) :
    Steady (fun _ => True) (onLock name p) := by
  induction p with
  | done a => exact .done trivial
  | ask a next ih => exact (Steady.make rfl).andThen ih

theorem steady_enter (name : LockName) : Steady (fun _ => True) (enter name) :=
  (Steady.make rfl).andThen fun _ => steady_onLock name _

theorem steady_leave (name : LockName) : Steady (fun _ => True) (leave name) :=
  (Steady.make rfl).andThen fun _ => steady_onLock name _

theorem steady_lock : Steady (fun _ => True) lock := by
  apply (steady_enter .log).andThen
  intro entered
  cases entered with
  | ok _ => exact .done trivial
  | error e => exact steady_mutexFailure "lock" e

theorem steady_unlock : Steady (fun _ => True) unlock := by
  apply (steady_leave .log).andThen
  intro left
  cases left with
  | ok _ => exact .done trivial
  | error e => exact steady_mutexFailure "unlock" e

theorem steady_acquireGuard : Steady (fun _ => True) acquireGuard :=
  steady_lock.andThen fun _ => .blind rfl fun _ _ => .done trivial

theorem steady_dropGuard : Steady (fun _ => True) dropGuard :=
  (Steady.make rfl).andThen fun _ => .ite steady_unlock (.done trivial)

/-! ## Whole statements -/

theorem steady_bracketed {body : Task Finish} (steady : Steady (· = .returned) body) :
    Steady (· = .returned) (bracketed body) :=
  steady_lock.andThen fun _ => steady.bind fun _ returned =>
    steady_unlock.andThen fun _ => .done returned

theorem steady_line (still : m.IsStill) : Steady (· = .returned) (line m) := by
  apply (Steady.printWith _ still).bind
  rintro _ rfl
  exact .printWith _ (Message.isStill_ofPieces [.lineEnd])

theorem steady_println (still : m.IsStill) : Steady (· = .returned) (println m) :=
  steady_bracketed (steady_line still)

theorem steady_record (level : Level) (still : m.IsStill) :
    Steady (· = .returned) (record level m) :=
  steady_println ((isPlain_levelHeader level).isStill.append still)

theorem steady_logRecord (level : Level) (still : m.IsStill) :
    Steady (· = .returned) (logRecord level m) :=
  (Steady.make rfl).andThen fun _ => .ite
    ((Steady.make rfl).andThen fun _ => .ite (steady_record level still) (.done rfl)) (.done rfl)

theorem steady_registerLogger : Steady (fun _ => True) registerLogger :=
  (Steady.make rfl).andThen fun _ =>
    .ite ((Steady.make rfl).andThen fun _ => .done trivial) (.done trivial)

/-! ## Threads that log at the same time -/

namespace Contention

/-- Nothing in the task takes the log lock. -/
def LocksNothing (p : Task α) : Prop :=
  ∀ (β : Type) (f : α → Task β),
    (p >>= f).upTo takesLock = p >>= fun a => (f a).upTo takesLock

theorem locksNothing_done (a : α) : LocksNothing (.done a : Task α) :=
  fun _ _ => rfl

theorem LocksNothing.ask {d : Demand} {next : d.Reply → Task α} (hd : takesLock d = false)
    (h : ∀ answer, LocksNothing (next answer)) : LocksNothing (.ask d next) := by
  intro β f
  rw [Program.ask_bind, Program.upTo, if_neg (by rw [hd]; exact Bool.false_ne_true)]
  exact congrArg (Program.ask d) (funext fun answer => h answer β f)

theorem LocksNothing.bind {β : Type} {p : Task α} {g : α → Task β} (h : LocksNothing p)
    (hg : ∀ a, LocksNothing (g a)) : LocksNothing (p >>= g) := by
  intro γ f
  rw [Program.bind_assoc, h, Program.bind_assoc]
  exact congrArg (p >>= ·) (funext fun a => hg a γ f)

theorem locksNothing_deliver {c : Channel} {caller : Caller} (still : m.IsStill) :
    LocksNothing ((deliver c m).asCaller caller) := by
  induction m with
  | nil => exact locksNothing_done _
  | cons fragment rest ih =>
      obtain ⟨⟨p, rfl⟩ | rfl, hrest⟩ := still.cons
      · rw [asCaller_deliver_piece]
        apply LocksNothing.ask rfl
        intro taken
        cases taken with
        | true => exact ih hrest
        | false => exact locksNothing_done _
      · exact ih hrest

theorem locksNothing_printTo {c : Channel} {caller : Caller} (still : m.IsStill) :
    LocksNothing ((printTo m (some c)).asCaller caller) := by
  rw [asCaller_printTo]
  exact (locksNothing_deliver still).bind fun _ => .ask rfl locksNothing_done

/-- A steady task is steady up to the lock, and so is what is left of it there. -/
theorem steady_upTo {p : Task α} (steady : Steady Q p) :
    Steady (Steady Q) (p.upTo takesLock) := by
  induction steady with
  | done good => exact .done (.done good)
  | @ask d next untouched alike rest ih =>
      unfold Program.upTo
      split
      · exact .done (.ask untouched alike rest)
      · exact .ask untouched (fun answer answer' h => by rw [alike answer answer' h]) ih
  | deliver still rest ih =>
      rw [locksNothing_printTo still _ _]
      exact .deliver still ih

theorem steady_statement (form : StatementForm) (t n : Nat) :
    Steady (fun _ => True) (statement form t n) := by
  have hline : Message.IsStill [.piece (.text (lineText t n))] := Message.isStill_ofPieces [_]
  have hprint : Steady (fun _ => True) (printBuffer (lineText t n)) := steady_printPieces _
  have hnewline : Steady (fun _ => True) printNewline := steady_printPieces _
  cases form with
  | locked =>
      exact steady_lock.andThen fun _ => hprint.andThen fun _ => hnewline.andThen fun _ =>
        steady_unlock
  | guarded =>
      exact steady_acquireGuard.andThen fun _ => hprint.andThen fun _ =>
        hnewline.andThen fun _ => steady_dropGuard
  | lineMessage => exact (steady_println hline).andThen fun _ => .done trivial
  | foreign =>
      exact steady_lock.andThen fun _ => (steady_printPieces _).andThen fun _ =>
        hnewline.andThen fun _ => steady_unlock
  | record => exact (steady_record .info hline).andThen fun _ => .done trivial

theorem steady_statements (form : StatementForm) (t : Nat) (ns : List Nat) :
    Steady (fun _ => True) (statements form t ns) := by
  induction ns with
  | nil => exact .done trivial
  | cons n rest ih => exact (steady_statement form t n).andThen fun _ => ih

theorem steady_gather {tasks : List (Task Unit)}
    (steady : ∀ task ∈ tasks, Steady (fun _ => True) task) :
    Steady (fun left => ∀ task ∈ left, Steady (fun _ => True) task) (gather tasks) := by
  induction tasks with
  | nil => exact .done (List.forall_mem_nil _)
  | cons task rest ih =>
      obtain ⟨htask, hrest⟩ := List.forall_mem_cons.mp steady
      exact (steady_upTo htask).bind fun _ hfirst => (ih hrest).bind fun _ hleft =>
        .done (List.forall_mem_cons.mpr ⟨hfirst, hleft⟩)

theorem steady_inTurn {tasks : List (Task Unit)}
    (steady : ∀ task ∈ tasks, Steady (fun _ => True) task) :
    Steady (fun _ => True) (inTurn tasks) := by
  induction tasks with
  | nil => exact .done trivial
  | cons task rest ih =>
      obtain ⟨htask, hrest⟩ := List.forall_mem_cons.mp steady
      exact htask.andThen fun _ => ih hrest

theorem steady_task (form : StatementForm) (threads count : Nat) :
    Steady (fun _ => True) (task form threads count) := by
  have hworkers : ∀ task ∈ (List.range threads).map (worker form count),
      Steady (fun _ => True) task := by
    intro task htask
    obtain ⟨t, -, rfl⟩ := List.mem_map.mp htask
    exact (steady_statements form t _).asCaller (.started t)
  exact (steady_gather hworkers).bind fun _ => steady_inTurn

end Contention

/-! ## Steps -/

def ForeignCall.seesSink : ForeignCall → Bool
  | openStream _ => true
  | _ => false

theorem ForeignCall.steady {c : ForeignCall} (blind : c.seesSink = false) :
    Steady (· ≠ some .panic) c.task := by
  cases c with
  | openStream path => cases blind
  | lock => exact steady_lock.silent
  | unlock => exact steady_unlock.silent
  | flush => exact Steady.flush.silent
  | float bits => exact (steady_printDouble _).silent
  | double bits => exact (steady_printDouble _).silent
  | assertion condition text file line =>
      have hassert : Steady (· = .returned)
          (Foreign.assertCondition condition text file line) :=
        .ite (.done rfl) (steady_assertCondition false line (Message.isStill_ofPieces _)
          (Message.isStill_ofPieces _))
      exact hassert.answers
  | _ => exact (steady_printPieces _).silent

namespace Call

def seesSink : Call → Bool
  | openStream _ => true
  | tryOpenStream _ => true
  | currentSink => true
  | foreign c => c.seesSink
  | _ => false

theorem steady_enterOwn (id : String) : Steady (· ≠ some .panic) (enterOwn id) := by
  apply (Steady.make rfl).andThen
  intro kind
  cases kind with
  | checked =>
      apply (steady_enter _).andThen
      intro entered
      cases entered <;> exact .done nofun
  | bare => exact (Steady.make rfl).silent

theorem steady_leaveOwn (id : String) : Steady (· ≠ some .panic) (leaveOwn id) := by
  apply (Steady.make rfl).andThen
  intro kind
  cases kind with
  | checked =>
      apply (steady_leave _).andThen
      intro left
      cases left <;> exact .done nofun
  | bare => exact (Steady.make rfl).silent

theorem steady_identify : Steady (· ≠ some .panic) identify.task :=
  (Steady.make rfl).bind fun _ gives =>
    .done fun h => ne_panic_of_identify gives (Option.some.inj h)

theorem steady {c : Call} (blind : c.seesSink = false) : Steady (· ≠ some .panic) c.task := by
  cases c with
  | openStream | tryOpenStream | currentSink => cases blind
  | float bits => exact (steady_printDouble _).silent
  | double bits => exact (steady_printDouble _).silent
  | emptyLine =>
      exact (steady_bracketed (.printWith _ (Message.isStill_ofPieces [.lineEnd]))).answers
  | lock => exact steady_lock.silent
  | unlock => exact steady_unlock.silent
  | acquireGuard => exact steady_acquireGuard.silent
  | dropGuard => exact steady_dropGuard.silent
  | exit code => exact steady_exit code
  | foreign c => exact c.steady blind
  | enterLock id => exact steady_enterOwn id
  | leaveLock id => exact steady_leaveOwn id
  | identify => exact steady_identify
  | enabled level => exact .done nofun
  | flushLogger =>
      have hflush : Steady (fun _ => True) Log.flushLogger :=
        (Steady.make rfl).andThen fun _ => .ite Steady.flush (.done trivial)
      exact hflush.silent
  | maxLevel =>
      have hlevel : Steady (fun _ => True) Log.maxLevel :=
        (Steady.make rfl).andThen fun _ => .done trivial
      exact hlevel.andThen fun _ => .done nofun
  | flush => exact Steady.flush.silent
  | makeLock | setToken => exact (Steady.make rfl).silent
  | installConsole id =>
      apply (Steady.make rfl).andThen
      intro installed
      cases installed <;> exact .done nofun
  | registerLogger =>
      apply steady_registerLogger.andThen
      intro registered
      cases registered <;> exact .done nofun
  | tryLock | lockState => exact (Steady.make rfl).andThen fun _ => .done nofun
  | contend form threads statements => exact (Contention.steady_task form threads statements).silent
  | _ => exact (steady_printPieces _).silent

end Call

/-- The part can be formatted, and runs no steps. -/
def Part.isStill : Part → Bool
  | text _ => true
  | integer _ => true
  | run steps => steps.isEmpty
  | fail => false

theorem Part.isStill_message {parts : List Part} (still : parts.all Part.isStill) :
    (Part.message parts).IsStill := by
  induction parts with
  | nil => exact List.forall_mem_nil _
  | cons part rest ih =>
      rw [List.all_cons, Bool.and_eq_true] at still
      refine Message.IsStill.append ?_ (ih still.2)
      cases part with
      | text b => exact Message.isStill_ofPieces [_]
      | integer n => exact Message.isStill_ofPieces _
      | run steps =>
          obtain rfl : steps = [] := List.isEmpty_iff.mp still.1
          intro fragment hfragment
          exact .inr (List.mem_singleton.mp hfragment)
      | fail => cases still.1

namespace Step

def isStill : Step → Bool
  | call _ => true
  | print parts => parts.all Part.isStill
  | println parts => parts.all Part.isStill
  | record _ _ parts => parts.all Part.isStill
  | assertion _ text file _ => text.all Part.isStill && file.all Part.isStill
  | exitWith _ parts => parts.all Part.isStill

def seesSink : Step → Bool
  | call c => c.seesSink
  | _ => false

theorem steady {step : Step} (still : step.isStill) (blind : step.seesSink = false) :
    Steady (· ≠ some .panic) step.task := by
  cases step with
  | call c =>
      rw [task]
      exact c.steady blind
  | print parts =>
      rw [task]
      exact (Steady.printWith _ (Part.isStill_message still)).answers
  | println parts =>
      rw [task]
      exact (steady_println (Part.isStill_message still)).answers
  | record route level parts =>
      cases route with
      | direct =>
          rw [task]
          exact (steady_record level (Part.isStill_message still)).answers
      | logger =>
          rw [task]
          exact (steady_logRecord level (Part.isStill_message still)).answers
  | assertion holds text file line =>
      rw [isStill, Bool.and_eq_true] at still
      rw [task]
      exact (steady_assertCondition holds line (Part.isStill_message still.1)
        (Part.isStill_message still.2)).answers
  | exitWith code parts =>
      rw [task]
      exact (steady_exitWith code (Part.isStill_message still)).answers

end Step

end DiagnosticLog
