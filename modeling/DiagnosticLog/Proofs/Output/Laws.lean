import DiagnosticLog.Proofs.Output.Composed

/-!
# Laws of all steps

A law of tasks that holds of what starts no threads and of the prints of messages whose tasks obey
it, and that is kept when tasks are put one after another, holds of all statements.  If it holds of
contentions as well, it holds of every step (`StepLaw.step`).
-/

namespace DiagnosticLog

/-- A law of tasks; tasks obey it with results of a certain kind. -/
structure TaskLaw where
  Holds : {α : Type} → (α → Prop) → Task α → Prop
  /-- Whether prints may be unwound. -/
  unwinding : Prop
  done {α : Type} {good : α → Prop} {a : α} (h : good a) : Holds good (.done a)
  bind {α β : Type} {good : α → Prop} {good' : β → Prop} {p : Task α} {f : α → Task β}
    (first : Holds good p) (rest : ∀ a, good a → Holds good' (f a)) : Holds good' (p >>= f)
  composed {α : Type} {unwinds : α → Prop} {p : Task α} (h : Composed unwinds p) :
    Holds (fun a => unwinds a → unwinding) p
  printWith {m : Message}
    (effects : ∀ task, Fragment.effect task ∈ m → Holds (fun f => f = .unwound → unwinding) task)
    (urgency : Urgency) : Holds (fun f => f = .unwound → unwinding) (Log.printWith urgency m)

namespace TaskLaw

variable (law : TaskLaw)

/-- The law lets a task finish in this way. -/
def Allows (finish : Finish) : Prop :=
  finish = .unwound → law.unwinding

/-- The tasks in the middle of the message obey the law. -/
def Allowed (m : Message) : Prop :=
  ∀ task, Fragment.effect task ∈ m → law.Holds law.Allows task

section Statements

variable {law} {m m' : Message}

theorem allowed_of_isPlain (plain : m.IsPlain) : law.Allowed m :=
  fun task htask => absurd htask (plain.effect_not_mem task)

theorem Allowed.append (h : law.Allowed m) (h' : law.Allowed m') : law.Allowed (m ++ m') := by
  intro task htask
  rcases List.mem_append.mp htask with hm | hm'
  · exact h task hm
  · exact h' task hm'

theorem andThen {α β : Type} {good : α → Prop} {good' : β → Prop} {p : Task α} {f : α → Task β}
    (first : law.Holds good p) (rest : ∀ a, law.Holds good' (f a)) : law.Holds good' (p >>= f) :=
  law.bind first fun a _ => rest a

theorem returns : law.Holds law.Allows (.done .returned) := by
  refine law.done fun unwound => ?_
  cases unwound

theorem print (h : law.Allowed m) : law.Holds law.Allows (Log.print m) :=
  law.printWith h .patient

theorem unlessUnwound {p : Task Finish} {f : Finish → Task Finish}
    (first : law.Holds law.Allows p) (returned : law.Holds law.Allows (f .returned))
    (unwound : f .unwound = .done .unwound) : law.Holds law.Allows (p >>= f) := by
  refine law.bind first fun finish allows => ?_
  cases finish with
  | returned => exact returned
  | unwound =>
      rw [unwound]
      exact law.done allows

theorem line (h : law.Allowed m) : law.Holds law.Allows (Log.line m) :=
  unlessUnwound (print h) (print (allowed_of_isPlain (Message.isPlain_ofPieces [.lineEnd]))) rfl

theorem bracketed {body : Task Finish} (h : law.Holds law.Allows body) :
    law.Holds law.Allows (Log.bracketed body) :=
  andThen (law.composed composed_lock) fun _ => law.bind h fun _ allows =>
    andThen (law.composed composed_unlock) fun _ => law.done allows

theorem println (h : law.Allowed m) : law.Holds law.Allows (Log.println m) :=
  bracketed (line h)

theorem record (level : Level) (h : law.Allowed m) : law.Holds law.Allows (Log.record level m) :=
  println ((allowed_of_isPlain (Log.isPlain_levelHeader level)).append h)

theorem logRecord (level : Level) (h : law.Allowed m) :
    law.Holds law.Allows (Log.logRecord level m) := by
  refine andThen (law.composed (.plain rfl rfl)) fun most => ?_
  split
  · refine andThen (law.composed (.plain rfl rfl)) fun registered => ?_
    cases registered with
    | true => exact record level h
    | false => exact returns
  · exact returns

theorem exitWith (code : Int32) (h : law.Allowed m) :
    law.Holds law.Allows (Log.exitWith code m) := by
  have hexit : Composed (· = .unwound) (Log.exit code : Task Finish) := by
    rw [FinalCall.exit_eq code fun _ => .done .returned]
    refine (Composed.final (FinalCall.composed_exit code) id).andThen fun _ => .done ?_
    intro unwound
    cases unwound
  have hlast : Composed (· = .unwound) (Log.endLineAndExit code : Task Finish) :=
    (Composed.pieces (Message.isPlain_ofPieces [.lineEnd])).andThen fun _ => hexit
  exact unlessUnwound (law.printWith h _) (law.composed hlast) rfl

theorem assertCondition (holds : Bool) {text file : Message} (line : Int32)
    (htext : law.Allowed text) (hfile : law.Allowed file) :
    law.Holds law.Allows (Log.assertCondition holds text file line) := by
  have hpieces (ps : List Piece) : law.Allowed (Message.ofPieces ps) :=
    allowed_of_isPlain (Message.isPlain_ofPieces ps)
  cases holds with
  | true => exact returns
  | false =>
      exact exitWith _ ((((((hpieces [_]).append hfile).append (hpieces [_])).append
        (hpieces _)).append (hpieces [_])).append htext)

theorem answers {p : Task Finish} (h : law.Holds law.Allows p) :
    law.Holds (fun answer => answer = some .panic → law.unwinding)
      (do return Answer.ofFinish (← p)) := by
  refine law.bind h fun finish allows => law.done fun unwound => allows ?_
  cases finish with
  | returned => cases unwound
  | unwound => rfl

/-! ## Contending threads -/

theorem ofAny {α : Type} {good : α → Prop} {p : Task α} (h : law.Holds good p) :
    law.Holds (fun _ => True) p := by
  rw [← Program.bind_done p]
  exact andThen h fun _ => law.done trivial

theorem statement (form : StatementForm) (t n : Nat) :
    law.Holds (fun _ => True) (Contention.statement form t n) := by
  have hprint (ps : List Piece) : law.Holds _ (Log.printPieces ps) :=
    law.composed (composed_printPieces ps)
  have hlock : law.Holds _ Log.lock := law.composed composed_lock
  have hunlock : law.Holds _ Log.unlock := law.composed composed_unlock
  have hline : law.Allowed [.piece (.text (Contention.lineText t n))] :=
    allowed_of_isPlain (Message.isPlain_ofPieces [_])
  cases form with
  | locked | foreign =>
      exact andThen hlock fun _ => andThen (hprint _) fun _ => andThen (hprint _) fun _ =>
        ofAny hunlock
  | guarded =>
      have hpush : Composes (Request.make .pushGuard) := .plain rfl rfl
      have hacquire : law.Holds _ Log.acquireGuard := andThen hlock fun _ => law.composed hpush
      exact andThen hacquire fun _ => andThen (hprint _) fun _ => andThen (hprint _) fun _ =>
        ofAny (law.composed composed_dropGuard)
  | lineMessage => exact andThen (println hline) fun _ => law.done trivial
  | record => exact andThen (record .info hline) fun _ => law.done trivial

theorem statements (form : StatementForm) (t : Nat) (ns : List Nat) :
    law.Holds (fun _ => True) (Contention.statements form t ns) := by
  induction ns with
  | nil => exact law.done trivial
  | cons n rest ih => exact andThen (statement form t n) fun _ => ih

end Statements

section Contention

open Contention

variable {law}
  (started : ∀ (thread : Nat) (p : Task Unit), law.Holds (fun _ => True) p →
    law.Holds (fun _ => True) (p.asStarted thread))
  (upTo : ∀ p : Task Unit, law.Holds (fun _ => True) p →
    law.Holds (law.Holds fun _ => True) (p.upTo takesLock))

include upTo in
theorem gather {tasks : List (Task Unit)} (h : ∀ task ∈ tasks, law.Holds (fun _ => True) task) :
    law.Holds (fun left => ∀ task ∈ left, law.Holds (fun _ => True) task) (gather tasks) := by
  induction tasks with
  | nil => exact law.done nofun
  | cons task rest ih =>
      obtain ⟨htask, hrest⟩ := List.forall_mem_cons.mp h
      refine law.bind (upTo task htask) fun first hfirst => ?_
      refine law.bind (ih hrest) fun left hleft => ?_
      exact law.done (List.forall_mem_cons.mpr ⟨hfirst, hleft⟩)

theorem inTurn {tasks : List (Task Unit)} (h : ∀ task ∈ tasks, law.Holds (fun _ => True) task) :
    law.Holds (fun _ => True) (inTurn tasks) := by
  induction tasks with
  | nil => exact law.done trivial
  | cons task rest ih =>
      obtain ⟨htask, hrest⟩ := List.forall_mem_cons.mp h
      exact law.bind htask fun _ _ => ih hrest

include started upTo in
/-- A law that does not ask who runs a task, and that what is left at the log lock obeys as well, is
obeyed by threads that contend for it. -/
theorem contention (form : StatementForm) (threads count : Nat) :
    law.Holds (fun _ => True) (Contention.task form threads count) := by
  refine law.bind (gather upTo fun task htask => ?_) fun left hleft => inTurn hleft
  obtain ⟨t, -, rfl⟩ := List.mem_map.mp htask
  exact started t _ (statements form t _)

end Contention

end TaskLaw

/-! ## Steps -/

/-- A law that contentions obey. -/
structure StepLaw extends TaskLaw where
  contention (form : StatementForm) (threads count : Nat) :
    Holds (fun _ => True) (Contention.task form threads count)

namespace StepLaw

open TaskLaw

variable (law : StepLaw)

theorem call (c : Call) :
    law.Holds (fun answer => answer = some .panic → law.unwinding) c.task := by
  cases hsolo : c.isSolo with
  | true => exact law.composed (Call.composed hsolo)
  | false =>
      cases c with
      | contend form threads statements =>
          exact andThen (law.contention form threads statements) fun _ => law.done nofun
      | _ => cases hsolo

mutual

theorem step : (step : Step) →
    law.Holds (fun answer => answer = some .panic → law.unwinding) step.task
  | .call c => law.call c
  | .print parts => answers (print (message parts))
  | .println parts => answers (println (message parts))
  | .record .direct level parts => answers (record level (message parts))
  | .record .logger level parts => answers (logRecord level (message parts))
  | .assertion holds text file line =>
      answers (assertCondition holds line (message text) (message file))
  | .exitWith code parts => answers (exitWith code (message parts))

theorem message : (parts : List Part) → law.Allowed (Part.message parts)
  | [] => fun _ htask => nomatch htask
  | part :: rest => (fragments part).append (message rest)

theorem fragments : (part : Part) → law.Allowed part.fragments
  | .text _ => allowed_of_isPlain (Message.isPlain_ofPieces [_])
  | .integer _ => allowed_of_isPlain (Message.isPlain_ofPieces _)
  | .run steps => by
      intro task htask
      have hsteps := runInside steps
      rw [Part.fragments, List.mem_singleton] at htask
      cases htask
      exact hsteps
  | .fail => by
      intro task htask
      rw [Part.fragments, List.mem_singleton] at htask
      cases htask

theorem runInside : (steps : List Step) → law.Holds law.Allows (Step.runInside steps)
  | [] => returns
  | first :: rest => by
      have hrest := runInside rest
      refine law.bind (step first) fun answer allows => ?_
      by_cases unwound : answer = some .panic
      · rw [if_pos unwound]
        exact law.done fun _ => allows unwound
      · rw [if_neg unwound]
        have hnote : Composes (Request.make (.note answer)) := .plain rfl rfl
        exact andThen (law.composed hnote) fun _ => hrest

end

end StepLaw

end DiagnosticLog
