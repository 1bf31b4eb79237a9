import DiagnosticLog.Script.Run

/-!
# Scripts, turn by turn

A script plays its turns one after the other, as long as the run does not end.  A turn whose own
step has finished may let a waiting step through, and what the turn comes to is told by what that
step comes to (`Script.turn_of_finished`).
-/

namespace DiagnosticLog.Script

/-- A script comes from one state to another by turns that are allowed, one after the other. -/
inductive Plays (allowed : State → Turn → Prop) (first : State) : List Turn → State → Prop where
  | nil : Plays allowed first [] first
  | snoc {turns : List Turn} {t : Turn} {state next : State}
      (before : Plays allowed first turns state) (here : allowed state t)
      (goesOn : (turn state t).2 = some next) : Plays allowed first (turns ++ [t]) next

theorem Plays.cons {allowed : State → Turn → Prop} {first state next : State} {t : Turn}
    {turns : List Turn} (here : allowed first t) (goesOn : (turn first t).2 = some next)
    (rest : Plays allowed next turns state) : Plays allowed first (t :: turns) state := by
  induction rest with
  | nil => exact .snoc .nil here goesOn
  | snoc _ last goesLast ih => exact .snoc ih last goesLast

/-! ## Turns -/

def resumed? (state : State) (t : Turn) (s : Session) : Option (Nat × Reach) :=
  t.joins.bind fun joined => (resume state joined s).map (joined, ·)

def closing (state : State) (result : Result) (s : Session) :
    Option (Nat × Reach) → Report × Option State
  | none => (state.report s result none, some (State.after s state.waiting))
  | some (_, .ended e s) => (state.report s (.ended e) none, none)
  | some (joined, .waiting rest s) =>
      (state.report s result (some .blocked),
        some (State.after s
          ((state.waiting.filter fun w => w.thread ≠ joined) ++ [⟨joined, rest⟩])))
  | some (joined, .finished answer s) =>
      (state.report (forgetNotes joined s) result (some (.done answer (notesOf joined s))),
        some (State.after (forgetNotes joined s) (state.waiting.filter fun w => w.thread ≠ joined)))

theorem turn_of_finished {state : State} {t : Turn} {answer : Option Answer} {s : Session}
    (hrun : runAs t.thread t.step.task state.session = .finished answer s) :
    turn state t = closing state (.done answer (notesOf t.thread s)) (forgetNotes t.thread s)
      (resumed? state t (forgetNotes t.thread s)) := by
  simp only [turn, hrun]
  unfold resumed?
  cases t.joins.bind fun joined =>
    (resume state joined (forgetNotes t.thread s)).map (joined, ·) with
  | none => rfl
  | some found =>
      obtain ⟨joined, reach⟩ := found
      cases reach <;> rfl

end DiagnosticLog.Script
