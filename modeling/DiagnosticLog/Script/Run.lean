import DiagnosticLog.Script.Report
import DiagnosticLog.Script.Step

/-!
# Running a script

The steps of a script are run one at a time, each by the thread it names.  A step that has to
wait is put aside as what is left of its task; the step that lets it through names its thread,
and then the rest is run right after that step.
-/

namespace DiagnosticLog

structure Turn where
  thread : Nat
  step : Step
  /-- The thread whose waiting step is let through. -/
  joins : Option Nat

/-- The rest of a step that waits, by its thread. -/
structure Waiting where
  thread : Nat
  rest : Task (Option Answer)

abbrev Reach : Type :=
  Outcome Request.interface Session Ending (Option Answer)

namespace Script

def runAs (thread : Nat) (task : Task (Option Answer)) (s : Session) : Reach :=
  task.run (Session.perform (.lasting thread)) s

/-- The state of a script between two of its steps. -/
structure State where
  session : Session
  /-- What had been let out when the last report was made. -/
  reported : Output
  waiting : List Waiting

def State.start (s : Session) : State :=
  ⟨s, Output.ofSession s, []⟩

def notesOf (thread : Nat) (s : Session) : List (Option Answer) :=
  s.notes (.lasting thread)

def forgetNotes (thread : Nat) (s : Session) : Session :=
  { s with notes := update s.notes (.lasting thread) [] }

def State.report (state : State) (s : Session) (result : Result) (joined : Option Result) :
    Report :=
  ⟨result, joined, (Output.ofSession s).since state.reported⟩

def State.after (s : Session) (waiting : List Waiting) : State :=
  ⟨s, Output.ofSession s, waiting⟩

def resume (state : State) (thread : Nat) (s : Session) : Option Reach :=
  (state.waiting.find? fun w => w.thread = thread).map fun w => runAs thread w.rest s

/-- What a turn comes to: the report, and the state after it unless the run has ended. -/
def turn (state : State) (t : Turn) : Report × Option State :=
  match runAs t.thread t.step.task state.session with
  | .ended e s => (state.report s (.ended e) none, none)
  | .waiting rest s =>
      (state.report s .blocked none,
        some (State.after s (state.waiting ++ [⟨t.thread, rest⟩])))
  | .finished answer s =>
      let result := Result.done answer (notesOf t.thread s)
      let s := forgetNotes t.thread s
      match t.joins.bind fun joined => (resume state joined s).map (joined, ·) with
      | none => (state.report s result none, some (State.after s state.waiting))
      | some (joined, reach) =>
          let others := state.waiting.filter fun w => w.thread ≠ joined
          match reach with
          | .ended e s => (state.report s (.ended e) none, none)
          | .waiting rest s =>
              (state.report s result (some .blocked),
                some (State.after s (others ++ [⟨joined, rest⟩])))
          | .finished answer s =>
              let joinedResult := Result.done answer (notesOf joined s)
              let s := forgetNotes joined s
              (state.report s result (some joinedResult), some (State.after s others))

/-- The report of a step, with the lines of a contention in order: the threads of one log them in
no order in particular. -/
def arrange (step : Step) (r : Report) : Report :=
  match step with
  | .call (.contend _ _ _) => { r with output := r.output.sortLines }
  | _ => r

/-- The reports of the turns, and one of the end if they come to it. -/
def reportsFrom (state : State) : List Turn → List Report
  | [] => [state.report state.session.close .over none]
  | t :: rest =>
      match turn state t with
      | (report, none) => [arrange t.step report]
      | (report, some state) => arrange t.step report :: reportsFrom state rest

def reports (s : Session) (turns : List Turn) : List Report :=
  reportsFrom (State.start s) turns

end Script

end DiagnosticLog
