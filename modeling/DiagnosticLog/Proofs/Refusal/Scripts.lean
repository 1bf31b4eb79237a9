import DiagnosticLog.Proofs.Plays
import DiagnosticLog.Proofs.Refusal.Choices
import Mathlib.Data.List.Forall2

/-!
# Scripts on different files

Two scripts match if they differ in paths by which the sink is chosen only, where both files can be
opened, and if no message runs a step or fails to be formatted.  The one file may take everything
and the other refuse every write: `failed_writes_change_nothing` says that nothing but the files
themselves tells the runs apart.
-/

namespace DiagnosticLog

variable {environment : String → Option Bytes} {variableName : String} {tree : FileTree}

/-! ## Reports -/

/-- Apart from files, the same has been let out. -/
def Output.Alike (o o' : Output) : Prop :=
  o' = { o with files := o'.files }

namespace Output

theorem alike_of_beside {s s' : Session} (b : s.Beside s') :
    (ofSession s).Alike (ofSession s') := by
  cases b with
  | processes hosted beside =>
      simp only [Alike, ofSession, hosted]
      rw [beside.rest]

theorem Alike.since {now now' before before' : Output} (h : now.Alike now')
    (h' : before.Alike before') : (now.since before).Alike (now'.since before') := by
  rw [Alike, Output.since, h, h']
  rfl

theorem Alike.sortLines {o o' : Output} (h : o.Alike o') : o.sortLines.Alike o'.sortLines := by
  rw [Alike, Output.sortLines, h]
  rfl

end Output

/-- The steps came to the same, but for the paths in their answers, and were not unwound. -/
inductive Result.Alike : Result → Result → Prop where
  | done {answer answer' : Option Answer} (answers : Answer.Alike answer answer')
      (nested : List (Option Answer)) : Alike (.done answer nested) (.done answer' nested)
  | blocked : Alike .blocked .blocked
  | ended (e : Ending) : Alike (.ended e) (.ended e)
  | over : Alike .over .over

/-- The reports say the same, but for the paths of files and what is in them. -/
structure Report.Alike (r r' : Report) : Prop where
  result : r.result.Alike r'.result
  joined : Option.Rel Result.Alike r.joined r'.joined
  output : r.output.Alike r'.output

/-- The same thread takes steps that match, and lets the same thread through. -/
structure Turn.Matches (environment : String → Option Bytes) (variableName : String)
    (tree : FileTree) (t t' : Turn) : Prop where
  thread : t'.thread = t.thread
  step : t.step.Matches environment variableName tree t'.step
  joins : t'.joins = t.joins

namespace Script

/-- The states are those of processes that are beside each other, with the same steps waiting. -/
structure State.Alike (environment : String → Option Bytes) (variableName : String)
    (tree : FileTree) (state state' : State) : Prop where
  session : state.session.Beside state'.session
  begun : state.session.Begun environment variableName tree
  reported : state.reported.Alike state'.reported
  waiting : state'.waiting = state.waiting
  steady : ∀ w ∈ state.waiting, Steady (· ≠ some .panic) w.rest

section Turns

variable {state state' : State} {t t' : Turn} {s s' : Session} {waiting : List Waiting}

theorem State.Alike.report (alike : state.Alike environment variableName tree state')
    (b : s.Beside s') {result result' : Result} {joined joined' : Option Result}
    (results : result.Alike result') (joins : Option.Rel Result.Alike joined joined') :
    (state.report s result joined).Alike (state'.report s' result' joined') where
  result := results
  joined := joins
  output := (Output.alike_of_beside b).since alike.reported

theorem State.alike_after (b : s.Beside s') (begun : s.Begun environment variableName tree)
    (steady : ∀ w ∈ waiting, Steady (· ≠ some .panic) w.rest) :
    (State.after s waiting).Alike environment variableName tree (State.after s' waiting) :=
  ⟨b, begun, Output.alike_of_beside b, rfl, steady⟩

theorem beside_forgetNotes (b : s.Beside s') (thread : Nat) :
    (forgetNotes thread s).Beside (forgetNotes thread s') := by
  cases b with
  | processes hosted beside => exact .processes hosted beside

theorem begun_forgetNotes (begun : s.Begun environment variableName tree) (thread : Nat) :
    (forgetNotes thread s).Begun environment variableName tree :=
  ⟨begun.variableName_eq, begun.hosted⟩

theorem notesOf_beside (b : s.Beside s') (thread : Nat) :
    notesOf thread s' = notesOf thread s := by
  cases b
  rfl

theorem alike_done (b : s.Beside s') {answer answer' : Option Answer}
    (answers : Answer.Alike answer answer') (thread : Nat) :
    Result.Alike (.done answer (notesOf thread s)) (.done answer' (notesOf thread s')) := by
  rw [notesOf_beside b]
  exact .done answers _

/-- What two waiting steps come to that are let through is the same, if any is. -/
def Through (environment : String → Option Bytes) (variableName : String) (tree : FileTree)
    (found found' : Nat × Reach) : Prop :=
  found'.1 = found.1 ∧ found.2.state.Begun environment variableName tree ∧
    found.2.Agrees Session.Beside Answer.Alike (Steady (· ≠ some .panic)) found'.2

theorem through_resumed? (alike : state.Alike environment variableName tree state')
    (joins : t'.joins = t.joins) (b : s.Beside s')
    (begun : s.Begun environment variableName tree) :
    Option.Rel (Through environment variableName tree) (resumed? state t s)
      (resumed? state' t' s') := by
  unfold resumed? resume
  rw [joins, alike.waiting]
  cases t.joins with
  | none => exact .none
  | some joined =>
      simp only [Option.bind_some]
      cases hfind : state.waiting.find? fun w => w.thread = joined with
      | none => exact .none
      | some w =>
          have steady := alike.steady w (List.mem_of_find?_eq_some hfind)
          exact .some ⟨rfl, begun.run _ _, steady.alike b _⟩

/-- What a turn comes to is the same on both sides, and it leads to states that are alike. -/
def TurnsAlike (environment : String → Option Bytes) (variableName : String) (tree : FileTree)
    (outcome outcome' : Report × Option State) : Prop :=
  outcome.1.Alike outcome'.1 ∧
    Option.Rel (State.Alike environment variableName tree) outcome.2 outcome'.2

theorem turnsAlike_closing (alike : state.Alike environment variableName tree state')
    (b : s.Beside s') (begun : s.Begun environment variableName tree) {result result' : Result}
    (results : result.Alike result') {through through' : Option (Nat × Reach)}
    (throughs : Option.Rel (Through environment variableName tree) through through') :
    TurnsAlike environment variableName tree (closing state result s through)
      (closing state' result' s' through') := by
  cases throughs with
  | none =>
      refine ⟨alike.report b results .none, .some ?_⟩
      rw [alike.waiting]
      exact State.alike_after b begun alike.steady
  | @some found found' h =>
      obtain ⟨joined, reach⟩ := found
      obtain ⟨joined', reach'⟩ := found'
      obtain ⟨rfl, hbegun, agrees⟩ := h
      have others : ∀ w ∈ state.waiting.filter fun w => w.thread ≠ joined',
          Steady (· ≠ some .panic) w.rest :=
        fun w hw => alike.steady w (List.mem_of_mem_filter hw)
      cases agrees with
      | ended e b' => exact ⟨alike.report b' (.ended e) .none, .none⟩
      | waiting left b' =>
          refine ⟨alike.report b' results (.some .blocked), .some ?_⟩
          rw [alike.waiting]
          refine State.alike_after b' hbegun fun w hw => ?_
          rcases List.mem_append.mp hw with hother | hlast
          · exact others w hother
          · rw [List.mem_singleton.mp hlast]
            exact left
      | finished answers b' =>
          refine ⟨alike.report (beside_forgetNotes b' _) results
            (.some (alike_done b' answers _)), .some ?_⟩
          rw [alike.waiting]
          exact State.alike_after (beside_forgetNotes b' _) (begun_forgetNotes hbegun _) others

theorem turnsAlike_turn (alike : state.Alike environment variableName tree state')
    (matched : t.Matches environment variableName tree t') :
    TurnsAlike environment variableName tree (turn state t) (turn state' t') := by
  have agrees := matched.step.agrees alike.begun alike.session (.lasting t.thread)
  have begun := alike.begun.run (.lasting t.thread) t.step.task
  generalize hrun : t.step.task.run (Session.perform (.lasting t.thread)) state.session = reach,
    hrun' : t'.step.task.run (Session.perform (.lasting t.thread)) state'.session = reach'
    at agrees begun
  replace hrun : runAs t.thread t.step.task state.session = reach := hrun
  replace hrun' : runAs t'.thread t'.step.task state'.session = reach' := by
    rw [matched.thread]
    exact hrun'
  cases agrees with
  | ended e b =>
      simp only [turn, hrun, hrun']
      exact ⟨alike.report b (.ended e) .none, .none⟩
  | waiting left b =>
      simp only [turn, hrun, hrun']
      refine ⟨alike.report b .blocked .none, .some ?_⟩
      rw [alike.waiting, matched.thread]
      refine State.alike_after b begun fun w hw => ?_
      rcases List.mem_append.mp hw with hother | hlast
      · exact alike.steady w hother
      · rw [List.mem_singleton.mp hlast]
        exact left
  | finished answers b =>
      rw [turn_of_finished hrun, turn_of_finished hrun', matched.thread]
      have hbegun := begun_forgetNotes begun t.thread
      exact turnsAlike_closing alike (beside_forgetNotes b _) hbegun (alike_done b answers _)
        (through_resumed? alike matched.joins (beside_forgetNotes b _) hbegun)

end Turns

/-! ## Scripts -/

section Scripts

variable {state state' : State} {turns turns' : List Turn}

theorem alike_arrange {step step' : Step}
    (matched : step.Matches environment variableName tree step') {r r' : Report}
    (alike : r.Alike r') : (arrange step r).Alike (arrange step' r') := by
  cases matched with
  | same =>
      unfold arrange
      split
      · exact ⟨alike.result, alike.joined, alike.output.sortLines⟩
      · exact alike
  | openStream | tryOpenStream | foreign => exact alike

theorem alike_reportsFrom (alike : state.Alike environment variableName tree state')
    (matched : List.Forall₂ (Turn.Matches environment variableName tree) turns turns') :
    List.Forall₂ Report.Alike (reportsFrom state turns) (reportsFrom state' turns') := by
  induction matched generalizing state state' with
  | nil => exact .cons (alike.report alike.session.close .over .none) .nil
  | @cons t t' turns turns' first rest ih =>
      obtain ⟨hreport, hnext⟩ := turnsAlike_turn alike first
      simp only [reportsFrom]
      generalize turn state t = outcome, turn state' t' = outcome' at hreport hnext
      obtain ⟨report, next⟩ := outcome
      obtain ⟨report', next'⟩ := outcome'
      cases hnext with
      | none => exact .cons (alike_arrange first.step hreport) .nil
      | some hstate => exact .cons (alike_arrange first.step hreport) (ih hstate)

theorem Plays.alike {first first' : State}
    (alike : first.Alike environment variableName tree first')
    (matched : List.Forall₂ (Turn.Matches environment variableName tree) turns turns')
    (plays : Plays (fun _ _ => True) first turns state) :
    ∃ state', Plays (fun _ _ => True) first' turns' state' ∧
      state.Alike environment variableName tree state' := by
  induction plays generalizing turns' with
  | nil =>
      cases matched
      exact ⟨first', .nil, alike⟩
  | @snoc turns t state next before _ goesOn ih =>
      -- the last turn of the one script matches the last turn of the other
      rw [← List.forall₂_reverse_iff, List.reverse_append, List.reverse_singleton,
        List.singleton_append, List.forall₂_cons_left_iff] at matched
      obtain ⟨t', reversed, last, rest, hturns⟩ := matched
      rw [List.reverse_eq_cons_iff] at hturns
      rw [← List.forall₂_reverse_iff, List.reverse_reverse] at rest
      obtain ⟨state', hplays, hstate⟩ := ih rest
      obtain ⟨-, hnext⟩ := turnsAlike_turn hstate last
      rw [goesOn] at hnext
      generalize hnext' : (turn state' t').2 = next' at hnext
      cases hnext with
      | some hstate' =>
          rw [hturns]
          exact ⟨_, hplays.snoc trivial hnext', hstate'⟩

end Scripts

/-- Two scripts are run in a process in which nothing has been set up.  They differ at most in the
paths by which the sink is chosen, and where they do the files can be opened; then it does not
matter if one of them refuses all that is written to it.  The reports of all steps and of the end
are alike, so no step is unwound, reports an error, waits or ends the run because of failed writes;
and after every step the sessions differ in the log file and what its writer keeps only, locks,
standard output and standard error included, and the same steps wait. -/
theorem failed_writes_change_nothing {build : Build} (hosted : build.mode = .hosted)
    {environment : String → Option Bytes} {tree : FileTree} {turns turns' : List Turn}
    (matched :
      List.Forall₂ (Turn.Matches environment build.logFileVariable tree) turns turns') :
    List.Forall₂ Report.Alike (reports (Session.start build environment tree) turns)
      (reports (Session.start build environment tree) turns') ∧
    ∀ n state, Plays (fun _ _ => True) (State.start (Session.start build environment tree))
        (turns.take n) state →
      ∃ state', Plays (fun _ _ => True) (State.start (Session.start build environment tree))
          (turns'.take n) state' ∧
        state.session.Beside state'.session ∧ state'.waiting = state.waiting := by
  have begun := Session.begun_start hosted environment tree
  obtain ⟨h, hplatform, -⟩ := begun.hosted
  have alike : State.Alike environment build.logFileVariable tree
      (State.start (Session.start build environment tree))
      (State.start (Session.start build environment tree)) :=
    ⟨.same hplatform, begun, rfl, rfl, List.forall_mem_nil _⟩
  refine ⟨alike_reportsFrom alike matched, fun n state plays => ?_⟩
  obtain ⟨state', hplays, hstate⟩ := plays.alike alike (List.forall₂_take n matched)
  exact ⟨state', hplays, hstate.session, hstate.waiting⟩

def loggedTo (path : String) : List Turn :=
  [⟨0, .call (.openStream (some (Bytes.ofString path))), none⟩, ⟨0, .call .lock, none⟩,
    ⟨0, .print [.text (Bytes.ofString "a")], none⟩, ⟨1, .println [.integer 7], none⟩,
    ⟨0, .call .flush, none⟩, ⟨0, .call .unlock, some 1⟩,
    ⟨0, .exitWith 3 [.text (Bytes.ofString "end")], none⟩]

def treeWithFull : FileTree :=
  .ofContents [Bytes.ofString "tmp"] [[Bytes.ofString "dev"]] []
    [([Bytes.ofString "dev", Bytes.ofString "full"], .full)]

/-- The device that refuses every write is as good as a file, to the end. -/
theorem full_device_changes_nothing :
    treeWithFull.openPath (Bytes.ofString "/dev/full") = .ok (.device .full, treeWithFull) ∧
      List.Forall₂ Report.Alike
        (reports (Session.start ⟨.hosted, .lf, false⟩ (fun _ => none) treeWithFull)
          (loggedTo "vm.log"))
        (reports (Session.start ⟨.hosted, .lf, false⟩ (fun _ => none) treeWithFull)
          (loggedTo "/dev/full")) ∧
      (reports (Session.start ⟨.hosted, .lf, false⟩ (fun _ => none) treeWithFull)
        (loggedTo "/dev/full")).map Report.result =
          [.done none [], .done none [], .done none [], .blocked, .done none [], .done none [],
            .ended (.exit 3)] := by
  have files : Interchangeable (fun _ => none) "MAXINE_LOG_FILE" treeWithFull
      (some (Bytes.ofString "vm.log")) (some (Bytes.ofString "/dev/full")) :=
    ⟨Bytes.ofString "vm.log", Bytes.ofString "/dev/full", _, _, rfl, rfl, rfl, rfl⟩
  have matched : List.Forall₂ (Turn.Matches (fun _ => none) "MAXINE_LOG_FILE" treeWithFull)
      (loggedTo "vm.log") (loggedTo "/dev/full") :=
    .cons ⟨rfl, .openStream files, rfl⟩ <| .cons ⟨rfl, .same rfl, rfl⟩ <|
      .cons ⟨rfl, .same rfl, rfl⟩ <| .cons ⟨rfl, .same rfl, rfl⟩ <|
      .cons ⟨rfl, .same rfl, rfl⟩ <| .cons ⟨rfl, .same rfl, rfl⟩ <|
      .cons ⟨rfl, .same rfl, rfl⟩ .nil
  have hosted : Build.mode ⟨.hosted, .lf, false⟩ = .hosted := rfl
  exact ⟨rfl, (failed_writes_change_nothing hosted matched).1, rfl⟩

end Script

end DiagnosticLog
