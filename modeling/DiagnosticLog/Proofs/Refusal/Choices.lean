import DiagnosticLog.Proofs.Refusal.Operations
import DiagnosticLog.Proofs.Session.WayOut
import DiagnosticLog.Proofs.Setup

/-!
# Choices of different files

Where one step chooses one file and another step another, and both files can be opened, the steps
come to the same: they answer alike but for the path, and lead from one session to sessions beside
each other.  Until the sink is chosen what could be opened at the beginning can still be opened
(`Session.Begun`), so it does not matter when the choice is made.
-/

namespace DiagnosticLog

variable {α : Type} {environment : String → Option Bytes} {variableName : String} {tree : FileTree}

/-! ## Until the sink is chosen -/

theorem Hosted.Move.openable {t : ThreadId} {s : Session} {r : Request} {answer : r.Reply}
    {h h' : Hosted} (move : Move t s r answer h h') (unset : h'.stream = none) :
    h.stream = none ∧ ∀ name opened, h.tree.openPath name = .ok opened →
      ∃ opened', h'.tree.openPath name = .ok opened' := by
  have hsame (heq : h'.stream = h.stream ∧ h'.tree = h.tree) :
      h.stream = none ∧ ∀ name opened, h.tree.openPath name = .ok opened →
        ∃ opened', h'.tree.openPath name = .ok opened' := by
    rw [← heq.1, heq.2]
    exact ⟨unset, fun _ opened opens => ⟨opened, opens⟩⟩
  cases move with
  | @put _ c piece =>
      cases c with
      | file =>
          cases hstream : h.stream with
          | none => exact hstream ▸ hsame (by simp only [Hosted.put, hstream, and_self])
          | some stream =>
              cases stream <;> simp only [Hosted.put, hstream, reduceCtorEq] at unset
      | _ => exact hsame ⟨rfl, rfl⟩
  | @flush _ _ c free =>
      cases c with
      | file =>
          cases hstream : h.stream with
          | none => exact hstream ▸ hsame (by simp only [Hosted.push, hstream, and_self])
          | some stream =>
              cases stream <;> simp only [Hosted.push, hstream, reduceCtorEq] at unset
      | _ => exact hsame ⟨rfl, rfl⟩
  | @openSink _ _ path reply opening =>
      generalize Sink.sought h.environment s.logFileVariable path = wanted at opening
      cases opening with
      | file opens =>
          refine ⟨unset, fun name opened hopened => ?_⟩
          rw [(FileTree.openPath_emptied opens.leads).1]
          exact ⟨_, (FileTree.openPath_emptied hopened).2 _⟩
      | _ => exact hsame ⟨rfl, rfl⟩
  | publishSink publication =>
      cases publication with
      | first => cases unset
      | late => exact hsame ⟨rfl, rfl⟩
  | _ => exact hsame ⟨rfl, rfl⟩

namespace Session

/-- The process has begun in this environment and with these files, and what could be opened then
can be opened now unless the sink has been chosen. -/
structure Begun (environment : String → Option Bytes) (variableName : String) (tree : FileTree)
    (s : Session) : Prop where
  variableName_eq : s.logFileVariable = variableName
  hosted : ∃ h, s.platform = .hosted h ∧ h.environment = environment ∧
    (h.stream = none → ∀ name opened, tree.openPath name = .ok opened →
      ∃ opened', h.tree.openPath name = .ok opened')

theorem begun_start {build : Build} (hosted : build.mode = .hosted)
    (environment : String → Option Bytes) (tree : FileTree) :
    (start build environment tree).Begun environment build.logFileVariable tree := by
  refine ⟨rfl, Hosted.start environment tree, ?_, rfl, fun _ _ opened opens => ⟨opened, opens⟩⟩
  simp only [start, hosted]

variable {s s' : Session} {t : ThreadId}

theorem Begun.of_reply (begun : s.Begun environment variableName tree) {r : Request}
    {answer : r.Reply} (reply : performAs t r s = .reply answer s') :
    s'.Begun environment variableName tree := by
  obtain ⟨h, hosted, henvironment, hopenable⟩ := begun.hosted
  obtain ⟨h', hosted', move⟩ := move_of_reply hosted reply
  refine ⟨(build_of_reply reply).2.trans begun.variableName_eq, h', hosted',
    (Hosted.environment_of_move move).trans henvironment, fun unset name opened opens => ?_⟩
  obtain ⟨unset, hstays⟩ := move.openable unset
  obtain ⟨opened', opens'⟩ := hopenable unset name opened opens
  exact hstays name opened' opens'

theorem Begun.of_stop (begun : s.Begun environment variableName tree) {r : Request} {e : Ending}
    (stop : performAs t r s = .stop e s') : s'.Begun environment variableName tree := by
  obtain ⟨console, code, rfl⟩ := request_of_stop stop
  obtain ⟨h, hosted, hbegun⟩ := begun.hosted
  simp only [performAs, hosted] at stop
  cases stop
  refine ⟨begun.variableName_eq, _, rfl, ?_⟩
  unfold Hosted.close
  split
  · exact hbegun
  · exact hbegun

theorem Begun.run (begun : s.Begun environment variableName tree) (t : ThreadId) (p : Task α) :
    (p.run (perform t) s).state.Begun environment variableName tree := by
  induction p generalizing s with
  | done a => exact begun
  | ask d next ih =>
      cases hd : perform t d s with
      | reply answer s' =>
          rw [Program.run_ask_of_reply hd]
          exact ih answer (begun.of_reply hd)
      | wait =>
          rw [Program.run_ask_of_wait hd]
          exact begun
      | stop e s' =>
          rw [Program.run_ask_of_stop hd]
          exact begun.of_stop hd

end Session

/-! ## Choices on sessions beside each other -/

/-- The paths stand for files, and both of these can be opened. -/
def Interchangeable (environment : String → Option Bytes) (variableName : String)
    (tree : FileTree) (path path' : Option Bytes) : Prop :=
  ∃ name name' opened opened', Sink.sought environment variableName path = .file name ∧
    Sink.sought environment variableName path' = .file name' ∧
    tree.openPath name = .ok opened ∧ tree.openPath name' = .ok opened'

namespace Hosted

variable {h : Hosted} {path : Option Bytes} {name : Bytes}

theorem chooseSink_late (resolved : h.stream ≠ none) (t : ThreadId) (variableName : String)
    (path : Option Bytes) :
    h.chooseSink t variableName path = (.error .alreadyInitialized, h) := by
  have hresolved : h.sink.isResolved = true := by
    rw [isResolved_sink, Option.isSome_iff_ne_none]
    exact resolved
  rw [chooseSink, if_pos hresolved]

theorem chooseSink_file (unset : h.stream = none) (t : ThreadId)
    (sought : Sink.sought h.environment variableName path = .file name)
    {opened : Target × FileTree} (opens : h.tree.openPath name = .ok opened) :
    h.chooseSink t variableName path = (.ok (.file name),
      { h with
        tree := opened.2
        stream := some (.file name ⟨opened.1, []⟩)
        opened := update h.opened t none }) := by
  have hsink : Sink.ofPath (resolvePath path (h.environment variableName)) = .file name := sought
  have hunresolved : ¬ h.sink.isResolved = true := by
    rw [isResolved_sink, unset]
    exact Bool.false_ne_true
  rw [chooseSink, if_neg hunresolved]
  simp only [openSink, openStream, hsink, opens, publishSink_of_opened unset]
  rfl

end Hosted

/-- The choices come to the same, but perhaps for the path of a file. -/
inductive ChoiceAlike : Option (Except LogError Sink) → Option (Except LogError Sink) → Prop where
  | same (choice : Option (Except LogError Sink)) : ChoiceAlike choice choice
  | path (name name' : Bytes) : ChoiceAlike (some (.ok (.file name))) (some (.ok (.file name')))

/-- The answers are the same, but perhaps for the path of a file, and neither says that the step has
been unwound. -/
inductive Answer.Alike : Option Answer → Option Answer → Prop where
  | same {answer : Option Answer} (returned : answer ≠ some .panic) : Alike answer answer
  | path (name name' : Bytes) : Alike (some (.sink (.file name))) (some (.sink (.file name')))

theorem Steady.alike {p : Task (Option Answer)} (steady : Steady (· ≠ some .panic) p)
    {s s' : Session} (b : s.Beside s') (t : ThreadId) :
    (p.run (Session.perform t) s).Agrees Session.Beside Answer.Alike (Steady (· ≠ some .panic))
      (p.run (Session.perform t) s') := by
  apply (steady.agrees b t).mono
  · rintro _ _ ⟨rfl, returned⟩
    exact .same returned
  · exact fun _ => id

section Choices

variable {s s' : Session} {path path' : Option Bytes}

theorem agrees_choice
    (files : path = path' ∨ Interchangeable environment variableName tree path path')
    (begun : s.Begun environment variableName tree) (b : s.Beside s') (t : ThreadId) :
    ((Log.tryOpenStream path).run (Session.perform t) s).Agrees Session.Beside ChoiceAlike
      (fun _ => False) ((Log.tryOpenStream path').run (Session.perform t) s') := by
  obtain ⟨h, hosted, henvironment, hopenable⟩ := begun.hosted
  cases b with
  | processes hosted' beside =>
  cases hosted.symm.trans hosted'
  rw [Session.run_tryOpenStream hosted, Session.run_tryOpenStream rfl]
  by_cases unset : h.stream = none
  · -- the sink has not been chosen, so nothing tells one session from the other
    obtain rfl := beside.eq_of_stream unset
    rcases files with rfl | ⟨name, name', opened, opened', sought, sought', opens, opens'⟩
    · exact .finished (.same _) (.processes rfl (.same _))
    · rw [← begun.variableName_eq, ← henvironment] at sought sought'
      obtain ⟨now, opens⟩ := hopenable unset name opened opens
      obtain ⟨now', opens'⟩ := hopenable unset name' opened' opens'
      simp only [Hosted.chooseSink_file unset t sought opens,
        Hosted.chooseSink_file unset t sought' opens']
      exact .finished (.path name name') (.processes rfl (.files rfl))
  · simp only [Hosted.chooseSink_late unset, Hosted.chooseSink_late (mt beside.unset_iff.mp unset)]
    exact .finished (.same _) (.processes rfl beside)

/-- What is left of a choice made without asking, when it has come to this. -/
def afterChoice : Option (Except LogError Sink) → Task Unit
  | some (.error (.notOpened e)) => Session.lastWords e
  | _ => return ()

theorem openStream_eq (path : Option Bytes) :
    Log.openStream path = Log.tryOpenStream path >>= afterChoice :=
  rfl

theorem steady_afterChoice (choice : Option (Except LogError Sink)) :
    Steady (fun _ => True) (afterChoice choice) := by
  unfold afterChoice
  split
  · exact (Steady.make rfl).andThen fun _ => steady_stop _
  · exact .done trivial

theorem agrees_openStream
    (files : path = path' ∨ Interchangeable environment variableName tree path path')
    (begun : s.Begun environment variableName tree) (b : s.Beside s') (t : ThreadId) :
    ((silent (Log.openStream path)).run (Session.perform t) s).Agrees Session.Beside Answer.Alike
      (Steady (· ≠ some .panic)) ((silent (Log.openStream path')).run (Session.perform t) s') := by
  simp only [openStream_eq, silent, Program.bind_assoc]
  apply Program.agrees_bind (agrees_choice files begun b t)
  · intro choice choice' s₁ s₁' alike b₁
    cases alike with
    | same => exact (steady_afterChoice choice).silent.alike b₁ t
    | path => exact .finished (.same nofun) b₁
  · exact fun _ => False.elim

theorem Call.agrees_tryOpenStream
    (files : path = path' ∨ Interchangeable environment variableName tree path path')
    (begun : s.Begun environment variableName tree) (b : s.Beside s') (t : ThreadId) :
    ((Call.tryOpenStream path).task.run (Session.perform t) s).Agrees Session.Beside Answer.Alike
      (Steady (· ≠ some .panic)) ((Call.tryOpenStream path').task.run (Session.perform t) s') := by
  apply Program.agrees_bind (agrees_choice files begun b t)
  · intro choice choice' s₁ s₁' alike b₁
    cases alike with
    | same =>
        refine .finished (.same ?_) b₁
        rcases choice with _ | e | sink <;> exact nofun
    | path name name' => exact .finished (.path name name') b₁
  · exact fun _ => False.elim

theorem Call.agrees_currentSink (b : s.Beside s') (t : ThreadId) :
    ((Call.currentSink).task.run (Session.perform t) s).Agrees Session.Beside Answer.Alike
      (Steady (· ≠ some .panic)) ((Call.currentSink).task.run (Session.perform t) s') := by
  have hrun {s : Session} {h : Hosted} (hosted : s.platform = .hosted h) :
      (Call.currentSink).task.run (Session.perform t) s = .finished (some (.sink h.sink)) s := by
    have hreply : Session.perform t Request.currentSink.demand s = .reply (some h.sink) s := by
      simp only [Session.perform_demand, Session.performAs, hosted]
    exact Program.run_bind_of_finished (p := Log.currentSink)
      (Program.run_ask_of_reply hreply _) fun sink => .done (sink.map Answer.sink)
  cases b with
  | @processes h h' hosted beside =>
  rw [hrun hosted, hrun rfl]
  cases beside with
  | same => exact .finished (.same (by simp)) (.processes hosted (.same h))
  | @files tree path path' w w' stream =>
      have hsink : h.sink = .file path := by rw [Hosted.sink, stream]; rfl
      rw [hsink]
      exact .finished (.path path path') (.processes hosted (.files stream))

end Choices

/-! ## Steps -/

/-- The steps are the same, and run nothing inside; or they choose the sink by paths that may be
interchanged. -/
inductive Step.Matches (environment : String → Option Bytes) (variableName : String)
    (tree : FileTree) : Step → Step → Prop where
  | same {step : Step} (still : step.isStill) : Matches environment variableName tree step step
  | openStream {path path' : Option Bytes}
      (files : Interchangeable environment variableName tree path path') :
      Matches environment variableName tree (.call (.openStream path)) (.call (.openStream path'))
  | tryOpenStream {path path' : Option Bytes}
      (files : Interchangeable environment variableName tree path path') :
      Matches environment variableName tree (.call (.tryOpenStream path))
        (.call (.tryOpenStream path'))
  | foreign {path path' : Log.Foreign.CString}
      (files : Interchangeable environment variableName tree (path.map Bytes.beforeZero)
        (path'.map Bytes.beforeZero)) :
      Matches environment variableName tree (.call (.foreign (.openStream path)))
        (.call (.foreign (.openStream path')))

namespace Step

variable {s s' : Session}

/-- Steps that match come to the same on sessions beside each other. -/
theorem Matches.agrees {step step' : Step}
    (matched : Matches environment variableName tree step step')
    (begun : s.Begun environment variableName tree) (b : s.Beside s') (t : ThreadId) :
    (step.task.run (Session.perform t) s).Agrees Session.Beside Answer.Alike
      (Steady (· ≠ some .panic)) (step'.task.run (Session.perform t) s') := by
  cases matched with
  | openStream files =>
      rw [task, task]
      exact agrees_openStream (.inr files) begun b t
  | tryOpenStream files =>
      rw [task, task]
      exact Call.agrees_tryOpenStream (.inr files) begun b t
  | foreign files =>
      rw [task, task]
      exact agrees_openStream (.inr files) begun b t
  | same still =>
      cases hsees : step.seesSink with
      | false => exact (steady still hsees).alike b t
      | true =>
          cases step with
          | call c =>
              rw [task]
              cases c with
              | openStream path => exact agrees_openStream (.inl rfl) begun b t
              | tryOpenStream path => exact Call.agrees_tryOpenStream (.inl rfl) begun b t
              | currentSink => exact Call.agrees_currentSink b t
              | foreign c =>
                  cases c with
                  | openStream path => exact agrees_openStream (.inl rfl) begun b t
                  | _ => cases hsees
              | _ => cases hsees
          | _ => cases hsees

end Step

end DiagnosticLog
