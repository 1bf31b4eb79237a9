import DiagnosticLog.Proofs.FatalCalls
import DiagnosticLog.Proofs.Setup
import DiagnosticLog.Proofs.Survival.Uses

/-!
# Statements release the lock

A whole statement takes the log lock, runs the formatting of its message, and releases the lock when
the formatting has given control back, in whichever way.  What the steps in the middle of the
message have done to the lock does not matter: the statement comes to its end by a release of its
own that has succeeded (`Proceeds.unlock`, `Step.reaches_done`), or not at all.
`statement_releases_the_lock` puts it together.
-/

namespace DiagnosticLog

open Program (Reaches)

/-! ## A thread that proceeds while others wait -/

namespace Session

def mode (s : Session) : Mode :=
  match s.platform with
  | .hosted _ => .hosted
  | .guest _ => .guest

theorem mode_of_reply {t : ThreadId} {s s' : Session} {r : Request} {answer : r.Reply}
    (reply : performAs t r s = .reply answer s') : s'.mode = s.mode := by
  cases hs : s.platform with
  | hosted h =>
      obtain ⟨h', hs', -⟩ := move_of_reply hs reply
      simp only [mode, hs, hs']
  | guest g =>
      obtain ⟨g', hs', -⟩ := move_of_reply_guest hs reply
      simp only [mode, hs, hs']

theorem mode_of_process {s : Session} (process : s.wayOut = some .process) : s.mode = .hosted := by
  cases hs : s.platform with
  | hosted h => simp only [mode, hs]
  | guest g =>
      simp only [wayOut, hs] at process
      obtain ⟨id, -, hid⟩ := Option.map_eq_some_iff.mp process
      cases hid

theorem isStop_of_stop {t : ThreadId} {s s' : Session} {d : Demand} {e : Ending}
    (stop : perform t d s = .stop e s') : d.request.isStop := by
  obtain ⟨console, code, hstop⟩ := request_of_stop stop
  rw [hstop]
  rfl

end Session

variable {α β : Type}

/-- What may become of a task of thread `t`, with the exchanges until then.  Others act only while
the thread waits, but then they may do whatever they like. -/
inductive Proceeds (t : ThreadId) : Task α → Session → List Talk →
    Outcome Request.interface Session Ending α → Prop where
  | done {a : α} {s : Session} : Proceeds t (.done a) s [] (.finished a s)
  | asked {d : Demand} {next : d.Reply → Task α} {answer : d.Reply} {s s' : Session}
      {xs : List Talk} {o : Outcome Request.interface Session Ending α}
      (reply : Session.perform t d s = .reply answer s') (rest : Proceeds t (next answer) s' xs o) :
      Proceeds t (.ask d next) s (⟨d, answer⟩ :: xs) o
  | waits {d : Demand} {next : d.Reply → Task α} {s : Session}
      (wait : Session.perform t d s = .wait) :
      Proceeds t (.ask d next) s [] (.waiting (.ask d next) s)
  /-- Others have acted, and the thread is given another chance. -/
  | resumed {d : Demand} {next : d.Reply → Task α} {s s' : Session} {xs : List Talk}
      {o : Outcome Request.interface Session Ending α} (wait : Session.perform t d s = .wait)
      (mode : s'.mode = s.mode) (rest : Proceeds t (.ask d next) s' xs o) :
      Proceeds t (.ask d next) s xs o
  | stops {d : Demand} {next : d.Reply → Task α} {e : Ending} {s s' : Session}
      (stop : Session.perform t d s = .stop e s') : Proceeds t (.ask d next) s [] (.ended e s')

namespace Proceeds

variable {t : ThreadId} {p : Task α} {f : α → Task β} {s s' : Session} {xs : List Talk}
  {o : Outcome Request.interface Session Ending α}

theorem of_run (t : ThreadId) (p : Task α) (s : Session) :
    ∃ xs, Proceeds t p s xs (p.run (Session.perform t) s) := by
  induction p generalizing s with
  | done a => exact ⟨[], .done⟩
  | ask d next ih =>
      cases hd : Session.perform t d s with
      | reply answer s' =>
          obtain ⟨xs, hrest⟩ := ih answer s'
          rw [Program.run_ask_of_reply hd]
          exact ⟨_, .asked hd hrest⟩
      | wait =>
          rw [Program.run_ask_of_wait hd]
          exact ⟨[], .waits hd⟩
      | stop e s' =>
          rw [Program.run_ask_of_stop hd]
          exact ⟨[], .stops hd⟩

theorem of_reply {d : Demand} {next : d.Reply → Task α} {answer : d.Reply}
    (h : Proceeds t (.ask d next) s xs o) (reply : Session.perform t d s = .reply answer s') :
    ∃ xs', xs = ⟨d, answer⟩ :: xs' ∧ Proceeds t (next answer) s' xs' o := by
  cases h with
  | asked hreply rest =>
      rw [reply] at hreply
      cases hreply
      exact ⟨_, rfl, rest⟩
  | waits wait | resumed wait | stops wait =>
      rw [reply] at wait
      cases wait

theorem eq_of_run {a : α} (h : Proceeds t p s xs o)
    (run : p.run (Session.perform t) s = .finished a s') : o = .finished a s' := by
  induction p generalizing s xs with
  | done b =>
      cases run
      cases h
      rfl
  | ask d next ih =>
      cases hd : Session.perform t d s with
      | reply answer s₁ =>
          rw [Program.run_ask_of_reply hd] at run
          obtain ⟨xs', -, hrest⟩ := h.of_reply hd
          exact ih answer hrest run
      | wait =>
          rw [Program.run_ask_of_wait hd] at run
          cases run
      | stop e s₁ =>
          rw [Program.run_ask_of_stop hd] at run
          cases run

theorem reaches {a : α} (h : Proceeds t p s xs (.finished a s')) : Reaches p xs (.done a) := by
  generalize ho : Outcome.finished a s' = o at h
  induction h with
  | done =>
      cases ho
      exact .nil
  | asked reply rest ih => exact .cons (ih ho)
  | resumed wait mode rest ih => exact ih ho
  | waits | stops => cases ho

theorem reaches_stop {e : Ending} (h : Proceeds t p s xs (.ended e s')) :
    ∃ d next s₁, Reaches p xs (.ask d next) ∧ Session.perform t d s₁ = .stop e s' := by
  generalize ho : Outcome.ended e s' = o at h
  induction h with
  | asked reply rest ih =>
      obtain ⟨d, next, s₁, hreaches, hstop⟩ := ih ho
      exact ⟨d, next, s₁, .cons hreaches, hstop⟩
  | resumed wait mode rest ih => exact ih ho
  | stops stop =>
      cases ho
      exact ⟨_, _, _, .nil, stop⟩
  | done | waits => cases ho

theorem answered (h : Proceeds t p s xs o) : Answered (fun s' => s'.mode = s.mode) xs := by
  induction h with
  | @asked d next answer s s' xs o reply rest ih =>
      rw [Session.mode_of_reply reply] at ih
      intro talk htalk
      rcases List.mem_cons.mp htalk with rfl | hrest
      · exact ⟨_, s, s', rfl, reply⟩
      · exact ih talk hrest
  | resumed wait mode rest ih =>
      rw [mode] at ih
      exact ih
  | done | waits | stops => exact List.forall_mem_nil _

theorem bind_finished {b : β} (h : Proceeds t (p >>= f) s xs (.finished b s')) :
    ∃ a s₁ ys zs, xs = ys ++ zs ∧ Proceeds t p s ys (.finished a s₁) ∧
      Proceeds t (f a) s₁ zs (.finished b s') := by
  induction p generalizing s xs with
  | done a => exact ⟨a, s, [], xs, rfl, .done, h⟩
  | ask d next ih =>
      -- the thread may have to wait more than once for the same request
      rw [Program.ask_bind] at h
      generalize hq : Program.ask d (fun reply => next reply >>= f) = q at h
      generalize ho : Outcome.finished b s' = o at h
      induction h with
      | asked reply rest =>
          cases hq
          cases ho
          obtain ⟨a, s₁, ys, zs, rfl, hfirst, hrest⟩ := ih _ rest
          exact ⟨a, s₁, _ :: ys, zs, rfl, .asked reply hfirst, hrest⟩
      | resumed wait mode rest again =>
          obtain ⟨a, s₁, ys, zs, rfl, hfirst, hrest⟩ := again hq ho
          cases hq
          exact ⟨a, s₁, ys, zs, rfl, .resumed wait mode hfirst, hrest⟩
      | done => cases hq
      | waits | stops => cases ho

end Proceeds

/-! ## The lock and the release -/

theorem not_reaches_mutexFailure_done {operation : String} {e : MutexError} {xs : List Talk}
    {a : α} : ¬ Reaches (Log.mutexFailure operation e : Task α) xs (.done a) := by
  intro h
  obtain ⟨_, _, _, -, -, hwords⟩ := Program.reaches_bind_done h
  obtain ⟨_, _, _, -, -, hprint⟩ := Program.reaches_bind_done hwords
  obtain ⟨_, _, _, -, -, hline⟩ := Program.reaches_bind_done hprint
  obtain ⟨_, _, _, -, -, hexit⟩ := Program.reaches_bind_done hline
  obtain ⟨_, _, _, -, -, hstop⟩ := Program.reaches_bind_done hexit
  cases hstop with
  | cons hstop =>
      cases hstop with
      | @cons _ _ never _ _ _ => exact nomatch never

def releaseTalks (me owner : Token) : List Talk :=
  [Request.self.talk me, (Request.access .log .isLocked).talk true,
    (Request.access .log .loadOwner).talk owner,
    (Request.access .log (.storeOwner Token.noOwner)).talk (),
    (Request.access .log .unlockRaw).talk ()]

theorem reaches_unlock_done {xs : List Talk} (h : Reaches Log.unlock xs (.done ())) :
    ∃ me owner, xs = releaseTalks me owner ∧ ¬ CheckedMutex.Stage.Foreign me owner := by
  rw [Session.unlock_eq] at h
  cases h with
  | @cons _ _ me _ _ h =>
  cases h with
  | @cons _ _ locked _ _ h =>
  cases locked with
  | false => exact absurd h not_reaches_mutexFailure_done
  | true =>
  cases h with
  | @cons _ _ owner _ _ h =>
  by_cases foreign : CheckedMutex.Stage.Foreign me owner
  · simp only [if_pos foreign] at h
    exact absurd h not_reaches_mutexFailure_done
  · simp only [if_neg foreign] at h
    cases h with
    | cons h =>
    cases h with
    | cons h =>
    cases h
    exact ⟨me, owner, rfl, foreign⟩

namespace Proceeds

variable {t : ThreadId} {s s' : Session} {xs : List Talk}

theorem mayRelease (h : Proceeds t Log.unlock s xs (.finished () s')) : s.MayRelease t := by
  rw [Session.unlock_eq] at h
  obtain ⟨_, -, h⟩ := h.of_reply (Session.reply_self s t)
  obtain ⟨_, -, h⟩ := h.of_reply (Session.reply_isLocked s t)
  cases taken : (s.locks .log).raw.flag with
  | false =>
      rw [taken] at h
      exact absurd h.reaches not_reaches_mutexFailure_done
  | true =>
      rw [if_pos taken] at h
      obtain ⟨_, -, h⟩ := h.of_reply (Session.reply_loadOwner s t)
      refine ⟨taken, fun foreign => ?_⟩
      rw [if_pos foreign] at h
      exact absurd h.reaches not_reaches_mutexFailure_done

theorem unlock (h : Proceeds t Log.unlock s xs (.finished () s')) :
    Log.unlock.run (Session.perform t) s = .finished () s' ∧
      s'.locks .log = CheckedMutex.unowned := by
  have hrun := Session.run_release h.mayRelease
  cases h.eq_of_run hrun
  exact ⟨hrun, Session.locks_setLock s _⟩

theorem atLock {me : Token} (h : Proceeds t (Log.atLock me) s xs (.finished () s')) :
    s'.locks .log = Session.lockOf me := by
  generalize hq : Log.atLock me = q at h
  generalize ho : Outcome.finished () s' = o at h
  induction h with
  | @asked d next answer s s₁ xs o reply rest =>
      cases hq
      cases ho
      cases hflag : (s.locks .log).raw.flag with
      | true =>
          rw [Statement.lockRaw_taken hflag] at reply
          cases reply
      | false =>
          rw [Statement.lockRaw_free hflag] at reply
          cases reply
          have hclaim := Session.reply_storeOwner (t := t)
            (Session.locks_setLock s ⟨⟨true⟩, (s.locks .log).owner⟩) me
          obtain ⟨_, -, hdone⟩ := rest.of_reply hclaim
          cases hdone
          exact Session.locks_setLock _ _
  | resumed wait mode rest ih => exact ih hq ho
  | done => cases hq
  | waits | stops => cases ho

theorem lock (h : Proceeds t Log.lock s xs (.finished () s')) :
    s'.locks .log = Session.lockOf (s.tokenOf t) := by
  rw [Session.lock_eq] at h
  obtain ⟨_, -, h⟩ := h.of_reply (Session.reply_self s t)
  by_cases known : s.tokenOf t = Token.anonymous
  · rw [if_pos known] at h
    exact h.atLock
  · rw [if_neg known] at h
    obtain ⟨_, -, h⟩ := h.of_reply (Session.reply_loadOwner s t)
    by_cases own : (s.locks .log).owner = s.tokenOf t
    · rw [if_pos own] at h
      exact absurd h.reaches not_reaches_mutexFailure_done
    · rw [if_neg own] at h
      exact h.atLock

end Proceeds

namespace Session

variable {t : ThreadId} {s s₀ s₁ : Session} {xs : List Talk}

theorem tokenOf_cases (s : Session) (t : ThreadId) :
    s.tokenOf t = s.tokens t ∨ s.tokenOf t = Token.anonymous := by
  unfold tokenOf
  split
  · exact .inl rfl
  · split
    · exact .inl rfl
    · exact .inr rfl

/-- Whoever finds the lock as it was taken may release it, even if only one of the two was done
under the thread's own token. -/
theorem mayRelease_of_kept (took : Proceeds t Log.lock s xs (.finished () s₀))
    (kept : s₁.locks .log = s₀.locks .log) (own : s₁.tokens t = s.tokens t) :
    s₁.MayRelease t := by
  rw [MayRelease, kept, took.lock]
  refine ⟨rfl, ?_⟩
  rintro ⟨hme, howner, hne⟩
  have hme' := (s₁.tokenOf_cases t).resolve_right hme
  have howner' := (s.tokenOf_cases t).resolve_right howner
  exact hne (howner'.trans (own.symm.trans hme'.symm))

end Session

/-! ## Whole statements -/

def Step.body? : Step → Option (Task Finish)
  | .println parts => some (Log.line (Part.message parts))
  | .record .direct level parts => some (Log.line (Log.levelHeader level ++ Part.message parts))
  | .call .emptyLine => some (Log.print Message.lineEnd)
  | _ => none

/-- What becomes of a whole statement of thread `t` that begins in session `s`. -/
inductive Step.Released (step : Step) (body : Task Finish) (t : ThreadId) (s : Session)
    (xs : List Talk) : Outcome Request.interface Session Ending (Option Answer) → Prop where
  | waits {rest : Task (Option Answer)} {s' : Session} :
      Released step body t s xs (.waiting rest s')
  /-- A fatal call ends the run, be it one of a step in the message or that of a misused lock. -/
  | ends {call : FinalCall} {console : Option ConsoleId} {e : Ending} {s₁ s' : Session}
      (call_ends : call.EndsIn console step.task xs)
      (stop : Session.perform t (Request.stop console call.code).demand s₁ = .stop e s') :
      Released step body t s xs (.ended e s')
  /-- It returns, or is unwound in a process, and a release of its own has left the lock free. -/
  | completes {finish : Finish} {ls bs us : List Talk} {s₀ s₁ s' : Session}
      (exchanges : xs = ls ++ bs ++ us) (took : Proceeds t Log.lock s ls (.finished () s₀))
      (ran : Proceeds t body s₀ bs (.finished finish s₁))
      (released : Log.unlock.run (Session.perform t) s₁ = .finished () s')
      (free : s'.locks .log = CheckedMutex.unowned)
      (process : finish = .unwound → s.mode = .hosted) :
      Released step body t s xs (.finished (Answer.ofFinish finish) s')

section Statements

variable {step : Step} {body : Task Finish} {t : ThreadId} {s s' : Session} {xs : List Talk}

theorem Step.task_of_body (statement : step.body? = some body) :
    step.task = (do return Answer.ofFinish (← Log.bracketed body)) := by
  unfold body? at statement
  split at statement <;> cases statement
  · rw [task]
    rfl
  · rw [task]
    rfl
  · rw [task]
    rfl

theorem Step.reaches_done (statement : step.body? = some body) {answer : Option Answer}
    (h : Reaches step.task xs (.done answer)) :
    ∃ finish ls bs me owner, answer = Answer.ofFinish finish ∧
      xs = ls ++ bs ++ releaseTalks me owner ∧ Reaches Log.lock ls (.done ()) ∧
      Reaches body bs (.done finish) ∧ ¬ CheckedMutex.Stage.Foreign me owner := by
  rw [Step.task_of_body statement] at h
  obtain ⟨finish, ys, zs, rfl, hstatement, hlast⟩ := Program.reaches_bind_done h
  cases hlast
  obtain ⟨_, ls, ys, rfl, hlock, hrest⟩ := Program.reaches_bind_done hstatement
  obtain ⟨finish, bs, ys, rfl, hbody, hrest⟩ := Program.reaches_bind_done hrest
  obtain ⟨_, us, ys, rfl, hunlock, hlast⟩ := Program.reaches_bind_done hrest
  cases hlast
  obtain ⟨me, owner, rfl, own⟩ := reaches_unlock_done hunlock
  refine ⟨finish, ls, bs, me, owner, rfl, ?_, hlock, hbody, own⟩
  simp only [List.append_nil, List.append_assoc]

theorem Step.completes (statement : step.body? = some body) (solo : step.isSolo)
    {answer : Option Answer} (h : Proceeds t step.task s xs (.finished answer s')) :
    step.Released body t s xs (.finished answer s') := by
  have hunwound : answer = some .panic → s.mode = .hosted := by
    intro hpanic
    obtain ⟨c, fault⟩ := ((step.composed solo).tells h.answered h.reaches).fault hpanic
    obtain ⟨s₂, hmode, hprocess⟩ := h.answered.process_of_fault fault
    rw [← hmode]
    exact Session.mode_of_process hprocess
  rw [Step.task_of_body statement] at h
  obtain ⟨finish, s₂, ys, zs, rfl, hstatement, hlast⟩ := h.bind_finished
  cases hlast
  obtain ⟨_, s₀, ls, ys, rfl, took, hrest⟩ := hstatement.bind_finished
  obtain ⟨finish, s₁, bs, ys, rfl, ran, hrest⟩ := hrest.bind_finished
  obtain ⟨_, _, us, ys, rfl, hunlock, hlast⟩ := hrest.bind_finished
  cases hlast
  obtain ⟨released, free⟩ := hunlock.unlock
  have hxs : ls ++ (bs ++ (us ++ [])) ++ [] = ls ++ bs ++ us := by
    simp only [List.append_nil, List.append_assoc]
  refine .completes hxs took ran released free ?_
  rintro rfl
  exact hunwound rfl

theorem Step.ends (solo : step.isSolo) {e : Ending}
    (h : Proceeds t step.task s xs (.ended e s')) : step.Released body t s xs (.ended e s') := by
  obtain ⟨d, next, s₁, hreaches, hstop⟩ := h.reaches_stop
  obtain ⟨call, console, hends, rfl⟩ :=
    (step.composed solo).endsIn_of_stop h.answered hreaches (Session.isStop_of_stop hstop)
  exact .ends hends hstop

theorem Step.released (statement : step.body? = some body) (solo : step.isSolo)
    {o : Outcome Request.interface Session Ending (Option Answer)}
    (h : Proceeds t step.task s xs o) : step.Released body t s xs o := by
  cases o with
  | finished answer s' => exact Step.completes statement solo h
  | waiting rest s' => exact .waits
  | ended e s' => exact Step.ends solo h

end Statements

/-! ## Statements of a crowd -/

theorem Setup.answered_of_run {s : Session} {es : List Setup.Event} {y : Setup.Crowd}
    (run : Setup.Run s es y) (t : ThreadId) : Answered (fun _ => True) (Crew.exchanges t es) := by
  apply run.invariant (motive := fun es _ => Answered (fun _ => True) (Crew.exchanges t es))
  · exact List.forall_mem_nil _
  · intro es y e z answered happens
    rw [Crew.exchanges_snoc]
    cases happens with
    | began job free =>
        simp only [Crew.Event.record]
        split
        · exact List.forall_mem_nil _
        · exact answered
    | made busy reply =>
        simp only [Crew.Event.record]
        split
        · refine answered.append fun talk htalk => ?_
          rw [List.mem_singleton.mp htalk]
          exact ⟨_, _, _, trivial, reply⟩
        · exact answered

/-- What comes of a whole statement of thread `t` among threads that may act at any time.  Then
nothing tells who comes between the two halves of a release, if the lock is misused. -/
structure Step.ReleasedAmong (step : Step) (body : Task Finish) (t : ThreadId)
    (es : List Setup.Event) (y : Setup.Crowd) : Prop where
  /-- If the run is about to end, a fatal call in the statement ends it. -/
  ends {d : Demand} {next : d.Reply → Task (Option Answer)} {e : Ending} {s' : Session}
    (busy : y.doing t = some (step, .ask d next))
    (stop : Session.perform t d y.state = .stop e s') :
    ∃ (call : FinalCall) (console : Option ConsoleId),
      call.EndsIn console step.task (Crew.exchanges t es) ∧
        d = (Request.stop console call.code).demand
  /-- The event that brings the statement to its end is the release of the lock. -/
  completes {e : Setup.Event} {z : Setup.Crowd} {answer : Option Answer}
    (happens : Setup.Happens y e z) (returned : e.returned? = some (t, step, answer)) :
    ∃ finish ls bs me owner, answer = Answer.ofFinish finish ∧
      Crew.exchanges t (es ++ [e]) = ls ++ bs ++ releaseTalks me owner ∧
      Reaches Log.lock ls (.done ()) ∧ Reaches body bs (.done finish) ∧
      ¬ CheckedMutex.Stage.Foreign me owner ∧
      z.state.locks .log = ⟨⟨false⟩, (y.state.locks .log).owner⟩

theorem Step.releasedAmong {step : Step} {body : Task Finish} (statement : step.body? = some body)
    (solo : step.isSolo) (t : ThreadId) {s : Session} {es : List Setup.Event} {y : Setup.Crowd}
    (run : Setup.Run s es y) : step.ReleasedAmong body t es y where
  ends := by
    intro d next e s' busy stop
    exact (step.composed solo).endsIn_of_stop (Setup.answered_of_run run t)
      (run.reaches (fun _ => rfl) t step _ busy) (Session.isStop_of_stop stop)
  completes := by
    intro e z answer happens returned
    have hreaches := run.reaches_returned (fun _ => rfl) happens returned
    obtain ⟨finish, ls, bs, me, owner, hanswer, hxs, hlock, hbody, own⟩ :=
      Step.reaches_done statement hreaches
    refine ⟨finish, ls, bs, me, owner, hanswer, hxs, hlock, hbody, own, ?_⟩
    obtain rfl : e.thread = t := Crew.Event.thread_of_returned? returned
    rw [Crew.exchanges_snoc] at hxs
    cases happens with
    | began job free =>
        simp [Crew.Event.record, Crew.Event.thread, releaseTalks] at hxs
    | @made _ _ d next reply s' busy hreply =>
        have hlast : (⟨d, reply⟩ : Talk) = (Request.access .log .unlockRaw).talk () := by
          simpa [Crew.Event.record, Crew.Event.thread, releaseTalks] using
            congrArg List.getLast? hxs
        cases hlast
        rw [Session.reply_unlockRaw (s := y.state) rfl] at hreply
        cases hreply
        exact Session.locks_setLock _ _

/-- A whole statement that takes the log lock has one of two ends, whatever the steps in its message
have done to the lock and whatever others do while its thread waits: a fatal call in it ends the
run, or the lock is free and nobody's by a release of its own, also when the message has unwound it.
If the lock is as it was taken, that release succeeds; the thread has to be known by the same token,
for tokens are none of the log's business.  Among threads that act at any time a statement comes to
its end by its own release all the same. -/
theorem statement_releases_the_lock {step : Step} {body : Task Finish}
    (statement : step.body? = some body) (solo : step.isSolo) (t : ThreadId) :
    (∀ s xs o, Proceeds t step.task s xs o → step.Released body t s xs o) ∧
    (∀ s s₀ s₁ ls bs finish, Proceeds t Log.lock s ls (.finished () s₀) →
      Proceeds t body s₀ bs (.finished finish s₁) → s₁.locks .log = s₀.locks .log →
      s₁.tokens t = s.tokens t →
      Log.unlock.run (Session.perform t) s₁ =
        .finished () (s₁.setLock CheckedMutex.unowned)) ∧
    ∀ s es y, Setup.Run s es y → step.ReleasedAmong body t es y :=
  ⟨fun _ _ _ h => Step.released statement solo h,
    fun _ _ _ _ _ _ took _ kept own =>
      Session.run_release (Session.mayRelease_of_kept took kept own),
    fun _ _ _ run => Step.releasedAmong statement solo t run⟩

def retakingParts : List Part :=
  [.text (Bytes.ofString "a"), .run [.call .unlock, .call .acquireGuard], .fail]

open Session in
theorem unwound_statement_releases_the_lock :
    ∃ xs s', (Step.println retakingParts).task.run (perform (.lasting 0)) newProcess =
        .finished (some .panic) s' ∧
      s'.locks .log = CheckedMutex.unowned ∧ s'.guards (.lasting 0) = 1 ∧
      (Step.println retakingParts).Released (Log.line (Part.message retakingParts)) (.lasting 0)
        newProcess xs (.finished (some .panic) s') := by
  obtain ⟨xs, h⟩ := Proceeds.of_run (.lasting 0) (Step.println retakingParts).task newProcess
  exact ⟨xs, _, rfl, rfl, rfl, (statement_releases_the_lock rfl rfl (.lasting 0)).1 _ _ _ h⟩

end DiagnosticLog
