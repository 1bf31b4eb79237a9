import DiagnosticLog.Proofs.Output.Ledger
import DiagnosticLog.Proofs.Simulation
import DiagnosticLog.Proofs.Statement.Release

/-!
# A thread amid others

Before each request of a thread others may act, and when it would have to wait they get another
chance to let it through.  Two tasks of the thread are compared amid the same others: they run
alongside each other if they come to the same state every time, with results that belong together
(`Alongside`).  There is a rule for each way in which tasks are put together.
-/

namespace DiagnosticLog

open Program (Reaches)

variable {α β γ δ : Type}

namespace Session

/-! ## What others do -/

def Accepts (s : Session) : Prop :=
  ∀ h, s.platform = .hosted h → h.Accepts

/-- Others make requests that are answered; they do not set up a log file that refuses what is
written. -/
inductive Meanwhile : Session → Session → Prop where
  | nothing {s : Session} : Meanwhile s s
  | request {t : ThreadId} {r : Request} {answer : r.Reply} {s s' s'' : Session}
      (reply : performAs t r s = .reply answer s') (accepts : s.Accepts → s'.Accepts)
      (later : Meanwhile s' s'') : Meanwhile s s''

theorem Meanwhile.trans {s s' s'' : Session} (h : Meanwhile s s') (h' : Meanwhile s' s'') :
    Meanwhile s s'' := by
  induction h with
  | nothing => exact h'
  | request reply accepts _ ih => exact .request reply accepts (ih h')

/-- What others do when they get a chance. -/
structure Others where
  act : Session → Session
  meanwhile : ∀ s, Meanwhile s (act s)

/-- A request of a thread amid others: they act before it, and again if it has to wait, as long as
there is something left for them to do. -/
def amid (t : ThreadId) (d : Demand) :
    List Others → Session → Effect (Session × List Others) Ending d.Reply
  | [], s => (perform t d s).map (·, [])
  | others :: later, s =>
      match perform t d (others.act s) with
      | .reply answer s' => .reply answer (s', later)
      | .wait => amid t d later (others.act s)
      | .stop e s' => .stop e (s', later)

/-- The session as a machine for the tasks of a thread amid others. -/
def performAmid (t : ThreadId) : Machine Request.interface (Session × List Others) Ending :=
  fun d state => amid t d state.2 state.1

variable {t : ThreadId} {d : Demand} {s s' : Session} {later later' : List Others}

theorem run_performAmid_nil (t : ThreadId) (p : Task α) (s : Session) :
    p.run (performAmid t) (s, []) = (p.run (perform t) s).map (·, []) := by
  induction p generalizing s with
  | done a => rfl
  | ask d next ih =>
      have hamid : performAmid t d (s, []) = (perform t d s).map (·, []) := rfl
      cases hd : perform t d s with
      | reply answer s' =>
          rw [hd] at hamid
          rw [Program.run_ask_of_reply hd, Program.run_ask_of_reply hamid]
          exact ih answer s'
      | wait =>
          rw [hd] at hamid
          rw [Program.run_ask_of_wait hd, Program.run_ask_of_wait hamid]
          rfl
      | stop e s' =>
          rw [hd] at hamid
          rw [Program.run_ask_of_stop hd, Program.run_ask_of_stop hamid]
          rfl

theorem reply_of_amid {answer : d.Reply}
    (h : amid t d later s = .reply answer (s', later')) :
    ∃ s₁, Meanwhile s s₁ ∧ perform t d s₁ = .reply answer s' := by
  induction later generalizing s with
  | nil =>
      unfold amid Effect.map at h
      split at h <;> cases h
      rename_i hreply
      exact ⟨s, .nothing, hreply⟩
  | cons others later ih =>
      unfold amid at h
      split at h
      · rename_i hreply
        cases h
        exact ⟨_, others.meanwhile s, hreply⟩
      · obtain ⟨s₁, hlater, hreply⟩ := ih h
        exact ⟨s₁, (others.meanwhile s).trans hlater, hreply⟩
      · cases h

/-- The end of a print does not have to wait, and what the print says of its formatting is answered
but not remembered. -/
theorem amid_endPrint (t : ThreadId) (caller : Caller) (c : Channel) (later : List Others)
    (s : Session) :
    ∃ s₁ later', Meanwhile s s₁ ∧ ∀ formatting,
      amid t ⟨caller, .endPrint c formatting⟩ later s =
        .reply (s₁.finishOf formatting)
          (s₁.modifyUsers c (List.erase · (caller.thread t)), later') := by
  have hreply (s : Session) (formatting : Formatting) :
      perform t ⟨caller, .endPrint c formatting⟩ s =
        .reply (s.finishOf formatting) (s.modifyUsers c (List.erase · (caller.thread t))) :=
    reply_endPrint _ c formatting
  cases later with
  | nil => exact ⟨s, [], .nothing, fun formatting => by simp only [amid, hreply, Effect.map]⟩
  | cons others later =>
      exact ⟨_, later, others.meanwhile s, fun formatting => by simp only [amid, hreply]⟩

/-! ## What stays as it is -/

/-- Requests that pass the test keep this. -/
def KeptBy (test : Request → Prop) (I : Session → Prop) : Prop :=
  ∀ ⦃t s s' r⦄ ⦃answer : Request.Reply r⦄, test r → I s →
    performAs t r s = .reply answer s' → I s'

abbrev Kept (I : Session → Prop) : Prop :=
  KeptBy (fun _ => True) I

def Stable (I : Session → Prop) : Prop :=
  ∀ ⦃s s'⦄, I s → Meanwhile s s' → I s'

variable {I : Session → Prop}

theorem Kept.stable (kept : Kept I) : Stable I := by
  intro s s' here h
  induction h with
  | nothing => exact here
  | request reply _ _ ih => exact ih (kept trivial here reply)

theorem kept_nothing : Kept fun _ => True :=
  fun _ _ _ _ _ _ _ _ => trivial

/-- What a task keeps is there when it is finished, and the task has come there by answers of
sessions in which it was there. -/
theorem finished_amid {test : Request → Prop} (stable : Stable I) (kept : KeptBy test I)
    {p : Task α} (makes : ∀ xs d next, Reaches p xs (.ask d next) → test d.request) {a : α}
    (here : I s) (h : p.run (performAmid t) (s, later) = .finished a (s', later')) :
    I s' ∧ ∃ xs, Answered I xs ∧ Reaches p xs (.done a) := by
  induction p generalizing s later with
  | done b =>
      cases h
      exact ⟨here, [], fun _ htalk => absurd htalk List.not_mem_nil, .nil⟩
  | ask d next ih =>
      cases hamid : performAmid t d (s, later) with
      | reply answer state =>
          rw [Program.run_ask_of_reply hamid] at h
          obtain ⟨s₁, hmeanwhile, hreply⟩ := reply_of_amid hamid
          have here₁ := stable here hmeanwhile
          have here₂ := kept (makes [] d next .nil) here₁ hreply
          obtain ⟨hlast, xs, answered, reaches⟩ := ih answer
            (fun xs d next hreaches => makes _ d next (.cons hreaches)) here₂ h
          refine ⟨hlast, ⟨d, answer⟩ :: xs, ?_, .cons reaches⟩
          intro talk htalk
          rcases List.mem_cons.mp htalk with rfl | hrest
          · exact ⟨_, s₁, _, here₁, hreply⟩
          · exact answered talk hrest
      | wait =>
          rw [Program.run_ask_of_wait hamid] at h
          cases h
      | stop e state =>
          rw [Program.run_ask_of_stop hamid] at h
          cases h

end Session

/-! ## Tasks alongside each other -/

/-- Two programs come to the same state: they finish with results that belong together, both wait,
or both end the run in the same way. -/
inductive Outcome.Matches {I : Interface} {σ ε : Type} (R : α → β → σ → Prop) :
    Outcome I σ ε α → Outcome I σ ε β → Prop where
  | finished {a : α} {b : β} {s : σ} (results : R a b s) :
      Matches R (.finished a s) (.finished b s)
  | waiting {rest : Program I α} {rest' : Program I β} {s : σ} :
      Matches R (.waiting rest s) (.waiting rest' s)
  | ended (e : ε) {s : σ} : Matches R (.ended e s) (.ended e s)

/-- From sessions with the first property, whatever others do, the tasks come to the same state,
and their results and the session then have the second property. -/
def Alongside (t : ThreadId) (I : Session → Prop) (R : α → β → Session → Prop) (p : Task α)
    (q : Task β) : Prop :=
  ∀ s others, I s →
    (p.run (Session.performAmid t) (s, others)).Matches (fun a b state => R a b state.1)
      (q.run (Session.performAmid t) (s, others))

namespace Alongside

open Session (Stable KeptBy Kept performAmid)

variable {t : ThreadId} {I J : Session → Prop} {R : α → β → Session → Prop}
  {R' : γ → δ → Session → Prop} {p : Task α} {q : Task β}

theorem mono (h : Alongside t I R p q) {I' : Session → Prop} {R' : α → β → Session → Prop}
    (hI : ∀ s, I' s → I s) (hR : ∀ a b s, R a b s → R' a b s) : Alongside t I' R' p q := by
  intro s others here
  have hmatches := h s others (hI s here)
  generalize p.run (performAmid t) (s, others) = o, q.run (performAmid t) (s, others) = o'
    at hmatches
  cases hmatches with
  | finished results => exact .finished (hR _ _ _ results)
  | waiting => exact .waiting
  | ended e => exact .ended e

theorem assume {known : Prop} (h : known → Alongside t I R p q) :
    Alongside t (fun s => known ∧ I s) R p q :=
  fun s others here => h here.1 s others here.2

theorem done {a : α} {b : β} (h : ∀ s, I s → R a b s) : Alongside t I R (.done a) (.done b) :=
  fun s _ here => .finished (h s here)

theorem bind {f : α → Task γ} {g : β → Task δ} (first : Alongside t I R p q)
    (rest : ∀ a b, Alongside t (R a b) R' (f a) (g b)) :
    Alongside t I R' (p >>= f) (q >>= g) := by
  intro s others here
  have hfirst := first s others here
  rw [Program.run_bind, Program.run_bind]
  generalize p.run (performAmid t) (s, others) = o, q.run (performAmid t) (s, others) = o'
    at hfirst
  cases hfirst with
  | @finished a b state results => exact rest a b state.1 state.2 results
  | waiting => exact .waiting
  | ended e => exact .ended e

theorem same {test : Request → Prop} (stable : Stable I) (kept : KeptBy test I) {p : Task α}
    (makes : ∀ xs d next, Reaches p xs (.ask d next) → test d.request) :
    Alongside t I
      (fun a b s => (a = b ∧ ∃ xs, Answered I xs ∧ Reaches p xs (.done a)) ∧ I s) p p := by
  intro s others here
  cases hrun : p.run (performAmid t) (s, others) with
  | finished a state =>
      obtain ⟨here', hreaches⟩ := Session.finished_amid stable kept makes here hrun
      exact .finished ⟨⟨rfl, hreaches⟩, here'⟩
  | waiting rest state => exact .waiting
  | ended e state => exact .ended e

theorem same_of_kept (kept : Kept I) (p : Task α) :
    Alongside t I (fun a b s => a = b ∧ I s) p p :=
  (same kept.stable kept fun _ _ _ _ => trivial).mono (fun _ => id)
    fun _ _ _ h => ⟨h.1.1, h.2⟩

theorem endless {p : Task α} {R : α → α → Session → Prop}
    (endless : ∀ xs a, ¬ Reaches p xs (.done a)) : Alongside t I R p p := by
  intro s others _
  cases hrun : p.run (performAmid t) (s, others) with
  | finished a state =>
      obtain ⟨-, xs, -, reaches⟩ := Session.finished_amid Session.kept_nothing.stable
        Session.kept_nothing (fun _ _ _ _ => trivial) trivial hrun
      exact absurd reaches (endless xs a)
  | waiting rest state => exact .waiting
  | ended e state => exact .ended e

theorem and_right (h : Alongside t I R p q) (kept : Kept J) (hJ : ∀ s, I s → J s)
    {good : β → Prop}
    (results : ∀ xs b, Answered J xs → Reaches q xs (.done b) → good b) :
    Alongside t I (fun a b s => R a b s ∧ good b) p q := by
  intro s others here
  have hmatches := h s others here
  generalize hrun : q.run (performAmid t) (s, others) = o' at hmatches
  generalize p.run (performAmid t) (s, others) = o at hmatches
  cases hmatches with
  | @finished a b state hresults =>
      obtain ⟨-, xs, answered, reaches⟩ := Session.finished_amid kept.stable kept
        (fun _ _ _ _ => trivial) (hJ s here) hrun
      exact .finished ⟨hresults, results xs b answered reaches⟩
  | waiting => exact .waiting
  | ended e => exact .ended e

theorem request (r : Request) {R : r.Reply → r.Reply → Session → Prop} (stable : Stable I)
    (h : ∀ t s s' answer, I s → Session.performAs t r s = .reply answer s' → R answer answer s') :
    Alongside t I R (Request.make r) (Request.make r) := by
  intro s others here
  cases hamid : performAmid t r.demand (s, others) with
  | reply answer state =>
      obtain ⟨s₁, hmeanwhile, hreply⟩ := Session.reply_of_amid hamid
      have hrun : (Request.make r).run (performAmid t) (s, others) = .finished answer state :=
        Program.run_ask_of_reply hamid _
      rw [hrun]
      exact .finished (h _ s₁ _ answer (stable here hmeanwhile) hreply)
  | wait =>
      have hrun := Program.run_ask_of_wait hamid (Program.done (I := Request.interface))
      rw [Request.make, hrun]
      exact .waiting
  | stop e state =>
      have hrun := Program.run_ask_of_stop hamid (Program.done (I := Request.interface))
      rw [Request.make, hrun]
      exact .ended e

/-- Two prints end alike, however far their formatting has come. -/
theorem endPrint {c : Channel} {formatting formatting' : Formatting}
    {R : Finish → Finish → Session → Prop} (stable : Stable I)
    (h : ∀ s, I s → R (s.finishOf formatting) (s.finishOf formatting')
      (s.modifyUsers c (List.erase · t))) :
    Alongside t I R (Request.make (.endPrint c formatting))
      (Request.make (.endPrint c formatting')) := by
  intro s others here
  obtain ⟨s₁, later, hmeanwhile, hend⟩ := Session.amid_endPrint t .runner c others s
  have hrun (formatting : Formatting) :
      (Request.make (.endPrint c formatting)).run (performAmid t) (s, others) =
        .finished (s₁.finishOf formatting) (s₁.modifyUsers c (List.erase · t), later) :=
    Program.run_ask_of_reply (hend formatting) _
  rw [hrun, hrun]
  exact .finished (h s₁ (stable here hmeanwhile))

end Alongside

end DiagnosticLog
