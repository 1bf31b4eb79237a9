import DiagnosticLog.Proofs.Session.Choice

/-!
# What requests do to a platform

`Hosted.Move` lists all that a request can do to what a process holds of the log, and `Guest.Move`
what it can do to a guest.  What follows about requests and platforms argues by cases on moves.
-/

namespace DiagnosticLog

def Request.reachesPlatform : Request → Bool
  | .beginPrint _ => true
  | .takeChannel _ => true
  | .tryTakeChannel _ => true
  | .put _ _ => true
  | .endPrint _ _ => true
  | .complain _ => true
  | .flush _ _ => true
  | .openSink _ => true
  | .publishSink => true
  | .installConsole _ => true
  | _ => false

/-- The spelling of a piece where lines end in this way. -/
def LineEnd.spell (lineEnd : LineEnd) : Piece → Bytes
  | .text b => b
  | .lineEnd => lineEnd.bytes

theorem Session.spell_eq (s : Session) : s.spell = s.lineEnd.spell := by
  funext piece
  cases piece <;> rfl

namespace Session

variable {t : ThreadId} {s s' : Session}

theorem access_of_reply {name : LockName} {a : Access} {answer : a.Reply}
    (h : performAs t (.access name a) s = .reply answer s') :
    ∃ m, CheckedMutex.perform a (s.locks name) = .reply answer m ∧
      s' = { s with locks := update s.locks name m } := by
  simp only [performAs] at h
  split at h
  · rename_i answer' m hperform
    cases h
    exact ⟨m, hperform, rfl⟩
  · cases h
  · contradiction

theorem platform_identify (s : Session) (t : ThreadId) :
    (s.identify t).2.platform = s.platform := by
  unfold identify
  split <;> rfl

theorem platform_of_reply {r : Request} {answer : r.Reply}
    (h : performAs t r s = .reply answer s') (hr : r.reachesPlatform = false) :
    s'.platform = s.platform := by
  cases r with
  | beginPrint | takeChannel | tryTakeChannel | put | endPrint | complain | flush | openSink
  | publishSink | installConsole => simp [Request.reachesPlatform] at hr
  | identify =>
      cases h
      exact platform_identify s t
  | access name a =>
      obtain ⟨m, -, rfl⟩ := access_of_reply h
      rfl
  | formatsReals | currentSink | currentConsole =>
      simp only [performAs] at h
      split at h <;> cases h <;> rfl
  | stop console code =>
      simp only [performAs] at h
      split at h
      · cases h
      · split at h <;> cases h
  | popGuard =>
      simp only [performAs] at h
      split at h <;> cases h <;> rfl
  | _ =>
      cases h
      rfl

/-- What is fixed when the log is built stays as it is, and so does what the global logger is unless
a request is about it. -/
theorem fixed_of_reply {r : Request} {answer : r.Reply} (h : performAs t r s = .reply answer s') :
    s'.lineEnd = s.lineEnd ∧ s'.logFileVariable = s.logFileVariable ∧
      (r ≠ .registerLogger → s'.loggerRegistered = s.loggerRegistered) ∧
      ((∀ level, r ≠ .setMaxLevel level) → s'.maxLevel = s.maxLevel) := by
  cases r with
  | registerLogger =>
      cases h
      exact ⟨rfl, rfl, fun hr => absurd rfl hr, fun _ => rfl⟩
  | setMaxLevel level =>
      cases h
      exact ⟨rfl, rfl, fun _ => rfl, fun hr => absurd rfl (hr level)⟩
  | identify =>
      cases h
      unfold identify
      split <;> exact ⟨rfl, rfl, fun _ => rfl, fun _ => rfl⟩
  | access name a =>
      obtain ⟨m, -, rfl⟩ := access_of_reply h
      exact ⟨rfl, rfl, fun _ => rfl, fun _ => rfl⟩
  | takeChannel | complain | flush =>
      simp only [performAs] at h
      split at h
      · split at h
        · cases h
          exact ⟨rfl, rfl, fun _ => rfl, fun _ => rfl⟩
        · cases h
      · cases h
        exact ⟨rfl, rfl, fun _ => rfl, fun _ => rfl⟩
  | stop console code =>
      simp only [performAs] at h
      split at h
      · cases h
      · split at h <;> cases h
  | tryTakeChannel c =>
      simp only [performAs] at h
      split at h
      · split at h <;> cases h <;> exact ⟨rfl, rfl, fun _ => rfl, fun _ => rfl⟩
      · cases h
        exact ⟨rfl, rfl, fun _ => rfl, fun _ => rfl⟩
  | endPrint c formatting =>
      cases h
      split <;> exact ⟨rfl, rfl, fun _ => rfl, fun _ => rfl⟩
  | beginPrint | put | openSink | publishSink | formatsReals | currentSink | currentConsole
  | installConsole | popGuard =>
      simp only [performAs] at h
      split at h <;> cases h <;> exact ⟨rfl, rfl, fun _ => rfl, fun _ => rfl⟩
  | _ =>
      cases h
      exact ⟨rfl, rfl, fun _ => rfl, fun _ => rfl⟩

theorem build_of_reply {r : Request} {answer : r.Reply} (h : performAs t r s = .reply answer s') :
    s'.lineEnd = s.lineEnd ∧ s'.logFileVariable = s.logFileVariable :=
  ⟨(fixed_of_reply h).1, (fixed_of_reply h).2.1⟩

theorem loggerRegistered_of_reply {r : Request} {answer : r.Reply}
    (h : performAs t r s = .reply answer s') (hr : r ≠ .registerLogger) :
    s'.loggerRegistered = s.loggerRegistered :=
  (fixed_of_reply h).2.2.1 hr

theorem maxLevel_of_reply {r : Request} {answer : r.Reply}
    (h : performAs t r s = .reply answer s') (hr : ∀ level, r ≠ .setMaxLevel level) :
    s'.maxLevel = s.maxLevel :=
  (fixed_of_reply h).2.2.2 hr

theorem lineEnd_of_reply {r : Request} {answer : r.Reply}
    (h : performAs t r s = .reply answer s') : s'.lineEnd = s.lineEnd :=
  (build_of_reply h).1

theorem spell_of_reply {r : Request} {answer : r.Reply}
    (h : performAs t r s = .reply answer s') : s'.spell = s.spell := by
  rw [spell_eq, lineEnd_of_reply h, spell_eq]

end Session

/-- What a request of thread `t` that is answered does to a process. -/
inductive Hosted.Move (t : ThreadId) (s : Session) :
    (r : Request) → r.Reply → Hosted → Hosted → Prop where
  | beginPrint {h : Hosted} {urgency : Urgency} :
      Move t s (.beginPrint urgency) (.sink h.sink) h h
  | takeChannel {h : Hosted} {c : Channel} (free : h.busy t c = false) :
      Move t s (.takeChannel c) () h { h with users := h.users.modify c (t :: ·) }
  | tryTakeChannel {h : Hosted} {c : Channel} (free : h.busy t c = false) :
      Move t s (.tryTakeChannel c) true h { h with users := h.users.modify c (t :: ·) }
  | refuse {h : Hosted} {c : Channel} (busy : h.busy t c = true) :
      Move t s (.tryTakeChannel c) false h h
  | put {h : Hosted} {c : Channel} {piece : Piece} :
      Move t s (.put c piece) (h.put c (s.spell piece)).1 h (h.put c (s.spell piece)).2
  | endPrint {h : Hosted} {c : Channel} {formatting : Formatting} :
      Move t s (.endPrint c formatting) (s.finishOf formatting) h (h.endPrint t c)
  | complain {h : Hosted} {text : Bytes} (free : h.busy t .standardError = false) :
      Move t s (.complain text) () h { h with err := h.err.add text }
  | flush {h : Hosted} {urgency : Urgency} {c : Channel} (free : h.busy t c = false) :
      Move t s (.flush urgency c) () h (h.push c)
  | passBy {h : Hosted} {urgency : Urgency} {c : Channel}
      (passes : urgency.passesBy c = true) (busy : h.busy t c = true) :
      Move t s (.flush urgency c) () h h
  | openSink {h h' : Hosted} {path : Option Bytes} {reply : Except OpenError Unit}
      (opening : h.Opening t (Sink.sought h.environment s.logFileVariable path) reply h') :
      Move t s (.openSink path) reply h h'
  | publishSink {h h' : Hosted} {reply : Option Sink} (publication : h.Publication t reply h') :
      Move t s .publishSink reply h h'
  | noConsole {h : Hosted} {id : ConsoleId} {reply : Except LogError Unit} :
      Move t s (.installConsole id) reply h h
  | other {h : Hosted} {r : Request} {reply : r.Reply} (hr : r.reachesPlatform = false) :
      Move t s r reply h h

namespace Session

variable {t : ThreadId} {s s' : Session}

/-- A process stays a process, and every answered request is a move. -/
theorem move_of_reply {h : Hosted} (hs : s.platform = .hosted h) {r : Request} {answer : r.Reply}
    (reply : performAs t r s = .reply answer s') :
    ∃ h', s'.platform = .hosted h' ∧ Hosted.Move t s r answer h h' := by
  cases hr : r.reachesPlatform with
  | false => exact ⟨h, (platform_of_reply reply hr).trans hs, .other hr⟩
  | true =>
      cases r with
      | beginPrint urgency =>
          simp only [performAs, hs] at reply
          cases reply
          exact ⟨h, hs, .beginPrint⟩
      | takeChannel c =>
          simp only [performAs, hs] at reply
          cases hbusy : h.busy t c with
          | false =>
              simp only [Hosted.takeChannel, hbusy, Bool.false_eq_true, if_false] at reply
              cases reply
              exact ⟨_, rfl, .takeChannel hbusy⟩
          | true => simp [Hosted.takeChannel, hbusy] at reply
      | tryTakeChannel c =>
          simp only [performAs, hs] at reply
          cases hbusy : h.busy t c with
          | false =>
              simp only [Hosted.takeChannel, hbusy, Bool.false_eq_true, if_false] at reply
              cases reply
              exact ⟨_, rfl, .tryTakeChannel hbusy⟩
          | true =>
              simp only [Hosted.takeChannel, hbusy, if_true] at reply
              cases reply
              exact ⟨_, hs, .refuse hbusy⟩
      | put d piece =>
          simp only [performAs, hs] at reply
          cases reply
          exact ⟨_, rfl, .put⟩
      | endPrint d formatting =>
          simp only [performAs, hs] at reply
          cases reply
          exact ⟨_, rfl, .endPrint⟩
      | complain x =>
          simp only [performAs, hs] at reply
          cases hbusy : h.busy t .standardError with
          | false =>
              simp only [Hosted.complain, hbusy, Bool.false_eq_true, if_false] at reply
              cases reply
              exact ⟨_, rfl, .complain hbusy⟩
          | true => simp [Hosted.complain, hbusy] at reply
      | flush urgency c =>
          simp only [performAs, hs] at reply
          cases hbusy : h.busy t c with
          | false =>
              simp only [Hosted.flush, hbusy, Bool.false_eq_true, if_false] at reply
              cases reply
              exact ⟨_, rfl, .flush hbusy⟩
          | true =>
              cases hpasses : urgency.passesBy c with
              | false => simp [Hosted.flush, hbusy, hpasses] at reply
              | true =>
                  simp only [Hosted.flush, hbusy, hpasses, if_true] at reply
                  cases reply
                  exact ⟨_, rfl, .passBy hpasses hbusy⟩
      | openSink path =>
          simp only [performAs, hs] at reply
          cases reply
          exact ⟨_, rfl, .openSink (h.opening t s.logFileVariable path)⟩
      | publishSink =>
          simp only [performAs, hs] at reply
          cases reply
          exact ⟨_, rfl, .publishSink (h.publication t)⟩
      | installConsole id =>
          simp only [performAs, hs] at reply
          cases reply
          exact ⟨h, hs, .noConsole⟩
      | _ => simp [Request.reachesPlatform] at hr

end Session

/-! ## Guests -/

def Request.reachesConsole : Request → Bool
  | .put _ _ => true
  | .installConsole _ => true
  | _ => false

/-- What a request that is answered does to a guest. -/
inductive Guest.Move (s : Session) : (r : Request) → r.Reply → Guest → Guest → Prop where
  | put {g : Guest} {c : Channel} {piece : Piece} :
      Move s (.put c piece) true g (g.put c (s.spell piece))
  | installConsole {g : Guest} {id : ConsoleId} :
      Move s (.installConsole id) (g.install id).1 g (g.install id).2
  | other {g : Guest} {r : Request} {reply : r.Reply} (hr : r.reachesConsole = false) :
      Move s r reply g g

namespace Session

variable {t : ThreadId} {s s' : Session}

theorem move_of_reply_guest {g : Guest} (hs : s.platform = .guest g) {r : Request}
    {answer : r.Reply} (reply : performAs t r s = .reply answer s') :
    ∃ g', s'.platform = .guest g' ∧ Guest.Move s r answer g g' := by
  cases hr : r.reachesPlatform with
  | false =>
      refine ⟨g, (platform_of_reply reply hr).trans hs, .other ?_⟩
      cases r <;> first | rfl | simp [Request.reachesPlatform] at hr
  | true =>
      cases r with
      | put c piece =>
          simp only [performAs, hs] at reply
          cases reply
          exact ⟨_, rfl, .put⟩
      | installConsole id =>
          simp only [performAs, hs] at reply
          cases reply
          exact ⟨_, rfl, .installConsole⟩
      | beginPrint | takeChannel | tryTakeChannel | endPrint | complain | flush | openSink
      | publishSink =>
          simp only [performAs, hs] at reply
          cases reply
          exact ⟨g, hs, .other rfl⟩
      | _ => simp [Request.reachesPlatform] at hr

end Session

end DiagnosticLog
