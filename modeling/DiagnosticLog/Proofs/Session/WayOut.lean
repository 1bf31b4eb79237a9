import DiagnosticLog.Proofs.Session.Move

/-!
# The way out of a run

A process exits, and a guest is halted through its console.  The way out of a session stays the same
whatever its threads ask, and last words come to it unless another thread stands in their way.
-/

namespace DiagnosticLog

/-- How a run is ended: by the exit of its process, or through the console its guest has. -/
inductive WayOut where
  | process
  | console (id : ConsoleId)
  deriving DecidableEq

def WayOut.ending : WayOut → Int32 → Ending
  | process, code => .exit (Session.exitStatus code)
  | console id, code => .halt id code

def WayOut.console? : WayOut → Option ConsoleId
  | process => none
  | console id => some id

namespace Session

def wayOut (s : Session) : Option WayOut :=
  match s.platform with
  | .hosted _ => some .process
  | .guest g => g.installed.map .console

variable {s s' : Session} {t : ThreadId} {way : WayOut}

theorem wayOut_of_reply {r : Request} {answer : r.Reply} (out : s.wayOut = some way)
    (reply : performAs t r s = .reply answer s') : s'.wayOut = some way := by
  rw [← out]
  cases hs : s.platform with
  | hosted h =>
      obtain ⟨h', hs', -⟩ := move_of_reply hs reply
      simp only [wayOut, hs, hs']
  | guest g =>
      simp only [wayOut, hs] at out
      obtain ⟨id, hid, -⟩ := Option.map_eq_some_iff.mp out
      obtain ⟨g', hs', move⟩ := move_of_reply_guest hs reply
      simp only [wayOut, hs, hs']
      cases move with
      | @put _ c piece => cases c <;> rfl
      | installConsole => simp only [Guest.install, hid]
      | other hr => rfl

theorem request_of_stop {r : Request} {e : Ending} (stop : performAs t r s = .stop e s') :
    ∃ console code, r = .stop console code := by
  cases r with
  | stop console code => exact ⟨console, code, rfl⟩
  | access name a =>
      simp only [performAs] at stop
      split at stop
      · cases stop
      · cases stop
      · contradiction
  | takeChannel | tryTakeChannel | complain | flush =>
      simp only [performAs] at stop
      split at stop
      · split at stop <;> cases stop
      · cases stop
  | beginPrint | put | openSink | publishSink | formatsReals | currentSink | currentConsole
  | installConsole | popGuard =>
      simp only [performAs] at stop
      split at stop <;> cases stop
  | _ => cases stop

theorem console_of_reply {console : Option ConsoleId} (out : s.wayOut = some way)
    (reply : performAs t .currentConsole s = .reply console s') : console = way.console? := by
  cases hs : s.platform with
  | hosted h =>
      simp only [wayOut, hs, Option.some.injEq] at out
      simp only [performAs, hs] at reply
      cases reply
      rw [← out, WayOut.console?]
  | guest g =>
      simp only [wayOut, hs] at out
      obtain ⟨id, hid, rfl⟩ := Option.map_eq_some_iff.mp out
      simp only [performAs, hs] at reply
      cases reply
      exact hid

theorem ending_of_stop {console : Option ConsoleId} {code : Int32} {e : Ending}
    (out : s.wayOut = some way) (hconsole : console = way.console?)
    (stop : performAs t (.stop console code) s = .stop e s') : e = way.ending code := by
  cases hs : s.platform with
  | hosted h =>
      simp only [wayOut, hs, Option.some.injEq] at out
      simp only [performAs, hs] at stop
      cases stop
      rw [← out, WayOut.ending]
  | guest g =>
      simp only [wayOut, hs] at out
      obtain ⟨id, hid, rfl⟩ := Option.map_eq_some_iff.mp out
      rw [hconsole] at stop
      simp only [performAs, hs, WayOut.console?] at stop
      cases stop
      rfl

/-- A print that ends returns, or it is unwound by a fragment that cannot be formatted, and in a
process only, or by an unwinding that reaches it. -/
theorem finish_of_reply {c : Channel} {formatting : Formatting} {finish : Finish}
    (reply : performAs t (.endPrint c formatting) s = .reply finish s') :
    (finish = .returned ∧ formatting ≠ .unwound) ∨
      (finish = .unwound ∧ formatting = .fault ∧ s.wayOut = some .process) ∨
      (finish = .unwound ∧ formatting = .unwound) := by
  have hfinish : s.finishOf formatting = finish := by
    simp only [performAs, Effect.reply.injEq] at reply
    exact reply.1
  rw [← hfinish]
  cases formatting with
  | complete => exact .inl ⟨rfl, by simp⟩
  | refused => exact .inl ⟨rfl, by simp⟩
  | fault =>
      cases hs : s.platform with
      | hosted h => exact .inr (.inl ⟨by simp only [finishOf, hs], rfl, by simp only [wayOut, hs]⟩)
      | guest g => exact .inl ⟨by simp only [finishOf, hs], by simp⟩
  | unwound => exact .inr (.inr ⟨rfl, rfl⟩)

end Session

/-! ## Last words -/

/-- The request takes the channel, or flushes it. -/
def Request.Needs (c : Channel) : Request → Prop
  | .takeChannel d => d = c
  | .flush _ d => d = c
  | _ => False

/-- A request that last words make themselves where this is the way out.  It may wait for the writer
of a file only if they are late: they began when no sink had been chosen. -/
def Request.IsUrgent (way : WayOut) (late : Prop) : Request → Prop
  | .beginPrint _ => True
  | .takeChannel c => c = .file → late
  | .tryTakeChannel _ => True
  | .put _ _ => True
  | .endPrint _ _ => True
  | .currentSink => True
  | .flush urgency _ => urgency = .urgent ∨ late
  | .currentConsole => True
  | .stop console _ => console = way.console?
  | _ => False

/-- Thread `t` cannot use a channel: another thread is printing there, or it is the file and some
thread is. -/
def Session.Hinders (s : Session) (t : ThreadId) (c : Channel) : Prop :=
  ∃ h u, s.platform = .hosted h ∧ u ∈ h.users.of c ∧ (c ≠ .file → u ≠ t)

namespace Hosted

variable {h : Hosted} {t : ThreadId}

theorem exists_user_of_busy {c : Channel} (busy : h.busy t c = true) :
    ∃ u ∈ h.users.of c, c ≠ .file → u ≠ t := by
  cases c with
  | file =>
      obtain ⟨u, hu⟩ : ∃ u, u ∈ h.users.file := by
        simpa [Hosted.busy, List.eq_nil_iff_forall_not_mem] using busy
      exact ⟨u, hu, fun hfile => absurd rfl hfile⟩
  | _ => simpa [Hosted.busy] using busy

theorem busy_of_takeChannel {c : Channel} (wait : h.takeChannel t c = none) :
    h.busy t c = true := by
  unfold takeChannel at wait
  split at wait
  · assumption
  · cases wait

theorem busy_of_flush {urgency : Urgency} {c : Channel} (wait : h.flush t urgency c = none) :
    h.busy t c = true ∧ (urgency = .urgent → c ≠ .file) := by
  unfold flush at wait
  split at wait
  · rename_i hbusy
    refine ⟨hbusy, ?_⟩
    rintro rfl rfl
    simp [Urgency.passesBy] at wait
  · cases wait

end Hosted

/-- Last words wait for nothing but a channel at which another thread is printing, and for the file
only if they are late. -/
theorem Session.hinders_of_wait {s : Session} {t : ThreadId} {way : WayOut} {late : Prop}
    {r : Request} (urgent : r.IsUrgent way late) (out : s.wayOut = some way)
    (wait : performAs t r s = .wait) :
    ∃ c, r.Needs c ∧ s.Hinders t c ∧ (c = .file → late) := by
  cases hs : s.platform with
  | hosted h =>
      cases r with
      | takeChannel c =>
          simp only [performAs, hs] at wait
          split at wait
          · cases wait
          · rename_i hwait
            obtain ⟨u, hu, hne⟩ := Hosted.exists_user_of_busy (Hosted.busy_of_takeChannel hwait)
            exact ⟨c, rfl, ⟨h, u, hs, hu, hne⟩, urgent⟩
      | tryTakeChannel c =>
          simp only [performAs, hs] at wait
          split at wait <;> cases wait
      | flush urgency c =>
          simp only [performAs, hs] at wait
          split at wait
          · cases wait
          · rename_i hwait
            obtain ⟨hbusy, hurgent⟩ := Hosted.busy_of_flush hwait
            obtain ⟨u, hu, hne⟩ := Hosted.exists_user_of_busy hbusy
            refine ⟨c, rfl, ⟨h, u, hs, hu, hne⟩, ?_⟩
            rintro rfl
            rcases urgent with hpressing | hlate
            · exact absurd rfl (hurgent hpressing)
            · exact hlate
      | beginPrint | put | endPrint | currentSink | currentConsole | stop =>
          simp only [performAs, hs] at wait
          cases wait
      | _ => exact urgent.elim
  | guest g =>
      simp only [wayOut, hs] at out
      obtain ⟨id, hid, rfl⟩ := Option.map_eq_some_iff.mp out
      cases r with
      | stop console code =>
          obtain rfl : console = some id := urgent
          simp only [performAs, hs] at wait
          cases wait
      | beginPrint | takeChannel | tryTakeChannel | put | endPrint | flush | currentSink
      | currentConsole =>
          simp only [performAs, hs] at wait
          cases wait
      | _ => exact urgent.elim

end DiagnosticLog
