import DiagnosticLog.Proofs.LastWords
import DiagnosticLog.Proofs.Session.WayOut

/-!
# Sessions in which nothing is being printed

Where no print is under way, every thread comes through a print, whether or not the destination
takes what it is given (`run_printWith`), and through its last words, which end the run and lose
nothing that was printed (`run_mutexFailure_idle`).
-/

namespace DiagnosticLog

def WayOut.misused : WayOut → Ending
  | process => .exit 255
  | console id => .halt id (-1)

theorem WayOut.ending_mutexFailure (way : WayOut) :
    way.ending Config.mutexFailureCode = way.misused := by
  cases way with
  | process => decide
  | console id => rfl

theorem Hosted.busy_of_nobody {h : Hosted} (nobody : h.users = Users.nobody) (t : ThreadId)
    (c : Channel) : h.busy t c = false := by
  unfold Hosted.busy
  rw [nobody]
  cases c <;> rfl

namespace Session

/-- No print is under way, and the prints of every thread go to the given channel. -/
def Idle (s : Session) (c : Channel) : Prop :=
  match s.platform with
  | .hosted h => h.users = Users.nobody ∧ h.channel = c
  | .guest g => ∃ id, g.installed = some id ∧ c = .console id

/-- Everything that was printed to a channel has been delivered, and it is this text. -/
def Holds (s : Session) (c : Channel) (text : Bytes) : Prop :=
  match s.platform with
  | .hosted h => h.Holds c text
  | .guest g => ∀ id, c = .console id → g.text id = text

/-- Pieces have been put to a channel: all of these, where it takes what it is given. -/
def Puts (s : Session) (c : Channel) (ps : List Piece) (s' : Session) : Prop :=
  ∃ qs, s' = s.putAll c qs ∧ (s.Takes c → qs = ps)

variable {s s' s'' : Session} {t : ThreadId} {c : Channel} {ps qs : List Piece} {way : WayOut}
  {α : Type}

theorem Puts.append (h : s.Puts c ps s') (h' : s'.Puts c qs s'') : s.Puts c (ps ++ qs) s'' := by
  obtain ⟨ps', rfl, hps⟩ := h
  obtain ⟨qs', rfl, hqs⟩ := h'
  refine ⟨ps' ++ qs', (putAll_append s c ps' qs').symm, fun takes => ?_⟩
  rw [hps takes, hqs (takes.putAll c ps')]

theorem Puts.alike (h : s.Puts c ps s') : Alike s s' := by
  obtain ⟨ps', rfl, -⟩ := h
  exact alike_putAll s c ps'

theorem Puts.takes (h : s.Puts c ps s') (takes : s.Takes c) : s'.Takes c := by
  obtain ⟨ps', rfl, -⟩ := h
  exact takes.putAll c ps'

theorem HasText.putAll {text : Bytes} (ht : s.HasText c text) (takes : s.Takes c)
    (ps : List Piece) : (s.putAll c ps).HasText c (text ++ ps.flatMap s.spell) :=
  have hspeaks := speaks_deliver (t := .lasting 0) (P := fun _ => True) takes
    (fun _ _ => trivial) ps
  hspeaks.hasText ht

theorem Puts.hasText (h : s.Puts c ps s') (takes : s.Takes c) {text : Bytes}
    (ht : s.HasText c text) : s'.HasText c (text ++ ps.flatMap s.spell) := by
  obtain ⟨ps', rfl, hps⟩ := h
  rw [← hps takes]
  exact ht.putAll takes ps'

/-! ## Idle sessions -/

theorem Idle.of_platform (h : s.Idle c) (hs : s'.platform = s.platform) : s'.Idle c := by
  simpa only [Idle, hs] using h

theorem Idle.put (h : s.Idle c) (d : Channel) (piece : Piece) : (s.put d piece).Idle c := by
  cases hs : s.platform with
  | hosted hosted =>
      simp only [Idle, hs] at h
      simp only [Idle, Session.put, hs, Hosted.put_users, Hosted.channel, Hosted.sink_put]
      exact h
  | guest g =>
      simp only [Idle, hs] at h
      obtain ⟨id, hid, hc⟩ := h
      simp only [Idle, Session.put, hs]
      refine ⟨id, ?_, hc⟩
      rw [← hid]
      cases d <;> rfl

theorem wayOut_put (s : Session) (d : Channel) (piece : Piece) :
    (s.put d piece).wayOut = s.wayOut := by
  unfold wayOut Session.put
  cases hs : s.platform with
  | hosted h => rfl
  | guest g => cases d <;> rfl

theorem Idle.putAll (h : s.Idle c) (d : Channel) (ps : List Piece) : (s.putAll d ps).Idle c := by
  induction ps generalizing s with
  | nil => exact h
  | cons piece rest ih => exact ih (h.put d piece)

theorem wayOut_putAll (s : Session) (d : Channel) (ps : List Piece) :
    (s.putAll d ps).wayOut = s.wayOut := by
  induction ps generalizing s with
  | nil => rfl
  | cons piece rest ih => exact (ih (s.put d piece)).trans (wayOut_put s d piece)

theorem Puts.idle (h : s.Puts c ps s') (idle : s.Idle c) : s'.Idle c := by
  obtain ⟨ps', rfl, -⟩ := h
  exact idle.putAll c ps'

theorem Puts.wayOut (h : s.Puts c ps s') : s'.wayOut = s.wayOut := by
  obtain ⟨ps', rfl, -⟩ := h
  exact wayOut_putAll s c ps'

theorem Idle.free (h : s.Idle c) (t : ThreadId) (d : Channel) : s.Free t d := by
  cases hs : s.platform with
  | hosted hosted =>
      simp only [Idle, hs] at h
      simpa only [Free, hs] using Hosted.busy_of_nobody h.1 t d
  | guest g => simp only [Free, hs]

theorem Idle.leads (h : s.Idle c) : s.outlet.channel? = some c := by
  cases hs : s.platform with
  | hosted hosted =>
      simp only [Idle, hs] at h
      simp only [outlet, hs, Outlet.channel?, ← h.2, Hosted.channel]
  | guest g =>
      simp only [Idle, hs] at h
      obtain ⟨id, hinstalled, rfl⟩ := h
      simp only [outlet, hs, Guest.outlet, hinstalled, Outlet.channel?]

theorem Idle.run_takeOutlet (h : s.Idle c) (t : ThreadId) (urgency : Urgency) {outlet : Outlet}
    (leads : outlet.channel? = some c) :
    (Log.takeOutlet urgency outlet).run (perform t) s =
      .finished (some c) (s.modifyUsers c (t :: ·)) := by
  have htake : (Log.takeChannel urgency c).run (perform t) s =
      .finished c (s.modifyUsers c (t :: ·)) := by
    unfold Log.takeChannel
    split
    · have htry : perform t (Request.tryTakeChannel c).demand s =
          .reply true (s.modifyUsers c (t :: ·)) := reply_tryTakeChannel (h.free t c)
      rw [Request.make_bind, Program.run_ask_of_reply htry]
      rfl
    · have htake : perform t (Request.takeChannel c).demand s =
          .reply () (s.modifyUsers c (t :: ·)) := reply_takeChannel (h.free t c)
      rw [Request.make_bind, Program.run_ask_of_reply htake]
      rfl
  unfold Log.takeOutlet
  rw [leads]
  exact Program.run_bind_of_finished htake _

theorem Idle.run_beginPrint (h : s.Idle c) (t : ThreadId) (urgency : Urgency) :
    (Log.beginPrint urgency).run (perform t) s =
      .finished (some c) (s.modifyUsers c (t :: ·)) := by
  have hpatient : Log.beginPatient.run (perform t) s = _ :=
    (Program.run_ask_of_reply (reply_beginPrint s t .patient) _).trans
      (h.run_takeOutlet t .patient h.leads)
  cases urgency with
  | patient => exact hpatient
  | urgent =>
      refine (Program.run_ask_of_reply (reply_beginPrint s t .urgent) _).trans ?_
      show (if s.outlet = .sink .unresolved then _ else _ : Task _).run (perform t) s = _
      split
      · exact hpatient
      · exact h.run_takeOutlet t .urgent h.leads

/-! ## Prints -/

theorem run_deliver (s : Session) (t : ThreadId) (c : Channel) (ps : List Piece) :
    ∃ formatting qs, (Log.deliver c (Message.ofPieces ps)).run (perform t) s =
        .finished formatting (s.putAll c qs) ∧
      (∀ s', finishOf s' formatting = .returned) ∧ (s.Takes c → qs = ps) := by
  induction ps generalizing s with
  | nil => exact ⟨.complete, [], rfl, fun _ => rfl, fun _ => rfl⟩
  | cons piece rest ih =>
      have hput : ∃ taken, performAs t (.put c piece) s = .reply taken (s.put c piece) ∧
          (s.Takes c → taken = true) := by
        cases hs : s.platform with
        | hosted h =>
            refine ⟨(h.put c (s.spell piece)).1, ?_, fun takes => ?_⟩
            · simp only [performAs, put, hs]
            · exact Hosted.put_ok ((takes_hosted hs).mp takes) _
        | guest g => exact ⟨true, by simp only [performAs, put, hs], fun _ => rfl⟩
      obtain ⟨taken, hreply, htaken⟩ := hput
      have hrun : (Log.deliver c (Message.ofPieces (piece :: rest))).run (perform t) s =
          (if taken then Log.deliver c (Message.ofPieces rest) else return .refused).run
            (perform t) (s.put c piece) :=
        Program.run_ask_of_reply hreply _
      rw [hrun]
      cases taken with
      | true =>
          obtain ⟨formatting, qs, hrest, hfinish, hall⟩ := ih (s.put c piece)
          refine ⟨formatting, piece :: qs, hrest, hfinish, fun takes => ?_⟩
          rw [hall (takes.put c piece)]
      | false =>
          refine ⟨.refused, [piece], rfl, fun _ => rfl, fun takes => ?_⟩
          cases htaken takes

theorem run_printWith (idle : s.Idle c) (t : ThreadId) (urgency : Urgency) (ps : List Piece) :
    ∃ s', (Log.printWith urgency (Message.ofPieces ps)).run (perform t) s =
      .finished .returned s' ∧ s.Puts c ps s' := by
  obtain ⟨formatting, qs, hdeliver, hfinish, hall⟩ :=
    run_deliver (s.modifyUsers c (t :: ·)) t c ps
  refine ⟨s.putAll c qs, ?_, qs, rfl, fun takes => hall (takes.modifyUsers c _)⟩
  have hend := reply_endPrint_putAll s t c qs formatting
  rw [hfinish] at hend
  unfold Log.printWith
  rw [Program.run_bind_of_finished (idle.run_beginPrint t urgency)]
  show (Log.deliver c (Message.ofPieces ps) >>= _).run (perform t) _ = _
  rw [Program.run_bind_of_finished hdeliver]
  exact Program.run_ask_of_reply hend _

theorem run_line_idle (idle : s.Idle c) (t : ThreadId) (ps : List Piece) :
    ∃ s', (Log.line (Message.ofPieces ps)).run (perform t) s = .finished .returned s' ∧
      s.Puts c (ps ++ [.lineEnd]) s' := by
  obtain ⟨s₁, hmessage, hputs⟩ := run_printWith idle t .patient ps
  obtain ⟨s₂, hend, hputs'⟩ := run_printWith (hputs.idle idle) t .patient [.lineEnd]
  refine ⟨s₂, ?_, hputs.append hputs'⟩
  exact (Program.run_bind_of_finished hmessage _).trans hend

/-! ## Last words -/

theorem run_exit_guest {g : Guest} {id : ConsoleId} (hs : s.platform = .guest g)
    (installed : g.installed = some id) (t : ThreadId) (code : Int32) :
    (Log.exit code : Task α).run (perform t) s = .ended (.halt id code) s := by
  have hsink : perform t Request.currentSink.demand s = .reply none s := by
    simp only [perform_demand, performAs, hs]
  have hconsole : perform t Request.currentConsole.demand s = .reply (some id) s := by
    simp only [perform_demand, performAs, hs, installed]
  have hstop : perform t (Request.stop (some id) code).demand s = .stop (.halt id code) s := by
    simp only [perform_demand, performAs, hs]
  have hflush : Log.flushUrgent.run (perform t) s = .finished () s := by
    unfold Log.flushUrgent Log.currentSink
    rw [Request.make_bind, Program.run_ask_of_reply hsink]
    rfl
  unfold Log.exit Log.stop
  rw [Program.run_bind_of_finished hflush, Request.make_bind, Program.run_ask_of_reply hconsole,
    Request.make_bind, Program.run_ask_of_stop hstop]

theorem run_exit_idle (idle : s.Idle c) (out : s.wayOut = some way) (t : ThreadId)
    (code : Int32) :
    ∃ s', (Log.exit code : Task α).run (perform t) s = .ended (way.ending code) s' ∧
      (s.Takes c → ∀ text, s.HasText c text → s'.Holds c text) := by
  unfold Idle at idle
  cases hs : s.platform with
  | hosted h =>
      simp only [hs] at idle
      obtain ⟨hnobody, rfl⟩ := idle
      simp only [wayOut, hs, Option.some.injEq] at out
      subst out
      have hfree := Hosted.busy_of_nobody hnobody t h.channel
      have huse : ¬ h.FileInUse := fun huse => huse.2 (by rw [hnobody]; rfl)
      refine ⟨_, run_exit hs (.inr hfree) code, fun takes text ht => ?_⟩
      have hheld := ((hasText_hosted hs).mp ht).finish t
      exact hheld.holds (Hosted.kept_finish ((takes_hosted hs).mp takes) huse t)
  | guest g =>
      simp only [wayOut, hs] at out
      obtain ⟨id, hid, rfl⟩ := Option.map_eq_some_iff.mp out
      refine ⟨s, run_exit_guest hs hid t code, fun takes text ht => ?_⟩
      simpa only [Holds, HasText, hs] using ht

/-- A thread that misuses the log lock ends the run with a line that says so, after all that was
printed before. -/
theorem run_mutexFailure_idle (idle : s.Idle c) (out : s.wayOut = some way) (t : ThreadId)
    (operation : String) (e : MutexError) :
    ∃ s', (Log.mutexFailure operation e : Task α).run (perform t) s = .ended way.misused s' ∧
      (s.Takes c → ∀ text, s.HasText c text →
        s'.Holds c (text ++ FatalCall.misuseText s t operation e ++ s.lineEnd.bytes)) := by
  obtain ⟨s₁, hmessage, hputs⟩ := run_printWith idle t .urgent (misusePieces s t operation e)
  obtain ⟨s₂, hend, hputs'⟩ := run_printWith (hputs.idle idle) t .urgent [.lineEnd]
  have hline := hputs.append hputs'
  obtain ⟨s₃, hexit, hholds⟩ := run_exit_idle (α := α) (hline.idle idle) (hline.wayOut.trans out) t
    Config.mutexFailureCode
  refine ⟨s₃, ?_, fun takes text ht => ?_⟩
  · have hlast : (Log.endLineAndExit Config.mutexFailureCode : Task α).run (perform t) s₁ = _ :=
      Program.run_bind_of_finished hend _
    rw [run_mutexFailure, ← way.ending_mutexFailure, ← hexit, ← hlast]
    exact Program.run_bind_of_finished hmessage _
  · have hsaid := hholds (hline.takes takes) _ (hline.hasText takes ht)
    have htext : (misusePieces s t operation e ++ [Piece.lineEnd]).flatMap s.spell =
        FatalCall.misuseText s t operation e ++ s.lineEnd.bytes := by
      rw [List.flatMap_append, spell_misusePieces]
      exact congrArg (FatalCall.misuseText s t operation e ++ ·) (List.append_nil _)
    rwa [htext, ← List.append_assoc] at hsaid

end Session

end DiagnosticLog
