import DiagnosticLog.Log.Print
import DiagnosticLog.Proofs.Session.Contents

/-!
# How a thread comes through a print

`Speaks` follows a task to its end: no request has to wait, all that is written goes to one channel,
and it is a given text.  A print of pieces that begins where its channel can be used says the
pieces and leaves nothing else behind (`speaks_printWith`).
-/

namespace DiagnosticLog

/-- A request writes nothing but pieces to the given channel, and sets up nothing. -/
def Request.WritesTo (c : Channel) : Request → Prop
  | .put d _ => d = c
  | .complain _ => False
  | .openSink _ => False
  | .publishSink => False
  | _ => True

namespace Session

theorem undisturbed_of_writesTo {r : Request} {c : Channel} (only : r.WritesTo c) (s : Session) :
    s.Undisturbed r := by
  apply s.undisturbed_of_ne
  · rintro path rfl
    exact only
  · rintro rfl
    exact only

def put (s : Session) (c : Channel) (piece : Piece) : Session :=
  match s.platform with
  | .hosted h => { s with platform := .hosted (h.put c (s.spell piece)).2 }
  | .guest g => { s with platform := .guest (g.put c (s.spell piece)) }

def putAll (s : Session) (c : Channel) (ps : List Piece) : Session :=
  ps.foldl (fun s piece => s.put c piece) s

def modifyUsers (s : Session) (c : Channel) (f : List ThreadId → List ThreadId) : Session :=
  match s.platform with
  | .hosted h => { s with platform := .hosted { h with users := h.users.modify c f } }
  | .guest _ => s

def formatsReals (s : Session) : Bool :=
  match s.platform with
  | .hosted _ => true
  | .guest _ => false

/-- A print of thread `t` that begins now goes to the given channel, at once, and is taken. -/
def Prints (s : Session) (t : ThreadId) (urgency : Urgency) (c : Channel) : Prop :=
  match s.platform with
  | .hosted h => h.destination t urgency = c ∧ h.busy t c = false ∧ h.Takes c
  | .guest g => ∃ id, g.installed = some id ∧ c = .console id

/-- The sessions differ in what has been printed, and in the prints that have begun, at most. -/
structure Alike (s s' : Session) : Prop where
  rest : s' = { s with platform := s'.platform }
  tokenOf : s'.tokenOf = s.tokenOf
  formatsReals : s'.formatsReals = s.formatsReals

namespace Alike

variable {s s' s'' : Session}

theorem refl (s : Session) : Alike s s :=
  ⟨rfl, rfl, rfl⟩

theorem trans (h : Alike s s') (h' : Alike s' s'') : Alike s s'' := by
  refine ⟨?_, h'.tokenOf.trans h.tokenOf, h'.formatsReals.trans h.formatsReals⟩
  rw [h'.rest, h.rest]

theorem locks (h : Alike s s') : s'.locks = s.locks := by
  rw [h.rest]

theorem guards (h : Alike s s') : s'.guards = s.guards := by
  rw [h.rest]

theorem lineEnd (h : Alike s s') : s'.lineEnd = s.lineEnd := by
  rw [h.rest]

theorem spell (h : Alike s s') : s'.spell = s.spell := by
  rw [spell_eq, h.lineEnd, spell_eq]

end Alike

variable {s : Session}

theorem alike_put (s : Session) (c : Channel) (piece : Piece) : Alike s (s.put c piece) := by
  unfold put
  split
  · rename_i h hs
    exact ⟨rfl, by funext t; simp only [tokenOf, hs], by simp only [formatsReals, hs]⟩
  · rename_i g hs
    refine ⟨rfl, ?_, by simp only [formatsReals, hs]⟩
    funext t
    simp only [tokenOf, hs, Guest.put]
    cases c <;> rfl

theorem alike_modifyUsers (s : Session) (c : Channel) (f : List ThreadId → List ThreadId) :
    Alike s (s.modifyUsers c f) := by
  unfold modifyUsers
  split
  · rename_i h hs
    exact ⟨rfl, by funext t; simp only [tokenOf, hs], by simp only [formatsReals, hs]⟩
  · exact Alike.refl s

theorem alike_putAll (s : Session) (c : Channel) (ps : List Piece) : Alike s (s.putAll c ps) := by
  induction ps generalizing s with
  | nil => exact Alike.refl s
  | cons piece rest ih => exact (alike_put s c piece).trans (ih (s.put c piece))

theorem Takes.put {d : Channel} (takes : s.Takes d) (c : Channel) (piece : Piece) :
    (s.put c piece).Takes d := by
  unfold Session.put
  split
  · rename_i h hs
    exact Hosted.takes_put ((takes_hosted hs).mp takes) c _
  · rename_i g hs
    simpa only [Takes, hs] using takes

theorem Takes.modifyUsers {d : Channel} (takes : s.Takes d) (c : Channel)
    (f : List ThreadId → List ThreadId) : (s.modifyUsers c f).Takes d := by
  unfold Session.modifyUsers
  split
  · rename_i h hs
    exact ((takes_hosted hs).mp takes).of_stream fun path w hw => ⟨w.kept, hw⟩
  · exact takes

theorem Takes.putAll {d : Channel} (takes : s.Takes d) (c : Channel) (ps : List Piece) :
    (s.putAll c ps).Takes d := by
  induction ps generalizing s with
  | nil => exact takes
  | cons piece rest ih => exact ih (takes.put c piece)

theorem Prints.takes {t : ThreadId} {urgency : Urgency} {c : Channel}
    (h : s.Prints t urgency c) : s.Takes c := by
  unfold Prints at h
  unfold Takes
  split at h
  · rename_i h' hs
    simpa only [hs] using h.2.2
  · rename_i g hs
    obtain ⟨id, -, hc⟩ := h
    simpa only [hs] using ⟨id, hc⟩

theorem Prints.put {t : ThreadId} {urgency : Urgency} {c : Channel} (h : s.Prints t urgency c)
    (d : Channel) (piece : Piece) : (s.put d piece).Prints t urgency c := by
  unfold Prints at h
  unfold Session.put
  split at h
  · rename_i hosted hs
    obtain ⟨hdestination, hfree, takes⟩ := h
    refine ⟨?_, ?_, Hosted.takes_put takes d _⟩
    · rw [Hosted.destination_put, hdestination]
    · rw [Hosted.busy_put, hfree]
  · rename_i g hs
    obtain ⟨id, hinstalled, hc⟩ := h
    refine ⟨id, ?_, hc⟩
    rw [← hinstalled]
    cases d <;> rfl

theorem Prints.putAll {t : ThreadId} {urgency : Urgency} {c : Channel} (h : s.Prints t urgency c)
    (d : Channel) (ps : List Piece) : (s.putAll d ps).Prints t urgency c := by
  induction ps generalizing s with
  | nil => exact h
  | cons piece rest ih => exact ih (h.put d piece)

/-! ## The requests of a print, and of the log lock -/

def outlet (s : Session) : Outlet :=
  match s.platform with
  | .hosted h => .sink h.sink
  | .guest g => g.outlet

theorem reply_beginPrint (s : Session) (t : ThreadId) (urgency : Urgency) :
    performAs t (.beginPrint urgency) s = .reply s.outlet s := by
  cases hs : s.platform <;> simp only [performAs, outlet, hs]

def Free (s : Session) (t : ThreadId) (c : Channel) : Prop :=
  match s.platform with
  | .hosted h => h.busy t c = false
  | .guest _ => True

theorem reply_takeChannel {t : ThreadId} {c : Channel} (free : s.Free t c) :
    performAs t (.takeChannel c) s = .reply () (s.modifyUsers c (t :: ·)) := by
  cases hs : s.platform with
  | hosted h =>
      have hfree : h.busy t c = false := by simpa only [Free, hs] using free
      simp [performAs, modifyUsers, hs, Hosted.takeChannel, hfree]
  | guest g => simp only [performAs, modifyUsers, hs]

theorem reply_tryTakeChannel {t : ThreadId} {c : Channel} (free : s.Free t c) :
    performAs t (.tryTakeChannel c) s = .reply true (s.modifyUsers c (t :: ·)) := by
  cases hs : s.platform with
  | hosted h =>
      have hfree : h.busy t c = false := by simpa only [Free, hs] using free
      simp [performAs, modifyUsers, hs, Hosted.takeChannel, hfree]
  | guest g => simp only [performAs, modifyUsers, hs]

theorem Prints.route {t : ThreadId} {urgency : Urgency} {c : Channel} (h : s.Prints t urgency c) :
    (s.Free t c ∧ s.outlet.channel? = some c) ∨
      urgency = .urgent ∧ ∃ hosted, s.platform = .hosted hosted ∧ hosted.busy t .file = true ∧
        hosted.sink.channel = .file ∧ c = .standardError ∧ s.Free t .standardError := by
  unfold Prints at h
  cases hs : s.platform with
  | hosted hosted =>
      simp only [hs] at h
      obtain ⟨hdestination, hfree, -⟩ := h
      by_cases hturned : hosted.busy t hosted.channel = true ∧
          urgency.passesBy hosted.channel = true
      · rw [Hosted.destination, if_pos hturned] at hdestination
        subst hdestination
        obtain ⟨hurgent, hfile⟩ : urgency = .urgent ∧ hosted.channel = .file := by
          simpa [Urgency.passesBy] using hturned.2
        exact .inr ⟨hurgent, hosted, rfl, hfile ▸ hturned.1, hfile, rfl,
          by simpa only [Free, hs] using hfree⟩
      · rw [Hosted.destination, if_neg hturned] at hdestination
        refine .inl ⟨by simpa only [Free, hs] using hfree, ?_⟩
        simp only [outlet, hs, Outlet.channel?, ← hdestination, Hosted.channel]
  | guest g =>
      simp only [hs] at h
      obtain ⟨id, hinstalled, rfl⟩ := h
      refine .inl ⟨by simp only [Free, hs], ?_⟩
      simp only [outlet, hs, Guest.outlet, hinstalled, Outlet.channel?]

theorem Prints.route_patient {t : ThreadId} {c : Channel} (h : s.Prints t .patient c) :
    s.Free t c ∧ s.outlet.channel? = some c := by
  rcases h.route with hroute | ⟨hurgent, -⟩
  · exact hroute
  · cases hurgent

theorem reply_tryTakeChannel_of_busy {t : ThreadId} {h : Hosted} {c : Channel}
    (hs : s.platform = .hosted h) (busy : h.busy t c = true) :
    performAs t (.tryTakeChannel c) s = .reply false s := by
  simp only [performAs, hs, Hosted.takeChannel, busy, if_true]

theorem wait_takeChannel {t : ThreadId} {h : Hosted} {c : Channel} (hs : s.platform = .hosted h)
    (busy : h.busy t c = true) : performAs t (.takeChannel c) s = .wait := by
  simp only [performAs, hs, Hosted.takeChannel, busy, if_true]

theorem reply_currentSink {h : Hosted} (hs : s.platform = .hosted h) (t : ThreadId) :
    perform t Request.currentSink.demand s = .reply (some h.sink) s := by
  simp only [perform_demand, performAs, hs]

theorem reply_put {t : ThreadId} {c : Channel} (takes : s.Takes c) (piece : Piece) :
    performAs t (.put c piece) s = .reply true (s.put c piece) := by
  cases hs : s.platform with
  | hosted hosted =>
      have hok := Hosted.put_ok ((takes_hosted hs).mp takes) (s.spell piece)
      simp [performAs, put, hs, hok]
  | guest g => simp [performAs, put, hs]

theorem reply_endPrint (t : ThreadId) (c : Channel) (formatting : Formatting) :
    performAs t (.endPrint c formatting) s =
      .reply (s.finishOf formatting) (s.modifyUsers c (List.erase · t)) := by
  cases hs : s.platform <;> simp [performAs, modifyUsers, hs, Hosted.endPrint]

theorem reply_self (s : Session) (t : ThreadId) :
    perform t Request.self.demand s = .reply (s.tokenOf t) s := rfl

theorem reply_loadOwner (s : Session) (t : ThreadId) :
    perform t (Request.access .log .loadOwner).demand s = .reply (s.locks .log).owner s := by
  simp [perform_demand, performAs, CheckedMutex.perform, update_eq_self]

theorem reply_isLocked (s : Session) (t : ThreadId) :
    perform t (Request.access .log .isLocked).demand s = .reply (s.locks .log).raw.flag s := by
  simp [perform_demand, performAs, CheckedMutex.perform, update_eq_self, RawLock.isLocked]

theorem reply_formatsReals (t : ThreadId) :
    performAs t .formatsReals s = .reply s.formatsReals s := by
  cases hs : s.platform <;> simp [performAs, formatsReals, hs]

theorem put_modifyUsers (s : Session) (c d : Channel) (f : List ThreadId → List ThreadId)
    (piece : Piece) : (s.modifyUsers c f).put d piece = (s.put d piece).modifyUsers c f := by
  cases hs : s.platform with
  | hosted h =>
      have hspell : Session.spell { s with platform := .hosted { h with
          users := h.users.modify c f } } = s.spell := by rw [spell_eq, spell_eq]
      simp only [modifyUsers, put, hs]
      rw [Hosted.put_of_users, Hosted.put_users, hspell]
  | guest g => simp only [modifyUsers, put, hs]

theorem putAll_modifyUsers (s : Session) (c d : Channel) (f : List ThreadId → List ThreadId)
    (ps : List Piece) : (s.modifyUsers c f).putAll d ps = (s.putAll d ps).modifyUsers c f := by
  induction ps generalizing s with
  | nil => rfl
  | cons piece rest ih =>
      show ((s.modifyUsers c f).put d piece).putAll d rest =
        ((s.put d piece).putAll d rest).modifyUsers c f
      rw [put_modifyUsers, ih]

theorem putAll_append (s : Session) (c : Channel) (ps qs : List Piece) :
    s.putAll c (ps ++ qs) = (s.putAll c ps).putAll c qs :=
  List.foldl_append

theorem modifyUsers_erase_cons (s : Session) (c : Channel) (t : ThreadId) :
    (s.modifyUsers c (t :: ·)).modifyUsers c (List.erase · t) = s := by
  obtain ⟨_, _, platform⟩ := s
  cases platform with
  | hosted h => cases c <;> simp [modifyUsers, Users.modify]
  | guest g => rfl

/-- A print that has begun, put some pieces and ended leaves nothing but the pieces behind. -/
theorem reply_endPrint_putAll (s : Session) (t : ThreadId) (c : Channel) (ps : List Piece)
    (formatting : Formatting) :
    performAs t (.endPrint c formatting) ((s.modifyUsers c (t :: ·)).putAll c ps) =
      .reply (((s.modifyUsers c (t :: ·)).putAll c ps).finishOf formatting) (s.putAll c ps) := by
  rw [reply_endPrint, ← putAll_modifyUsers (s.modifyUsers c (t :: ·)), modifyUsers_erase_cons]

/-! ## Spelling -/

theorem spell_ofGroups (s : Session) (groups : List (List Char)) :
    (Piece.ofGroups groups).flatMap s.spell = Bytes.ofChars groups.flatten := by
  induction groups with
  | nil => rfl
  | cons group rest ih =>
      rw [List.flatten_cons, Bytes.ofChars_append, ← ih]
      rfl

theorem spell_shown (s : Session) (b : Bytes) : (Piece.shown b).flatMap s.spell = Lossy.text b := by
  rw [← Lossy.flatten_pieces]
  unfold Piece.shown
  induction Lossy.pieces b with
  | nil => rfl
  | cons x rest ih => exact congrArg (x ++ ·) ih

/-! ## Tasks that come through -/

/-- Thread `t` comes through a task with the given result: nothing has to wait, every request is
made in a session with the property `P`, and all that is written is the given text, to channel
`c`. -/
inductive Speaks (t : ThreadId) (c : Channel) (P : Session → Prop) {α : Type} :
    Task α → Session → Bytes → α → Session → Prop where
  | done {a : α} {s : Session} : Speaks t c P (.done a) s [] a s
  | ask {d : Demand} {next : d.Reply → Task α} {answer : d.Reply} {a : α} {b : Bytes}
      {s s₁ s₂ : Session} (here : P s) (takes : s.Takes c)
      (reply : perform t d s = .reply answer s₁) (only : d.request.WritesTo c)
      (rest : Speaks t c P (next answer) s₁ b a s₂) :
      Speaks t c P (.ask d next) s (s.written c d.request ++ b) a s₂

namespace Speaks

variable {t : ThreadId} {c : Channel} {P : Session → Prop} {α β : Type} {s s₁ s₂ : Session}
  {b b' : Bytes}

theorem bind {p : Task α} {f : α → Task β} {a : α} {a' : β} (first : Speaks t c P p s b a s₁)
    (second : Speaks t c P (f a) s₁ b' a' s₂) : Speaks t c P (p >>= f) s (b ++ b') a' s₂ := by
  induction first with
  | done => exact second
  | ask here takes reply only rest ih =>
      rw [List.append_assoc]
      exact .ask here takes reply only (ih second)

theorem run_eq {p : Task α} {a : α} (h : Speaks t c P p s b a s₁) :
    p.run (perform t) s = .finished a s₁ := by
  induction h with
  | done => rfl
  | ask here takes reply only rest ih => rw [Program.run_ask_of_reply reply, ih]

theorem here {d : Demand} {next : d.Reply → Task α} {a : α}
    (h : Speaks t c P (.ask d next) s b a s₁) : P s := by
  cases h with
  | ask here takes reply only rest => exact here

theorem hasText {p : Task α} {a : α} (h : Speaks t c P p s b a s₁) {text : Bytes}
    (ht : s.HasText c text) : s₁.HasText c (text ++ b) := by
  induction h generalizing text with
  | done => rwa [List.append_nil]
  | @ask d next answer a b s s₁ s₂ here takes reply only rest ih =>
      have hstep : s₁.HasText c (text ++ s.written c d.request) := by
        refine hasText_of_reply reply (undisturbed_of_writesTo only s) (fun k piece hput => ?_) ht
        rw [hput] at only
        exact only ▸ takes
      rw [← List.append_assoc]
      exact ih hstep

theorem step {d : Demand} {next : d.Reply → Task α} {answer : d.Reply} {a : α}
    (h : Speaks t c P (.ask d next) s b a s₂) (hreply : perform t d s = .reply answer s₁)
    {text : Bytes} (ht : s.HasText c text) :
    ∃ b', b = s.written c d.request ++ b' ∧ s₁.HasText c (text ++ s.written c d.request) ∧
      Speaks t c P (next answer) s₁ b' a s₂ := by
  cases h with
  | ask here takes reply only rest =>
      rw [reply] at hreply
      cases hreply
      refine ⟨_, rfl, hasText_of_reply reply (undisturbed_of_writesTo only s)
        (fun k piece hput => ?_) ht, rest⟩
      rw [hput] at only
      exact only ▸ takes

theorem request {r : Request} {answer : r.Reply} (here : P s) (takes : s.Takes c)
    (reply : performAs t r s = .reply answer s₁) (only : r.WritesTo c)
    (silent : s.written c r = []) : Speaks t c P (Request.make r) s [] answer s₁ := by
  have h : Speaks t c P (Request.make r) s (s.written c r ++ []) answer s₁ :=
    .ask here takes reply only .done
  rwa [silent] at h

end Speaks

/-! ## Prints -/

section Prints

variable {t : ThreadId} {c : Channel} {P : Session → Prop} {s : Session}

theorem speaks_deliver (takes : s.Takes c) (hP : ∀ s', Alike s s' → P s') (ps : List Piece) :
    Speaks t c P (Log.deliver c (Message.ofPieces ps)) s (ps.flatMap s.spell) .complete
      (s.putAll c ps) := by
  induction ps generalizing s with
  | nil => exact .done
  | cons piece rest ih =>
      have halike := alike_put s c piece
      have hrest := ih (takes.put c piece) fun s' h => hP s' (halike.trans h)
      rw [halike.spell] at hrest
      have hwritten : s.written c (.put c piece) = s.spell piece := if_pos rfl
      rw [List.flatMap_cons, ← hwritten]
      exact .ask (hP s (Alike.refl s)) takes (reply_put takes piece) rfl hrest

theorem speaks_ask {r : Request} {answer : r.Reply} {s₁ : Session} (here : P s)
    (takes : s.Takes c) (reply : performAs t r s = .reply answer s₁) (only : r.WritesTo c)
    (silent : s.written c r = []) {α : Type} {next : r.Reply → Task α} {b : Bytes} {a : α}
    {s₂ : Session} (rest : Speaks t c P (next answer) s₁ b a s₂) :
    Speaks t c P (.ask r.demand next) s b a s₂ := by
  have h : Speaks t c P (.ask r.demand next) s (s.written c r ++ b) a s₂ :=
    .ask here takes reply only rest
  rwa [silent] at h

theorem speaks_takeChannel (here : P s) (takes : s.Takes c) (free : s.Free t c)
    (urgency : Urgency) :
    Speaks t c P (Log.takeChannel urgency c) s [] c (s.modifyUsers c (t :: ·)) := by
  unfold Log.takeChannel
  split
  · exact speaks_ask here takes (reply_tryTakeChannel free) trivial rfl .done
  · exact speaks_ask here takes (reply_takeChannel free) trivial rfl .done

theorem speaks_takeOutlet (here : P s) (takes : s.Takes c) (free : s.Free t c)
    (urgency : Urgency) {outlet : Outlet} (leads : outlet.channel? = some c) :
    Speaks t c P (Log.takeOutlet urgency outlet) s [] (some c) (s.modifyUsers c (t :: ·)) := by
  unfold Log.takeOutlet
  rw [leads]
  exact (speaks_takeChannel here takes free urgency).bind .done

theorem speaks_beginPatient (here : P s) (takes : s.Takes c) (free : s.Free t c)
    (leads : s.outlet.channel? = some c) :
    Speaks t c P Log.beginPatient s [] (some c) (s.modifyUsers c (t :: ·)) :=
  speaks_ask here takes (reply_beginPrint s t .patient) trivial rfl
    (speaks_takeOutlet here takes free .patient leads)

theorem speaks_takeChannel_of_busy {h : Hosted} (hs : s.platform = .hosted h) (here : P s)
    (takes : s.Takes .standardError) (busy : h.busy t .file = true)
    (free : s.Free t .standardError) :
    Speaks t .standardError P (Log.takeChannel .urgent .file) s [] .standardError
      (s.modifyUsers .standardError (t :: ·)) :=
  speaks_ask here takes (reply_tryTakeChannel_of_busy hs busy) trivial rfl
    (speaks_ask here takes (reply_takeChannel free) trivial rfl .done)

theorem speaks_beginUrgent (h : s.Prints t .urgent c) (here : P s) :
    Speaks t c P Log.beginUrgent s [] (some c) (s.modifyUsers c (t :: ·)) := by
  have takes := h.takes
  refine speaks_ask here takes (reply_beginPrint s t .urgent) trivial rfl ?_
  show Speaks t c P (if s.outlet = .sink .unresolved then _ else _) s [] (some c) _
  obtain ⟨free, leads⟩ | ⟨-, hosted, hs, busy, hfile, rfl, free⟩ := h.route
  · split
    · exact speaks_beginPatient here takes free leads
    · exact speaks_takeOutlet here takes free .urgent leads
  · have houtlet : s.outlet = .sink hosted.sink := by simp only [outlet, hs]
    have hchosen : s.outlet ≠ .sink .unresolved := by
      intro hunset
      rw [Outlet.sink.inj (houtlet.symm.trans hunset)] at hfile
      cases hfile
    have leads : s.outlet.channel? = some .file := by rw [houtlet, Outlet.channel?, hfile]
    rw [if_neg hchosen, Log.takeOutlet, leads]
    exact (speaks_takeChannel_of_busy hs here takes busy free).bind .done

theorem speaks_beginPrint {urgency : Urgency} (h : s.Prints t urgency c) (here : P s) :
    Speaks t c P (Log.beginPrint urgency) s [] (some c) (s.modifyUsers c (t :: ·)) := by
  cases urgency with
  | patient =>
      obtain ⟨free, leads⟩ := h.route_patient
      exact speaks_beginPatient here h.takes free leads
  | urgent => exact speaks_beginUrgent h here

theorem speaks_printWith {urgency : Urgency} (h : s.Prints t urgency c)
    (hP : ∀ s', Alike s s' → P s') (ps : List Piece) :
    Speaks t c P (Log.printWith urgency (Message.ofPieces ps)) s (ps.flatMap s.spell) .returned
      (s.putAll c ps) := by
  have halike := alike_modifyUsers s c (t :: ·)
  have hpieces := speaks_deliver (t := t) (h.takes.modifyUsers c (t :: ·))
    (fun s' h' => hP s' (halike.trans h')) ps
  rw [halike.spell] at hpieces
  have hsaid := alike_putAll (s.modifyUsers c (t :: ·)) c ps
  have hreply := reply_endPrint_putAll s t c ps .complete
  have hend : Speaks t c P (Request.make (.endPrint c .complete))
      ((s.modifyUsers c (t :: ·)).putAll c ps) [] .returned (s.putAll c ps) :=
    .request (hP _ (halike.trans hsaid)) ((h.takes.modifyUsers c _).putAll c ps) hreply trivial rfl
  have hall := hpieces.bind (f := fun formatting => Request.make (.endPrint c formatting)) hend
  rw [List.append_nil] at hall
  exact (speaks_beginPrint h (hP s (Alike.refl s))).bind hall

theorem speaks_printPieces (h : s.Prints t .patient c) (hP : ∀ s', Alike s s' → P s')
    (ps : List Piece) :
    Speaks t c P (Log.printPieces ps) s (ps.flatMap s.spell) () (s.putAll c ps) := by
  have hprint := (speaks_printWith h hP ps).bind (f := fun _ => pure ()) .done
  rwa [List.append_nil] at hprint

end Prints

end Session

end DiagnosticLog
