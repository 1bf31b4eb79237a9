import DiagnosticLog.Proofs.Session.Move

/-!
# What the destinations of a session hold

The text of a destination is what has been delivered there, followed by what its buffer still
keeps.  `hasText_of_reply` says once and for all what requests do to texts: a piece that is put to a
channel, and a complaint on standard error, are appended to the text of that channel, and nothing
else changes any text.
-/

namespace DiagnosticLog

namespace Hosted

def kept (h : Hosted) : Channel → Bytes
  | .standardOut => h.out.kept
  | .file =>
      match h.stream with
      | some (.file _ w) => w.kept
      | _ => []
  | _ => []

/-- Whether the bytes delivered through a channel could be these.  Before a file is opened nothing
is delivered to it, and a process has no consoles. -/
def Delivered (h : Hosted) : Channel → Bytes → Prop
  | .standardOut, b => h.out.delivered.text = b
  | .standardError, b => h.err.text = b
  | .file, b =>
      match h.stream with
      | some (.file _ w) => h.tree.Took w.target b
      | _ => b = []
  | .console _, _ => True

def HasText (h : Hosted) (c : Channel) (text : Bytes) : Prop :=
  ∃ sent, h.Delivered c sent ∧ sent ++ h.kept c = text

def Takes (h : Hosted) : Channel → Prop
  | .standardOut => True
  | .standardError => True
  | .file => ∃ path w, h.stream = some (.file path w) ∧ w.target.accepts
  | .console _ => False

theorem hasText_standardOut {h : Hosted} {text : Bytes} :
    h.HasText .standardOut text ↔ h.out.text = text := by
  simp [HasText, Delivered, kept, Buffered.text]

theorem hasText_standardError {h : Hosted} {text : Bytes} :
    h.HasText .standardError text ↔ h.err.text = text := by
  simp [HasText, Delivered, kept]

theorem hasText_file {h : Hosted} {path : Bytes} {w : Writer}
    (hstream : h.stream = some (.file path w)) {text : Bytes} :
    h.HasText .file text ↔ ∃ sent, h.tree.Took w.target sent ∧ sent ++ w.kept = text := by
  simp [HasText, Delivered, kept, hstream]

/-! ## Pieces -/

theorem put_ok {h : Hosted} {c : Channel} (takes : h.Takes c) (x : Bytes) :
    (h.put c x).1 = true := by
  cases c with
  | file =>
      obtain ⟨path, w, hstream, accepts⟩ := takes
      simp only [put, hstream, accepts]
      exact (LineBuffer.write_accepting x w.kept).1
  | _ => rfl

theorem put_rest (h : Hosted) (c : Channel) (x : Bytes) :
    (h.put c x).2.users = h.users ∧ (h.put c x).2.environment = h.environment ∧
      (h.put c x).2.opened = h.opened := by
  cases c with
  | file =>
      unfold put
      cases h.stream with
      | none => exact ⟨rfl, rfl, rfl⟩
      | some stream => cases stream <;> exact ⟨rfl, rfl, rfl⟩
  | _ => exact ⟨rfl, rfl, rfl⟩

theorem put_users (h : Hosted) (c : Channel) (x : Bytes) : (h.put c x).2.users = h.users :=
  (h.put_rest c x).1

theorem sink_put (h : Hosted) (c : Channel) (x : Bytes) : (h.put c x).2.sink = h.sink := by
  cases c with
  | file =>
      unfold put sink
      cases hstream : h.stream with
      | none => simp [hstream]
      | some stream => cases stream <;> simp [hstream, Stream.sink]
  | _ => rfl

theorem busy_put (h : Hosted) (c : Channel) (x : Bytes) (t : ThreadId) (d : Channel) :
    (h.put c x).2.busy t d = h.busy t d := by
  unfold busy
  rw [put_users]

theorem destination_put (h : Hosted) (c : Channel) (x : Bytes) (t : ThreadId)
    (urgency : Urgency) : (h.put c x).2.destination t urgency = h.destination t urgency := by
  unfold destination channel
  rw [sink_put, busy_put]

theorem put_of_users (h : Hosted) (users : Users) (c : Channel) (x : Bytes) :
    (Hosted.put { h with users } c x).2 = { (h.put c x).2 with users } := by
  cases c with
  | file =>
      cases hstream : h.stream with
      | none => simp [put, hstream]
      | some stream => cases stream <;> simp [put, hstream]
  | _ => rfl

theorem takes_put {h : Hosted} {d : Channel} (takes : h.Takes d) (c : Channel) (x : Bytes) :
    (h.put c x).2.Takes d := by
  cases d with
  | file =>
      obtain ⟨path, w, hstream, accepts⟩ := takes
      cases c with
      | file =>
          simp only [put, hstream]
          exact ⟨path, _, rfl, accepts⟩
      | _ => exact ⟨path, w, hstream, accepts⟩
  | _ => exact takes

theorem HasText.put_self {h : Hosted} {c : Channel} {text : Bytes} (ht : h.HasText c text)
    (takes : h.Takes c) (x : Bytes) : (h.put c x).2.HasText c (text ++ x) := by
  cases c with
  | standardOut =>
      rw [hasText_standardOut] at ht ⊢
      simp only [put, Buffered.text_write, ht]
  | standardError =>
      rw [hasText_standardError] at ht ⊢
      simp only [put, Transcript.text_add, ht]
  | file =>
      obtain ⟨path, w, hstream, accepts⟩ := takes
      obtain ⟨sent, htook, hsent⟩ := (hasText_file hstream).mp ht
      have hall := (LineBuffer.write_accepting x w.kept).2
      simp only [LineBuffer.Delivery.all] at hall
      simp only [put, hstream, accepts]
      refine ⟨_, htook.deliver accepts _, ?_⟩
      show sent ++ (LineBuffer.write true x w.kept).sent ++
        (LineBuffer.write true x w.kept).kept = _
      rw [List.append_assoc, hall, ← List.append_assoc, hsent]
  | console id => exact takes.elim

theorem HasText.put_other {h : Hosted} {c d : Channel} {text : Bytes} (ht : h.HasText d text)
    (hne : d ≠ c) (x : Bytes) : (h.put c x).2.HasText d text := by
  cases c with
  | file =>
      cases hstream : h.stream with
      | none => simpa only [put, hstream] using ht
      | some stream =>
          cases stream with
          | file path w =>
              simp only [put, hstream]
              cases d with
              | file => exact absurd rfl hne
              | _ => exact ht
          | _ => simpa only [put, hstream] using ht
  | standardOut =>
      cases d with
      | standardOut => exact absurd rfl hne
      | _ => exact ht
  | standardError =>
      cases d with
      | standardError => exact absurd rfl hne
      | _ => exact ht
  | console id => exact ht

/-! ## What else happens to a process -/

theorem HasText.flushOut {h : Hosted} {c : Channel} {text : Bytes} (ht : h.HasText c text) :
    HasText { h with out := h.out.flush } c text := by
  cases c with
  | standardOut =>
      rw [hasText_standardOut] at ht ⊢
      exact (Buffered.text_flush h.out).trans ht
  | _ => exact ht

theorem HasText.push {h : Hosted} {c : Channel} {text : Bytes} (ht : h.HasText c text)
    (d : Channel) : (h.push d).HasText c text := by
  cases d with
  | standardOut => exact ht.flushOut
  | standardError | console => exact ht
  | file =>
      simp only [Hosted.push]
      split
      · rename_i path w hstream
        cases c with
        | file =>
            obtain ⟨sent, htook, hsent⟩ := (hasText_file hstream).mp ht
            cases haccepts : w.target.accepts with
            | true =>
                refine ⟨_, htook.deliver haccepts w.kept, ?_⟩
                show sent ++ w.kept ++ [] = text
                rw [List.append_nil, hsent]
            | false =>
                have hfull : w.target = .device .full := by
                  rcases htarget : w.target with location | (_ | _) <;>
                    simp_all [Target.accepts]
                refine ⟨sent, ?_, hsent⟩
                show (h.tree.deliver w.target _).Took w.target sent
                rw [hfull] at htook ⊢
                exact htook
        | _ => exact ht
      · exact ht

theorem push_rest (h : Hosted) (c : Channel) :
    (h.push c).users = h.users ∧ (h.push c).environment = h.environment ∧
      (h.push c).opened = h.opened := by
  cases c with
  | file =>
      simp only [push]
      split <;> exact ⟨rfl, rfl, rfl⟩
  | _ => exact ⟨rfl, rfl, rfl⟩

theorem users_push (h : Hosted) (c : Channel) : (h.push c).users = h.users :=
  (h.push_rest c).1

theorem sink_push (h : Hosted) (c : Channel) : (h.push c).sink = h.sink := by
  cases c with
  | file =>
      unfold push sink
      cases hstream : h.stream with
      | none => simp [hstream]
      | some stream => cases stream <;> simp [hstream, Stream.sink]
  | _ => rfl

theorem kept_push {h : Hosted} {c : Channel} (takes : h.Takes c) : (h.push c).kept c = [] := by
  cases c with
  | file =>
      obtain ⟨path, w, hstream, accepts⟩ := takes
      simp [push, hstream, kept, LineBuffer.flush, accepts]
  | _ => rfl

theorem kept_push_of_ne {h : Hosted} {c d : Channel} (hc : c ≠ d) :
    (h.push d).kept c = h.kept c := by
  cases d with
  | standardOut =>
      cases c with
      | standardOut => exact absurd rfl hc
      | _ => rfl
  | file =>
      simp only [push]
      split
      · cases c with
        | file => exact absurd rfl hc
        | _ => rfl
      · rfl
  | _ => rfl

theorem HasText.modifyUsers {h : Hosted} {c : Channel} {text : Bytes} (ht : h.HasText c text)
    (users : Users) : HasText { h with users } c text := by
  cases c <;> exact ht

theorem HasText.complain_self {h : Hosted} {text : Bytes} (ht : h.HasText .standardError text)
    (x : Bytes) : HasText { h with err := h.err.add x } .standardError (text ++ x) := by
  rw [hasText_standardError] at ht ⊢
  exact (Transcript.text_add h.err x).trans (congrArg (· ++ x) ht)

theorem HasText.complain_other {h : Hosted} {c : Channel} {text : Bytes} (ht : h.HasText c text)
    (hne : c ≠ .standardError) (x : Bytes) : HasText { h with err := h.err.add x } c text := by
  cases c with
  | standardError => exact absurd rfl hne
  | _ => exact ht

theorem HasText.file_unresolved {h : Hosted} {text : Bytes} (ht : h.HasText .file text)
    (unresolved : h.sink = .unresolved) : text = [] := by
  obtain ⟨sent, hsent, rfl⟩ := ht
  have hstream := stream_of_unresolved unresolved
  have hnone : sent = [] := by simpa [Delivered, hstream] using hsent
  simp [hnone, kept, hstream]

/-- What the threads have opened is empty for as long as the log is not set up. -/
def Fresh (h : Hosted) : Prop :=
  h.stream = none → ∀ t path w, h.opened t = some (.file path w) →
    w.kept = [] ∧ h.tree.Took w.target []

theorem Fresh.put {h : Hosted} (fresh : h.Fresh) (c : Channel) (x : Bytes) :
    (h.put c x).2.Fresh := by
  cases c with
  | file =>
      simp only [Hosted.put]
      split
      · exact fun unset => nomatch unset
      · exact fresh
  | _ => exact fresh

theorem Fresh.push {h : Hosted} (fresh : h.Fresh) (c : Channel) : (h.push c).Fresh := by
  cases c with
  | file =>
      simp only [Hosted.push]
      split
      · exact fun unset => nomatch unset
      · exact fresh
  | _ => exact fresh

theorem Fresh.opening {h h' : Hosted} {t : ThreadId} {wanted : Sink}
    {reply : Except OpenError Unit} (fresh : h.Fresh) (opening : h.Opening t wanted reply h') :
    h'.Fresh := by
  intro unset u path w hopened
  cases opening with
  | failed => exact fresh unset u path w hopened
  | standardOut | standardError =>
      by_cases hu : u = t
      · simp [hu] at hopened
      · exact fresh unset u path w (by simpa [hu] using hopened)
  | file opens =>
      have hemptied := (FileTree.openPath_eq opens.leads).1
      by_cases hu : u = t
      · obtain ⟨rfl, rfl⟩ : _ ∧ _ := by simpa [hu] using hopened
        exact ⟨rfl, FileTree.took_openPath opens.leads⟩
      · obtain ⟨hkept, htook⟩ := fresh unset u path w (by simpa [hu] using hopened)
        rw [hemptied]
        exact ⟨hkept, htook.emptied _⟩

theorem Fresh.publication {h h' : Hosted} {t : ThreadId} {reply : Option Sink} (fresh : h.Fresh)
    (publication : h.Publication t reply h') : h'.Fresh := by
  cases publication with
  | first => exact fun unset => nomatch unset
  | late =>
      intro unset u path w hopened
      by_cases hu : u = t
      · simp [hu] at hopened
      · exact fresh unset u path w (by simpa [hu] using hopened)

/-- Opening a sink empties no file that the log has been written to, if none has been chosen. -/
theorem HasText.opening {h h' : Hosted} {t : ThreadId} {wanted : Sink}
    {reply : Except OpenError Unit} {c : Channel} {text : Bytes} (ht : h.HasText c text)
    (opening : h.Opening t wanted reply h')
    (unresolved : c = .file → reply = .ok () → h.sink = .unresolved) : h'.HasText c text := by
  cases c with
  | file =>
      cases opening with
      | failed => exact ht
      | _ =>
          have unset := stream_of_unresolved (unresolved rfl rfl)
          have hnone := ht.file_unresolved (unresolved rfl rfl)
          exact ⟨[], by simp [Delivered, unset], by simp [kept, unset, hnone]⟩
  | _ => cases opening <;> exact ht

theorem HasText.publication {h h' : Hosted} {t : ThreadId} {reply : Option Sink} {c : Channel}
    {text : Bytes} (ht : h.HasText c text) (publication : h.Publication t reply h')
    (fresh : h.Fresh) : h'.HasText c text := by
  cases publication with
  | late unable => cases c <;> exact ht
  | @first stream unset opened =>
      cases c with
      | file =>
          have hnone := ht.file_unresolved (by rw [sink, unset]; rfl)
          cases stream with
          | file path w =>
              obtain ⟨hkept, htook⟩ := fresh unset t path w opened
              exact ⟨[], htook, by simp [kept, hkept, hnone]⟩
          | _ => exact ⟨[], rfl, hnone.symm⟩
      | _ => exact ht

theorem Takes.of_stream {h h' : Hosted} {c : Channel} (takes : h.Takes c)
    (hstream : ∀ path w, h.stream = some (.file path w) →
      ∃ kept, h'.stream = some (.file path { w with kept })) : h'.Takes c := by
  cases c with
  | file =>
      obtain ⟨path, w, hfile, accepts⟩ := takes
      obtain ⟨kept, hfile'⟩ := hstream path w hfile
      exact ⟨path, _, hfile', accepts⟩
  | _ => exact takes

end Hosted

namespace Hosted

theorem Fresh.move {t : ThreadId} {s : Session} {h h' : Hosted} {r : Request} {answer : r.Reply}
    (fresh : h.Fresh) (move : Move t s r answer h h') : h'.Fresh := by
  cases move with
  | put => exact fresh.put _ _
  | flush => exact fresh.push _
  | openSink opening => exact fresh.opening opening
  | publishSink publication => exact fresh.publication publication
  | _ => exact fresh

section Moves

variable {t : ThreadId} {s : Session} {h h' : Hosted} {r : Request} {answer : r.Reply}

theorem sink_of_move (move : Move t s r answer h h') (hr : r ≠ .publishSink) :
    h'.sink = h.sink := by
  cases move with
  | put => exact sink_put h _ _
  | flush => exact sink_push h _
  | openSink opening => rw [opening.rest, sink, sink]
  | publishSink => exact absurd rfl hr
  | _ => rfl

theorem environment_of_move (move : Move t s r answer h h') : h'.environment = h.environment := by
  cases move with
  | put => exact (h.put_rest _ _).2.1
  | flush free => exact (h.push_rest _).2.1
  | openSink opening => rw [opening.rest]
  | publishSink publication => cases publication <;> rfl
  | _ => rfl

theorem opened_of_move (move : Move t s r answer h h') (hopen : ∀ path, r ≠ .openSink path)
    (hpublish : r ≠ .publishSink) : h'.opened = h.opened := by
  cases move with
  | put => exact (h.put_rest _ _).2.2
  | flush free => exact (h.push_rest _).2.2
  | openSink opening => exact absurd rfl (hopen _)
  | publishSink publication => exact absurd rfl hpublish
  | _ => rfl

end Moves

theorem fresh_start (environment : String → Option Bytes) (tree : FileTree) :
    (start environment tree).Fresh :=
  fun _ _ _ _ hopened => nomatch hopened

/-- The request does not touch the file that the log is written to but through its writer: it opens
no sink after one has been chosen, and it sets the log up with nothing that has a text. -/
def Undisturbed (h : Hosted) : Request → Prop
  | .openSink _ => h.sink = .unresolved
  | .publishSink => h.Fresh
  | _ => True

end Hosted

/-! ## Sessions -/

namespace Session

def HasText (s : Session) (c : Channel) (text : Bytes) : Prop :=
  match s.platform with
  | .hosted h => h.HasText c text
  | .guest g => ∀ id, c = .console id → g.text id = text

def Takes (s : Session) (c : Channel) : Prop :=
  match s.platform with
  | .hosted h => h.Takes c
  | .guest _ => ∃ id, c = .console id

def Undisturbed (s : Session) (r : Request) : Prop :=
  match s.platform with
  | .hosted h => h.Undisturbed r
  | .guest _ => True

def written (s : Session) (c : Channel) : Request → Bytes
  | .put d piece => if d = c then s.spell piece else []
  | .complain text => if c = .standardError then text else []
  | _ => []

variable {t : ThreadId} {s s' : Session}

theorem undisturbed_of_ne (s : Session) {r : Request} (hopen : ∀ path, r ≠ .openSink path)
    (hpublish : r ≠ .publishSink) : s.Undisturbed r := by
  unfold Undisturbed
  split
  · cases r with
    | openSink path => exact absurd rfl (hopen path)
    | publishSink => exact absurd rfl hpublish
    | _ => trivial
  · trivial

theorem hasText_hosted {h : Hosted} (hs : s.platform = .hosted h) {c : Channel} {text : Bytes} :
    s.HasText c text ↔ h.HasText c text := by
  simp only [HasText, hs]

theorem takes_hosted {h : Hosted} (hs : s.platform = .hosted h) {c : Channel} :
    s.Takes c ↔ h.Takes c := by
  simp only [Takes, hs]

theorem HasText.of_platform {c : Channel} {text : Bytes} (ht : s.HasText c text)
    (h : s'.platform = s.platform) : s'.HasText c text := by
  simpa only [HasText, h] using ht

theorem written_of_not_reaches {r : Request} (hr : r.reachesPlatform = false) (s : Session)
    (c : Channel) : s.written c r = [] := by
  cases r <;> first | rfl | simp [Request.reachesPlatform] at hr

theorem hasText_of_move {h h' : Hosted} {r : Request} {answer : r.Reply}
    (move : Hosted.Move t s r answer h h') (undisturbed : h.Undisturbed r)
    (takes : ∀ d piece, r = .put d piece → h.Takes d)
    {c : Channel} {text : Bytes} (ht : h.HasText c text) :
    h'.HasText c (text ++ s.written c r) := by
  cases move with
  | beginPrint => simpa [written] using ht
  | takeChannel free | tryTakeChannel free => simpa [written] using ht.modifyUsers _
  | refuse busy => simpa [written] using ht
  | @put _ d piece =>
      by_cases hd : d = c
      · subst hd
        simpa [written] using ht.put_self (takes d piece rfl) (s.spell piece)
      · simpa [written, hd] using ht.put_other (Ne.symm hd) (s.spell piece)
  | endPrint => simpa [written, Hosted.endPrint] using ht.modifyUsers _
  | @complain _ x free =>
      by_cases hc : c = .standardError
      · subst hc
        simpa [written] using ht.complain_self x
      · simpa [written, hc] using ht.complain_other hc x
  | flush free => simpa [written] using ht.push _
  | passBy passes => simpa [written] using ht
  | openSink opening => simpa [written] using ht.opening opening fun _ _ => undisturbed
  | publishSink publication => simpa [written] using ht.publication publication undisturbed
  | noConsole => simpa [written] using ht
  | other hr =>
      rw [written_of_not_reaches hr, List.append_nil]
      exact ht

theorem hasText_of_guestMove {g g' : Guest} {r : Request} {answer : r.Reply}
    (move : Guest.Move s r answer g g') {c : Channel} {text : Bytes}
    (ht : ∀ id, c = .console id → g.text id = text) :
    ∀ id, c = .console id → g'.text id = text ++ s.written c r := by
  rintro id rfl
  have hid := ht id rfl
  cases move with
  | @put _ d piece =>
      cases d with
      | console k =>
          rw [Guest.text_put, hid]
          by_cases hk : id = k
          · simp [written, hk]
          · simp [written, hk, Ne.symm hk]
      | _ => simpa [written, Guest.put] using hid
  | installConsole =>
      show (g.install _).2.text id = text ++ []
      rw [List.append_nil, ← hid]
      unfold Guest.install
      split <;> rfl
  | other hr =>
      rw [hid]
      cases r <;> first | exact (List.append_nil _).symm | simp [Request.reachesConsole] at hr

theorem hasText_of_reply {r : Request} {answer : r.Reply}
    (reply : performAs t r s = .reply answer s') (undisturbed : s.Undisturbed r)
    (takes : ∀ d piece, r = .put d piece → s.Takes d) {c : Channel} {text : Bytes}
    (ht : s.HasText c text) : s'.HasText c (text ++ s.written c r) := by
  cases hs : s.platform with
  | hosted h =>
      obtain ⟨h', hs', move⟩ := move_of_reply hs reply
      rw [hasText_hosted hs']
      have hundisturbed : h.Undisturbed r := by simpa only [Undisturbed, hs] using undisturbed
      refine hasText_of_move move hundisturbed (fun d piece hr => ?_) ((hasText_hosted hs).mp ht)
      exact (takes_hosted hs).mp (takes d piece hr)
  | guest g =>
      obtain ⟨g', hs', move⟩ := move_of_reply_guest hs reply
      simp only [HasText, hs] at ht
      simp only [HasText, hs']
      exact hasText_of_guestMove move ht

end Session

end DiagnosticLog
