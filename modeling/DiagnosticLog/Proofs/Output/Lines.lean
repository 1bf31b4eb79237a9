import DiagnosticLog.Proofs.LineEnd.Conversion
import DiagnosticLog.Proofs.Output.Routing

/-!
# Delivery by lines

What is kept back of a text is the beginning of one line, and never more than a buffer has room for.
`OpenLine.write` is the fact about buffers behind that; `Hosted.receives_of_move` carries it to the
destinations of a process, whatever is requested of it.
-/

namespace DiagnosticLog

/-! ## Buffers -/

namespace LineBuffer

variable {x kept lines tail : Bytes}

theorem not_mem_of_splitLines_none (h : splitLines x = none) : Bytes.lineFeed ∉ x := by
  induction x with
  | nil => exact List.not_mem_nil
  | cons b rest ih =>
      cases hrest : splitLines rest with
      | none =>
          by_cases hb : b = Bytes.lineFeed
          · simp [splitLines, hrest, hb] at h
          · rw [List.mem_cons, not_or]
            exact ⟨Ne.symm hb, ih hrest⟩
      | some found => simp [splitLines, hrest] at h

theorem not_mem_of_splitLines_some (h : splitLines x = some (lines, tail)) :
    Bytes.lineFeed ∉ tail := by
  induction x generalizing lines tail with
  | nil => simp [splitLines] at h
  | cons b rest ih =>
      cases hrest : splitLines rest with
      | none =>
          by_cases hb : b = Bytes.lineFeed
          · simp [splitLines, hrest, hb] at h
            rw [← h.2]
            exact not_mem_of_splitLines_none hrest
          · simp [splitLines, hrest, hb] at h
      | some found =>
          obtain ⟨l, t⟩ := found
          simp [splitLines, hrest] at h
          rw [← h.2]
          exact ih hrest

/-- The beginning of a line, for which a buffer has room. -/
structure OpenLine (kept : Bytes) : Prop where
  unfinished : Bytes.lineFeed ∉ kept
  fits : kept.length ≤ capacity

theorem openLine_nil : OpenLine [] :=
  ⟨List.not_mem_nil, Nat.zero_le _⟩

theorem length_put_le (fits : kept.length ≤ capacity) (x : Bytes) :
    (put true x kept).kept.length ≤ capacity := by
  by_cases hspace : x.length < capacity - kept.length
  · simp only [put, hspace, if_true, hold, List.length_append]
    omega
  · by_cases hroom : x.length > capacity - kept.length
    · by_cases hlong : x.length ≥ capacity
      · simp [put, hspace, hroom, hlong, flush, Delivery.andThen, direct]
      · simp only [put, hspace, hroom, hlong, flush, Delivery.andThen, hold, if_true, if_false,
          List.nil_append]
        omega
    · by_cases hlong : x.length ≥ capacity
      · simpa [put, hspace, hroom, hlong, Delivery.andThen, direct, hold] using fits
      · simp only [put, hspace, hroom, hlong, Delivery.andThen, hold, if_true, if_false,
          List.length_append]
        omega

theorem OpenLine.put (line : OpenLine kept) (hx : Bytes.lineFeed ∉ x) :
    OpenLine (put true x kept).kept where
  unfinished := by
    have hsuffix : (LineBuffer.put true x kept).kept <:+ kept ++ x :=
      ⟨_, (put_accepting x kept).2⟩
    intro hmem
    rcases List.mem_append.mp (hsuffix.subset hmem) with hkept | hpiece
    · exact line.unfinished hkept
    · exact hx hpiece
  fits := length_put_le line.fits x

theorem OpenLine.write (line : OpenLine kept) (x : Bytes) :
    OpenLine (write true x kept).kept := by
  cases hx : splitLines x with
  | none =>
      have hput := line.put (not_mem_of_splitLines_none hx)
      simpa [LineBuffer.write, hx, settle_of_not_mem line.unfinished, Delivery.andThen, hold]
        using hput
  | some found =>
      obtain ⟨lines, tail⟩ := found
      have hput := openLine_nil.put (not_mem_of_splitLines_some hx)
      -- The completed lines have taken with them what was kept before.
      have hout : ∀ out : Delivery, out.ok = true → out.kept = [] →
          OpenLine (out.andThen (LineBuffer.put true tail)).kept := by
        intro out hok hkept
        simpa [Delivery.andThen, hok, hkept] using hput
      simp only [LineBuffer.write, hx]
      by_cases hempty : kept.isEmpty
      · rw [if_pos hempty]
        exact hout _ rfl (List.isEmpty_iff.mp hempty)
      · rw [if_neg hempty]
        have hok := (put_accepting lines kept).1
        apply hout <;> simp [Delivery.andThen, hok, LineBuffer.flush]

theorem OpenLine.prefix_of {sent : Bytes} (line : OpenLine kept)
    (h : lines ++ [Bytes.lineFeed] <+: sent ++ kept) : lines ++ [Bytes.lineFeed] <+: sent := by
  obtain ⟨more, hmore⟩ := h
  rcases List.append_eq_append_iff.mp hmore with ⟨rest, hsent, -⟩ | ⟨rest, hlines, hkept⟩
  · exact ⟨rest, hsent.symm⟩
  · cases hlast : rest.getLast? with
    | none =>
        refine ⟨[], ?_⟩
        rw [List.append_nil, hlines, List.getLast?_eq_none_iff.mp hlast, List.append_nil]
    | some b =>
        have hb : b = Bytes.lineFeed := by
          have hend := congrArg List.getLast? hlines
          simp [List.getLast?_append, hlast] at hend
          exact hend.symm
        have hmem : Bytes.lineFeed ∈ kept := by
          rw [hkept, ← hb]
          exact List.mem_append_left more (List.mem_of_getLast? hlast)
        exact absurd hmem line.unfinished

theorem OpenLine.eq_nil {sent text : Bytes} (line : OpenLine kept) (htext : sent ++ kept = text)
    (hlast : text.getLast? = some Bytes.lineFeed) : kept = [] := by
  cases hkept : kept.getLast? with
  | none => exact List.getLast?_eq_none_iff.mp hkept
  | some b =>
      rw [← htext, List.getLast?_append, hkept] at hlast
      cases hlast
      exact absurd (List.mem_of_getLast? hkept) line.unfinished

end LineBuffer

/-! ## Destinations -/

namespace Hosted

variable {h h' : Hosted} {t : ThreadId} {s : Session} {r : Request} {answer : r.Reply}

/-- Whether a channel is behind a line buffer whose device takes its writes. -/
def Buffers (h : Hosted) : Channel → Prop
  | .standardOut => True
  | .file => h.Accepts
  | _ => False

theorem Buffers.ne_standardError {c : Channel} (buffers : h.Buffers c) : c ≠ .standardError := by
  rintro rfl
  exact buffers

/-- These bytes have come to a channel: what is kept is still an open line if it was one, and if the
channel is sound, what has been delivered there has grown at its end. -/
def Receives (h : Hosted) (c : Channel) (x : Bytes) (h' : Hosted) (sound : Prop) : Prop :=
  ∃ more, (sound → ∀ sent, h.Delivered c sent → h'.Delivered c (sent ++ more)) ∧
    more ++ h'.kept c = h.kept c ++ x ∧
    (LineBuffer.OpenLine (h.kept c) → LineBuffer.OpenLine (h'.kept c))

variable {sound : Prop}

theorem Receives.mono {c : Channel} {x : Bytes} {weaker : Prop}
    (receives : h.Receives c x h' weaker) (hsound : sound → weaker) : h.Receives c x h' sound := by
  obtain ⟨more, hdelivered, hrest⟩ := receives
  exact ⟨more, fun hs => hdelivered (hsound hs), hrest⟩

theorem Receives.nothing {c : Channel}
    (hdelivered : sound → ∀ sent, h.Delivered c sent → h'.Delivered c sent)
    (hkept : h'.kept c = h.kept c) : h.Receives c [] h' sound := by
  refine ⟨[], fun hs sent hsent => ?_, ?_, ?_⟩
  · rw [List.append_nil]
    exact hdelivered hs sent hsent
  · rw [hkept, List.append_nil]
    rfl
  · rw [hkept]
    exact id

theorem receives_put {c : Channel} (buffers : h.Buffers c) (leads : h.Leads c) (x : Bytes) :
    h.Receives c x (h.put c x).2 sound := by
  cases c with
  | standardOut =>
      refine ⟨(LineBuffer.write true x h.out.kept).sent, ?_, ?_, fun line => line.write x⟩
      · rintro - sent rfl
        exact Transcript.text_add _ _
      · exact (LineBuffer.write_accepting x h.out.kept).2
  | file =>
      obtain ⟨path, w, hstream⟩ := leads
      have accepts := buffers path w hstream
      refine ⟨(LineBuffer.write true x w.kept).sent, ?_, ?_, ?_⟩
      · intro _ sent hsent
        simp only [Delivered, hstream] at hsent
        simp only [Delivered, put, hstream, accepts]
        exact hsent.deliver accepts _
      · simp only [kept, put, hstream, accepts]
        exact (LineBuffer.write_accepting x w.kept).2
      · simp only [kept, put, hstream, accepts]
        exact fun line => line.write x
  | standardError => exact buffers.elim
  | console id => exact buffers.elim

theorem receives_put_of_ne {c d : Channel} (hne : c ≠ d) (x : Bytes) :
    h.Receives c [] (h.put d x).2 sound := by
  cases d with
  | file =>
      cases hstream : h.stream with
      | none =>
          simp only [put, hstream]
          exact .nothing (fun _ _ => id) rfl
      | some stream =>
          cases stream with
          | file path w =>
              simp only [put, hstream]
              cases c with
              | file => exact absurd rfl hne
              | _ => exact .nothing (fun _ _ => id) rfl
          | _ =>
              simp only [put, hstream]
              exact .nothing (fun _ _ => id) rfl
  | standardOut =>
      cases c with
      | standardOut => exact absurd rfl hne
      | _ => exact .nothing (fun _ _ => id) rfl
  | standardError =>
      cases c with
      | standardError => exact absurd rfl hne
      | _ => exact .nothing (fun _ _ => id) rfl
  | console _ => exact .nothing (fun _ _ => id) rfl

theorem receives_push {c : Channel} (buffers : h.Buffers c) (d : Channel) :
    h.Receives c [] (h.push d) sound := by
  have hline : ∀ kept : Bytes, LineBuffer.OpenLine kept → LineBuffer.OpenLine [] :=
    fun _ _ => LineBuffer.openLine_nil
  cases d with
  | standardOut =>
      cases c with
      | standardOut =>
          refine ⟨h.out.kept, ?_, rfl, hline _⟩
          rintro - sent rfl
          exact Transcript.text_add _ _
      | _ => exact .nothing (fun _ _ => id) rfl
  | standardError | console => exact .nothing (fun _ _ => id) rfl
  | file =>
      simp only [push]
      split
      · rename_i path w hstream
        cases c with
        | file =>
            have accepts := buffers path w hstream
            refine ⟨w.kept, ?_, ?_, ?_⟩
            · intro _ sent hsent
              simp only [Delivered, hstream] at hsent
              simp only [Delivered, LineBuffer.flush, accepts, if_true]
              exact hsent.deliver accepts _
            · simp [kept, hstream, LineBuffer.flush, accepts]
            · simp only [kept, hstream, LineBuffer.flush, accepts, if_true]
              exact hline _
        | _ => exact .nothing (fun _ _ => id) rfl
      · exact .nothing (fun _ _ => id) rfl

theorem delivered_file_of_unset (unset : h.stream = none) (empty : h'.Delivered .file []) :
    ∀ sent, h.Delivered .file sent → h'.Delivered .file sent := by
  intro sent hsent
  have hnone : sent = [] := by simpa [Delivered, unset] using hsent
  rw [hnone]
  exact empty

theorem receives_opening {wanted : Sink} {reply : Except OpenError Unit} {c : Channel}
    (opening : h.Opening t wanted reply h') :
    h.Receives c [] h' (c = .file → reply = .ok () → h.sink = .unresolved) := by
  cases c with
  | file =>
      cases opening with
      | failed => exact .nothing (fun _ _ => id) rfl
      | _ =>
          refine .nothing (fun unresolved => ?_) rfl
          have unset := stream_of_unresolved (unresolved rfl rfl)
          exact delivered_file_of_unset unset (by simp [Delivered, unset])
  | _ => cases opening <;> exact .nothing (fun _ _ => id) rfl

theorem receives_publication {reply : Option Sink} {c : Channel}
    (publication : h.Publication t reply h') (fresh : h.Fresh) : h.Receives c [] h' sound := by
  cases publication with
  | late unable => cases c <;> exact .nothing (fun _ _ => id) rfl
  | @first stream unset opened =>
      cases c with
      | file =>
          have hnone : h.kept .file = [] := by simp [kept, unset]
          cases stream with
          | file path w =>
              obtain ⟨hkept, htook⟩ := fresh unset t path w opened
              refine .nothing (fun _ => delivered_file_of_unset unset htook) ?_
              rw [hnone]
              exact hkept
          | _ => exact .nothing (fun _ => delivered_file_of_unset unset rfl) hnone.symm
      | _ => exact .nothing (fun _ _ => id) rfl

theorem receives_of_move {c : Channel} (move : Move t s r answer h h') (buffers : h.Buffers c)
    (fresh : h.Fresh) (leads : ∀ piece, r = .put c piece → h.Leads c) :
    h.Receives c (s.written c r) h'
      (c = .file → r.opensSink answer = true → h.sink = .unresolved) := by
  have hc := buffers.ne_standardError
  have same {users : Users} {sound : Prop} : h.Receives c [] { h with users } sound := by
    cases c <;> exact .nothing (fun _ _ => id) rfl
  cases move with
  | beginPrint | refuse | passBy | noConsole => exact same
  | takeChannel | tryTakeChannel | endPrint => exact same
  | @put _ d piece =>
      by_cases hd : d = c
      · subst hd
        simpa [Session.written] using receives_put buffers (leads piece rfl) (s.spell piece)
      · simpa [Session.written, hd] using receives_put_of_ne (Ne.symm hd) (s.spell piece)
  | @complain _ x =>
      rw [show s.written c (.complain x) = [] from if_neg hc]
      cases c with
      | standardError => exact absurd rfl hc
      | _ => exact .nothing (fun _ _ => id) rfl
  | flush free => exact receives_push buffers _
  | openSink opening =>
      refine (receives_opening opening).mono fun unresolved hfile hreply => unresolved hfile ?_
      rw [hreply, Request.opensSink]
  | publishSink publication => exact receives_publication publication fresh
  | other hr =>
      rw [Session.written_of_not_reaches hr]
      exact same

theorem Buffers.of_move {c : Channel} (buffers : h'.Buffers c) (move : Move t s r answer h h') :
    h.Buffers c := by
  cases c with
  | file => exact Accepts.of_move buffers move
  | _ => exact buffers

end Hosted

/-! ## Runs -/

namespace Routing

/-- What is put to a channel with an event. -/
def arrival (spell : Piece → Bytes) (c : Channel) : Event → Bytes
  | .made _ _ ⟨_, .put d piece⟩ _ _ _ _ => if d = c then spell piece else []
  | _ => []

def arrivals (spell : Piece → Bytes) (c : Channel) (es : List Event) : Bytes :=
  es.flatMap (arrival spell c)

theorem arrivals_snoc (spell : Piece → Bytes) (c : Channel) (es : List Event) (e : Event) :
    arrivals spell c (es ++ [e]) = arrivals spell c es ++ arrival spell c e := by
  simp [arrivals]

variable {spell : Piece → Bytes} {es : List Event} {x z : Crowd} {h : Hosted}

theorem Settled.written_eq (settled : Settled spell es x h) {c : Channel}
    (hc : c ≠ .standardError) {t : ThreadId} {job : Job} {d : Demand} {answer : d.Reply}
    {s s' : Session} {result : Option (Option Answer)} :
    x.state.written c d.request = arrival spell c (.made t job d answer s s' result) := by
  obtain ⟨caller, r⟩ := d
  cases r with
  | put d piece => simp only [Session.written, arrival, settled.spelled]
  | complain text => exact if_neg hc
  | _ => rfl

theorem Settled.receives (settled : Settled spell es x h) {e : Event} (happens : Happens x e z) :
    ∃ h', Settled spell (es ++ [e]) z h' ∧
      ∀ c, h'.Buffers c → h.Buffers c ∧
        (Undisputed spell (es ++ [e]) c → Undisputed spell es c) ∧
        h.Receives c (arrival spell c e) h' (Undisputed spell (es ++ [e]) c) := by
  cases e with
  | began t job result =>
      refine ⟨h, settled.began happens, fun c buffers => ⟨buffers, ?_, ?_⟩⟩
      · intro undisputed
        rwa [Undisputed, account_snoc] at undisputed
      · exact .nothing (fun _ _ => id) rfl
  | made t job d answer s s' result =>
      obtain ⟨h', settled'⟩ := settled.made happens
      obtain ⟨hfits, h'', hplatform, -, move⟩ := settled.move happens
      obtain rfl : h'' = h' := by
        rw [settled'.platform] at hplatform
        cases hplatform
        rfl
      refine ⟨h'', settled', fun c buffers => ?_⟩
      have hbuffers := buffers.of_move move
      have hdisputed (undisputed : Undisputed spell (es ++ [.made t job d answer s s' result]) c)
          (hc : c = .file) : (account spell es).disputed = false ∧
            (d.request.opensSink answer && (account spell es).sink.isResolved) = false := by
        rw [Undisputed, account_snoc] at undisputed
        simpa [enter, Ledger.enter] using undisputed hc
      refine ⟨hbuffers, fun undisputed hc => (hdisputed undisputed hc).1, ?_⟩
      have hleads : ∀ piece, d.request = .put c piece → h.Leads c := by
        intro piece hput
        rw [hput] at hfits
        exact settled.balances.leads_of_head hfits
      rw [← settled.written_eq (hbuffers.ne_standardError)]
      refine (Hosted.receives_of_move move hbuffers settled.balances.fresh hleads).mono ?_
      intro undisputed hc hopens
      have hresolved := (hdisputed undisputed hc).2
      rw [hopens, Bool.true_and, ← settled.balances.sink] at hresolved
      exact Sink.eq_unresolved hresolved

/-- What a channel behind a buffer has been sent, and the open line it keeps, make up what was put
to it. -/
theorem lines_of_run {lineEnd : LineEnd} {tele : Bool} {environment : String → Option Bytes}
    {tree : FileTree}
    (run : Run (Session.start ⟨.hosted, lineEnd, tele⟩ environment tree) es x) :
    ∃ h, Settled lineEnd.spell es x h ∧ ∀ c, h.Buffers c →
      ∃ sent, (Undisputed lineEnd.spell es c → h.Delivered c sent) ∧
        sent ++ h.kept c = arrivals lineEnd.spell c es ∧ LineBuffer.OpenLine (h.kept c) := by
  apply run.invariant (motive := fun es x => ∃ h, Settled lineEnd.spell es x h ∧
    ∀ c, h.Buffers c → ∃ sent, (Undisputed lineEnd.spell es c → h.Delivered c sent) ∧
      sent ++ h.kept c = arrivals lineEnd.spell c es ∧ LineBuffer.OpenLine (h.kept c))
  · refine ⟨_, settled_start lineEnd tele environment tree, fun c buffers => ⟨[], ?_, ?_, ?_⟩⟩
    · intro _
      cases c with
      | standardError | console _ => exact buffers.elim
      | _ => rfl
    · cases c <;> rfl
    · cases c <;> exact LineBuffer.openLine_nil
  · rintro es x e z ⟨h, settled, before⟩ happens
    obtain ⟨h', settled', receives⟩ := settled.receives happens
    refine ⟨h', settled', fun c buffers => ?_⟩
    obtain ⟨hbuffers, hundisputed, more, hmore, hkept, hline⟩ := receives c buffers
    obtain ⟨sent, hsent, htext, line⟩ := before c hbuffers
    refine ⟨sent ++ more, ?_, ?_, hline line⟩
    · intro undisputed
      exact hmore undisputed sent (hsent (hundisputed undisputed))
    · rw [arrivals_snoc, ← htext, List.append_assoc, hkept, List.append_assoc]

/-- What has been delivered stays delivered, and more comes after it. -/
theorem Settled.grows (settled : Settled spell es x h) {later : List Event}
    (run : Crew.Run (fun t => Session.perform t) (fun _ job => job.1.task) x later z) :
    ∃ h', Settled spell (es ++ later) z h' ∧
      ∀ c, h'.Buffers c → Undisputed spell (es ++ later) c →
        ∀ sent, h.Delivered c sent → ∃ more, h'.Delivered c (sent ++ more) := by
  apply run.invariant (motive := fun later z => ∃ h', Settled spell (es ++ later) z h' ∧
    ∀ c, h'.Buffers c → Undisputed spell (es ++ later) c →
      ∀ sent, h.Delivered c sent → ∃ more, h'.Delivered c (sent ++ more))
  · rw [List.append_nil]
    refine ⟨h, settled, fun c _ _ sent hsent => ⟨[], ?_⟩⟩
    rw [List.append_nil]
    exact hsent
  · rintro later y e z ⟨h', settled', before⟩ happens
    obtain ⟨h'', settled'', receives⟩ := settled'.receives happens
    rw [← List.append_assoc]
    refine ⟨h'', settled'', fun c buffers undisputed sent hsent => ?_⟩
    obtain ⟨hbuffers', hundisputed', added, hadded, -⟩ := receives c buffers
    obtain ⟨more, hmore⟩ := before c hbuffers' (hundisputed' undisputed) sent hsent
    refine ⟨more ++ added, ?_⟩
    rw [← List.append_assoc]
    exact hadded undisputed _ hmore

/-- A flush leaves nothing in the buffer of its channel, except that last words pass by a file whose
writer is in use. -/
theorem Settled.kept_flush (settled : Settled spell es x h) (accepts : h.Accepts) {t : ThreadId}
    {job : Job} {caller : Caller} {urgency : Urgency} {c : Channel} {s s' : Session}
    {result : Option (Option Answer)}
    (happens : Happens x (.made t job ⟨caller, .flush urgency c⟩ () s s' result) z) :
    ∃ h', z.state.platform = .hosted h' ∧
      (h'.kept c = [] ∨ urgency = .urgent ∧ c = .file) := by
  obtain ⟨-, h', hplatform, -, move⟩ := settled.move happens
  refine ⟨h', hplatform, ?_⟩
  cases move with
  | flush free => exact .inl (kept_push_of_accepts accepts c)
  | passBy passes => exact .inr (by simpa [Urgency.passesBy] using passes)
  | other hr => cases hr

/-- Threads of a process run any steps.  At every point, for standard output and for a file that
takes its writes:

* what has been sent, followed by what is kept, is all the pieces that were put there, and what has
  been sent has been delivered, unless it is a file and a thread that another had overtaken has
  opened a sink;
* what is kept has no line feed and fits the buffer, so that every line that is complete in the text
  has been sent in full, and a text that ends with a line has been sent as a whole, however it was
  cut into pieces;
* whatever follows, what has been delivered only grows at its end;
* a flush has asked for the sink in use and leaves nothing in the buffer of its channel, except that
  last words pass by a file whose writer is in use. -/
theorem lines_are_delivered {lineEnd : LineEnd} {tele : Bool}
    {environment : String → Option Bytes} {tree : FileTree}
    (run : Run (Session.start ⟨.hosted, lineEnd, tele⟩ environment tree) es x) :
    ∃ h, x.state.platform = .hosted h ∧
      (∀ c, h.Buffers c → ∃ sent, (Undisputed lineEnd.spell es c → h.Delivered c sent) ∧
        sent ++ h.kept c = arrivals lineEnd.spell c es ∧
        Bytes.lineFeed ∉ h.kept c ∧ (h.kept c).length ≤ LineBuffer.capacity ∧
        (∀ lines, lines ++ [Bytes.lineFeed] <+: arrivals lineEnd.spell c es →
          lines ++ [Bytes.lineFeed] <+: sent) ∧
        ((arrivals lineEnd.spell c es).getLast? = some Bytes.lineFeed →
          sent = arrivals lineEnd.spell c es ∧ h.kept c = [])) ∧
      (∀ later z, Crew.Run (fun t => Session.perform t) (fun _ job => job.1.task) x later z →
        ∃ h', z.state.platform = .hosted h' ∧
          ∀ c, h'.Buffers c → Undisputed lineEnd.spell (es ++ later) c →
            ∀ sent, h.Delivered c sent → ∃ more, h'.Delivered c (sent ++ more)) ∧
      (h.Accepts → ∀ t job caller urgency c s s' result z,
        Happens x (.made t job ⟨caller, .flush urgency c⟩ () s s' result) z →
        ∃ h', z.state.platform = .hosted h' ∧
          (h'.kept c = [] ∨ urgency = .urgent ∧ c = .file)) ∧
      (∀ talks q, Program.Reaches Log.flush talks q ↔ Flushing talks q) ∧
      ((∀ c, Undisputed lineEnd.spell es c) ∨ Overtaken es) := by
  obtain ⟨h, settled, lines⟩ := lines_of_run run
  refine ⟨h, settled.platform, ?_, ?_, ?_, fun _ _ => reaches_flush_iff,
    undisputed_or_overtaken run⟩
  · intro c buffers
    obtain ⟨sent, hsent, htext, line⟩ := lines c buffers
    refine ⟨sent, hsent, htext, line.unfinished, line.fits, ?_, ?_⟩
    · intro done hdone
      rw [← htext] at hdone
      exact line.prefix_of hdone
    · intro hlast
      have hkept := line.eq_nil htext hlast
      rw [hkept, List.append_nil] at htext
      exact ⟨htext, hkept⟩
  · intro later z run'
    obtain ⟨h', settled', grows⟩ := settled.grows run'
    exact ⟨h', settled'.platform, grows⟩
  · intro accepts t job caller urgency c s s' result z happens
    exact settled.kept_flush accepts happens

/-- A line that is cut into pieces where the buffer ends is delivered as a whole. -/
theorem line_across_buffer_end :
    ∃ (es : List Event) (x : Crowd) (h : Hosted),
      Run (Session.start ⟨.hosted, .lf, false⟩ (fun _ => none) .empty) es x ∧
      x.state.platform = .hosted h ∧ h.kept .standardOut = [] ∧
      h.Delivered .standardOut
        (List.replicate 1023 97 ++ (Bytes.ofString "bcd" ++ [Bytes.lineFeed])) := by
  have hrun (a b : Bytes) : ∃ (es : List Event) (x : Crowd),
      Run (Session.start ⟨.hosted, .lf, false⟩ (fun _ => none) .empty) es x ∧
        arrivals LineEnd.lf.spell .standardOut es = a ++ (b ++ [Bytes.lineFeed]) :=
    ⟨_, _, Crew.run_of_follow
      [(.lasting 0, some ⟨.print [.text a, .text b], rfl⟩), (.lasting 0, none), (.lasting 0, none),
        (.lasting 0, none), (.lasting 1, some ⟨.call .flush, rfl⟩), (.lasting 1, none),
        (.lasting 0, none), (.lasting 0, none), (.lasting 1, none),
        (.lasting 0, some ⟨.call .newline, rfl⟩), (.lasting 0, none), (.lasting 0, none),
        (.lasting 0, none), (.lasting 0, none)] rfl, rfl⟩
  obtain ⟨es, x, run, harrivals⟩ := hrun (List.replicate 1023 97) (Bytes.ofString "bcd")
  obtain ⟨h, hplatform, htold, -⟩ := lines_are_delivered run
  obtain ⟨sent, delivered, -, -, -, -, hlast⟩ := htold .standardOut trivial
  have hsent := delivered nofun
  rw [harrivals, ← List.append_assoc] at hlast
  obtain ⟨rfl, hkept⟩ := hlast List.getLast?_concat
  rw [List.append_assoc] at hsent
  exact ⟨es, x, h, run, hplatform, hkept, hsent⟩

end Routing

end DiagnosticLog
