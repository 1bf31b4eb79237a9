import DiagnosticLog.Proofs.LineEnd.Conversion
import DiagnosticLog.Proofs.Simulation
import DiagnosticLog.Script.Run

/-!
# The two builds in step

A script whose texts end no line is run by the build with carriage returns as it is by the plain
one.  The threads ask the same and are answered the same, request by request, and the session of the
one build is that of the other with what has been delivered converted.
-/

namespace DiagnosticLog

namespace Hosted

variable {h : Hosted}

/-- No buffer of the process keeps a line feed, and in a file that has been opened for the log there
is nothing to convert yet. -/
structure Clear (h : Hosted) : Prop where
  kept : ∀ c, Bytes.lineFeed ∉ h.kept c
  opened : h.stream = none → ∀ t path w, h.opened t = some (.file path w) →
    w.kept = [] ∧ h.tree.withCrlf w.target.location? = h.tree

theorem Clear.file {path : Bytes} {w : Writer} (clear : h.Clear)
    (hstream : h.stream = some (.file path w)) : Bytes.lineFeed ∉ w.kept := by
  have hfile := clear.kept .file
  simpa only [Hosted.kept, hstream] using hfile

theorem not_mem_kept_of_buffers (hout : Bytes.lineFeed ∉ h.out.kept)
    (hfile : ∀ path w, h.stream = some (.file path w) → Bytes.lineFeed ∉ w.kept) (c : Channel) :
    Bytes.lineFeed ∉ h.kept c := by
  cases c with
  | standardOut => exact hout
  | file =>
      simp only [Hosted.kept]
      split
      · rename_i path w hstream
        exact hfile path w hstream
      · exact List.not_mem_nil
  | standardError | console => exact List.not_mem_nil

theorem Clear.of_out {h' : Hosted} (clear : h.Clear) (hout : Bytes.lineFeed ∉ h'.out.kept)
    (rest : h' = { h with out := h'.out, err := h'.err, users := h'.users }) : h'.Clear := by
  rw [rest]
  exact ⟨not_mem_kept_of_buffers hout fun path w => clear.file, clear.opened⟩

theorem Clear.of_writer (clear : h.Clear) {w : Writer} (hkept : Bytes.lineFeed ∉ w.kept)
    (path : Bytes) (tree : FileTree) :
    Clear { h with tree := tree, stream := some (.file path w) } := by
  refine ⟨not_mem_kept_of_buffers (clear.kept .standardOut) fun path' w' hfile => ?_, nofun⟩
  cases hfile
  exact hkept

/-! ## What a process does in both builds -/

theorem spell_withCrlf {piece : Piece} (inLine : piece.staysInLine) :
    (LineEnd.lf.spell piece).withCrlf = LineEnd.crlf.spell piece := by
  cases piece with
  | lineEnd => rfl
  | text b =>
      have hb : Bytes.lineFeed ∉ b := by simpa [Piece.staysInLine] using inLine
      exact Bytes.withCrlf_of_not_mem hb

theorem put_spell {c : Channel} {piece : Piece} (clear : h.Clear) (inLine : piece.staysInLine)
    (taken : (h.put c (LineEnd.lf.spell piece)).1) :
    (h.put c (LineEnd.lf.spell piece)).2.Clear ∧
      h.withCrlf.put c (LineEnd.crlf.spell piece) =
        ((h.put c (LineEnd.lf.spell piece)).1, (h.put c (LineEnd.lf.spell piece)).2.withCrlf) := by
  cases c with
  | standardOut =>
      obtain ⟨hkept, hwrite⟩ := Buffered.write_spell inLine (clear.kept .standardOut)
      refine ⟨clear.of_out hkept rfl, ?_⟩
      simp only [put, withCrlf, hwrite]
      rfl
  | standardError =>
      refine ⟨clear.of_out (clear.kept .standardOut) rfl, ?_⟩
      simp only [put, withCrlf, Transcript.withCrlf_add, spell_withCrlf inLine]
      rfl
  | file =>
      cases hstream : h.stream with
      | none => simpa [put, hstream, withCrlf] using clear
      | some stream =>
          cases stream with
          | file path w =>
              simp only [put, hstream] at taken ⊢
              obtain ⟨hkept, hwrite⟩ := LineBuffer.write_spell inLine (clear.file hstream) taken
              refine ⟨clear.of_writer hkept path _, ?_⟩
              simp only [withCrlf, logFile, hstream, hwrite, LineBuffer.Delivery.withCrlf,
                FileTree.withCrlf_deliver]
          | _ => simpa [put, hstream, withCrlf] using clear
  | console id => exact ⟨clear, rfl⟩

theorem Clear.push (clear : h.Clear) (c : Channel) : (h.push c).Clear := by
  cases c with
  | standardOut => exact clear.of_out List.not_mem_nil rfl
  | standardError | console => exact clear
  | file =>
      simp only [Hosted.push]
      split
      · rename_i path w hstream
        refine clear.of_writer ?_ path _
        cases w.target.accepts with
        | true => exact List.not_mem_nil
        | false => exact clear.file hstream
      · exact clear

theorem push_withCrlf (clear : h.Clear) (c : Channel) :
    h.withCrlf.push c = (h.push c).withCrlf := by
  cases c with
  | standardOut =>
      have hout : h.out.withCrlf.flush = h.out.flush.withCrlf :=
        Buffered.withCrlf_flush (clear.kept .standardOut)
      simp only [push, withCrlf, hout]
      rfl
  | standardError | console => rfl
  | file =>
      cases hstream : h.stream with
      | none => simp [push, withCrlf, hstream]
      | some stream =>
          cases stream with
          | file path w =>
              have hsent : Bytes.lineFeed ∉ (LineBuffer.flush w.target.accepts w.kept).sent := by
                cases w.target.accepts with
                | true => exact clear.file hstream
                | false => exact List.not_mem_nil
              simp only [push, withCrlf, logFile, hstream, FileTree.withCrlf_deliver,
                Bytes.withCrlf_of_not_mem hsent]
          | _ => simp [push, withCrlf, hstream]

theorem Clear.close (clear : h.Clear) (last : Option ThreadId) : (h.close last).Clear := by
  unfold Hosted.close
  split
  · exact clear.of_out List.not_mem_nil rfl
  · exact clear

theorem close_withCrlf (clear : h.Clear) (last : Option ThreadId) :
    h.withCrlf.close last = (h.close last).withCrlf := by
  have hout : h.out.withCrlf.flush = h.out.flush.withCrlf :=
    Buffered.withCrlf_flush (clear.kept .standardOut)
  unfold close
  split
  · rw [if_pos ‹_›]
    simp only [withCrlf, hout]
    rfl
  · rw [if_neg ‹_›]

theorem takeChannel_withCrlf (h : Hosted) (t : ThreadId) (c : Channel) :
    h.withCrlf.takeChannel t c = (h.takeChannel t c).map withCrlf := by
  have hbusy : h.withCrlf.busy t c = h.busy t c := rfl
  unfold takeChannel
  rw [hbusy]
  cases h.busy t c <;> rfl

theorem flush_withCrlf (clear : h.Clear) (t : ThreadId) (urgency : Urgency) (c : Channel) :
    h.withCrlf.flush t urgency c = (h.flush t urgency c).map withCrlf := by
  have hbusy : h.withCrlf.busy t c = h.busy t c := rfl
  unfold flush
  rw [hbusy, push_withCrlf clear]
  cases h.busy t c with
  | true => cases urgency.passesBy c <;> rfl
  | false => rfl

theorem openSink_withCrlf (h : Hosted) (t : ThreadId) (variableName : String)
    (path : Option Bytes) :
    h.withCrlf.openSink t variableName path =
      ((h.openSink t variableName path).1, (h.openSink t variableName path).2.withCrlf) := by
  have henvironment : h.withCrlf.environment = h.environment := rfl
  have htree : h.withCrlf.tree = h.tree.withCrlf h.logFile := rfl
  unfold openSink
  rw [henvironment, htree]
  generalize Sink.ofPath (resolvePath path (h.environment variableName)) = sink
  cases sink with
  | file path =>
      simp only [openStream, FileTree.openPath_withCrlf]
      cases h.tree.openPath path <;> rfl
  | _ => rfl

/-- The log is set up before anything has been written to its file, so there is nothing to convert.
-/
theorem publishSink_withCrlf (clear : h.Clear) (t : ThreadId) :
    h.withCrlf.publishSink t = ((h.publishSink t).1, (h.publishSink t).2.withCrlf) := by
  have hopened : h.withCrlf.opened = h.opened := rfl
  cases hstream : h.stream with
  | some stream => simp [publishSink, withCrlf, logFile, hstream]
  | none =>
      have hnone : h.withCrlf.stream = none := hstream
      simp only [publishSink, hnone, hopened, hstream]
      cases hmine : h.opened t with
      | none => simp only [withCrlf, logFile, hstream]
      | some stream =>
          cases stream with
          | file path w =>
              obtain ⟨-, htree⟩ := clear.opened hstream t path w hmine
              simp only [withCrlf, logFile, hstream, FileTree.withCrlf_none, htree]
          | _ => simp only [withCrlf, logFile, hstream]

theorem Clear.opening {h' : Hosted} {t : ThreadId} {wanted : Sink}
    {reply : Except OpenError Unit} (clear : h.Clear) (opening : h.Opening t wanted reply h') :
    h'.Clear := by
  refine ⟨fun c => ?_, fun unset u path w hopened => ?_⟩
  · rw [opening.rest]
    have hkept := clear.kept c
    cases c <;> exact hkept
  · have hold (unset : h.stream = none) (hu : h.opened u = some (.file path w)) :=
      clear.opened unset u path w hu
    cases opening with
    | failed => exact hold unset hopened
    | standardOut | standardError =>
        by_cases hu : u = t
        · simp [hu] at hopened
        · exact hold unset (by simpa [hu] using hopened)
    | file opens =>
        have hemptied := (FileTree.openPath_eq opens.leads).1
        by_cases hu : u = t
        · obtain ⟨rfl, rfl⟩ : _ ∧ _ := by simpa [hu] using hopened
          exact ⟨rfl, by rw [hemptied, FileTree.withCrlf_emptied_self]⟩
        · obtain ⟨hkept, htree⟩ := hold unset (by simpa [hu] using hopened)
          refine ⟨hkept, ?_⟩
          rw [hemptied, FileTree.withCrlf_emptied, htree]

theorem Clear.publication {h' : Hosted} {t : ThreadId} {reply : Option Sink} (clear : h.Clear)
    (publication : h.Publication t reply h') : h'.Clear := by
  cases publication with
  | @first stream unset opened =>
      refine ⟨not_mem_kept_of_buffers (clear.kept .standardOut) fun path w hfile => ?_, nofun⟩
      cases hfile
      rw [(clear.opened unset t path w opened).1]
      exact List.not_mem_nil
  | late unable =>
      refine ⟨fun c => ?_, fun unset u path w hopened => ?_⟩
      · have hkept := clear.kept c
        cases c <;> exact hkept
      · by_cases hu : u = t
        · simp [hu] at hopened
        · exact clear.opened unset u path w (by simpa [hu] using hopened)

end Hosted

/-! ## Requests -/

namespace Session

/-- No line feed is kept back in a session of the plain build. -/
structure Clear (s : Session) : Prop where
  lineEnd : s.lineEnd = .lf
  hosted : ∀ h, s.platform = .hosted h → h.Clear

def takesPiece (s : Session) (c : Channel) (piece : Piece) : Bool :=
  match s.platform with
  | .hosted h => (h.put c (s.spell piece)).1
  | .guest _ => true

/-- A text that is put ends no line, no piece is refused, and a log file that cannot be opened is no
reason to end the run. -/
def quiet (d : Demand) (s : Session) : Bool :=
  match d.request with
  | .put c piece => piece.staysInLine && s.takesPiece c piece
  | .complain _ => false
  | _ => true

variable {s s' : Session} {t : ThreadId}

theorem Clear.spell (clear : s.Clear) : s.spell = LineEnd.lf.spell := by
  rw [spell_eq, clear.lineEnd]

theorem spell_crlf (s : Session) : s.withCrlf.spell = LineEnd.crlf.spell :=
  spell_eq _

theorem tokenOf_withCrlf (s : Session) : s.withCrlf.tokenOf = s.tokenOf := by
  funext t
  unfold tokenOf withCrlf
  cases s.platform <;> rfl

theorem finishOf_withCrlf (s : Session) : s.withCrlf.finishOf = s.finishOf := by
  funext formatting
  unfold finishOf withCrlf
  cases s.platform <;> rfl

theorem quiet_put {c : Channel} {piece : Piece} {h : Hosted} (hs : s.platform = .hosted h)
    (clear : s.Clear) (quiet : quiet (Request.put c piece).demand s) :
    piece.staysInLine ∧ (h.put c (LineEnd.lf.spell piece)).1 := by
  simpa [Session.quiet, takesPiece, hs, clear.spell] using quiet

theorem Clear.of_reply (clear : s.Clear) {d : Demand} (quiet : quiet d s) {answer : d.Reply}
    (reply : perform t d s = .reply answer s') : s'.Clear := by
  obtain ⟨caller, r⟩ := d
  refine ⟨(lineEnd_of_reply reply).trans clear.lineEnd, fun h' hs' => ?_⟩
  cases hs : s.platform with
  | guest g =>
      obtain ⟨g', hg, -⟩ := move_of_reply_guest hs reply
      rw [hg] at hs'
      cases hs'
  | hosted h =>
      obtain ⟨h'', hs'', move⟩ := move_of_reply hs reply
      rw [hs'] at hs''
      cases hs''
      have hclear := clear.hosted h hs
      cases move with
      | put =>
          obtain ⟨inLine, taken⟩ := quiet_put hs clear quiet
          rw [clear.spell]
          exact (Hosted.put_spell hclear inLine taken).1
      | takeChannel | tryTakeChannel | endPrint =>
          exact hclear.of_out (hclear.kept .standardOut) rfl
      | complain => cases quiet
      | flush => exact hclear.push _
      | openSink opening => exact hclear.opening opening
      | publishSink publication => exact hclear.publication publication
      | beginPrint | refuse | passBy | noConsole | other => exact hclear

theorem platform_hosted {h : Hosted} (hs : s.platform = .hosted h) :
    s.withCrlf.platform = .hosted h.withCrlf :=
  congrArg Platform.withCrlf hs

theorem platform_guest {g : Guest} (hs : s.platform = .guest g) :
    s.withCrlf.platform = .guest g.withCrlf :=
  congrArg Platform.withCrlf hs

theorem identify_withCrlf (s : Session) (t : ThreadId) :
    s.withCrlf.identify t = ((s.identify t).1, (s.identify t).2.withCrlf) := by
  have hroster : s.withCrlf.roster = s.roster := rfl
  unfold identify
  rw [tokenOf_withCrlf, hroster]
  cases hs : s.platform with
  | hosted h =>
      rw [platform_hosted hs]
      simp only [withCrlf, hs]
      rfl
  | guest g => rw [platform_guest hs]

theorem performAs_withCrlf_beside (clear : s.Clear) {r : Request} (hr : r.reachesPlatform = false) :
    performAs t r s.withCrlf = (performAs t r s).map withCrlf := by
  cases r with
  | beginPrint | takeChannel | tryTakeChannel | put | endPrint | complain | flush | openSink
  | publishSink | installConsole => simp [Request.reachesPlatform] at hr
  | self =>
      simp only [performAs, tokenOf_withCrlf]
      rfl
  | identify =>
      simp only [performAs, identify_withCrlf]
      rfl
  | access name a =>
      have hlocks : s.withCrlf.locks = s.locks := rfl
      simp only [performAs, hlocks]
      cases CheckedMutex.perform a (s.locks name) with
      | reply answer m => rfl
      | wait => rfl
      | stop never m => cases never
  | formatsReals | currentSink | currentConsole =>
      cases hs : s.platform with
      | hosted h =>
          simp only [performAs, hs, platform_hosted hs]
          rfl
      | guest g =>
          simp only [performAs, hs, platform_guest hs]
          rfl
  | stop console code =>
      cases hs : s.platform with
      | hosted h =>
          simp only [performAs, hs, platform_hosted hs, Hosted.close_withCrlf (clear.hosted h hs)]
          rfl
      | guest g =>
          simp only [performAs, hs, platform_guest hs]
          cases console <;> rfl
  | popGuard =>
      have hguards : s.withCrlf.guards = s.guards := rfl
      simp only [performAs, hguards]
      cases s.guards t <;> rfl
  | _ => rfl

theorem performAs_withCrlf_hosted {h : Hosted} (hs : s.platform = .hosted h) (clear : s.Clear)
    {r : Request} (quiet : quiet r.demand s) (hr : r.reachesPlatform = true) :
    performAs t r s.withCrlf = (performAs t r s).map withCrlf := by
  have hs' := platform_hosted hs
  have hclear := clear.hosted h hs
  cases r with
  | put c piece =>
      obtain ⟨inLine, taken⟩ := quiet_put hs clear quiet
      have hput := (Hosted.put_spell hclear inLine taken).2
      simp only [performAs, hs, hs', spell_crlf, clear.spell, hput]
      rfl
  | takeChannel c | tryTakeChannel c =>
      simp only [performAs, hs, hs', Hosted.takeChannel_withCrlf]
      cases h.takeChannel t c with
      | some h' => rfl
      | none => rfl
  | endPrint c formatting =>
      simp only [performAs, hs, hs', finishOf_withCrlf]
      rfl
  | complain => cases quiet
  | flush urgency c =>
      simp only [performAs, hs, hs', Hosted.flush_withCrlf hclear]
      cases h.flush t urgency c <;> rfl
  | openSink path =>
      have hvariable : s.withCrlf.logFileVariable = s.logFileVariable := rfl
      simp only [performAs, hs, hs', hvariable, Hosted.openSink_withCrlf]
      rfl
  | publishSink =>
      simp only [performAs, hs, hs', Hosted.publishSink_withCrlf hclear]
      rfl
  | beginPrint | installConsole =>
      simp only [performAs, hs, hs']
      rfl
  | _ => simp [Request.reachesPlatform] at hr

theorem performAs_withCrlf_guest {g : Guest} (hs : s.platform = .guest g) (clear : s.Clear)
    {r : Request} (quiet : quiet r.demand s) (hr : r.reachesPlatform = true) :
    performAs t r s.withCrlf = (performAs t r s).map withCrlf := by
  have hs' := platform_guest hs
  cases r with
  | put c piece =>
      have inLine : piece.staysInLine := by simpa [Session.quiet, takesPiece, hs] using quiet
      simp only [performAs, hs, hs', spell_crlf, ← Hosted.spell_withCrlf inLine, clear.spell,
        ← Guest.withCrlf_put]
      rfl
  | installConsole id =>
      have hinstall : g.withCrlf.install id = ((g.install id).1, (g.install id).2.withCrlf) := by
        obtain ⟨installed, printed⟩ := g
        cases installed <;> rfl
      simp only [performAs, hs, hs', hinstall]
      rfl
  | endPrint c formatting =>
      simp only [performAs, hs, hs', finishOf_withCrlf]
      rfl
  | beginPrint | takeChannel | tryTakeChannel | complain | flush | openSink | publishSink =>
      simp only [performAs, hs, hs']
      rfl
  | _ => simp [Request.reachesPlatform] at hr

/-- A request does to the converted session what it does to the plain one. -/
theorem perform_withCrlf (clear : s.Clear) {d : Demand} (quiet : quiet d s) :
    perform t d s.withCrlf = (perform t d s).map withCrlf := by
  obtain ⟨caller, r⟩ := d
  cases hr : r.reachesPlatform with
  | false => exact performAs_withCrlf_beside clear hr
  | true =>
      cases hs : s.platform with
      | hosted h => exact performAs_withCrlf_hosted hs clear quiet hr
      | guest g => exact performAs_withCrlf_guest hs clear quiet hr

end Session

end DiagnosticLog
