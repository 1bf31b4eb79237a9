import DiagnosticLog.Proofs.Session.Choice
import DiagnosticLog.Proofs.Simulation
import DiagnosticLog.Script.Step

/-!
# Processes that differ in their log file

Two processes are beside each other if they are in the same state, but for their log files and what
the writers of these keep.  A request that does not touch the log file keeps them so, and is
answered alike but for the path of the file (`Session.performAs_beside`).  A piece put to the log
file keeps a process beside the one it was, whether the file takes it or not, so a print that is
refused comes to the same as one that is not (`Session.run_deliver_beside`).
-/

namespace DiagnosticLog

namespace Hosted

/-- The processes are in the same state, except that the files they log to may differ, if they
do. -/
inductive Beside : Hosted → Hosted → Prop where
  | same (h : Hosted) : Beside h h
  | files {h : Hosted} {tree : FileTree} {path path' : Bytes} {w w' : Writer}
      (stream : h.stream = some (.file path w)) :
      Beside h { h with tree := tree, stream := some (.file path' w') }

variable {h h' h'' : Hosted} {t : ThreadId}

namespace Beside

theorem symm (b : h.Beside h') : h'.Beside h := by
  cases b with
  | same => exact .same h
  | @files tree path path' w w' stream =>
      have hback : h = { { h with tree := tree, stream := some (.file path' w') } with
          tree := h.tree, stream := some (.file path w) } := by
        rw [← stream]
      rw [hback]
      exact .files rfl

theorem trans (b : h.Beside h') (b' : h'.Beside h'') : h.Beside h'' := by
  cases b with
  | same => exact b'
  | files stream =>
      cases b' with
      | same => exact .files stream
      | files stream' => exact .files stream

theorem rest (b : h.Beside h') : h' = { h with tree := h'.tree, stream := h'.stream } := by
  cases b <;> rfl

theorem unset_iff (b : h.Beside h') : h'.stream = none ↔ h.stream = none := by
  cases b with
  | same => rfl
  | files stream => simp only [stream, reduceCtorEq]

theorem eq_of_stream (b : h.Beside h') (unset : h.stream = none) : h' = h := by
  cases b with
  | same => rfl
  | files stream =>
      rw [unset] at stream
      cases stream

theorem busy_eq (b : h.Beside h') (t : ThreadId) (c : Channel) : h'.busy t c = h.busy t c := by
  cases b <;> rfl

theorem setUsers (b : h.Beside h') (c : Channel) (f : List ThreadId → List ThreadId) :
    Beside { h with users := h.users.modify c f } { h' with users := h'.users.modify c f } := by
  cases b with
  | same => exact .same _
  | files stream => exact .files stream

theorem addToError (b : h.Beside h') (text : Bytes) :
    Beside { h with err := h.err.add text } { h' with err := h'.err.add text } := by
  cases b with
  | same => exact .same _
  | files stream => exact .files stream

theorem push (b : h.Beside h') (c : Channel) : (h.push c).Beside (h'.push c) := by
  cases b with
  | same => exact .same _
  | files stream =>
      cases c with
      | file =>
          simp only [Hosted.push, stream]
          exact .files rfl
      | _ => exact .files stream

theorem close (b : h.Beside h') (last : Option ThreadId) :
    (h.close last).Beside (h'.close last) := by
  cases b with
  | same => exact .same _
  | files stream =>
      simp only [Hosted.close]
      split
      · exact .files stream
      · exact .files stream

theorem put (b : h.Beside h') {c : Channel} (hc : c ≠ .file) (x : Bytes) :
    (h.put c x).1 = true ∧ (h'.put c x).1 = true ∧ (h.put c x).2.Beside (h'.put c x).2 := by
  cases c with
  | file => exact absurd rfl hc
  | standardOut | standardError =>
      refine ⟨rfl, rfl, ?_⟩
      cases b with
      | same => exact .same _
      | files stream => exact .files stream
  | console id => exact ⟨rfl, rfl, b⟩

/-- Whether the file takes a piece or not, nothing but the file and its buffer has changed. -/
theorem put_file (h : Hosted) (x : Bytes) : h.Beside (h.put .file x).2 := by
  simp only [Hosted.put]
  split
  · rename_i path w stream
    exact .files stream
  · exact .same h

end Beside

end Hosted

namespace Session

/-- The sessions are those of processes that are beside each other, and are the same apart from
that. -/
inductive Beside (s : Session) : Session → Prop where
  | processes {h h' : Hosted} (hosted : s.platform = .hosted h) (beside : h.Beside h') :
      s.Beside { s with platform := .hosted h' }

variable {s s' s'' : Session} {t : ThreadId}

namespace Beside

theorem same {h : Hosted} (hosted : s.platform = .hosted h) : s.Beside s := by
  have hback : s = { s with platform := .hosted h } := by rw [← hosted]
  have hself := processes hosted (.same h)
  rwa [← hback] at hself

theorem symm (b : s.Beside s') : s'.Beside s := by
  cases b with
  | @processes h h' hosted beside =>
      have hback : s = { { s with platform := .hosted h' } with platform := .hosted h } := by
        rw [← hosted]
      rw [hback]
      exact .processes rfl beside.symm

theorem trans (b : s.Beside s') (b' : s'.Beside s'') : s.Beside s'' := by
  cases b with
  | processes hosted beside =>
      cases b' with
      | processes hosted' beside' =>
          cases hosted'
          exact .processes hosted (beside.trans beside')

theorem hosted (b : s.Beside s') : ∃ h', s'.platform = .hosted h' := by
  cases b with
  | @processes h h' hosted beside => exact ⟨h', rfl⟩

theorem close (b : s.Beside s') : s.close.Beside s'.close := by
  cases b with
  | processes hosted beside =>
      simp only [Session.close, hosted]
      exact .processes rfl (beside.close none)

end Beside

end Session

namespace Request

/-- The request changes the log file, or chooses it. -/
def touchesFile : Request → Bool
  | .put c _ => c = .file
  | .openSink _ => true
  | .publishSink => true
  | _ => false

/-- The request looks at the log file, or changes or chooses it. -/
def seesFile : Request → Bool
  | .beginPrint _ => true
  | .currentSink => true
  | r => r.touchesFile

theorem touchesFile_of_blind {r : Request} (blind : r.seesFile = false) :
    r.touchesFile = false := by
  cases r <;> first | rfl | exact blind

/-- The answers to the request are the same, but perhaps for the path of the log file. -/
inductive Alike : (r : Request) → r.Reply → r.Reply → Prop where
  | same {r : Request} (answer : r.Reply) : Alike r answer answer
  | sink (path path' : Bytes) : Alike .currentSink (some (.file path)) (some (.file path'))
  | outlet {urgency : Urgency} (path path' : Bytes) :
      Alike (.beginPrint urgency) (.sink (.file path)) (.sink (.file path'))

theorem Alike.eq_of_blind {r : Request} {answer answer' : r.Reply} (alike : r.Alike answer answer')
    (blind : r.seesFile = false) : answer' = answer := by
  cases alike with
  | same => rfl
  | sink | outlet => cases blind

end Request

namespace Session

variable {s s' : Session} {t : ThreadId}

theorem put_beside (t : ThreadId) {c : Channel} (hc : c ≠ .file) (piece : Piece)
    (b : s.Beside s') :
    ∃ s₁ s₁', performAs t (.put c piece) s = .reply true s₁ ∧
      performAs t (.put c piece) s' = .reply true s₁' ∧ s₁.Beside s₁' := by
  cases b with
  | @processes h h' hosted beside =>
      have hspell : spell { s with platform := .hosted h' } = s.spell := by
        funext piece
        cases piece <;> rfl
      obtain ⟨htaken, htaken', hput⟩ := beside.put hc (s.spell piece)
      simp only [performAs, hosted, hspell, htaken, htaken']
      exact ⟨_, _, rfl, rfl, .processes rfl hput⟩

/-- A request that does not touch the log file comes to the same on both sides. -/
theorem performAs_beside (b : s.Beside s') {r : Request} (untouched : r.touchesFile = false) :
    (performAs t r s).Agrees Beside r.Alike (performAs t r s') := by
  cases b with
  | @processes h h' hosted beside =>
  cases r with
  | self =>
      have htoken : tokenOf { s with platform := .hosted h' } t = s.tokenOf t := by
        simp only [tokenOf, hosted]
      simp only [performAs, htoken]
      exact .reply (.same _) (.processes hosted beside)
  | identify =>
      simp only [performAs, identify, tokenOf, hosted]
      exact .reply (.same _) (.processes rfl beside)
  | access name a =>
      simp only [performAs]
      cases CheckedMutex.perform a (s.locks name) with
      | reply answer m => exact .reply (.same _) (.processes hosted beside)
      | wait => exact .wait
      | stop never m => cases never
  | beginPrint urgency =>
      simp only [performAs, hosted]
      cases beside with
      | same => exact .reply (.same _) (.processes hosted (.same h))
      | @files tree path path' w w' stream =>
          have hsink : h.sink = .file path := by rw [Hosted.sink, stream]; rfl
          rw [hsink]
          exact .reply (.outlet path path') (.processes hosted (.files stream))
  | currentSink =>
      simp only [performAs, hosted]
      cases beside with
      | same => exact .reply (.same _) (.processes hosted (.same h))
      | @files tree path path' w w' stream =>
          have hsink : h.sink = .file path := by rw [Hosted.sink, stream]; rfl
          rw [hsink]
          exact .reply (.sink path path') (.processes hosted (.files stream))
  | takeChannel c =>
      simp only [performAs, hosted, Hosted.takeChannel, beside.busy_eq]
      cases h.busy t c with
      | true => exact .wait
      | false => exact .reply (.same _) (.processes rfl (beside.setUsers c (t :: ·)))
  | tryTakeChannel c =>
      simp only [performAs, hosted, Hosted.takeChannel, beside.busy_eq]
      cases h.busy t c with
      | true => exact .reply (.same _) (.processes hosted beside)
      | false => exact .reply (.same _) (.processes rfl (beside.setUsers c (t :: ·)))
  | put c piece =>
      have hc : c ≠ .file := by simpa [Request.touchesFile] using untouched
      obtain ⟨s₁, s₁', hput, hput', b₁⟩ := put_beside t hc piece (.processes hosted beside)
      rw [hput, hput']
      exact .reply (.same (r := .put c piece) true) b₁
  | endPrint c formatting =>
      have hfinish :
          finishOf { s with platform := .hosted h' } formatting = s.finishOf formatting := by
        cases formatting <;> simp only [finishOf, hosted]
      simp only [performAs, hosted, hfinish]
      exact .reply (.same _) (.processes rfl (beside.setUsers c fun users => users.erase t))
  | complain text =>
      simp only [performAs, hosted, Hosted.complain, beside.busy_eq]
      cases h.busy t .standardError with
      | true => exact .wait
      | false => exact .reply (.same _) (.processes rfl (beside.addToError text))
  | flush urgency c =>
      simp only [performAs, hosted, Hosted.flush, beside.busy_eq]
      cases h.busy t c with
      | true =>
          cases urgency.passesBy c with
          | true => exact .reply (.same _) (.processes rfl beside)
          | false => exact .wait
      | false => exact .reply (.same _) (.processes rfl (beside.push c))
  | openSink | publishSink => cases untouched
  | stop console code =>
      simp only [performAs, hosted]
      exact .stop _ (.processes rfl (beside.close (some t)))
  | formatsReals | currentConsole | installConsole =>
      simp only [performAs, hosted]
      exact .reply (.same _) (.processes hosted beside)
  | popGuard =>
      simp only [performAs]
      cases s.guards t with
      | zero => exact .reply (.same _) (.processes hosted beside)
      | succ n => exact .reply (.same _) (.processes hosted beside)
  | _ => exact .reply (.same _) (.processes hosted beside)

end Session

end DiagnosticLog
