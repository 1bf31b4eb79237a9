import DiagnosticLog.Proofs.Output.Directed
import DiagnosticLog.Proofs.Output.Ledger
import DiagnosticLog.Proofs.Setup

/-!
# A log file that cannot be opened

There are two ways to choose the sink: to try, and be told what comes of it, and to go on in any
case but one.  Where a try is told that the log file could not be opened, the other way ends the
process (`opening_follows_trying`).  No sink has been chosen then, so whatever has been printed is
in standard output: `unchosen_of_run` follows it there along the run, and the end of the process
delivers it.
-/

namespace DiagnosticLog

/-! ## As long as no sink is chosen -/

namespace Hosted

variable {h h' : Hosted} {t : ThreadId} {s : Session} {r : Request} {answer : r.Reply}

theorem unresolved_of_move (move : Move t s r answer h h') (unresolved : h'.sink = .unresolved) :
    h.sink = .unresolved := by
  by_cases hr : r = .publishSink
  · subst hr
    cases move with
    | publishSink publication =>
        cases publication with
        | first unset opened => rw [sink, unset]; rfl
        | late unable => exact unresolved
    | other hr => cases hr
  · rw [← sink_of_move move hr]
    exact unresolved

theorem sendsTo_of_move (move : Move t s r answer h h') (unresolved : h.sink = .unresolved)
    (puts : r.PutsTo .standardOut) : r.SendsTo .standardOut answer := by
  cases move with
  | beginPrint =>
      rw [unresolved]
      rintro d ⟨⟩
      rfl
  | tryTakeChannel free => rfl
  | refuse busy =>
      obtain ⟨rfl, hfile⟩ := puts
      cases hfile
  | other hr => cases r <;> trivial
  | _ => trivial

theorem users_err_of_move (move : Move t s r answer h h') (puts : r.PutsTo .standardOut)
    (nobody : h.users.err = []) : h'.users.err = [] := by
  cases move with
  | takeChannel free =>
      obtain rfl := puts
      exact nobody
  | tryTakeChannel free =>
      obtain ⟨rfl, -⟩ := puts
      exact nobody
  | @endPrint _ c _ => cases c <;> simp [endPrint, Users.modify, nobody]
  | put =>
      rw [put_users]
      exact nobody
  | flush free =>
      rw [users_push]
      exact nobody
  | openSink opening =>
      rw [opening.rest]
      exact nobody
  | publishSink publication => cases publication <;> exact nobody
  | _ => exact nobody

end Hosted

namespace Setup

def pieceText (spell : Piece → Bytes) : Event → Bytes
  | .made _ _ ⟨_, .put _ piece⟩ _ _ _ _ => spell piece
  | _ => []

def printed (spell : Piece → Bytes) (es : List Event) : Bytes :=
  es.flatMap (pieceText spell)

theorem printed_snoc (spell : Piece → Bytes) (es : List Event) (e : Event) :
    printed spell (es ++ [e]) = printed spell es ++ pieceText spell e := by
  simp [printed]

theorem pieceText_made {s : Session} {d : Demand} (puts : d.request.PutsTo .standardOut)
    (t : ThreadId) (job : Step) (answer : d.Reply) (s₀ s₁ : Session)
    (result : Option (Option Answer)) :
    pieceText s.spell (.made t job d answer s₀ s₁ result) = s.written .standardOut d.request := by
  obtain ⟨caller, r⟩ := d
  cases r with
  | put c piece => exact (if_pos puts).symm
  | _ => rfl

/-- What holds along a run for as long as no sink is chosen: standard output has everything that has
been printed, nobody prints to standard error, and the threads go on printing to standard output. -/
structure Unchosen (spell : Piece → Bytes) (es : List Event) (x : Crowd) (h : Hosted) : Prop where
  text : h.HasText .standardOut (printed spell es)
  fresh : h.Fresh
  err : h.users.err = []
  keeps : ∀ t job p, x.doing t = some (job, p) → KeepsTo .standardOut (fun _ => True) p

namespace Unchosen

variable {spell : Piece → Bytes} {es : List Event} {x z : Crowd} {h h' : Hosted} {t : ThreadId}
  {job : Step} {d : Demand} {answer : d.Reply} {s s' : Session} {result : Option (Option Answer)}

theorem keeps_update (unchosen : Unchosen spell es x h) {p : Task (Option Answer)}
    (hp : KeepsTo .standardOut (fun _ => True) p) (u : ThreadId) (job' : Step)
    (q : Task (Option Answer))
    (doing : Function.update x.doing t (Crew.remaining job p) u = some (job', q)) :
    KeepsTo .standardOut (fun _ => True) q := by
  by_cases hu : u = t
  · subst hu
    rw [Function.update_self] at doing
    obtain ⟨-, rfl⟩ := Crew.remaining_eq_some doing
    exact hp
  · rw [Function.update_of_ne hu] at doing
    exact unchosen.keeps u job' q doing

theorem began (unchosen : Unchosen spell es x h) (happens : Happens x (.began t job result) z) :
    Unchosen spell (es ++ [.began t job result]) z h := by
  cases happens with
  | began job free =>
      have hjob : (TaskLaw.directed .standardOut).Holds (fun _ => True) job.task :=
        TaskLaw.ofAny (job.keepsTo .standardOut)
      refine ⟨?_, unchosen.fresh, unchosen.err, unchosen.keeps_update hjob⟩
      rw [printed_snoc]
      exact (List.append_nil (printed spell es)).symm ▸ unchosen.text

theorem made (unchosen : Unchosen spell es x h) (spelled : x.state.spell = spell)
    (unresolved : h.sink = .unresolved)
    (happens : Happens x (.made t job d answer s s' result) z)
    (move : Hosted.Move (d.caller.thread t) x.state d.request answer h h') :
    Unchosen spell (es ++ [.made t job d answer s s' result]) z h' := by
  subst spelled
  cases happens with
  | made busy reply =>
      obtain ⟨puts, hnext⟩ := unchosen.keeps t job _ busy
      have sends := Hosted.sendsTo_of_move move unresolved puts
      refine ⟨?_, unchosen.fresh.move move, Hosted.users_err_of_move move puts unchosen.err,
        unchosen.keeps_update (hnext answer sends)⟩
      have undisturbed : h.Undisturbed d.request := by
        unfold Hosted.Undisturbed
        split
        · exact unresolved
        · exact unchosen.fresh
        · trivial
      rw [printed_snoc, pieceText_made puts]
      refine Session.hasText_of_move move undisturbed (fun c piece hr => ?_) unchosen.text
      rw [hr] at puts
      obtain rfl : c = .standardOut := puts
      trivial

end Unchosen

theorem unchosen_of_run {build : Build} (hosted : build.mode = .hosted)
    {environment : String → Option Bytes} {tree : FileTree} {es : List Event} {x : Crowd}
    (run : Run (Session.start build environment tree) es x) :
    ∃ h, x.state.platform = .hosted h ∧ x.state.spell = build.lineEnd.spell ∧
      (h.sink = .unresolved → Unchosen build.lineEnd.spell es x h) := by
  apply run.invariant (motive := fun es x => ∃ h, x.state.platform = .hosted h ∧
    x.state.spell = build.lineEnd.spell ∧
      (h.sink = .unresolved → Unchosen build.lineEnd.spell es x h))
  · refine ⟨Hosted.start environment tree, ?_, Session.spell_eq _, fun _ =>
      ⟨⟨[], rfl, rfl⟩, Hosted.fresh_start environment tree, rfl, nofun⟩⟩
    simp only [Crew.idle, Session.start, hosted]
  · rintro es x e z ⟨h, platform, spelled, unchosen⟩ happens
    cases e with
    | began t job result =>
        have hstate : z.state = x.state := by
          cases happens
          rfl
        rw [hstate]
        exact ⟨h, platform, spelled, fun unresolved => (unchosen unresolved).began happens⟩
    | made t job d answer s s' result =>
        have hreply : Session.performAs (d.caller.thread t) d.request x.state =
            .reply answer z.state := by
          cases happens with
          | made busy reply => exact reply
        obtain ⟨h', platform', move⟩ := Session.move_of_reply platform hreply
        -- if no sink is chosen after the move, none was before it
        refine ⟨h', platform', (Session.spell_of_reply hreply).trans spelled, fun unresolved => ?_⟩
        have before := Hosted.unresolved_of_move move unresolved
        exact (unchosen before).made spelled before happens move

end Setup

/-! ## The end of the process -/

/-- What a process comes to that thread `t` ends since the log file could not be opened.  There is
one line more on standard error.  Everything that has been printed is in standard output; it is
delivered, unless another thread is in the middle of a print there.  Nothing else changes. -/
structure Hosted.Unopened (h : Hosted) (t : ThreadId) (path printed : Bytes) (h' : Hosted) :
    Prop where
  complaint : h'.err.text = h.err.text ++
    (Bytes.ofString "Could not open file for VM output stream: " ++ Lossy.text path ++ [0x0A])
  contents : h.out.text = printed
  delivered (alone : ∀ user ∈ h.users.out, user = t) :
    h'.out.delivered.text = printed ∧ h'.out.kept = []
  leftBehind (another : ∃ user ∈ h.users.out, user ≠ t) : h'.out = h.out
  rest : h' = { h with out := h'.out, err := h'.err }

theorem Hosted.unopened {h : Hosted} {printed : Bytes} (ht : h.HasText .standardOut printed)
    (t : ThreadId) (e : OpenError) :
    h.Unopened t e.path printed
      (Hosted.close { h with err := h.err.add (e.message ++ [Bytes.lineFeed]) } (some t)) := by
  have hcontents := hasText_standardOut.mp ht
  generalize htold : h.err.add (e.message ++ [Bytes.lineFeed]) = told
  have hcomplaint : told.text = h.err.text ++ (e.message ++ [Bytes.lineFeed]) := by
    rw [← htold]
    exact Transcript.text_add _ _
  by_cases hall : ∀ user ∈ h.users.out, user = t
  · have hclose : Hosted.close { h with err := told } (some t) =
        { h with err := told, out := h.out.flush } :=
      if_pos (by simpa using hall)
    rw [hclose]
    refine ⟨hcomplaint, hcontents, fun _ => ⟨?_, rfl⟩, ?_, rfl⟩
    · exact (Transcript.text_add _ _).trans hcontents
    · rintro ⟨user, huser, hne⟩
      exact absurd (hall user huser) hne
  · have hclose : Hosted.close { h with err := told } (some t) = { h with err := told } :=
      if_neg (by simpa using hall)
    rw [hclose]
    exact ⟨hcomplaint, hcontents, fun alone => absurd alone hall, fun _ => rfl, rfl⟩

namespace Setup

/-- What comes of choosing the sink without asking, by what a try is told that leaves the process
in the state `h'`: the same if a sink is chosen or has been, and the end of the process if the log
file cannot be opened. -/
inductive Follows (t : ThreadId) (s : Session) (h h' : Hosted) (path printed : Bytes) :
    Except LogError Sink → Outcome Request.interface Session Ending Unit → Prop where
  | chosen {sink : Sink} :
      Follows t s h h' path printed (.ok sink) (.finished () { s with platform := .hosted h' })
  | late :
      Follows t s h h' path printed (.error .alreadyInitialized)
        (.finished () { s with platform := .hosted h' })
  | failed {cause : OpenFailure} {last : Hosted} (unresolved : h.sink = .unresolved)
      (unchanged : h' = h) (unopened : h.Unopened t path printed last) :
      Follows t s h h' path printed (.error (.notOpened ⟨path, cause⟩))
        (.ended (.exit 1) { s with platform := .hosted last })

theorem path_of_sought {environment : String → Option Bytes} {variableName : String}
    {path : Option Bytes} {file : Bytes}
    (sought : Sink.sought environment variableName path = .file file) :
    file = resolvePath path (environment variableName) := by
  have named : Sink.Named (resolvePath path (environment variableName)) (.file file) :=
    Sink.named_iff.mpr sought.symm
  generalize resolvePath path (environment variableName) = resolved at named
  cases named with
  | file notOut notError => rfl

/-- At every point of a run of steps in a process, a thread may choose the sink without asking, even
in the middle of a print, and by any path or none.  What comes of it follows from what a try would
be told; the path that could not be opened is the one that was looked for, byte for byte. -/
theorem opening_follows_trying {build : Build} (hosted : build.mode = .hosted)
    {environment : String → Option Bytes} {tree : FileTree} {es : List Event} {x : Crowd}
    (run : Run (Session.start build environment tree) es x) :
    ∃ h, x.state.platform = .hosted h ∧ ∀ t path, ∃ reply h',
      (Log.tryOpenStream path).run (Session.perform t) x.state =
        .finished (some reply) { x.state with platform := .hosted h' } ∧
      Follows t x.state h h' (resolvePath path (environment build.logFileVariable))
        (printed build.lineEnd.spell es) reply
        ((Log.openStream path).run (Session.perform t) x.state) := by
  obtain ⟨h, settled⟩ := settled_of_run hosted run
  obtain ⟨h₁, platform, -, unchosen⟩ := unchosen_of_run hosted run
  obtain rfl : h = h₁ := Platform.hosted.inj (settled.platform.symm.trans platform)
  refine ⟨h, platform, fun t path => ⟨_, _, (told platform t path).tries, ?_⟩⟩
  have told := told platform t path
  have hchooses := settled.chooses t path
  generalize (h.chooseSink t x.state.logFileVariable path).1 = reply,
    (h.chooseSink t x.state.logFileVariable path).2 = h' at told hchooses ⊢
  generalize hwanted : Sink.sought environment build.logFileVariable path = wanted at hchooses
  cases hchooses with
  | late resolved =>
      rw [told.goesOn nofun]
      exact .late
  | standardOut unresolved | standardError unresolved =>
      rw [told.goesOn nofun]
      exact .chosen
  | file unresolved opens =>
      rw [told.goesOn nofun]
      exact .chosen
  | @failed file cause unresolved refused =>
      have free : h.busy t .standardError = false := by
        simp [Hosted.busy, Users.of, (unchosen unresolved).err]
      rw [told.ends _ rfl free, ← path_of_sought hwanted]
      exact .failed unresolved rfl (Hosted.unopened (unchosen unresolved).text t ⟨file, cause⟩)

/-- Another thread is in the middle of a print. -/
theorem opening_fails_beside_a_print :
    ∃ (es : List Event) (x : Crowd) (h last : Hosted),
      Run (Session.start ⟨.hosted, .lf, false⟩ (fun _ => none) .empty) es x ∧
      x.state.platform = .hosted h ∧ h.sink = .unresolved ∧
      printed LineEnd.lf.spell es = Bytes.ofString "b4 early" ∧
      (Log.tryOpenStream (some (Bytes.ofString "missing/vm.log"))).run
          (Session.perform (.lasting 0)) x.state =
        .finished (some (.error (.notOpened ⟨Bytes.ofString "missing/vm.log", .notFound⟩)))
          x.state ∧
      (Log.openStream (some (Bytes.ofString "missing/vm.log"))).run (Session.perform (.lasting 0))
        x.state = .ended (.exit 1) { x.state with platform := .hosted last } ∧
      last.out.delivered.text ≠ printed LineEnd.lf.spell es := by
  refine ⟨_, _, _, _, Crew.run_of_follow
    [(.lasting 0, some (.call (.buffer (Bytes.ofString "b4 ")))), (.lasting 0, none),
      (.lasting 0, none), (.lasting 0, none), (.lasting 0, none),
      (.lasting 1, some (.print [.text (Bytes.ofString "early")])), (.lasting 1, none),
      (.lasting 1, none), (.lasting 1, none)]
    rfl, rfl, rfl, by decide +kernel, rfl, rfl, by decide +kernel⟩

/-- An environment that names a file in a directory that is not there, with a byte that is no text.
-/
def misnamed (name : String) : Option Bytes :=
  if name = "TELE_LOG_FILE" then some (Bytes.ofString "none/vm" ++ [0xFF]) else none

/-- A thread chooses the sink in the middle of its second print, where lines end in two bytes. -/
theorem opening_fails_in_a_message :
    ∃ (es : List Event) (x : Crowd) (h last : Hosted),
      Run (Session.start ⟨.hosted, .crlf, true⟩ misnamed .empty) es x ∧
      x.state.platform = .hosted h ∧ h.out.kept = Bytes.ofString "b" ∧
      (Log.openStream none).run (Session.perform (.lasting 0)) x.state =
        .ended (.exit 1) { x.state with platform := .hosted last } ∧
      last.out.delivered.text = Bytes.ofString "\r\nb" ∧
      last.err.text =
        Bytes.ofString "Could not open file for VM output stream: none/vm\uFFFD\n" := by
  obtain ⟨es, x, h, run, hplatform, hkept, hprinted, husers, herr, htry⟩ : ∃ (es : List Event)
      (x : Crowd) (h : Hosted), Run (Session.start ⟨.hosted, .crlf, true⟩ misnamed .empty) es x ∧
      x.state.platform = .hosted h ∧ h.out.kept = Bytes.ofString "b" ∧
      printed LineEnd.crlf.spell es = Bytes.ofString "\r\nb" ∧
      h.users.out = [.lasting 0] ∧ h.err = Transcript.empty ∧
      (Log.tryOpenStream none).run (Session.perform (.lasting 0)) x.state =
        .finished (some (.error (.notOpened ⟨Bytes.ofString "none/vm" ++ [0xFF], .notFound⟩)))
          x.state :=
    ⟨_, _, _, Crew.run_of_follow
      [(.lasting 0, some (.call .newline)), (.lasting 0, none), (.lasting 0, none),
        (.lasting 0, none), (.lasting 0, none),
        (.lasting 0, some (.print [.text (Bytes.ofString "b"), .run [.call (.openStream none)]])),
        (.lasting 0, none), (.lasting 0, none), (.lasting 0, none)]
      rfl, rfl, by decide +kernel, by decide +kernel, by decide +kernel, by decide +kernel, rfl⟩
  obtain ⟨h', hplatform', hopening⟩ := opening_follows_trying rfl run
  obtain rfl : h = h' := Platform.hosted.inj (hplatform.symm.trans hplatform')
  obtain ⟨reply, h', htry', follows⟩ := hopening (.lasting 0) none
  obtain rfl := Option.some.inj (Outcome.finished.inj (htry.symm.trans htry')).1
  generalize hends : (Log.openStream none).run (Session.perform (.lasting 0)) x.state = outcome
    at follows
  generalize resolvePath none _ = path at follows
  cases follows with
  | @failed _ last unresolved unchanged unopened =>
      have halone : ∀ user ∈ h.users.out, user = .lasting 0 := by simp [husers]
      refine ⟨es, x, h, last, run, hplatform, hkept, hends, ?_, ?_⟩
      · exact (unopened.delivered halone).1.trans hprinted
      · rw [unopened.complaint, herr]
        decide +kernel

end Setup

end DiagnosticLog
