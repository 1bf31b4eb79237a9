import DiagnosticLog.Proofs.Output.Order
import DiagnosticLog.Proofs.Session.Printing

/-!
# The sink is chosen once

Threads of a process run any steps, and in some of them, or in the middle of their messages, they
choose the sink.  Between the requests of one choice other threads may make theirs, those of another
choice included.  `sink_is_chosen_once` says that the thread that first sets the log up decides for
the whole run, and that a choice that begins later comes to nothing at all.
-/

namespace DiagnosticLog

open Program (Reaches)

/-! ## Choices that nothing comes between -/

namespace Session

variable {s : Session} {h : Hosted}

theorem reply_openSink (hs : s.platform = .hosted h) (t : ThreadId) (path : Option Bytes) :
    perform t (Request.openSink path).demand s =
      .reply (h.openSink t s.logFileVariable path).1
        { s with platform := .hosted (h.openSink t s.logFileVariable path).2 } := by
  simp only [perform_demand, performAs, hs]

theorem reply_publishSink (hs : s.platform = .hosted h) (t : ThreadId) :
    perform t Request.publishSink.demand s =
      .reply (h.publishSink t).1 { s with platform := .hosted (h.publishSink t).2 } := by
  simp only [perform_demand, performAs, hs]

theorem run_tryOpenStream (hs : s.platform = .hosted h) (t : ThreadId) (path : Option Bytes) :
    (Log.tryOpenStream path).run (perform t) s =
      .finished (some (h.chooseSink t s.logFileVariable path).1)
        { s with platform := .hosted (h.chooseSink t s.logFileVariable path).2 } := by
  unfold Log.tryOpenStream Log.currentSink Hosted.chooseSink
  rw [Request.make_bind, Program.run_ask_of_reply (reply_currentSink hs t)]
  simp only
  split
  · simp only [← hs]
    rfl
  · rw [Request.make_bind, Program.run_ask_of_reply (reply_openSink hs t path)]
    rcases h.openSink t s.logFileVariable path with ⟨e | _, h'⟩
    · rfl
    · simp only
      rw [Request.make_bind, Program.run_ask_of_reply (reply_publishSink rfl t)]
      rcases h'.publishSink t with ⟨_ | sink, h''⟩ <;> rfl

def lastWords (e : OpenError) : Task Unit := do
  Request.make (.complain (e.message ++ [Bytes.lineFeed]))
  Log.stop Config.openFailureCode

/-- Whoever chooses the sink without asking is told nothing, unless a file cannot be opened: then
the run ends with a line on standard error, once that is free. -/
theorem run_openStream (hs : s.platform = .hosted h) (t : ThreadId) (path : Option Bytes) :
    (Log.openStream path).run (perform t) s =
      match h.chooseSink t s.logFileVariable path with
      | (.error (.notOpened e), h') =>
          match h'.complain t (e.message ++ [Bytes.lineFeed]) with
          | some h' => .ended (.exit 1) { s with platform := .hosted (h'.close (some t)) }
          | none => .waiting (lastWords e) { s with platform := .hosted h' }
      | (_, h') => .finished () { s with platform := .hosted h' } := by
  rw [Log.openStream, Program.run_bind_of_finished (run_tryOpenStream hs t path)]
  rcases h.chooseSink t s.logFileVariable path with ⟨reply, h'⟩
  rcases reply with (_ | _ | e) | sink
  · rfl
  · rfl
  · show (lastWords e).run (perform t) { s with platform := .hosted h' } = _
    cases hcomplain : h'.complain t (e.message ++ [Bytes.lineFeed]) with
    | none =>
        have hwait : perform t (Request.complain (e.message ++ [Bytes.lineFeed])).demand
            { s with platform := .hosted h' } = .wait := by
          simp only [perform_demand, performAs, hcomplain]
        rw [lastWords, Request.make_bind, Program.run_ask_of_wait hwait]
        simp only [hcomplain]
        rfl
    | some h'' =>
        have hreply : perform t (Request.complain (e.message ++ [Bytes.lineFeed])).demand
            { s with platform := .hosted h' } = .reply () { s with platform := .hosted h'' } := by
          simp only [perform_demand, performAs, hcomplain]
        rw [lastWords, Request.make_bind, Program.run_ask_of_reply hreply]
        simp only [hcomplain]
        rfl
  · rfl

end Session

/-! ## Runs -/

namespace Setup

abbrev Crowd : Type :=
  Crew Request.interface ThreadId Step Session (Option Answer)

abbrev Event : Type :=
  Crew.Event Request.interface ThreadId Step Session (Option Answer)

abbrev Happens : Crowd → Event → Crowd → Prop :=
  Crew.Step (fun t => Session.perform t) fun _ step => step.task

abbrev Run (s : Session) : List Event → Crowd → Prop :=
  Crew.Run (fun t => Session.perform t) (fun _ step => step.task) (Crew.idle s)

/-- What requests and their answers tell of the choices of the sink. -/
structure Choices where
  /-- The path, or none, by which a thread has opened a sink that it has not yet tried to set the
  log up with. -/
  opened : ThreadId → Option (Option Bytes)
  /-- The path, or none, by which the sink was opened that the log was set up with. -/
  chosen : Option (Option Bytes)

namespace Choices

def nothing : Choices :=
  ⟨fun _ => none, none⟩

def enter (c : Choices) (t : ThreadId) : (r : Request) → r.Reply → Choices
  | .openSink path, .ok () => { c with opened := update c.opened t (some path) }
  | .publishSink, some _ => ⟨update c.opened t none, c.opened t⟩
  | .publishSink, none => { c with opened := update c.opened t none }
  | _, _ => c

theorem enter_of_ne (c : Choices) (t : ThreadId) {r : Request} (hopen : ∀ path, r ≠ .openSink path)
    (hpublish : r ≠ .publishSink) (answer : r.Reply) : c.enter t r answer = c := by
  cases r with
  | openSink path => exact absurd rfl (hopen path)
  | publishSink => exact absurd rfl hpublish
  | _ => rfl

def sink (c : Choices) (environment : String → Option Bytes) (variableName : String) : Sink :=
  (c.chosen.map (Sink.sought environment variableName)).getD .unresolved

end Choices

def enter (c : Choices) : Event → Choices
  | .began _ _ _ => c
  | .made t _ d answer _ _ _ => c.enter (d.caller.thread t) d.request answer

def choices (es : List Event) : Choices :=
  es.foldl enter .nothing

theorem choices_snoc (es : List Event) (e : Event) :
    choices (es ++ [e]) = enter (choices es) e := by
  simp [choices, List.foldl_append]

/-- A process is set up as its choices have it. -/
structure Agrees (environment : String → Option Bytes) (variableName : String) (c : Choices)
    (h : Hosted) : Prop where
  environment_eq : h.environment = environment
  opened_eq : ∀ t, (h.opened t).map Stream.sink =
    (c.opened t).map (Sink.sought environment variableName)
  sink_eq : h.sink = c.sink environment variableName

namespace Agrees

variable {environment : String → Option Bytes} {variableName : String} {c : Choices}
  {h h' : Hosted} {t : ThreadId}

theorem opening {path : Option Bytes} {reply : Except OpenError Unit}
    (agrees : Agrees environment variableName c h)
    (opening : h.Opening t (Sink.sought environment variableName path) reply h') :
    Agrees environment variableName (c.enter t (.openSink path) reply) h' := by
  have hopened (stream : Stream) (hstream : stream.sink = Sink.sought environment variableName path)
      (u : ThreadId) : (update h.opened t (some stream) u).map Stream.sink =
        (update c.opened t (some path) u).map (Sink.sought environment variableName) := by
    by_cases hu : u = t
    · subst hu
      simp [hstream]
    · rw [update_of_ne hu, update_of_ne hu]
      exact agrees.opened_eq u
  generalize hwanted : Sink.sought environment variableName path = wanted at opening
  cases opening with
  | standardOut => exact ⟨agrees.environment_eq, hopened _ hwanted.symm, agrees.sink_eq⟩
  | standardError => exact ⟨agrees.environment_eq, hopened _ hwanted.symm, agrees.sink_eq⟩
  | file opens => exact ⟨agrees.environment_eq, hopened _ hwanted.symm, agrees.sink_eq⟩
  | failed refused => exact agrees

theorem publication {reply : Option Sink} (agrees : Agrees environment variableName c h)
    (publication : h.Publication t reply h') :
    Agrees environment variableName (c.enter t .publishSink reply) h' := by
  have hopened (u : ThreadId) : (update h.opened t none u).map Stream.sink =
      (update c.opened t none u).map (Sink.sought environment variableName) := by
    by_cases hu : u = t
    · subst hu
      simp
    · rw [update_of_ne hu, update_of_ne hu]
      exact agrees.opened_eq u
  cases publication with
  | @first stream unset opened =>
      refine ⟨agrees.environment_eq, hopened, ?_⟩
      have hsought := agrees.opened_eq t
      rw [opened, Option.map_some] at hsought
      show stream.sink = ((c.opened t).map (Sink.sought environment variableName)).getD .unresolved
      rw [← hsought, Option.getD_some]
  | late unable => exact ⟨agrees.environment_eq, hopened, agrees.sink_eq⟩

theorem move {s : Session} {r : Request} {answer : r.Reply}
    (agrees : Agrees environment variableName c h) (hs : s.logFileVariable = variableName)
    (move : Hosted.Move t s r answer h h') :
    Agrees environment variableName (c.enter t r answer) h' := by
  by_cases hopen : ∃ path, r = .openSink path
  · obtain ⟨path, rfl⟩ := hopen
    cases move with
    | openSink opening =>
        rw [agrees.environment_eq, hs] at opening
        exact agrees.opening opening
    | other hr => cases hr
  · by_cases hpublish : r = .publishSink
    · subst hpublish
      cases move with
      | publishSink publication => exact agrees.publication publication
      | other hr => cases hr
    · have hother : ∀ path, r ≠ .openSink path := fun path heq => hopen ⟨path, heq⟩
      rw [c.enter_of_ne t hother hpublish]
      refine ⟨(Hosted.environment_of_move move).trans agrees.environment_eq, ?_,
        (Hosted.sink_of_move move hpublish).trans agrees.sink_eq⟩
      rw [Hosted.opened_of_move move hother hpublish]
      exact agrees.opened_eq

end Agrees

structure Settled (environment : String → Option Bytes) (variableName : String)
    (es : List Event) (s : Session) (h : Hosted) : Prop where
  platform : s.platform = .hosted h
  variableName_eq : s.logFileVariable = variableName
  agrees : Agrees environment variableName (choices es) h

/-- What thread `t` does to a process by a request that is part of a choice of the sink, where paths
stand for sinks like this.  No other request changes the sink. -/
def Does (sought : Option Bytes → Sink) (t : ThreadId) (h h' : Hosted) :
    (r : Request) → r.Reply → Prop
  | .currentSink, sink => sink = some h.sink ∧ h' = h
  | .openSink path, reply => h.Opening t (sought path) reply h'
  | .publishSink, reply => h.Publication t reply h'
  | _, _ => h'.sink = h.sink

theorem Does.sink_eq {sought : Option Bytes → Sink} {t : ThreadId} {h h' : Hosted} {r : Request}
    {answer : r.Reply} (does : Does sought t h h' r answer) (resolved : h.sink.isResolved) :
    h'.sink = h.sink := by
  cases r with
  | currentSink => rw [does.2]
  | openSink path =>
      have opening : h.Opening t (sought path) answer h' := does
      rw [opening.rest, Hosted.sink, Hosted.sink]
  | publishSink =>
      have publication : h.Publication t answer h' := does
      cases publication with
      | first unset opened =>
          rw [Hosted.isResolved_sink, unset] at resolved
          cases resolved
      | late unable => rfl
  | _ => exact does

namespace Settled

variable {environment : String → Option Bytes} {variableName : String} {es : List Event}
  {s s' : Session} {h : Hosted}

theorem chooses (settled : Settled environment variableName es s h) (t : ThreadId)
    (path : Option Bytes) :
    h.Chooses t (Sink.sought environment variableName path)
      (h.chooseSink t s.logFileVariable path).1 (h.chooseSink t s.logFileVariable path).2 := by
  have hchooses := h.chooses t s.logFileVariable path
  rw [settled.agrees.environment_eq] at hchooses
  rw [← settled.variableName_eq]
  exact hchooses

theorem move (settled : Settled environment variableName es s h) {t : ThreadId} {d : Demand}
    {answer : d.Reply} (reply : Session.perform t d s = .reply answer s') :
    ∃ h', s'.platform = .hosted h' ∧
      Agrees environment variableName ((choices es).enter (d.caller.thread t) d.request answer) h' ∧
      Does (Sink.sought environment variableName) (d.caller.thread t) h h' d.request answer := by
  obtain ⟨h', hs', move⟩ := Session.move_of_reply settled.platform reply
  refine ⟨h', hs', settled.agrees.move settled.variableName_eq move, ?_⟩
  obtain ⟨caller, r⟩ := d
  cases r with
  | currentSink =>
      simp only [Session.perform, Session.performAs, settled.platform] at reply
      cases reply
      cases settled.platform.symm.trans hs'
      exact ⟨rfl, rfl⟩
  | openSink path =>
      cases move with
      | openSink opening =>
          rw [settled.agrees.environment_eq, settled.variableName_eq] at opening
          exact opening
      | other hr => cases hr
  | publishSink =>
      cases move with
      | publishSink publication => exact publication
      | other hr => cases hr
  | _ => exact Hosted.sink_of_move move fun hr => by cases hr

end Settled

theorem settled_of_run {build : Build} (hosted : build.mode = .hosted)
    {environment : String → Option Bytes} {tree : FileTree} {es : List Event} {x : Crowd}
    (run : Run (Session.start build environment tree) es x) :
    ∃ h, Settled environment build.logFileVariable es x.state h := by
  apply run.invariant (motive := fun es x =>
    ∃ h, Settled environment build.logFileVariable es x.state h)
  · refine ⟨Hosted.start environment tree, ?_, rfl, rfl, fun _ => rfl, rfl⟩
    simp only [Crew.idle, Session.start, hosted]
  · rintro es x e z ⟨h, settled⟩ happens
    cases happens with
    | began job free =>
        refine ⟨h, settled.platform, settled.variableName_eq, ?_⟩
        rw [choices_snoc]
        exact settled.agrees
    | made busy reply =>
        obtain ⟨h', platform, agrees, -⟩ := settled.move reply
        have hvariable := (Session.build_of_reply reply).2.trans settled.variableName_eq
        refine ⟨h', platform, hvariable, ?_⟩
        rw [choices_snoc]
        exact agrees

/-- What thread `t` makes of a choice that comes to this, in each way there is to choose, if nothing
comes between.  Who tries is told; who does not ask goes on, unless the file could not be opened. -/
structure Told (t : ThreadId) (s : Session) (path : Option Bytes) (reply : Except LogError Sink)
    (h' : Hosted) : Prop where
  tries : (Log.tryOpenStream path).run (Session.perform t) s =
    .finished (some reply) { s with platform := .hosted h' }
  goesOn (hopened : ∀ e, reply ≠ .error (.notOpened e)) :
    (Log.openStream path).run (Session.perform t) s = .finished () { s with platform := .hosted h' }
  ends (e : OpenError) (failed : reply = .error (.notOpened e))
      (free : h'.busy t .standardError = false) :
    (Log.openStream path).run (Session.perform t) s =
      .ended (.exit 1)
        { s with
          platform := .hosted
            (Hosted.close { h' with err := h'.err.add (e.message ++ [Bytes.lineFeed]) } (some t)) }
  waits (e : OpenError) (failed : reply = .error (.notOpened e))
      (busy : h'.busy t .standardError = true) :
    (Log.openStream path).run (Session.perform t) s =
      .waiting (Session.lastWords e) { s with platform := .hosted h' }
  foreign (c : Log.Foreign.CString) (hc : c.map Bytes.beforeZero = path) :
    Log.Foreign.openStream c = Log.openStream path

theorem told {s : Session} {h : Hosted} (hs : s.platform = .hosted h) (t : ThreadId)
    (path : Option Bytes) :
    Told t s path (h.chooseSink t s.logFileVariable path).1
      (h.chooseSink t s.logFileVariable path).2 where
  tries := Session.run_tryOpenStream hs t path
  goesOn hopened := by
    rw [Session.run_openStream hs t path]
    split
    · rename_i e h' heq
      exact absurd (congrArg Prod.fst heq) (hopened e)
    · rename_i heq
      rw [heq]
  ends e failed free := by
    rw [Session.run_openStream hs t path,
      show h.chooseSink t s.logFileVariable path = (.error (.notOpened e), _) from
        Prod.ext failed rfl]
    simp only [Hosted.complain, free, Bool.false_eq_true, if_false]
  waits e failed busy := by
    rw [Session.run_openStream hs t path,
      show h.chooseSink t s.logFileVariable path = (.error (.notOpened e), _) from
        Prod.ext failed rfl]
    simp only [Hosted.complain, busy, if_true]
  foreign c hc := hc ▸ rfl

/-- Threads run steps in a process that nothing has been set up in, and choose the sink as often as
they like; choices may overlap.

* The sink is unresolved until a thread sets the log up with what it has opened, is what that thread
  asked for by its path, the environment or neither, and never changes again.
* A choice that nothing comes between does what `Hosted.Chooses` lists: it opens the file it asks
  for, which is empty then, and no other; if the file cannot be opened, or if the log is set up
  already, nothing changes at all.
* In any choice a thread looks, opens and sets the log up, in this order and with nothing else in
  between (`Choosing`), and what each of these does is listed by `Does`.  A choice that begins when
  the log is set up ends with the look, and changes nothing.  Only a thread that had looked before
  another set the log up may still open its file, which is empty then, and is told afterwards that
  it has come too late. -/
theorem sink_is_chosen_once {build : Build} (hosted : build.mode = .hosted)
    {environment : String → Option Bytes} {tree : FileTree} {es : List Event} {x : Crowd}
    (run : Run (Session.start build environment tree) es x) :
    ∃ h, x.state.platform = .hosted h ∧
      h.sink = (choices es).sink environment build.logFileVariable ∧
      (∀ t, (h.opened t).map Stream.sink =
        ((choices es).opened t).map (Sink.sought environment build.logFileVariable)) ∧
      (∀ path sink, Sink.Meant path (environment build.logFileVariable) sink ↔
        sink = Sink.sought environment build.logFileVariable path) ∧
      (∀ t, Log.currentSink.run (Session.perform t) x.state = .finished (some h.sink) x.state) ∧
      (∀ e z, Happens x e z → h.sink.isResolved →
        ∃ h', z.state.platform = .hosted h' ∧ h'.sink = h.sink) ∧
      (∀ t path, ∃ reply h',
        h.Chooses t (Sink.sought environment build.logFileVariable path) reply h' ∧
          Told t x.state path reply h') ∧
      (∀ path talks q, Reaches (Log.tryOpenStream path) talks q ↔ Choosing path talks q) ∧
      ∀ t job d answer s s' result z, Happens x (.made t job d answer s s' result) z →
        d.Follows (Crew.exchanges t es).getLast? ∧
          ∃ h', z.state.platform = .hosted h' ∧
            Does (Sink.sought environment build.logFileVariable) (d.caller.thread t) h h' d.request
              answer := by
  obtain ⟨h, settled⟩ := settled_of_run hosted run
  refine ⟨h, settled.platform, settled.agrees.sink_eq, settled.agrees.opened_eq,
    fun _ _ => Sink.meant_iff, ?_, ?_,
    fun t path => ⟨_, _, settled.chooses t path, told settled.platform t path⟩,
    fun _ _ _ => reaches_tryOpenStream_iff, ?_⟩
  · intro t
    exact Program.run_ask_of_reply (Session.reply_currentSink settled.platform t) _
  · intro e z happens resolved
    cases happens with
    | began job free => exact ⟨h, settled.platform, rfl⟩
    | made busy reply =>
        obtain ⟨h', platform, -, does⟩ := settled.move reply
        exact ⟨h', platform, does.sink_eq resolved⟩
  · intro t job d answer s s' result z happens
    cases happens with
    | made busy reply =>
        have hfollows := job.inOrder.follows (run.reaches (fun _ => rfl) t job _ busy)
        rw [Option.or_none] at hfollows
        obtain ⟨h', platform, -, does⟩ := settled.move reply
        exact ⟨hfollows, h', platform, does⟩

def oneVariable (name : String) : Option Bytes :=
  if name = "MAXINE_LOG_FILE" then some (Bytes.ofString "vm.log") else none

def staleTree : FileTree :=
  .ofContents [] [] [([Bytes.ofString "vm.log"], Bytes.ofString "stale")] []

def overtaken : Step :=
  .call (.tryOpenStream (some Config.standardErrorPath))

/-- A choice fails, another is made in the middle of a message while a third is under way, and a
fourth comes too late, as does the third. -/
theorem chosen_in_a_message :
    ∃ (es : List Event) (x : Crowd) (h : Hosted),
      Run (Session.start ⟨.hosted, .lf, false⟩ oneVariable staleTree) es x ∧
      x.state.platform = .hosted h ∧ h.sink = .file (Bytes.ofString "vm.log") ∧
      es.getLast?.bind Crew.Event.returned? =
        some (.lasting 2, overtaken, some (.logError .alreadyInitialized)) ∧
      (Log.tryOpenStream (some (Bytes.ofString "vm.log"))).run (Session.perform (.lasting 1))
        x.state = .finished (some (.error .alreadyInitialized)) x.state := by
  obtain ⟨es, x, run, hchosen, hlast⟩ : ∃ (es : List Event) (x : Crowd),
      Run (Session.start ⟨.hosted, .lf, false⟩ oneVariable staleTree) es x ∧
        (choices es).chosen = some none ∧
        es.getLast?.bind Crew.Event.returned? =
          some (.lasting 2, overtaken, some (.logError .alreadyInitialized)) :=
    ⟨_, _, Crew.run_of_follow
      [(.lasting 0, some (.call (.tryOpenStream (some (Bytes.ofString "none/vm.log"))))),
        (.lasting 0, none), (.lasting 0, none),
        (.lasting 2, some overtaken), (.lasting 2, none),
        (.lasting 0, some (.print [.text (Bytes.ofString "x"),
          .run [.call (.openStream none)], .text (Bytes.ofString "y")])),
        (.lasting 0, none), (.lasting 0, none), (.lasting 0, none), (.lasting 0, none),
        (.lasting 0, none), (.lasting 0, none), (.lasting 0, none), (.lasting 0, none),
        (.lasting 0, none),
        (.lasting 1, some (.call (.foreign (.openStream (some (Bytes.ofString "stderr")))))),
        (.lasting 1, none), (.lasting 2, none), (.lasting 2, none)] rfl, rfl, rfl⟩
  obtain ⟨h, hplatform, hsink, -, -, -, -, hcalls, -⟩ := sink_is_chosen_once rfl run
  rw [Choices.sink, hchosen] at hsink
  have hfile : h.sink = .file (Bytes.ofString "vm.log") := hsink
  obtain ⟨reply, h', hchooses, told⟩ := hcalls (.lasting 1) (some (Bytes.ofString "vm.log"))
  refine ⟨es, x, h, run, hplatform, hfile, hlast, ?_⟩
  have hrun := told.tries
  cases hchooses with
  | late resolved => rw [hrun, ← hplatform]
  | file unresolved | failed unresolved =>
      rw [hfile] at unresolved
      cases unresolved

end Setup

end DiagnosticLog
