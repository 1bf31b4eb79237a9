import DiagnosticLog.Proofs.Output.Formatting
import DiagnosticLog.Proofs.Output.Ledger
import DiagnosticLog.Proofs.Output.Nesting
import DiagnosticLog.Proofs.Output.Order

/-!
# Nothing printed is lost or misdirected

Threads of a process run steps side by side, and the ledger of the run is kept from what they ask
and are answered.  `output_is_conserved` says that at every point of every run the destinations hold
what the ledger tells, that a print begins where the sink leads that is in use then, and that the
threads ask what the messages of their steps make them ask, fragment by fragment.
-/

namespace DiagnosticLog

open Program (Reaches)

def Talk.isRefusal : Talk → Bool
  | ⟨⟨_, .put _ _⟩, taken⟩ => !taken
  | _ => false

/-- A print that begins is told the sink in use, as is whoever asks for it, and the writer of the
file can be taken if no print to it is under way. -/
def Ledger.Answers (l : Ledger) : (r : Request) → r.Reply → Prop
  | .beginPrint _, outlet => outlet = .sink l.sink
  | .currentSink, sink => sink = some l.sink
  | .tryTakeChannel c, taken => taken = true ↔ ∀ t, ⟨c, true⟩ ∉ l.prints t
  | _, _ => True

namespace Routing

abbrev Job : Type :=
  {step : Step // step.isSolo}

abbrev Crowd : Type :=
  Crew Request.interface ThreadId Job Session (Option Answer)

abbrev Event : Type :=
  Crew.Event Request.interface ThreadId Job Session (Option Answer)

abbrev Happens : Crowd → Event → Crowd → Prop :=
  Crew.Step (fun t => Session.perform t) fun _ job => job.1.task

abbrev Run (s : Session) : List Event → Crowd → Prop :=
  Crew.Run (fun t => Session.perform t) (fun _ job => job.1.task) (Crew.idle s)

def enter (spell : Piece → Bytes) (l : Ledger) : Event → Ledger
  | .began _ _ _ => l
  | .made t _ d answer _ _ _ => l.enter spell t d.request answer

def account (spell : Piece → Bytes) (es : List Event) : Ledger :=
  es.foldl (enter spell) .blank

theorem account_snoc (spell : Piece → Bytes) (es : List Event) (e : Event) :
    account spell (es ++ [e]) = enter spell (account spell es) e := by
  simp [account, List.foldl_append]

/-- Unless the channel is that of the file, it does not matter whether a sink has been opened too
late. -/
def Undisputed (spell : Piece → Bytes) (es : List Event) (c : Channel) : Prop :=
  c = .file → (account spell es).disputed = false

/-! ## What holds all along -/

/-- The open prints of every thread are those its job is in the middle of. -/
structure Nested (l : Ledger) (doing : ThreadId → Option (Job × Task (Option Answer))) : Prop where
  idle : ∀ t, doing t = none → l.prints t = []
  busy : ∀ t job q, doing t = some (job, q) → Nests [] q (l.prints t)

theorem Nested.update {l l' : Ledger} {doing : ThreadId → Option (Job × Task (Option Answer))}
    (nested : Nested l doing) {t : ThreadId} {job : Job} {p : Task (Option Answer)}
    (left : Nests [] p (l'.prints t)) (others : ∀ u, u ≠ t → l'.prints u = l.prints u) :
    Nested l' (Function.update doing t (Crew.remaining job p)) where
  idle := by
    intro u hu
    by_cases hut : u = t
    · subst hut
      rw [Function.update_self] at hu
      cases p with
      | done a => exact left
      | ask d next => cases hu
    · rw [Function.update_of_ne hut] at hu
      rw [others u hut]
      exact nested.idle u hu
  busy := by
    intro u job' q hu
    by_cases hut : u = t
    · subst hut
      rw [Function.update_self] at hu
      obtain ⟨-, rfl⟩ := Crew.remaining_eq_some hu
      exact left
    · rw [Function.update_of_ne hut] at hu
      rw [others u hut]
      exact nested.busy u job' q hu

/-- What holds all along a run in a process. -/
structure Settled (spell : Piece → Bytes) (es : List Event) (x : Crowd) (h : Hosted) : Prop where
  platform : x.state.platform = .hosted h
  spelled : x.state.spell = spell
  balances : Balances spell (account spell es) h
  nested : Nested (account spell es) x.doing
  taken : h.Accepts → ∀ t, ∀ talk ∈ Crew.exchanges t es, Talk.isRefusal talk = false

namespace Settled

variable {spell : Piece → Bytes} {es : List Event} {x z : Crowd} {h : Hosted} {t : ThreadId}
  {job : Job} {d : Demand} {answer : d.Reply} {s s' : Session} {result : Option (Option Answer)}

theorem move (settled : Settled spell es x h)
    (happens : Happens x (.made t job d answer s s' result) z) :
    d.request.Fits ((account spell es).prints t) ∧
      ∃ h', z.state.platform = .hosted h' ∧ z.state.spell = spell ∧
        Hosted.Move t x.state d.request answer h h' := by
  cases happens with
  | @made _ _ _ next _ _ busy reply =>
      obtain ⟨hcaller, hfits, -⟩ := settled.nested.busy t job _ busy
      obtain ⟨caller, r⟩ := d
      have hrunner : caller = .runner := hcaller
      subst hrunner
      have hreply : Session.performAs t r x.state = .reply answer s' := reply
      obtain ⟨h', hplatform, hmove⟩ := Session.move_of_reply settled.platform hreply
      exact ⟨hfits, h', hplatform, (Session.spell_of_reply hreply).trans settled.spelled, hmove⟩

theorem answers (settled : Settled spell es x h)
    (happens : Happens x (.made t job d answer s s' result) z) :
    (account spell es).Answers d.request answer := by
  obtain ⟨hfits, h', -, -, hmove⟩ := settled.move happens
  have hbusy := settled.balances.busy_file t
  have hreply : Session.performAs (d.caller.thread t) d.request x.state = .reply answer s' := by
    cases happens with
    | made busy reply => exact reply
  obtain ⟨caller, r⟩ := d
  cases r with
  | currentSink =>
      simp only [Session.performAs, settled.platform] at hreply
      cases hreply
      exact congrArg some settled.balances.sink
  | beginPrint urgency =>
      cases hmove with
      | beginPrint => exact congrArg Outlet.sink settled.balances.sink
      | other hr => cases hr
  | tryTakeChannel c =>
      obtain ⟨rfl, -⟩ := hfits
      cases hmove with
      | tryTakeChannel free => exact ⟨fun _ => hbusy.mp free, fun _ => rfl⟩
      | refuse busy =>
          refine ⟨fun accepted => absurd accepted Bool.false_ne_true, fun unused => ?_⟩
          rw [hbusy.mpr unused] at busy
          cases busy
      | other hr => cases hr
  | _ => trivial

theorem not_isRefusal (settled : Settled spell es x h)
    (happens : Happens x (.made t job d answer s s' result) z) (accepts : h.Accepts) :
    Talk.isRefusal ⟨d, answer⟩ = false := by
  obtain ⟨hfits, h', -, -, hmove⟩ := settled.move happens
  obtain ⟨caller, r⟩ := d
  cases hmove with
  | @put _ c piece =>
      have htakes := (settled.balances.leads_of_head hfits).takes accepts
      have hok := Hosted.put_ok htakes (x.state.spell piece)
      simp only [Talk.isRefusal, hok, Bool.not_true]
  | other hr =>
      cases r <;> first | rfl | simp [Request.reachesPlatform] at hr
  | _ => rfl

theorem began (settled : Settled spell es x h) {result : Option (Option Answer)}
    (happens : Happens x (.began t job result) z) :
    Settled spell (es ++ [.began t job result]) z h := by
  cases happens with
  | began job free =>
      have haccount : account spell (es ++ [.began t job (job.1.task).result?]) =
          account spell es := account_snoc spell es _
      have hleft : Nests [] job.1.task ((account spell es).prints t) := by
        rw [settled.nested.idle t free]
        exact job.1.balanced job.2 []
      constructor
      · exact settled.platform
      · exact settled.spelled
      · rw [haccount]
        exact settled.balances
      · rw [haccount]
        exact settled.nested.update hleft fun _ _ => rfl
      · intro accepts u talk htalk
        rw [Crew.exchanges_snoc] at htalk
        by_cases hu : t = u
        · simp [Crew.Event.record, hu] at htalk
        · rw [Crew.Event.record, if_neg hu] at htalk
          exact settled.taken accepts u talk htalk

theorem made (settled : Settled spell es x h)
    (happens : Happens x (.made t job d answer s s' result) z) :
    ∃ h', Settled spell (es ++ [.made t job d answer s s' result]) z h' := by
  obtain ⟨hfits, h', hplatform, hspelled, hmove⟩ := settled.move happens
  have hnot := settled.not_isRefusal happens
  have haccount : account spell (es ++ [.made t job d answer s s' result]) =
      (account spell es).enter spell t d.request answer := account_snoc spell es _
  refine ⟨h', hplatform, hspelled, ?_, ?_, ?_⟩
  · rw [haccount]
    exact settled.balances.move hfits settled.spelled hmove
  · rw [haccount]
    cases happens with
    | @made _ _ _ next _ _ busy reply =>
        obtain ⟨-, -, hnext⟩ := settled.nested.busy t job _ busy
        have hleft : Nests [] (next answer)
            (((account spell es).enter spell t d.request answer).prints t) := by
          rw [Ledger.prints_enter_self]
          exact hnext answer
        exact settled.nested.update hleft fun u hu => Ledger.prints_enter_of_ne hu
  · intro accepts u talk htalk
    have accepted := accepts.of_move hmove
    rw [Crew.exchanges_snoc] at htalk
    by_cases hu : t = u
    · rw [Crew.Event.record, if_pos hu] at htalk
      rcases List.mem_append.mp htalk with hold | hnew
      · exact settled.taken accepted u talk hold
      · rw [List.mem_singleton.mp hnew]
        exact hnot accepted
    · rw [Crew.Event.record, if_neg hu] at htalk
      exact settled.taken accepted u talk htalk

end Settled

theorem settled_start (lineEnd : LineEnd) (tele : Bool) (environment : String → Option Bytes)
    (tree : FileTree) :
    Settled lineEnd.spell []
      (Crew.idle (Session.start ⟨.hosted, lineEnd, tele⟩ environment tree))
      (Hosted.start environment tree) where
  platform := rfl
  spelled := Session.spell_eq _
  balances := by
    refine ⟨rfl, fun t c => ?_, nofun, Hosted.fresh_start environment tree, fun _ c _ => ?_⟩
    · cases c <;> rfl
    · cases c with
      | console id => exact ⟨[], trivial, rfl⟩
      | _ => exact ⟨[], rfl, rfl⟩
  nested := ⟨fun _ _ => rfl, nofun⟩
  taken := nofun

theorem settled_of_run {lineEnd : LineEnd} {tele : Bool} {environment : String → Option Bytes}
    {tree : FileTree} {es : List Event} {x : Crowd}
    (run : Run (Session.start ⟨.hosted, lineEnd, tele⟩ environment tree) es x) :
    ∃ h, Settled lineEnd.spell es x h := by
  apply run.invariant (motive := fun es x => ∃ h, Settled lineEnd.spell es x h)
  · exact ⟨_, settled_start lineEnd tele environment tree⟩
  · intro es y e z before happens
    obtain ⟨h, settled⟩ := before
    cases e with
    | began t job result => exact ⟨h, settled.began happens⟩
    | made t job d answer s s' result => exact settled.made happens

/-! ## Choices that overlap -/

def Looks (t : ThreadId) : Event → Prop
  | .made u _ ⟨_, .currentSink⟩ sink _ _ _ => u = t ∧ sink = some .unresolved
  | _ => False

def Opens (t : ThreadId) : Event → Prop
  | .made u _ ⟨_, .openSink _⟩ opened _ _ _ => u = t ∧ opened = .ok ()
  | _ => False

def Publishes : Event → Prop
  | .made _ _ ⟨_, .publishSink⟩ sink _ _ _ => sink.isSome
  | _ => False

/-- A thread looked whether a sink had been chosen, and had one opened next, but another thread set
the log up in between. -/
def Overtaken (es : List Event) : Prop :=
  ∃ t first look between opening later, es = first ++ look :: (between ++ opening :: later) ∧
    Looks t look ∧ Opens t opening ∧ (∀ e ∈ between, e.thread ≠ t) ∧ ∃ e ∈ between, Publishes e

theorem Overtaken.snoc {es : List Event} (overtaken : Overtaken es) (e : Event) :
    Overtaken (es ++ [e]) := by
  obtain ⟨t, first, look, between, opening, later, rfl, rest⟩ := overtaken
  exact ⟨t, first, look, between, opening, later ++ [e], by simp, rest⟩

/-- A thread that was told last that no sink had been chosen, and what has happened since then. -/
def Since (spell : Piece → Bytes) (es : List Event) : Prop :=
  ∀ t caller, (Crew.exchanges t es).getLast? = some ⟨⟨caller, .currentSink⟩, some .unresolved⟩ →
    ∃ first look between, es = first ++ look :: between ∧ Looks t look ∧
      (∀ e ∈ between, e.thread ≠ t) ∧
      ((account spell es).sink.isResolved → ∃ e ∈ between, Publishes e)

theorem publishes_of_resolved {spell : Piece → Bytes} {l : Ledger} {e : Event}
    (unresolved : l.sink.isResolved = false) (resolved : (enter spell l e).sink.isResolved) :
    Publishes e := by
  cases e with
  | began =>
      rw [enter, unresolved] at resolved
      cases resolved
  | made t job d answer s s' result =>
      obtain ⟨caller, r⟩ := d
      by_cases hr : r = .publishSink
      · subst hr
        cases answer with
        | some sink => rfl
        | none =>
            have hsame : l.sink.isResolved := resolved
            rw [unresolved] at hsame
            cases hsame
      · have hsame : (l.sinkAfter r answer).isResolved := resolved
        rw [l.sinkAfter_of_ne hr, unresolved] at hsame
        cases hsame

theorem Since.other {spell : Piece → Bytes} {es : List Event} {e : Event} {t : ThreadId}
    {caller : Caller} (since : Since spell es) (other : e.thread ≠ t)
    (looked : (Crew.exchanges t es).getLast? = some ⟨⟨caller, .currentSink⟩, some .unresolved⟩) :
    ∃ first look between, es ++ [e] = first ++ look :: between ∧ Looks t look ∧
      (∀ e ∈ between, e.thread ≠ t) ∧
      ((account spell (es ++ [e])).sink.isResolved → ∃ e ∈ between, Publishes e) := by
  obtain ⟨first, look, between, hes, hlook, hothers, hpublished⟩ := since t caller looked
  refine ⟨first, look, between ++ [e], by simp [hes], hlook, ?_, fun resolved => ?_⟩
  · intro e' he'
    rcases List.mem_append.mp he' with hold | hnew
    · exact hothers e' hold
    · rw [List.mem_singleton.mp hnew]
      exact other
  · cases hbefore : (account spell es).sink.isResolved with
    | true =>
        obtain ⟨e', he', hpublishes⟩ := hpublished hbefore
        exact ⟨e', List.mem_append_left _ he', hpublishes⟩
    | false =>
        rw [account_snoc] at resolved
        exact ⟨e, by simp, publishes_of_resolved hbefore resolved⟩

theorem since_snoc {spell : Piece → Bytes} {es : List Event} {e : Event} (since : Since spell es)
    (answers : ∀ t job d answer s s' result, e = .made t job d answer s s' result →
      (account spell es).Answers d.request answer) : Since spell (es ++ [e]) := by
  intro t caller looked
  by_cases other : e.thread = t
  · rw [Crew.exchanges_snoc] at looked
    cases e with
    | began u job result =>
        obtain rfl : u = t := other
        simp [Crew.Event.record] at looked
    | made u job d answer s s' result =>
        obtain rfl : u = t := other
        have hanswer := answers u job d answer s s' result rfl
        rw [Crew.Event.record, if_pos rfl, List.getLast?_concat] at looked
        cases Option.some.inj looked
        have hunresolved : Sink.unresolved = (account spell es).sink := Option.some.inj hanswer
        refine ⟨es, .made u job ⟨caller, .currentSink⟩ (some .unresolved) s s' result, [], rfl,
          ⟨rfl, rfl⟩, List.forall_mem_nil _, fun resolved => ?_⟩
        rw [account_snoc] at resolved
        have hsame : (account spell es).sink.isResolved := resolved
        rw [← hunresolved] at hsame
        cases hsame
  · rw [Crew.exchanges_of_ne other] at looked
    exact since.other other looked

theorem opens_of_opensSink (t : ThreadId) (job : Job) {d : Demand} {answer : d.Reply}
    (s s' : Session) (result : Option (Option Answer)) (h : d.request.opensSink answer) :
    (∃ path, d.request = .openSink path) ∧ Opens t (.made t job d answer s s' result) := by
  obtain ⟨caller, r⟩ := d
  cases r with
  | openSink path =>
      cases answer with
      | ok _ => exact ⟨⟨path, rfl⟩, rfl, rfl⟩
      | error e => cases h
  | _ => cases h

theorem overtaken_of_late {s₀ : Session} {spell : Piece → Bytes} {es : List Event} {x z : Crowd}
    {t : ThreadId} {job : Job} {d : Demand} {answer : d.Reply} {s s' : Session}
    {result : Option (Option Answer)} (run : Run s₀ es x)
    (happens : Happens x (.made t job d answer s s' result) z) (since : Since spell es)
    (hopens : d.request.opensSink answer) (resolved : (account spell es).sink.isResolved) :
    Overtaken (es ++ [.made t job d answer s s' result]) := by
  have hfollows : d.Follows (Crew.exchanges t es).getLast? := by
    cases happens with
    | made busy reply =>
        have hlast := job.1.inOrder.follows (run.reaches (fun _ => rfl) t job _ busy)
        rwa [Option.or_none] at hlast
  obtain ⟨⟨path, hpath⟩, hopening⟩ := opens_of_opensSink t job s s' result hopens
  obtain ⟨caller, r⟩ := d
  obtain rfl : r = .openSink path := hpath
  obtain ⟨first, look, between, hes, hlook, hothers, hpublished⟩ := since t caller hfollows
  exact ⟨t, first, look, between, _, [], by simp [hes], hlook, hopening, hothers,
    hpublished resolved⟩

/-- A sink is opened too late only by a thread that has been overtaken. -/
theorem since_and_overtaken {lineEnd : LineEnd} {tele : Bool}
    {environment : String → Option Bytes} {tree : FileTree} {es : List Event} {x : Crowd}
    (run : Run (Session.start ⟨.hosted, lineEnd, tele⟩ environment tree) es x) :
    Since lineEnd.spell es ∧ ((account lineEnd.spell es).disputed → Overtaken es) := by
  induction run with
  | nil => exact ⟨nofun, nofun⟩
  | @snoc es e y z before happens ih =>
      obtain ⟨since, overtaken⟩ := ih
      obtain ⟨h, settled⟩ := settled_of_run before
      refine ⟨since_snoc since ?_, fun disputed => ?_⟩
      · rintro t job d answer s s' result rfl
        exact settled.answers happens
      · rw [account_snoc] at disputed
        cases e with
        | began t job result => exact (overtaken disputed).snoc _
        | made t job d answer s s' result =>
            rcases Bool.or_eq_true_iff.mp disputed with hold | hnew
            · exact (overtaken hold).snoc _
            · obtain ⟨hopens, hresolved⟩ := Bool.and_eq_true_iff.mp hnew
              exact overtaken_of_late before happens since hopens hresolved

theorem undisputed_or_overtaken {lineEnd : LineEnd} {tele : Bool}
    {environment : String → Option Bytes} {tree : FileTree} {es : List Event} {x : Crowd}
    (run : Run (Session.start ⟨.hosted, lineEnd, tele⟩ environment tree) es x) :
    (∀ c, Undisputed lineEnd.spell es c) ∨ Overtaken es := by
  cases hdisputed : (account lineEnd.spell es).disputed with
  | true => exact .inr ((since_and_overtaken run).2 hdisputed)
  | false => exact .inl fun c _ => hdisputed

/-! ## Flushes -/

/-- How far a flush comes: it asks for the sink in use, and then has its channel flushed. -/
inductive Flushing : List Talk → Task Unit → Prop where
  | before : Flushing [] Log.flush
  | nowhere : Flushing [Request.currentSink.talk none] (.done ())
  | asked (sink : Sink) :
      Flushing [Request.currentSink.talk (some sink)] (Request.make (.flush .patient sink.channel))
  | after (sink : Sink) :
      Flushing
        [Request.currentSink.talk (some sink), (Request.flush .patient sink.channel).talk ()]
        (.done ())

theorem reaches_flush_iff {xs : List Talk} {q : Task Unit} :
    Reaches Log.flush xs q ↔ Flushing xs q := by
  constructor
  · intro h
    cases h with
    | nil => exact .before
    | @cons _ _ sink _ _ after =>
        cases sink with
        | none =>
            cases after with
            | nil => exact .nowhere
        | some sink =>
            cases after with
            | nil => exact .asked sink
            | cons after =>
                cases after with
                | nil => exact .after sink
  · intro h
    cases h with
    | before => exact .nil
    | nowhere => exact .cons .nil
    | asked sink => exact .cons .nil
    | after sink => exact .cons (.cons .nil)

theorem kept_push_of_accepts {h : Hosted} (accepts : h.Accepts) (c : Channel) :
    (h.push c).kept c = [] := by
  cases c with
  | file =>
      cases hstream : h.stream with
      | none => simp [Hosted.push, Hosted.kept, hstream]
      | some stream =>
          cases stream with
          | file path w => exact Hosted.kept_push ⟨path, w, hstream, accepts path w hstream⟩
          | _ => simp [Hosted.push, Hosted.kept, hstream]
  | _ => rfl

/-- A flush that is answered leaves nothing in the buffer of its channel, and the other buffers and
all texts as they are. -/
theorem flush_of_reply {s s' : Session} {h : Hosted} {t : ThreadId} {c : Channel}
    (hs : s.platform = .hosted h) (accepts : h.Accepts)
    (reply : Session.performAs t (.flush .patient c) s = .reply () s') :
    ∃ h', s'.platform = .hosted h' ∧ h'.sink = h.sink ∧ h'.kept c = [] ∧
      (∀ d, d ≠ c → h'.kept d = h.kept d) ∧ ∀ d text, h.HasText d text → h'.HasText d text := by
  obtain ⟨h', hplatform, hmove⟩ := Session.move_of_reply hs reply
  refine ⟨h', hplatform, Hosted.sink_of_move hmove nofun, ?_⟩
  cases hmove with
  | flush free =>
      refine ⟨kept_push_of_accepts accepts c, ?_, ?_⟩
      · intro d hd
        exact Hosted.kept_push_of_ne hd
      · intro d text ht
        exact ht.push c
  | passBy passes => simp [Urgency.passesBy] at passes
  | other hr => cases hr

/-- A flush that returns has had the channel flushed to which the sink in use has led it. -/
theorem flushed_of_returned {lineEnd : LineEnd} {tele : Bool}
    {environment : String → Option Bytes} {tree : FileTree} {es : List Event} {e : Event}
    {x z : Crowd} {t : ThreadId} {job : Job} {answer : Option Answer}
    (run : Run (Session.start ⟨.hosted, lineEnd, tele⟩ environment tree) es x)
    (happens : Happens x e z) (returned : e.returned? = some (t, job, answer))
    (flushes : job.1 = .call .flush ∨ job.1 = .call (.foreign .flush)) :
    ∃ sink h, Crew.exchanges t (es ++ [e]) =
        [Request.currentSink.talk (some sink), (Request.flush .patient sink.channel).talk ()] ∧
      z.state.platform = .hosted h ∧ (h.Accepts → h.kept sink.channel = []) := by
  have hreaches := run.reaches_returned (fun _ => rfl) happens returned
  have htask : job.1.task = silent Log.flush := by
    rcases flushes with hflush | hflush <;> rw [hflush] <;> rfl
  rw [htask] at hreaches
  obtain ⟨_, ys, zs, heq, hys, hzs⟩ := Program.reaches_bind_done hreaches
  cases hzs
  rw [List.append_nil] at heq
  obtain ⟨h, settled⟩ := settled_of_run run
  have thread := Crew.Event.thread_of_returned? returned
  generalize hq : (.done _ : Task Unit) = q at hys
  cases reaches_flush_iff.mp hys with
  | before => cases hq
  | asked sink => cases hq
  | nowhere =>
      obtain ⟨job', s, s', result, rfl⟩ := Crew.exists_made_of_getLast? thread (by rw [heq]; rfl)
      cases settled.answers happens
  | after sink =>
      obtain ⟨job', s, s', result, rfl⟩ := Crew.exists_made_of_getLast? thread (by rw [heq]; rfl)
      obtain ⟨-, h', hplatform, -, move⟩ := settled.move happens
      refine ⟨sink, h', heq, hplatform, fun accepts => ?_⟩
      have accepted := accepts.of_move move
      cases move with
      | flush free => exact kept_push_of_accepts accepted _
      | passBy passes => simp [Urgency.passesBy] at passes
      | other hr => cases hr

/-- At every point of every run of steps in a process, whichever threads run them:

* if the log file takes its writes, every destination holds, delivered or still kept back, exactly
  the text the ledger tells, and no piece has been refused.  The file is left out only if a thread
  has opened a sink although another had set the log up since it looked whether that had been done;
* the ledger's sink is the one in use;
* a print goes where the sink leads that is in use when it begins, however long it waits there, and
  only last words turn away from the writer of a file, to standard error, and only if it is in use;
  pieces and ends of prints name the destination of their thread's innermost open print;
* what is left of a step is what its thread has come to by its exchanges, and a step that returns
  has come to its end; how far a print comes by which exchanges is `Printing`, and how far a flush
  does is `Flushing`;
* a flush leaves nothing in the buffer of the channel it has found, and changes nothing else; of a
  whole step `flushed_of_returned` says so. -/
theorem output_is_conserved {lineEnd : LineEnd} {tele : Bool}
    {environment : String → Option Bytes} {tree : FileTree} {es : List Event} {x : Crowd}
    (run : Run (Session.start ⟨.hosted, lineEnd, tele⟩ environment tree) es x) :
    ∃ h, x.state.platform = .hosted h ∧
      (h.Accepts →
        (∀ c, Undisputed lineEnd.spell es c →
          h.HasText c ((account lineEnd.spell es).texts c)) ∧
        ∀ t, ∀ talk ∈ Crew.exchanges t es, Talk.isRefusal talk = false) ∧
      ((∀ c, Undisputed lineEnd.spell es c) ∨ Overtaken es) ∧
      (account lineEnd.spell es).sink = h.sink ∧
      (∀ t job d answer s s' result z, Happens x (.made t job d answer s s' result) z →
        d.request.Fits ((account lineEnd.spell es).prints t) ∧
          (account lineEnd.spell es).Answers d.request answer) ∧
      (∀ t job q, x.doing t = some (job, q) → Reaches job.1.task (Crew.exchanges t es) q) ∧
      (∀ e z t job answer, Happens x e z → e.returned? = some (t, job, answer) →
        Reaches job.1.task (Crew.exchanges t (es ++ [e])) (.done answer)) ∧
      (∀ urgency m talks q,
        Reaches (Log.printWith urgency m) talks q ↔ Printing urgency m talks q) ∧
      (∀ talks q, Reaches Log.flush talks q ↔ Flushing talks q) ∧
      ∀ t c s', h.Accepts → Session.performAs t (.flush .patient c) x.state = .reply () s' →
        ∃ h', s'.platform = .hosted h' ∧ h'.sink = h.sink ∧ h'.kept c = [] ∧
          (∀ d, d ≠ c → h'.kept d = h.kept d) ∧
          ∀ d text, h.HasText d text → h'.HasText d text := by
  obtain ⟨h, settled⟩ := settled_of_run run
  have hidle : ∀ t, (Crew.idle (Session.start ⟨.hosted, lineEnd, tele⟩ environment tree) :
      Crowd).doing t = none := fun _ => rfl
  refine ⟨h, settled.platform, ?_, ?_, settled.balances.sink.symm, ?_, run.reaches hidle, ?_, ?_,
    ?_, ?_⟩
  · intro accepts
    exact ⟨settled.balances.told accepts, settled.taken accepts⟩
  · exact undisputed_or_overtaken run
  · intro t job d answer s s' result z happens
    have hfits := (settled.move happens).1
    exact ⟨hfits, settled.answers happens⟩
  · intro e z t job answer happens returned
    exact run.reaches_returned hidle happens returned
  · intro urgency m talks q
    exact reaches_printWith_iff
  · intro talks q
    exact reaches_flush_iff
  · intro t c s' accepts reply
    exact flush_of_reply settled.platform accepts reply

def movingPrint : Job :=
  ⟨.print [.integer 1, .run [.call (.tryOpenStream (some Config.standardErrorPath))], .integer 2],
    rfl⟩

def shortPrint : Job :=
  ⟨.call (.int 7), rfl⟩

/-- The print that chose the sink goes on where it began, as does one that has begun meanwhile and
waits for it; the next one goes to the new sink. -/
theorem conserved_across_sinks :
    ∃ (es : List Event) (x : Crowd) (h : Hosted),
      Run (Session.start ⟨.hosted, .lf, false⟩ (fun _ => none) .empty) es x ∧
      x.state.platform = .hosted h ∧ h.sink = .standardError ∧
      h.HasText .standardOut (Bytes.ofString "127") ∧
      h.HasText .standardError (Bytes.ofString "7") := by
  obtain ⟨es, x, h, run, hplatform, hstream, hout, herr⟩ : ∃ (es : List Event) (x : Crowd)
      (h : Hosted), Run (Session.start ⟨.hosted, .lf, false⟩ (fun _ => none) .empty) es x ∧
      x.state.platform = .hosted h ∧ h.stream = some .standardError ∧
      (account LineEnd.lf.spell es).texts .standardOut = Bytes.ofString "127" ∧
      (account LineEnd.lf.spell es).texts .standardError = Bytes.ofString "7" :=
    ⟨_, _, _, Crew.run_of_follow
      [(.lasting 0, some movingPrint), (.lasting 0, none), (.lasting 0, none), (.lasting 0, none),
        (.lasting 2, some shortPrint), (.lasting 2, none), (.lasting 0, none), (.lasting 0, none),
        (.lasting 0, none), (.lasting 1, some shortPrint), (.lasting 1, none), (.lasting 1, none),
        (.lasting 0, none), (.lasting 1, none), (.lasting 0, none), (.lasting 0, none),
        (.lasting 2, none), (.lasting 2, none)] rfl, rfl, rfl, rfl, rfl⟩
  obtain ⟨h', hplatform', htold, -⟩ := output_is_conserved run
  rw [hplatform] at hplatform'
  cases hplatform'
  have accepts : h.Accepts := by
    intro path w hfile
    rw [hstream] at hfile
    cases hfile
  have hout' := (htold accepts).1 .standardOut nofun
  have herr' := (htold accepts).1 .standardError nofun
  rw [hout] at hout'
  rw [herr] at herr'
  have hsink : h.sink = .standardError := by simp [Hosted.sink, hstream, Stream.sink]
  exact ⟨es, x, h, run, hplatform, hsink, hout', herr'⟩

end Routing

end DiagnosticLog
