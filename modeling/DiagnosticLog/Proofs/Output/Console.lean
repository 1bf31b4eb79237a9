import DiagnosticLog.Proofs.Output.Routing
import DiagnosticLog.Script.Report

/-!
# The first console gets everything

Threads of a guest run steps side by side.  From the first installation of a console on, the ledger
of the run is kept; `guest_output_goes_to_first_console` says that this console holds at every point
what the ledger tells, and that nothing is let out anywhere else or at any other time.
-/

namespace DiagnosticLog

open Program (Reaches)

theorem Guest.install_of_installed {g : Guest} {k : ConsoleId} (h : g.installed = some k)
    (id : ConsoleId) : g.install id = (.error .consoleInstalled, g) := by
  simp only [install, h]

/-- The console that was installed first, and the ledger of what has been printed since. -/
structure Attached where
  console : ConsoleId
  ledger : Ledger

namespace Attached

def first (id : ConsoleId) : Attached :=
  ⟨id, Ledger.blank⟩

/-- Enter a request of thread `t` and its answer.  Nothing is entered before a console is installed,
and only the first installation counts. -/
def enter (spell : Piece → Bytes) (t : ThreadId) (r : Request) (answer : r.Reply) :
    Option Attached → Option Attached
  | some a => some { a with ledger := a.ledger.enter spell t r answer }
  | none =>
      match r with
      | .installConsole id => some (first id)
      | _ => none

def told : Option Attached → ConsoleId → Bytes
  | some a, id => if id = a.console then a.ledger.texts (.console id) else []
  | none, _ => []

def book (a : Option Attached) : Ledger :=
  a.elim Ledger.blank ledger

end Attached

/-- The ledger's prints all go to the console, which is the only one installed. -/
structure Attached.Attends (a : Option Attached) (g : Guest) : Prop where
  installed : g.installed = a.map Attached.console
  text : ∀ id, g.text id = Attached.told a id
  prints : ∀ b ∈ a, ∀ t, ∀ print ∈ b.ledger.prints t, print.channel = .console b.console

/-- What a request comes to in a guest, by the console that was installed first. -/
def Attached.Serves (a : Option Attached) (s s' : Session) : (r : Request) → r.Reply → Prop
  | .installConsole id, reply =>
      (a = none → reply = .ok () ∧ ∃ g, s.platform = .guest g ∧
        s' = { s with platform := .guest { g with installed := some id } }) ∧
      (a ≠ none → reply = .error .consoleInstalled ∧ s' = s)
  | .beginPrint _, outlet => outlet = a.elim .nowhere (.console ·.console) ∧ s' = s
  | .takeChannel c, _ => a.map (.console ·.console) = some c ∧ s' = s
  /- There is no writer of a file to try. -/
  | .tryTakeChannel _, _ => False
  | .put c _, taken => taken = true ∧ a.map (.console ·.console) = some c
  | .endPrint _ _, _ => s' = s
  | .flush _ _, _ => s' = s
  | .complain _, _ => s' = s
  | .currentSink, sink => sink = none ∧ s' = s
  | .openSink _, _ => s' = s
  | .publishSink, sink => sink = none ∧ s' = s
  | .currentConsole, console => console = a.map Attached.console ∧ s' = s
  | _, _ => s'.platform = s.platform

namespace Attached

variable {spell : Piece → Bytes} {a : Option Attached} {g g' : Guest} {s s' : Session}
  {t : ThreadId} {r : Request} {answer : r.Reply}

theorem Attends.channel_of_head (attends : Attends a g) {print : Begun}
    (head : ((book a).prints t).head? = some print) :
    a.map (.console ·.console) = some print.channel := by
  cases a with
  | none => cases head
  | some b => exact congrArg some (attends.prints b rfl t print (List.mem_of_head? head)).symm

theorem Attends.outlet (attends : Attends a g) :
    g.outlet = a.elim .nowhere (.console ·.console) := by
  unfold Guest.outlet
  rw [attends.installed]
  cases a <;> rfl

theorem Attends.serves (attends : Attends a g) (hs : s.platform = .guest g)
    (fits : r.Fits ((book a).prints t)) (reply : Session.performAs t r s = .reply answer s') :
    Serves a s s' r answer := by
  cases r with
  | installConsole id =>
      simp only [Session.performAs, hs] at reply
      cases reply
      constructor
      · rintro rfl
        have hnone : g.installed = none := attends.installed
        simp only [Guest.install, hnone]
        exact ⟨trivial, g, hs, rfl⟩
      · intro hsome
        obtain ⟨b, rfl⟩ := Option.ne_none_iff_exists'.mp hsome
        rw [Guest.install_of_installed attends.installed, ← hs]
        exact ⟨rfl, rfl⟩
  | beginPrint urgency =>
      simp only [Session.performAs, hs] at reply
      cases reply
      exact ⟨attends.outlet, rfl⟩
  | takeChannel c =>
      simp only [Session.performAs, hs] at reply
      cases reply
      exact ⟨attends.channel_of_head fits, rfl⟩
  | tryTakeChannel c =>
      obtain ⟨rfl, hhead⟩ := fits
      obtain ⟨b, -, hb⟩ := Option.map_eq_some_iff.mp (attends.channel_of_head hhead)
      cases hb
  | put c piece =>
      simp only [Session.performAs, hs] at reply
      cases reply
      exact ⟨rfl, attends.channel_of_head fits⟩
  | currentSink | publishSink =>
      simp only [Session.performAs, hs] at reply
      cases reply
      exact ⟨rfl, rfl⟩
  | currentConsole =>
      simp only [Session.performAs, hs] at reply
      cases reply
      exact ⟨attends.installed, rfl⟩
  | endPrint | flush | complain | openSink =>
      simp only [Session.performAs, hs] at reply
      cases reply
      rfl
  | _ => exact Session.platform_of_reply reply rfl

theorem prints_enter (serves : Serves a s s' r answer) (u : ThreadId) :
    (book (enter spell t r answer a)).prints u =
      if u = t then r.opens answer ((book a).prints u) else (book a).prints u := by
  cases a with
  | none =>
      have hopens : r.opens answer [] = [] := by
        cases r with
        | beginPrint urgency =>
            obtain ⟨rfl, -⟩ := serves
            cases urgency <;> rfl
        | tryTakeChannel c => exact serves.elim
        | _ => rfl
      have hbook : (book none).prints u = [] := rfl
      rw [hbook, hopens, ite_self]
      cases r <;> rfl
  | some b =>
      show (b.ledger.enter spell t r answer).prints u = _
      by_cases hu : u = t
      · rw [if_pos hu, hu, Ledger.prints_enter_self]
        rfl
      · rw [if_neg hu, Ledger.prints_enter_of_ne hu]
        rfl

theorem told_enter {b : Attached} (serves : Serves (some b) s s' r answer)
    (fits : r.Fits (b.ledger.prints t)) (hspell : s.spell = spell) (id : ConsoleId) :
    told (enter spell t r answer (some b)) id = told (some b) id ++ s.written (.console id) r := by
  have htexts : (b.ledger.enter spell t r answer).texts (.console id) =
      b.ledger.texts (.console id) ++ s.written (.console id) r :=
    congrArg (b.ledger.texts (.console id) ++ ·) (Ledger.told_eq_written fits hspell _)
  show (if id = b.console then (b.ledger.enter spell t r answer).texts (.console id) else []) =
    (if id = b.console then b.ledger.texts (.console id) else []) ++ _
  by_cases hid : id = b.console
  · rw [if_pos hid, if_pos hid, htexts]
  · rw [if_neg hid, if_neg hid]
    cases r with
    | put c piece =>
        have hc : Channel.console b.console = c := Option.some.inj serves.2
        have hne : ¬ Channel.console b.console = .console id := fun h =>
          hid (Channel.console.inj h).symm
        rw [← hc, Session.written, if_neg hne]
        rfl
    | _ => rfl

theorem Attends.opens {b : Attached} (attends : Attends (some b) g)
    (serves : Serves (some b) s s' r answer) :
    ∀ print ∈ r.opens answer (b.ledger.prints t), print.channel = .console b.console := by
  have hold := attends.prints b rfl t
  cases r with
  | beginPrint urgency =>
      obtain ⟨rfl, -⟩ := serves
      have hbegun : (Outlet.console b.console).begun urgency = some ⟨.console b.console, false⟩ :=
        if_neg nofun
      show ∀ print ∈ ((Outlet.console b.console).begun urgency).toList ++ b.ledger.prints t, _
      rw [hbegun]
      exact List.forall_mem_cons.mpr ⟨rfl, hold⟩
  | takeChannel c => exact Begun.forall_mem_modifyHead (f := Begun.taken) (fun _ => id) hold
  | tryTakeChannel c => exact serves.elim
  | endPrint c formatting => exact fun print hprint => hold print (List.mem_of_mem_tail hprint)
  | _ => exact hold

theorem Attends.enter (attends : Attends a g) (fits : r.Fits ((book a).prints t))
    (hspell : s.spell = spell) (serves : Serves a s s' r answer)
    (move : Guest.Move s r answer g g') : Attends (Attached.enter spell t r answer a) g' := by
  cases a with
  | none =>
      cases move with
      | put => cases fits
      | @installConsole _ id =>
          have hnone : g.installed = none := attends.installed
          simp only [Guest.install, hnone]
          refine ⟨rfl, ?_, ?_⟩
          · intro k
            exact (attends.text k).trans (ite_self []).symm
          · rintro _ ⟨⟩ u print hprint
            cases hprint
      | other hr =>
          have hnone : Attached.enter spell t r answer none = none := by
            cases r <;> first | rfl | simp [Request.reachesConsole] at hr
          rw [hnone]
          exact attends
  | some b =>
      constructor
      · have hsome : g.installed = some b.console := attends.installed
        cases move with
        | @put _ c piece => cases c <;> exact hsome
        | installConsole =>
            rw [Guest.install_of_installed hsome]
            exact hsome
        | other hr => exact hsome
      · intro id
        rw [told_enter serves fits hspell, ← attends.text id]
        apply Session.hasText_of_guestMove move
        · rintro _ ⟨⟩
          rfl
        · rfl
      · rintro _ ⟨⟩ u print hprint
        by_cases hu : u = t
        · subst hu
          rw [Ledger.prints_enter_self] at hprint
          exact attends.opens serves print hprint
        · rw [Ledger.prints_enter_of_ne hu] at hprint
          exact attends.prints b rfl u print hprint

end Attached

/-- The calls that choose a sink or flush one. -/
def Call.isIdle : Call → Bool
  | .openStream _ => true
  | .tryOpenStream _ => true
  | .flush => true
  | .flushLogger => true
  | .foreign (.openStream _) => true
  | .foreign .flush => true
  | _ => false

namespace Routing

/-- The console installed first in a run, and the ledger of what has been printed since. -/
def attach (spell : Piece → Bytes) (a : Option Attached) : Event → Option Attached
  | .began _ _ _ => a
  | .made t _ d answer _ _ _ => Attached.enter spell t d.request answer a

def attached (spell : Piece → Bytes) (es : List Event) : Option Attached :=
  es.foldl (attach spell) none

theorem attached_snoc (spell : Piece → Bytes) (es : List Event) (e : Event) :
    attached spell (es ++ [e]) = attach spell (attached spell es) e := by
  simp [attached, List.foldl_append]

/-- What holds all along a run in a guest. -/
structure Watched (spell : Piece → Bytes) (es : List Event) (x : Crowd) (g : Guest) : Prop where
  platform : x.state.platform = .guest g
  spelled : x.state.spell = spell
  attends : Attached.Attends (attached spell es) g
  nested : Nested (Attached.book (attached spell es)) x.doing

namespace Watched

variable {spell : Piece → Bytes} {es : List Event} {x z : Crowd} {g : Guest} {t : ThreadId}
  {job : Job} {d : Demand} {answer : d.Reply} {s s' : Session} {result : Option (Option Answer)}

theorem move (watched : Watched spell es x g)
    (happens : Happens x (.made t job d answer s s' result) z) :
    s = x.state ∧ d.request.Fits ((Attached.book (attached spell es)).prints t) ∧
      Attached.Serves (attached spell es) s s' d.request answer ∧
      ∃ g', z.state.platform = .guest g' ∧ z.state.spell = spell ∧
        Guest.Move x.state d.request answer g g' := by
  cases happens with
  | @made _ _ _ next _ _ busy reply =>
      obtain ⟨hcaller, hfits, -⟩ := watched.nested.busy t job _ busy
      obtain ⟨caller, r⟩ := d
      have hrunner : caller = .runner := hcaller
      subst hrunner
      have hreply : Session.performAs t r x.state = .reply answer s' := reply
      obtain ⟨g', hplatform, hmove⟩ := Session.move_of_reply_guest watched.platform hreply
      have hserves := watched.attends.serves watched.platform hfits hreply
      exact ⟨rfl, hfits, hserves, g', hplatform,
        (Session.spell_of_reply hreply).trans watched.spelled, hmove⟩

theorem began (watched : Watched spell es x g)
    (happens : Happens x (.began t job result) z) :
    Watched spell (es ++ [.began t job result]) z g := by
  have hattached : attached spell (es ++ [.began t job result]) = attached spell es :=
    attached_snoc spell es _
  cases happens with
  | began job free =>
      have hleft : Nests [] job.1.task ((Attached.book (attached spell es)).prints t) := by
        rw [watched.nested.idle t free]
        exact job.1.balanced job.2 []
      refine ⟨watched.platform, watched.spelled, ?_, ?_⟩
      · rw [hattached]
        exact watched.attends
      · rw [hattached]
        exact watched.nested.update hleft fun _ _ => rfl

theorem made (watched : Watched spell es x g)
    (happens : Happens x (.made t job d answer s s' result) z) :
    ∃ g', Watched spell (es ++ [.made t job d answer s s' result]) z g' := by
  obtain ⟨rfl, hfits, hserves, g', hplatform, hspelled, hmove⟩ := watched.move happens
  have hattached : attached spell (es ++ [.made t job d answer x.state s' result]) =
      Attached.enter spell t d.request answer (attached spell es) := attached_snoc spell es _
  have hprints (u : ThreadId) :
      (Attached.book (Attached.enter spell t d.request answer (attached spell es))).prints u =
        if u = t then d.request.opens answer ((Attached.book (attached spell es)).prints u)
        else (Attached.book (attached spell es)).prints u :=
    Attached.prints_enter hserves u
  refine ⟨g', hplatform, hspelled, ?_, ?_⟩
  · rw [hattached]
    exact watched.attends.enter hfits watched.spelled hserves hmove
  · rw [hattached]
    cases happens with
    | @made _ _ _ next _ _ busy reply =>
        obtain ⟨-, -, hnext⟩ := watched.nested.busy t job _ busy
        have hleft : Nests [] (next answer)
            ((Attached.book (Attached.enter spell t d.request answer
              (attached spell es))).prints t) := by
          rw [hprints t, if_pos rfl]
          exact hnext answer
        apply watched.nested.update hleft
        intro u hu
        rw [hprints u, if_neg hu]

end Watched

theorem watched_of_run {lineEnd : LineEnd} {tele : Bool} {environment : String → Option Bytes}
    {tree : FileTree} {es : List Event} {x : Crowd}
    (run : Run (Session.start ⟨.guest, lineEnd, tele⟩ environment tree) es x) :
    ∃ g, Watched lineEnd.spell es x g := by
  apply run.invariant (motive := fun es x => ∃ g, Watched lineEnd.spell es x g)
  · refine ⟨⟨none, Vector.replicate 2 Transcript.empty⟩, rfl, Session.spell_eq _, ?_,
      fun _ _ => rfl, nofun⟩
    refine ⟨rfl, ?_, nofun⟩
    intro id
    have htold : Attached.told (attached lineEnd.spell []) id = [] := rfl
    rw [htold]
    simp [Guest.text]
  · intro es y e z before happens
    obtain ⟨g, watched⟩ := before
    cases e with
    | began t job result => exact ⟨g, watched.began happens⟩
    | made t job d answer s s' result => exact watched.made happens

/-! ## What needs no console -/

section Guests

variable {s : Session} {g : Guest} (hs : s.platform = .guest g)
include hs

/-- A print that finds no console is over at once, whatever it was to print or to run. -/
theorem run_printWith_of_none (none : g.installed = none) (t : ThreadId) (urgency : Urgency)
    (m : Message) :
    (Log.printWith urgency m).run (Session.perform t) s = .finished .returned s := by
  have hbegin (urgency : Urgency) :
      Session.perform t (Request.beginPrint urgency).demand s = .reply .nowhere s := by
    simp only [Session.perform_demand, Session.performAs, hs, Guest.outlet, none]
  have hpatient : Log.beginPatient.run (Session.perform t) s = .finished Option.none s := by
    unfold Log.beginPatient
    rw [Request.make_bind, Program.run_ask_of_reply (hbegin .patient)]
    rfl
  have hurgent : Log.beginUrgent.run (Session.perform t) s = .finished Option.none s := by
    unfold Log.beginUrgent
    rw [Request.make_bind, Program.run_ask_of_reply (hbegin .urgent)]
    rfl
  cases urgency with
  | patient => exact Program.run_bind_of_finished hpatient _
  | urgent => exact Program.run_bind_of_finished hurgent _

theorem reply_currentSink_guest (t : ThreadId) :
    Session.perform t Request.currentSink.demand s = .reply none s := by
  simp only [Session.perform_demand, Session.performAs, hs]

theorem run_of_isIdle {call : Call} (idle : call.isIdle) (t : ThreadId) :
    call.task.run (Session.perform t) s = .finished none s := by
  have hsink := reply_currentSink_guest hs t
  have htry (path : Option Bytes) :
      (Log.tryOpenStream path).run (Session.perform t) s = .finished none s := by
    unfold Log.tryOpenStream Log.currentSink
    rw [Request.make_bind, Program.run_ask_of_reply hsink]
    rfl
  have hopen (path : Option Bytes) :
      (silent (Log.openStream path)).run (Session.perform t) s = .finished none s :=
    Program.run_bind_of_finished (Program.run_bind_of_finished (htry path) _) _
  have hflush : Log.flush.run (Session.perform t) s = .finished () s := by
    unfold Log.flush Log.currentSink
    rw [Request.make_bind, Program.run_ask_of_reply hsink]
    rfl
  have hflushed : (silent Log.flush).run (Session.perform t) s = .finished none s :=
    Program.run_bind_of_finished hflush _
  cases call with
  | openStream path => exact hopen path
  | tryOpenStream path => exact Program.run_bind_of_finished (htry path) _
  | flush => exact hflushed
  | flushLogger =>
      have hasked : Session.perform t Request.loggerRegistered.demand s =
          .reply s.loggerRegistered s := rfl
      show (Program.ask Request.loggerRegistered.demand _).run (Session.perform t) s = _
      rw [Program.run_ask_of_reply hasked]
      cases s.loggerRegistered with
      | true => exact hflushed
      | false => rfl
  | foreign c =>
      cases c with
      | openStream path => exact hopen _
      | flush => exact hflushed
      | _ => cases idle
  | _ => cases idle

theorem performAs_stop_guest (t : ThreadId) (console : Option ConsoleId) (code : Int32) :
    Session.performAs t (.stop console code) s =
      match console with
      | some id => .stop (.halt id code) s
      | none => .wait := by
  cases console <;> simp only [Session.performAs, hs]

theorem run_stop_guest (t : ThreadId) (code : Int32) :
    match g.installed with
    | some id => (Log.stop code : Task Unit).run (Session.perform t) s = .ended (.halt id code) s
    | none => ∃ rest, (Log.stop code : Task Unit).run (Session.perform t) s = .waiting rest s := by
  have hconsole : Session.perform t Request.currentConsole.demand s = .reply g.installed s := by
    simp only [Session.perform_demand, Session.performAs, hs]
  have hstop (console : Option ConsoleId) :
      Session.perform t (Request.stop console code).demand s =
        match console with
        | some id => .stop (.halt id code) s
        | none => .wait :=
    performAs_stop_guest hs t console code
  rw [Log.stop, Request.make_bind, Program.run_ask_of_reply hconsole, Request.make_bind]
  cases g.installed with
  | some id => exact Program.run_ask_of_stop (hstop (some id)) _
  | none => exact ⟨_, Program.run_ask_of_wait (hstop none) _⟩

end Guests

/-- At every point of every run of steps in a guest, whichever threads run them:

* the console that was installed first is the one installed, and it holds exactly the text the
  ledger tells that is kept since; nothing is let out anywhere else, and nothing before;
* a request does what `Serves` has for it: the first installation succeeds and every later one is
  refused, a print is told the console or, without one, that there is none, a piece goes to the
  console and is taken, there is no sink, and only installations and pieces change anything of the
  guest;
* pieces and ends of prints name the destination of their thread's innermost open print, what is
  left of a step is what its thread has come to by its exchanges, and how far a print comes by which
  exchanges is `Printing`;
* before a console is installed a print is over at once, whatever it would run in its middle,
  threads are anonymous, and there is no way to end the run; a thread that has tried to then is
  stuck for good;
* to choose a sink or to flush one changes nothing. -/
theorem guest_output_goes_to_first_console {lineEnd : LineEnd} {tele : Bool}
    {environment : String → Option Bytes} {tree : FileTree} {es : List Event} {x : Crowd}
    (run : Run (Session.start ⟨.guest, lineEnd, tele⟩ environment tree) es x) :
    (∃ g, x.state.platform = .guest g ∧
      g.installed = (attached lineEnd.spell es).map Attached.console) ∧
      Output.ofSession x.state = ⟨[], [], [], Attached.told (attached lineEnd.spell es)⟩ ∧
      (∀ t job d answer s s' result z, Happens x (.made t job d answer s s' result) z →
        s = x.state ∧ d.request.Fits ((Attached.book (attached lineEnd.spell es)).prints t) ∧
          Attached.Serves (attached lineEnd.spell es) s s' d.request answer) ∧
      (∀ t job q, x.doing t = some (job, q) → Reaches job.1.task (Crew.exchanges t es) q) ∧
      (∀ e z t job answer, Happens x e z → e.returned? = some (t, job, answer) →
        Reaches job.1.task (Crew.exchanges t (es ++ [e])) (.done answer)) ∧
      (∀ urgency m talks q,
        Reaches (Log.printWith urgency m) talks q ↔ Printing urgency m talks q) ∧
      (attached lineEnd.spell es = none → ∀ t urgency m,
        (Log.printWith urgency m).run (Session.perform t) x.state = .finished .returned x.state) ∧
      (∀ t, x.state.tokenOf t =
        if (attached lineEnd.spell es).isSome then x.state.tokens t else Token.anonymous) ∧
      (∀ t code,
        match (attached lineEnd.spell es).map Attached.console with
        | some id =>
            (Log.stop code : Task Unit).run (Session.perform t) x.state =
              .ended (.halt id code) x.state
        | none =>
            ∃ rest, (Log.stop code : Task Unit).run (Session.perform t) x.state =
              .waiting rest x.state) ∧
      (∀ t console code, Session.performAs t (.stop console code) x.state =
        match console with
        | some id => .stop (.halt id code) x.state
        | none => .wait) ∧
      ∀ t (call : Call), call.isIdle →
        call.task.run (Session.perform t) x.state = .finished none x.state := by
  obtain ⟨g, watched⟩ := watched_of_run run
  have hs := watched.platform
  have hinstalled := watched.attends.installed
  have hidle : ∀ t, (Crew.idle (Session.start ⟨.guest, lineEnd, tele⟩ environment tree) :
      Crowd).doing t = none := fun _ => rfl
  refine ⟨⟨g, hs, hinstalled⟩, ?_, ?_, run.reaches hidle, ?_, ?_, ?_, ?_, ?_, ?_, ?_⟩
  · simp only [Output.ofSession, hs, Output.mk.injEq, true_and]
    funext id
    exact watched.attends.text id
  · intro t job d answer s s' result z happens
    obtain ⟨hstate, hfits, hserves, -⟩ := watched.move happens
    exact ⟨hstate, hfits, hserves⟩
  · intro e z t job answer happens returned
    exact run.reaches_returned hidle happens returned
  · intro urgency m talks q
    exact reaches_printWith_iff
  · intro unattached t urgency m
    rw [unattached] at hinstalled
    exact run_printWith_of_none hs hinstalled t urgency m
  · intro t
    simp only [Session.tokenOf, hs, hinstalled, Option.isSome_map]
  · intro t code
    rw [← hinstalled]
    exact run_stop_guest hs t code
  · exact performAs_stop_guest hs
  · intro t call idle
    exact run_of_isIdle hs idle t

def brokenPrint : Job :=
  ⟨.print [.integer 1, .run [.call (.int 2), .call (.installConsole 1)], .integer 3, .fail,
    .integer 4], rfl⟩

def installing : Job :=
  ⟨.call (.installConsole 0), rfl⟩

/-- A print before there is a console, and two side by side after. -/
theorem guest_output_goes_to_first_console_of_two : ∃ (es : List Event) (x : Crowd),
    Run (Session.start ⟨.guest, .lf, false⟩ (fun _ => none) .empty) es x ∧
    (Output.ofSession x.state).consoles 0 = Bytes.ofString "1273" ∧
    (Output.ofSession x.state).consoles 1 = [] := by
  obtain ⟨es, x, run, htold⟩ : ∃ (es : List Event) (x : Crowd),
      Run (Session.start ⟨.guest, .lf, false⟩ (fun _ => none) .empty) es x ∧
      Attached.told (attached LineEnd.lf.spell es) 0 = Bytes.ofString "1273" ∧
      Attached.told (attached LineEnd.lf.spell es) 1 = [] :=
    ⟨_, _, Crew.run_of_follow
      [(.lasting 0, some brokenPrint), (.lasting 0, none), (.lasting 0, some installing),
        (.lasting 0, none), (.lasting 0, some brokenPrint), (.lasting 0, none), (.lasting 0, none),
        (.lasting 0, none), (.lasting 0, none), (.lasting 0, none), (.lasting 1, some shortPrint),
        (.lasting 1, none), (.lasting 1, none), (.lasting 0, none), (.lasting 0, none),
        (.lasting 0, none), (.lasting 1, none), (.lasting 0, none), (.lasting 0, none),
        (.lasting 0, none), (.lasting 0, none)]
      rfl, by decide +kernel, by decide +kernel⟩
  obtain ⟨-, houtput, -⟩ := guest_output_goes_to_first_console run
  refine ⟨es, x, run, ?_⟩
  rw [houtput]
  exact htold

end Routing

end DiagnosticLog
