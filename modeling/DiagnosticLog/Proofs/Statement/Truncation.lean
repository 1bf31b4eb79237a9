import DiagnosticLog.Proofs.Output.Closing
import DiagnosticLog.Proofs.Output.Quiet
import DiagnosticLog.Proofs.Session.Amid
import DiagnosticLog.Proofs.Session.Printers
import DiagnosticLog.Proofs.Statement.Line

/-!
# Messages that cannot be formatted

A fragment that cannot be formatted cuts a message short and leaves no other trace.  In a guest the
statement goes on as if the message ended there; in a process it is unwound from there, having
released what it holds (`formatting_error_only_truncates`).
-/

namespace DiagnosticLog

open Program (Reaches)

variable {α β : Type} {t : ThreadId} {mode : Mode}

/-! ## Where prints are taken -/

namespace Session

/-- The log runs in this mode, and does not have a log file that refuses what is written. -/
def Sound (mode : Mode) (s : Session) : Prop :=
  s.mode = mode ∧ s.Accepts

/-- The log runs in this mode, and a print to the channel is taken. -/
def Taking (mode : Mode) (c : Channel) (s : Session) : Prop :=
  s.mode = mode ∧ s.Takes c

theorem kept_mode (mode : Mode) : Kept (fun s => s.mode = mode) := by
  intro t s s' r answer _ here reply
  rw [mode_of_reply reply, here]

theorem kept_taking (mode : Mode) (c : Channel) : Kept (Taking mode c) := by
  rintro t s s' r answer - ⟨here, takes⟩ reply
  refine ⟨kept_mode mode trivial here reply, ?_⟩
  cases hs : s.platform with
  | hosted h =>
      obtain ⟨h', hs', move⟩ := move_of_reply hs reply
      rw [takes_hosted hs']
      exact ((takes_hosted hs).mp takes).of_stream fun _ _ => Hosted.stream_of_move move
  | guest g =>
      obtain ⟨g', hs', -⟩ := move_of_reply_guest hs reply
      simpa only [Takes, hs, hs'] using takes

theorem stable_sound (mode : Mode) : Stable (Sound mode) := by
  intro s s' here h
  induction h with
  | nothing => exact here
  | request reply accepts _ ih =>
      exact ih ⟨kept_mode mode trivial here.1 reply, accepts here.2⟩

theorem kept_sound_access (mode : Mode) (name : LockName) :
    KeptBy (fun r => r = .self ∨ ∃ a, r = .access name a) (Sound mode) := by
  rintro t s s' r answer hr ⟨here, accepts⟩ reply
  have hplatform : s'.platform = s.platform := by
    apply platform_of_reply reply
    rcases hr with rfl | ⟨a, rfl⟩ <;> rfl
  refine ⟨kept_mode mode trivial here reply, fun h hs => accepts h ?_⟩
  rw [← hplatform, hs]

theorem taking_of_beginPrint {s s' : Session} {urgency : Urgency} {outlet : Outlet}
    (here : s.Sound mode) (reply : performAs t (.beginPrint urgency) s = .reply outlet s') :
    s'.mode = mode ∧ (mode = .hosted → ∃ c, outlet.channel? = some c) ∧
      ∀ c, outlet.channel? = some c → s'.Taking mode c := by
  obtain ⟨hmode, accepts⟩ := here
  cases hs : s.platform with
  | hosted h =>
      simp only [performAs, hs] at reply
      cases reply
      refine ⟨hmode, fun _ => ⟨_, rfl⟩, ?_⟩
      rintro c ⟨⟩
      exact ⟨hmode, (takes_hosted hs).mpr (h.leads_channel.takes (accepts h hs))⟩
  | guest g =>
      simp only [performAs, hs] at reply
      cases reply
      refine ⟨hmode, fun hhosted => ?_, fun c hc => ⟨hmode, ?_⟩⟩
      · rw [hhosted] at hmode
        simp [Session.mode, hs] at hmode
      · simp only [Takes, hs]
        unfold Guest.outlet at hc
        cases hinstalled : g.installed with
        | none => simp [hinstalled, Outlet.channel?] at hc
        | some id =>
            simp only [hinstalled, Outlet.channel?, Option.some.injEq] at hc
            exact ⟨id, hc.symm⟩

end Session

open Session (Sound Taking)

/-! ## Prints -/

/-- How the results of a task that comes to a fragment that cannot be formatted belong to those of a
task that does not: the one is unwound in a process, and in a guest it is not told from the
other. -/
def Truncated (mode : Mode) (a b : Finish) : Prop :=
  (mode = .hosted → a = .unwound) ∧ (mode = .guest → a = b)

/-- A message that can be formatted is formatted to its end, or unwound in its middle. -/
theorem alongside_deliver {P : Message} (whole : Fragment.fault ∉ P) (c : Channel) :
    Alongside t (Taking mode c)
      (fun f f' s => (f = f' ∧ (f = .complete ∨ f = .unwound)) ∧ s.Taking mode c)
      (Log.deliver c P) (Log.deliver c P) := by
  have kept := Session.kept_taking mode c
  induction P with
  | nil => exact .done fun s here => ⟨⟨rfl, .inl rfl⟩, here⟩
  | cons fragment rest ih =>
      have hrest := ih fun hmem => whole (List.mem_cons_of_mem _ hmem)
      cases fragment with
      | piece p =>
          have hput : Alongside t (Taking mode c)
              (fun taken taken' s => (taken = true ∧ taken' = true) ∧ s.Taking mode c)
              (Request.make (.put c p)) (Request.make (.put c p)) := by
            refine .request (.put c p) kept.stable fun t s s' taken here reply => ?_
            have htaken := Session.reply_put (t := t) here.2 p
            rw [reply] at htaken
            cases htaken
            exact ⟨⟨rfl, rfl⟩, kept trivial here reply⟩
          refine hput.bind fun taken taken' => .assume ?_
          rintro ⟨rfl, rfl⟩
          exact hrest
      | effect task =>
          refine (Alongside.same_of_kept kept task).bind fun finish finish' => .assume ?_
          rintro rfl
          cases finish with
          | returned => exact hrest
          | unwound => exact .done fun s here => ⟨⟨rfl, .inr rfl⟩, here⟩
      | fault => exact absurd (List.mem_cons_self ..) whole

theorem alongside_deliver_fault {P : Message} (whole : Fragment.fault ∉ P) (Q : Message)
    (c : Channel) :
    Alongside t (Taking mode c)
      (fun f f' s => ((f = .fault ∧ f' = .complete) ∨ (f = .unwound ∧ f' = .unwound)) ∧
        s.Taking mode c)
      (Log.deliver c (P ++ .fault :: Q)) (Log.deliver c P) := by
  rw [Log.deliver_append, ← Program.bind_done (Log.deliver c P), Program.bind_assoc]
  refine (alongside_deliver whole c).bind fun f f' => .assume ?_
  rintro ⟨rfl, rfl | rfl⟩
  · exact .done fun s here => ⟨.inl ⟨rfl, rfl⟩, here⟩
  · exact .done fun s here => ⟨.inr ⟨rfl, rfl⟩, here⟩

theorem truncated_of_endPrint {s : Session} {f f' : Formatting} (here : s.mode = mode)
    (h : (f = .fault ∧ f' = .complete) ∨ (f = .unwound ∧ f' = .unwound)) :
    Truncated mode (s.finishOf f) (s.finishOf f') := by
  rcases h with ⟨rfl, rfl⟩ | ⟨rfl, rfl⟩
  · cases hs : s.platform with
    | hosted h =>
        simp only [Session.mode, hs] at here
        subst here
        constructor
        · intro _
          simp only [Session.finishOf, hs]
        · intro guest
          cases guest
    | guest g =>
        simp only [Session.mode, hs] at here
        subst here
        constructor
        · intro hosted
          cases hosted
        · intro _
          simp only [Session.finishOf, hs]
  · exact ⟨fun _ => rfl, fun _ => rfl⟩

theorem alongside_beginPrint :
    Alongside t (Sound mode)
      (fun d d' s => (d = d' ∧ (mode = .hosted → ∃ c, d = some c)) ∧
        s.mode = mode ∧ ∀ c, d = some c → s.Taking mode c)
      (Log.beginPrint .patient) (Log.beginPrint .patient) := by
  have hlook : Alongside t (Sound mode)
      (fun outlet outlet' s => (outlet = outlet' ∧
          (mode = .hosted → ∃ c, outlet.channel? = some c)) ∧
        s.mode = mode ∧ ∀ c, outlet.channel? = some c → s.Taking mode c)
      (Request.make (.beginPrint .patient)) (Request.make (.beginPrint .patient)) := by
    refine .request (.beginPrint .patient) (Session.stable_sound mode) ?_
    intro t s s' outlet here reply
    obtain ⟨hmode, hsome, htaking⟩ := Session.taking_of_beginPrint here reply
    exact ⟨⟨rfl, hsome⟩, hmode, htaking⟩
  refine hlook.bind fun outlet outlet' => .assume ?_
  rintro ⟨rfl, hsome⟩
  unfold Log.takeOutlet
  cases hchannel : outlet.channel? with
  | none =>
      rw [hchannel] at hsome
      exact .done fun s here => ⟨⟨rfl, hsome⟩, here.1, nofun⟩
  | some c =>
      have kept := Session.kept_taking mode c
      have htake : Alongside t (Taking mode c) (fun _ _ s => s.Taking mode c)
          (Request.make (.takeChannel c)) (Request.make (.takeChannel c)) :=
        .request (.takeChannel c) kept.stable fun _ _ _ _ here reply => kept trivial here reply
      have hwhole : Alongside t (Taking mode c) (fun d d' s => (d = c ∧ d' = c) ∧ s.Taking mode c)
          (Log.takeChannel .patient c) (Log.takeChannel .patient c) := by
        have hpatient : ¬ Urgency.patient.passesBy c = true := nofun
        unfold Log.takeChannel
        rw [if_neg hpatient]
        exact htake.bind fun _ _ => .done fun s here => ⟨⟨rfl, rfl⟩, here⟩
      refine (hwhole.mono (fun s here => here.2 c rfl) fun _ _ _ => id).bind
        fun d d' => .assume ?_
      rintro ⟨rfl, rfl⟩
      refine .done fun s here => ⟨⟨rfl, fun _ => ⟨_, rfl⟩⟩, here.1, ?_⟩
      rintro _ ⟨⟩
      exact here

theorem alongside_print {P : Message} (whole : Fragment.fault ∉ P) (Q : Message) :
    Alongside t (Sound mode) (fun a b s => Truncated mode a b ∧ s.mode = mode)
      (Log.print (P ++ .fault :: Q)) (Log.print P) := by
  refine alongside_beginPrint.bind fun d d' => .assume ?_
  rintro ⟨rfl, hsome⟩
  cases d with
  | none =>
      refine .done fun s here => ⟨⟨fun hosted => ?_, fun _ => rfl⟩, here.1⟩
      obtain ⟨c, hc⟩ := hsome hosted
      cases hc
  | some c =>
      refine ((alongside_deliver_fault whole Q c).mono (fun s here => here.2 c rfl)
        fun _ _ _ => id).bind fun f f' => .assume fun hformatting => ?_
      refine .endPrint (Session.kept_taking mode c).stable fun s here => ?_
      have hmode := Session.mode_of_reply (Session.reply_endPrint t c .complete (s := s))
      exact ⟨truncated_of_endPrint here.1 hformatting, hmode.trans here.1⟩

/-! ## Statements -/

theorem access_of_onLock {name : LockName} {p : Program Access.interface α} {xs : List Talk}
    {d : Demand} {next : d.Reply → Task α} (h : Reaches (Log.onLock name p) xs (.ask d next)) :
    ∃ a, d.request = .access name a := by
  induction p generalizing xs with
  | done a => cases h
  | ask a rest ih =>
      cases h with
      | nil => exact ⟨a, rfl⟩
      | cons after => exact ih _ after

theorem alongside_lock :
    Alongside t (Sound mode) (fun _ _ s => s.Sound mode) Log.lock Log.lock := by
  have henter := Alongside.same (t := t) (Session.stable_sound mode)
    (Session.kept_sound_access mode .log) (p := Log.enter .log) (by
      intro xs d next h
      rcases Program.reaches_bind_ask h with ⟨next', hself⟩ | ⟨me, ys, zs, -, -, haccess⟩
      · cases hself with
        | nil => exact .inl rfl
        | cons after => cases after
      · exact .inr (access_of_onLock haccess))
  refine henter.bind fun entered entered' => .assume ?_
  rintro ⟨rfl, -⟩
  cases entered with
  | ok _ => exact .done fun s here => here
  | error e => exact .endless fun _ _ => not_reaches_mutexFailure_done

theorem alongside_bracketed {R : Finish → Finish → Prop} {body body' : Task Finish}
    (h : Alongside t (Sound mode) (fun a b _ => R a b) body body') :
    Alongside t (Sound mode) (fun a b _ => R a b) (Log.bracketed body) (Log.bracketed body') := by
  have hunlock := Alongside.same_of_kept (t := t) Session.kept_nothing Log.unlock
  refine alongside_lock.bind fun _ _ => h.bind fun finish finish' => ?_
  intro s others hfinish
  have hrest : Alongside t (fun _ => True) (fun a b _ => R a b)
      (Log.unlock >>= fun _ => .done finish) (Log.unlock >>= fun _ => .done finish') :=
    hunlock.bind fun _ _ => .done fun _ _ => hfinish
  exact hrest s others trivial

section Lines

variable {P : Message} (whole : Fragment.fault ∉ P) (Q : Message)

include whole

theorem alongside_line_hosted :
    Alongside t (Sound .hosted) (fun a _ _ => a = .unwound) (Log.line (P ++ .fault :: Q))
      (Log.print P) := by
  rw [← Program.bind_done (Log.print P)]
  refine (alongside_print whole Q).bind fun a b => .assume fun truncated => ?_
  rw [truncated.1 rfl]
  exact .done fun _ _ => rfl

theorem alongside_line_guest :
    Alongside t (Sound .guest) (fun a b _ => a = b) (Log.line (P ++ .fault :: Q))
      (Log.line P) := by
  refine (alongside_print whole Q).bind fun a b => .assume fun truncated => ?_
  rw [truncated.2 rfl]
  exact (Alongside.same_of_kept (Session.kept_mode .guest) _).mono (fun _ => id)
    fun _ _ _ h => h.1

end Lines

/-! ## What comes after -/

namespace Session

variable {s s' : Session} {c : Channel}

/-- When a task that ends its prints is finished, the log file can be printed to as before, by any
thread. -/
theorem Prints.of_run (prints : s.Prints t .patient .file) {good : α → Prop} {p : Task α}
    (closes : Closes .file good p) {a : α} (run : p.run (perform t) s = .finished a s')
    (t' : ThreadId) : s'.Prints t' .patient .file := by
  cases hs : s.platform with
  | guest g =>
      simp only [Prints, hs] at prints
      obtain ⟨id, -, hc⟩ := prints
      cases hc
  | hosted h =>
      have huser : h.users.file = [] := by
        simp only [Prints, hs] at prints
        simpa [Hosted.busy] using prints.2.1
      have htaking : s.Taking .hosted .file := ⟨by simp only [mode, hs], prints.takes⟩
      have hrun : p.run (performAmid t) (s, []) = .finished a (s', []) := by
        rw [run_performAmid_nil, run]
        rfl
      obtain ⟨⟨hmode, htakes⟩, -⟩ := finished_amid (kept_taking .hosted .file).stable
        (kept_taking .hosted .file) (fun _ _ _ _ => trivial) htaking hrun
      cases hs' : s'.platform with
      | guest g => simp [mode, hs'] at hmode
      | hosted h' =>
          obtain ⟨path, w, hstream, accepts⟩ := (takes_hosted hs').mp htakes
          have hchannel : h'.channel = .file := by
            simp [Hosted.channel, Hosted.sink, hstream, Stream.sink, Sink.channel]
          have hfree (t : ThreadId) : h'.busy t .file = false := by
            simp [Hosted.busy, file_nil_of_closes hs hs' closes run huser]
          simp only [Prints, hs']
          exact ⟨by simp [Hosted.destination, hchannel, hfree], hfree t', path, w, hstream, accepts⟩

end Session

/-! ## Messages of parts -/

namespace Part

theorem message_append (P Q : List Part) : message (P ++ Q) = message P ++ message Q := by
  induction P with
  | nil => rfl
  | cons part rest ih => rw [List.cons_append, message, message, ih, List.append_assoc]

theorem fault_not_mem {P : List Part} (whole : fail ∉ P) : Fragment.fault ∉ message P := by
  induction P with
  | nil => exact List.not_mem_nil
  | cons part rest ih =>
      obtain ⟨hpart, hrest⟩ := not_or.mp (mt List.mem_cons.mpr whole)
      rw [message, List.mem_append, not_or]
      refine ⟨?_, ih hrest⟩
      cases part with
      | fail => exact absurd rfl hpart
      | _ => simp [fragments, Message.ofPieces]

end Part

/-- The forms of a statement that prints one message. -/
inductive MessageForm where
  | print
  | line
  | record (level : Level)
  deriving DecidableEq, Repr

namespace MessageForm

def step : MessageForm → List Part → Step
  | print => .print
  | line => .println
  | record level => .record .direct level

def task : MessageForm → Message → Task Finish
  | print => Log.print
  | line => Log.println
  | record level => Log.record level

/-- What is left of the statement when it prints its message and is unwound then: the lock is
released, and the line is not ended. -/
def cutShort : MessageForm → Message → Task Finish
  | print, m => Log.print m
  | line, m => Log.bracketed (Log.print m)
  | record level, m => Log.bracketed (Log.print (Log.levelHeader level ++ m))

theorem task_step (form : MessageForm) (parts : List Part) :
    (form.step parts).task = do return Answer.ofFinish (← form.task (Part.message parts)) := by
  cases form <;> rfl

theorem print_fault (P Q : Message) :
    Log.print (P ++ .fault :: Q) = Log.print (P ++ [.fault]) := by
  have hdeliver (c : Channel) :
      Log.deliver c (P ++ .fault :: Q) = Log.deliver c (P ++ [.fault]) := by
    rw [Log.deliver_append, Log.deliver_append]
    rfl
  have hprint : Log.printTo (P ++ .fault :: Q) = Log.printTo (P ++ [.fault]) := by
    funext destination
    cases destination <;> simp only [Log.printTo, hdeliver]
  rw [Log.print, Log.print, Log.printWith, Log.printWith, hprint]

theorem task_fault (form : MessageForm) (P Q : Message) :
    form.task (P ++ .fault :: Q) = form.task (P ++ [.fault]) := by
  cases form with
  | print => exact print_fault P Q
  | line => simp only [task, Log.println, Log.line, print_fault P Q]
  | record level =>
      have hprint := print_fault (Log.levelHeader level ++ P) Q
      simp only [List.append_assoc] at hprint
      simp only [task, Log.record, Log.line, hprint]

variable {P : Message}

theorem header_whole (level : Level) (whole : Fragment.fault ∉ P) :
    Fragment.fault ∉ Log.levelHeader level ++ P := by
  rw [List.mem_append, not_or]
  refine ⟨fun hfault => ?_, whole⟩
  obtain ⟨p, hp⟩ := Log.isPlain_levelHeader level _ hfault
  cases hp

/-- In a process the statement is unwound, when it has come to what is left of it. -/
theorem alongside_hosted (form : MessageForm) (whole : Fragment.fault ∉ P) (Q : Message) :
    Alongside t (Sound .hosted) (fun a _ _ => a = .unwound) (form.task (P ++ .fault :: Q))
      (form.cutShort P) := by
  cases form with
  | print => exact (alongside_print whole Q).mono (fun _ => id) fun _ _ _ h => h.1.1 rfl
  | line =>
      exact alongside_bracketed (R := fun a _ => a = .unwound) (alongside_line_hosted whole Q)
  | record level =>
      have hline := alongside_line_hosted (t := t) (header_whole level whole) Q
      rw [List.append_assoc] at hline
      exact alongside_bracketed (R := fun a _ => a = .unwound) hline

/-- In a guest it is as if the message ended there. -/
theorem alongside_guest (form : MessageForm) (whole : Fragment.fault ∉ P) (Q : Message) :
    Alongside t (Sound .guest) (fun a b _ => a = b) (form.task (P ++ .fault :: Q))
      (form.task P) := by
  cases form with
  | print => exact (alongside_print whole Q).mono (fun _ => id) fun _ _ _ h => h.1.2 rfl
  | line => exact alongside_bracketed (alongside_line_guest whole Q)
  | record level =>
      have hline := alongside_line_guest (t := t) (header_whole level whole) Q
      rw [List.append_assoc] at hline
      exact alongside_bracketed hline

theorem obeys {law : TaskLaw} (form : MessageForm) (h : law.Allowed P) :
    law.Holds law.Allows (form.task P) := by
  cases form with
  | print => exact TaskLaw.print h
  | line => exact TaskLaw.println h
  | record level => exact TaskLaw.record level h

section Steps

variable {P : List Part} (whole : Part.fail ∉ P) (Q : List Part)

theorem message_fail : Part.message (P ++ .fail :: Q) =
    Part.message P ++ .fault :: Part.message Q :=
  Part.message_append P (.fail :: Q)

include whole

theorem alongside_step_hosted (form : MessageForm) :
    Alongside t (Sound .hosted) (fun answer _ _ => answer = some .panic)
      (form.step (P ++ .fail :: Q)).task (form.cutShort (Part.message P)) := by
  rw [form.task_step, message_fail, ← Program.bind_done (form.cutShort _)]
  refine (form.alongside_hosted (Part.fault_not_mem whole) (Part.message Q)).bind fun a b => ?_
  refine .done ?_
  rintro s rfl
  rfl

theorem alongside_step_guest (form : MessageForm) :
    Alongside t (Sound .guest) (fun answer answer' _ => answer = none ∧ answer' = none)
      (form.step (P ++ .fail :: Q)).task (form.step P).task := by
  have hform := (form.alongside_guest (t := t) (Part.fault_not_mem whole)
    (Part.message Q)).and_right (Session.kept_mode .guest) (fun _ here => here.1)
      (form.obeys (StepLaw.quiet.message P))
  rw [form.task_step, form.task_step, message_fail]
  refine hform.bind fun a b => .done ?_
  rintro s ⟨rfl, quiet⟩
  cases a with
  | returned => exact ⟨rfl, rfl⟩
  | unwound => exact (quiet rfl).elim

end Steps

end MessageForm

/-! ## Formatting errors -/

open Session (performAmid)

/-- The part that cannot be formatted cuts the message short, and nothing after it is formatted.
Whatever others do meanwhile, a guest then comes to the session that the message without it and
what follows comes to, and the statement returns; a process comes to the session of the statement
cut short, and the statement is unwound.  So the log file can be printed to afterwards, by any
thread, and what is printed is added to the text there. -/
theorem formatting_error_only_truncates (form : MessageForm) (t : ThreadId) {P : List Part}
    (whole : Part.fail ∉ P) (Q : List Part) :
    (form.step (P ++ .fail :: Q)).task = (form.step (P ++ [.fail])).task ∧
    (∀ s others, s.mode = .guest →
      ((form.step (P ++ .fail :: Q)).task.run (performAmid t) (s, others)).Matches
        (fun answer answer' _ => answer = none ∧ answer' = none)
        ((form.step P).task.run (performAmid t) (s, others))) ∧
    (∀ s others, s.mode = .hosted → s.Accepts →
      ((form.step (P ++ .fail :: Q)).task.run (performAmid t) (s, others)).Matches
        (fun answer _ _ => answer = some .panic)
        ((form.cutShort (Part.message P)).run (performAmid t) (s, others))) ∧
    ∀ s answer s', s.Prints t .patient .file →
      (form.step (P ++ .fail :: Q)).task.run (Session.perform t) s = .finished answer s' →
      ∀ t' (print : Primitive),
        ∃ s'', print.task.run (Session.perform t') s' = .finished () s'' ∧
          ∀ text, s'.HasText .file text → s''.HasText .file (text ++ print.text s') := by
  refine ⟨?_, ?_, ?_, ?_⟩
  · rw [form.task_step, form.task_step, MessageForm.message_fail, MessageForm.message_fail,
      form.task_fault]
    rfl
  · intro s others guest
    refine form.alongside_step_guest whole Q s others ⟨guest, fun h hs => ?_⟩
    rw [Session.mode, hs] at guest
    cases guest
  · intro s others hosted accepts
    exact form.alongside_step_hosted whole Q s others ⟨hosted, accepts⟩
  · intro s answer s' prints run t' print
    have hafter := prints.of_run (Step.closes .file _) run t'
    obtain ⟨ps, hspeaks⟩ := Session.speaks_primitive (P := fun _ => True) hafter
      (fun _ _ => trivial) print
    exact ⟨_, hspeaks.run_eq, fun text ht => hspeaks.hasText ht⟩

namespace Session

def logFileProcess : Session :=
  ((Log.openStream (some (Bytes.ofString "vm.log"))).run (perform (.lasting 0)) newProcess).state

def lockedProcess : Session :=
  (Log.lock.run (perform (.lasting 1)) logFileProcess).state

def Others.idle : Others where
  act s := s
  meanwhile _ := .nothing

def Others.freeing : Others where
  act s := { s with locks := update s.locks .log ⟨⟨false⟩, (s.locks .log).owner⟩ }
  meanwhile _ := .request (t := .lasting 1) (r := .access .log .unlockRaw) rfl id .nothing

end Session

def askingParts : List Part :=
  [.text (Bytes.ofString "a"), .run [.call .currentSink]]

def lostParts : List Part :=
  [.fail, .integer 7, .run [.call .newline]]

def othersAtLock : List Session.Others :=
  [.idle, .idle, .idle, .freeing]

open Session in
/-- A line waits for the log lock, is cut short and unwound, and another thread prints after it. -/
theorem line_cut_short_in_a_log_file :
    Part.fail ∉ askingParts ∧
    (∃ state, (Step.println (askingParts ++ lostParts)).task.run (performAmid (.lasting 0))
        (lockedProcess, othersAtLock) = .finished (some .panic) state ∧
      (Log.bracketed (Log.print (Part.message askingParts))).run (performAmid (.lasting 0))
        (lockedProcess, othersAtLock) = .finished .returned state) ∧
    ∃ s' s'', (Step.println (askingParts ++ lostParts)).task.run (perform (.lasting 0))
        logFileProcess = .finished (some .panic) s' ∧
      Log.printNewline.run (perform (.lasting 1)) s' = .finished () s'' ∧
      s''.HasText .file (Bytes.ofString "a" ++ [0x0A]) := by
  have whole : Part.fail ∉ askingParts := by simp [askingParts]
  have accepts : lockedProcess.Accepts := by
    intro h hs path w hstream
    cases hs
    cases hstream
    rfl
  obtain ⟨-, -, hosted, file⟩ := formatting_error_only_truncates .line (.lasting 0) whole
    [.integer 7, .run [.call .newline]]
  have hmatches := hosted lockedProcess othersAtLock rfl accepts
  obtain ⟨state, hcut⟩ : ∃ state,
      (Log.bracketed (Log.print (Part.message askingParts))).run (performAmid (.lasting 0))
        (lockedProcess, othersAtLock) = .finished .returned state := ⟨_, rfl⟩
  refine ⟨whole, ⟨state, ?_, hcut⟩, ?_⟩
  · rw [MessageForm.cutShort, hcut] at hmatches
    generalize hrun : Program.run _ _ _ = outcome at hmatches
    cases hmatches with
    | finished results => rw [← results]; exact hrun
  · obtain ⟨s'', hrun, htext⟩ := file logFileProcess _ _ ⟨rfl, rfl, _, _, rfl, rfl⟩ rfl
      (.lasting 1) .newline
    exact ⟨_, s'', rfl, hrun, htext (Bytes.ofString "a") ⟨[], rfl, rfl⟩⟩

end DiagnosticLog
