import DiagnosticLog.Proofs.Output.Order
import DiagnosticLog.Proofs.Setup
import DiagnosticLog.Proofs.Statement.Line
import Mathlib.Data.List.Induction

/-!
# The global logger

Threads run any steps, and somewhere among them the log is registered as the global logger, which
lets records through from then on.  A record that goes through the global logger comes to nothing
before, and to the record itself afterwards (`logger_is_off_or_the_log`).  The line of a record is
that of its message with the level before it, however that is cut into pieces.
-/

namespace DiagnosticLog

open Program (Reaches)
open Setup (Crowd Event Happens Run)

/-! ## Registration -/

namespace Logger

def registration? : Event → Option Bool
  | .made _ _ ⟨_, .registerLogger⟩ first _ _ _ => some first
  | _ => none

def level? : Event → Option Level
  | .made _ _ ⟨_, .setMaxLevel level⟩ _ _ _ _ => some level
  | _ => none

def registered (es : List Event) : Bool :=
  es.any fun e => (registration? e).isSome

def letsThrough (es : List Event) : Bool :=
  es.any fun e => (level? e).isSome

def successes (es : List Event) : Nat :=
  es.countP fun e => registration? e = some true

theorem registered_snoc (es : List Event) (e : Event) :
    registered (es ++ [e]) = (registered es || (registration? e).isSome) := by
  simp [registered]

theorem letsThrough_snoc (es : List Event) (e : Event) :
    letsThrough (es ++ [e]) = (letsThrough es || (level? e).isSome) := by
  simp [letsThrough]

theorem successes_snoc (es : List Event) (e : Event) :
    successes (es ++ [e]) = successes es + if registration? e = some true then 1 else 0 := by
  simp [successes, List.countP_append, List.countP_singleton]

variable {es : List Event} {x z : Crowd} {e : Event} {build : Build}
  {environment : String → Option Bytes} {tree : FileTree}

theorem registered_of_reply {t : ThreadId} {d : Demand} {answer : d.Reply} {s s' : Session}
    (reply : Session.perform t d s = .reply answer s') (job : Step)
    (result : Option (Option Answer)) :
    s'.loggerRegistered =
        (s.loggerRegistered || (registration? (.made t job d answer s s' result)).isSome) ∧
      ∀ first, registration? (.made t job d answer s s' result) = some first →
        first = !s.loggerRegistered ∧ (s.loggerRegistered = true → s' = s) := by
  by_cases hd : d.request = .registerLogger
  · obtain ⟨caller, r⟩ := d
    obtain rfl : r = .registerLogger := hd
    cases reply
    refine ⟨(Bool.or_true _).symm, ?_⟩
    rintro first ⟨⟩
    refine ⟨rfl, fun hregistered => ?_⟩
    rw [← hregistered]
  · have hnone : registration? (.made t job d answer s s' result) = none := by
      obtain ⟨caller, r⟩ := d
      cases r with
      | registerLogger => exact absurd rfl hd
      | _ => rfl
    rw [hnone, Option.isSome_none, Bool.or_false]
    exact ⟨Session.loggerRegistered_of_reply reply hd, nofun⟩

/-- The log is the global logger just if it has been registered, and that has succeeded once at
most. -/
theorem registered_of_run (run : Run (Session.start build environment tree) es x) :
    x.state.loggerRegistered = registered es ∧ successes es = (registered es).toNat := by
  apply run.invariant (motive := fun es x =>
    x.state.loggerRegistered = registered es ∧ successes es = (registered es).toNat)
  · exact ⟨rfl, rfl⟩
  · rintro es x e z ⟨hregistered, hsuccesses⟩ happens
    rw [registered_snoc, successes_snoc, hsuccesses]
    cases happens with
    | began job free => simp [registration?, hregistered]
    | @made t job d next answer s' busy reply =>
        obtain ⟨hnow, hfirst⟩ := registered_of_reply reply job (next answer).result?
        rw [hnow, hregistered]
        refine ⟨rfl, ?_⟩
        cases he : registration? (.made t job d answer x.state s' (next answer).result?) with
        | none => simp
        | some first =>
            rw [(hfirst first he).1, hregistered]
            cases registered es <;> rfl

theorem registered_of_exchange {t : ThreadId} {caller : Caller} {first : Bool}
    (told : ⟨⟨caller, .registerLogger⟩, first⟩ ∈ Crew.exchanges t es) : registered es := by
  induction es using List.reverseRecOn with
  | nil => cases told
  | append_singleton es e ih =>
      rw [Crew.exchanges_snoc] at told
      rw [registered_snoc, Bool.or_eq_true]
      cases e with
      | began u job result =>
          simp only [Crew.Event.record] at told
          split at told
          · cases told
          · exact .inl (ih told)
      | made u job d answer s s' result =>
          simp only [Crew.Event.record] at told
          split at told
          · rcases List.mem_append.mp told with hold | hnew
            · exact .inl (ih hold)
            · cases List.mem_singleton.mp hnew
              exact .inr rfl
          · exact .inl (ih told)

theorem follows_of_level {level : Level}
    (run : Run (Session.start build environment tree) es x) (happens : Happens x e z)
    (sets : level? e = some level) :
    level = .trace ∧ ∃ caller,
      (Crew.exchanges e.thread es).getLast? = some ⟨⟨caller, .registerLogger⟩, true⟩ := by
  cases happens with
  | began job free => cases sets
  | @made t job d next answer s' busy reply =>
      have hfollows := job.inOrder.follows (run.reaches (fun _ => rfl) t job _ busy)
      rw [Option.or_none] at hfollows
      obtain ⟨caller, r⟩ := d
      cases r with
      | setMaxLevel level' =>
          obtain rfl : level' = level := Option.some.inj sets
          obtain ⟨htrace, hlast⟩ := hfollows
          exact ⟨htrace, caller, hlast⟩
      | _ => cases sets

theorem maxLevel_of_reply {t : ThreadId} {d : Demand} {answer : d.Reply} {s s' : Session}
    (reply : Session.perform t d s = .reply answer s') (job : Step)
    (result : Option (Option Answer)) :
    s'.maxLevel = (level? (.made t job d answer s s' result)).or s.maxLevel := by
  by_cases hd : ∃ level, d.request = .setMaxLevel level
  · obtain ⟨level, hd⟩ := hd
    obtain ⟨caller, r⟩ := d
    obtain rfl : r = .setMaxLevel level := hd
    cases reply
    rfl
  · have hnone : level? (.made t job d answer s s' result) = none := by
      obtain ⟨caller, r⟩ := d
      cases r with
      | setMaxLevel level => exact absurd ⟨level, rfl⟩ hd
      | _ => rfl
    rw [hnone, Option.none_or]
    exact Session.maxLevel_of_reply reply fun level hlevel => hd ⟨level, hlevel⟩

/-- Records are let through just if a registration has been completed, and only then. -/
theorem letsThrough_of_run (run : Run (Session.start build environment tree) es x) :
    x.state.maxLevel = (if letsThrough es then some .trace else none) ∧
      (letsThrough es = true → registered es = true) := by
  induction run with
  | nil => exact ⟨rfl, nofun⟩
  | @snoc es e y z before happens ih =>
      obtain ⟨hlevel, hregistered⟩ := ih
      have hstate : z.state.maxLevel = (level? e).or y.state.maxLevel := by
        cases happens with
        | began job free => rfl
        | made busy reply => exact maxLevel_of_reply reply _ _
      rw [letsThrough_snoc, registered_snoc, hstate, hlevel]
      cases he : level? e with
      | none =>
          rw [Option.none_or, Option.isSome_none, Bool.or_false]
          exact ⟨rfl, fun through => by rw [hregistered through, Bool.true_or]⟩
      | some level =>
          obtain ⟨rfl, caller, hlast⟩ := follows_of_level before happens he
          refine ⟨by simp, fun _ => ?_⟩
          rw [registered_of_exchange (List.mem_of_getLast? hlast), Bool.true_or]

/-! ## The facade -/

/-- What is left of a record through the global logger when its level has been let through. -/
def passed (level : Level) (m : Message) : Task Finish := do
  if ← Request.make .loggerRegistered then Log.record level m else return .returned

theorem passes_letsThrough (level : Level) (through : Bool) :
    level.passes (if through then some .trace else none) = through := by
  cases level <;> cases through <;> rfl

theorem run_logRecord (t : ThreadId) (level : Level) (m : Message) {s : Session}
    (hlevel : s.maxLevel = if letsThrough es then some .trace else none)
    (hregistered : letsThrough es = true → s.loggerRegistered = true) :
    (Log.logRecord level m).run (Session.perform t) s =
      if letsThrough es then (Log.record level m).run (Session.perform t) s
      else .finished .returned s := by
  have hmost : Session.perform t Request.maxLevel.demand s = .reply s.maxLevel s := rfl
  have hasked : Session.perform t Request.loggerRegistered.demand s =
      .reply s.loggerRegistered s := rfl
  unfold Log.logRecord
  rw [Request.make_bind, Program.run_ask_of_reply hmost, hlevel, passes_letsThrough]
  split
  · rename_i through
    rw [Request.make_bind, Program.run_ask_of_reply hasked, hregistered through]
    rfl
  · rfl

theorem run_registerLogger (t : ThreadId) (s : Session) :
    (Step.call .registerLogger).task.run (Session.perform t) s =
      if s.loggerRegistered then .finished (some .loggerSet) s
      else .finished (some .ok) { s with loggerRegistered := true, maxLevel := some .trace } := by
  obtain ⟨_, _, _, _, _, _, _, _, registered, _, _, _⟩ := s
  cases registered <;> rfl

theorem happens_ask {t : ThreadId} {job : Step} {r : Request}
    {next : r.Reply → Task (Option Answer)}
    {answer : r.Reply} (busy : x.doing t = some (job, .ask r.demand next))
    (reply : Session.performAs t r x.state = .reply answer x.state) :
    (∃ e z, e.thread = t ∧ Happens x e z) ∧
      ∀ e z, e.thread = t → Happens x e z →
        z.state = x.state ∧
          z.doing = Function.update x.doing t (Crew.remaining job (next answer)) := by
  have hreply : Session.perform t r.demand x.state = .reply answer x.state := reply
  constructor
  · exact ⟨_, _, rfl, .made busy hreply⟩
  · intro e z hthread happens
    cases happens with
    | @began t' job' free =>
        obtain rfl : t' = t := hthread
        rw [free] at busy
        cases busy
    | @made t' job' d next answer s' busy' reply' =>
        obtain rfl : t' = t := hthread
        rw [busy] at busy'
        cases busy'
        rw [hreply] at reply'
        cases reply'
        exact ⟨rfl, rfl⟩

/-! ## The line of a record -/

def header (level : Level) : Bytes :=
  Bytes.ofString ("[" ++ level.name ++ "] ")

theorem levelHeader_eq (level : Level) :
    Log.levelHeader level = Message.ofPieces (Session.headerPieces level) := rfl

theorem spell_headerPieces (level : Level) (lineEnd : LineEnd) :
    (Session.headerPieces level).flatMap lineEnd.spell = header level := by
  cases level <;> rfl

/-- At every point of every run, whichever threads run which steps:

* the log is the global logger just if someone has tried to make it so; the first to try has
  succeeded, and whoever tries later is told so and changes nothing;
* who has succeeded has records of every level let through next, and is done then; how far a
  registration comes by which exchanges is `Registering`;
* a record through the global logger comes to nothing at all before, not even to the formatting of
  its message, and to the record itself afterwards, both where a thread runs alone and where others
  act between any two of its requests;
* the record goes on after its header as a line does after any beginning of its message;
* if what runs in the middle of the message leaves the lock alone, the record says its header, its
  message and a line end under the lock, and so does the line of a message that begins with the
  header, however that is cut into pieces. -/
theorem logger_is_off_or_the_log (run : Run (Session.start build environment tree) es x) :
    (x.state.loggerRegistered = registered es ∧
      x.state.maxLevel = (if letsThrough es then some .trace else none) ∧
      (letsThrough es = true → registered es = true)) ∧
      successes es = (registered es).toNat ∧
      (∀ e z first, Happens x e z → registration? e = some first →
        first = !registered es ∧ (registered es = true → z.state = x.state)) ∧
      (∀ e z level, Happens x e z → level? e = some level →
        level = .trace ∧ ∃ caller,
          (Crew.exchanges e.thread es).getLast? = some ⟨⟨caller, .registerLogger⟩, true⟩) ∧
      (∀ xs q, Reaches Log.registerLogger xs q ↔ Registering xs q) ∧
      (∀ t, (Step.call .registerLogger).task.run (Session.perform t) x.state =
        if registered es then .finished (some .loggerSet) x.state
        else .finished (some .ok)
          { x.state with loggerRegistered := true, maxLevel := some .trace }) ∧
      (∀ t level m, (Log.logRecord level m).run (Session.perform t) x.state =
        if letsThrough es then (Log.record level m).run (Session.perform t) x.state
        else .finished .returned x.state) ∧
      (∀ t job level m f, x.doing t = some (job, Log.logRecord level m >>= f) →
        (∃ e z, e.thread = t ∧ Happens x e z) ∧
          ∀ e z, e.thread = t → Happens x e z →
            z.state = x.state ∧
              z.doing = Function.update x.doing t (Crew.remaining job
                (if letsThrough es then passed level m >>= f else f .returned))) ∧
      (letsThrough es = true →
        ∀ t job level m f, x.doing t = some (job, passed level m >>= f) →
          (∃ e z, e.thread = t ∧ Happens x e z) ∧
            ∀ e z, e.thread = t → Happens x e z →
              z.state = x.state ∧
                z.doing = Function.update x.doing t
                  (Crew.remaining job (Log.record level m >>= f))) ∧
      (∀ level m ps xs outlet ys q, Reaches Log.lock xs (.done ()) →
        (Reaches (Log.record level m)
            (xs ++ Log.opening (Session.headerPieces level) outlet ++ ys) q ↔
          Reaches (Log.println (Message.ofPieces ps ++ m))
            (xs ++ Log.opening ps outlet ++ ys) q)) ∧
      ∀ t c level m b, x.state.locks .log = CheckedMutex.unowned →
        x.state.tokenOf t ≠ Token.noOwner → x.state.Prints t .patient c →
        Session.Utters t c x.state.lineEnd (x.state.tokenOf t) m b →
        (∃ s', Session.Logs t c (Log.line (Log.levelHeader level ++ m)) x.state
          (header level ++ b ++ x.state.lineEnd.bytes) s') ∧
        ∀ ps, ps.flatMap x.state.spell = header level →
          ∃ s', Session.Logs t c (Log.line (Message.ofPieces ps ++ m)) x.state
            (header level ++ b ++ x.state.lineEnd.bytes) s' := by
  obtain ⟨hregistered, hsuccesses⟩ := registered_of_run run
  obtain ⟨hlevel, hthrough⟩ := letsThrough_of_run run
  have hon : letsThrough es = true → x.state.loggerRegistered = true :=
    fun through => hregistered.trans (hthrough through)
  refine ⟨⟨hregistered, hlevel, hthrough⟩, hsuccesses, ?_, ?_, ?_, ?_, ?_, ?_, ?_, ?_, ?_⟩
  · rw [← hregistered]
    intro e z first happens he
    cases happens with
    | began job free => cases he
    | made busy reply => exact (registered_of_reply reply _ _).2 first he
  · exact fun e z level happens sets => follows_of_level run happens sets
  · exact fun xs q => reaches_registerLogger_iff
  · rw [← hregistered]
    exact fun t => run_registerLogger t x.state
  · exact fun t level m => run_logRecord t level m hlevel hon
  · intro t job level m f busy
    have hreply : Session.performAs t .maxLevel x.state = .reply x.state.maxLevel x.state := rfl
    have hmost := happens_ask busy hreply
    rw [hlevel] at hmost
    have hnext : ((if level.passes (if letsThrough es then some .trace else none) then
        passed level m else return .returned) >>= f) =
          if letsThrough es then passed level m >>= f else f .returned := by
      rw [passes_letsThrough]
      split <;> rfl
    rw [← hnext]
    exact hmost
  · intro through t job level m f busy
    have hreply : Session.performAs t .loggerRegistered x.state =
        .reply x.state.loggerRegistered x.state := rfl
    have hasked := happens_ask busy hreply
    rw [hon through] at hasked
    exact hasked
  · intro level m ps xs outlet ys q takes
    have hrecord : Log.record level m =
        Log.println (Message.ofPieces (Session.headerPieces level) ++ m) := rfl
    rw [hrecord, Log.reaches_println_iff takes, Log.reaches_println_iff takes]
  · intro t c level m b free owns prints utters
    have hline : ∀ ps, ps.flatMap x.state.spell = header level →
        ∃ s', Session.Logs t c (Log.line (Message.ofPieces ps ++ m)) x.state
          (header level ++ b ++ x.state.lineEnd.bytes) s' := by
      intro ps hps
      rw [← hps, Session.spell_eq]
      exact Session.logs_line free owns prints ((Session.Utters.ofPieces ps).append utters)
    refine ⟨?_, hline⟩
    rw [levelHeader_eq]
    apply hline
    rw [Session.spell_eq]
    exact spell_headerPieces level _

def askingParts : List Part :=
  [.text (Bytes.ofString "u"), .run [.call (.enabled .debug)], .text (Bytes.ofString "p")]

theorem utters_askingParts (t : ThreadId) (c : Channel) (lineEnd : LineEnd) (me : Token) :
    Session.Utters t c lineEnd me (Part.message askingParts) (Bytes.ofString "up") := by
  have hsteps : ∀ step ∈ [(Step.call (.enabled .debug), ([] : Bytes))], ∀ s,
      Session.Midst t c lineEnd me s →
        ∃ s' answer, Session.Speaks t c (Session.Held me) step.1.task s step.2 answer s' ∧
          answer ≠ some .panic ∧ Session.Midst t c lineEnd me s' := by
    intro step hmem s midst
    rw [List.mem_singleton.mp hmem]
    exact ⟨s, some (.flag true), .done, nofun, midst⟩
  have htext (b : Bytes) : Session.Utters t c lineEnd me [.piece (.text b)] (b ++ []) :=
    .ofPieces [.text b]
  exact (htext (Bytes.ofString "u")).append ((Session.Utters.run hsteps).append (htext _))

/-- The log is registered in the middle of a print, and once more in vain. -/
theorem registered_in_a_message :
    ∃ (es : List Event) (x : Crowd) (s' : Session),
      Run (Session.start ⟨.hosted, .lf, false⟩ (fun _ => none) .empty) es x ∧
      successes es = 1 ∧
      (Log.logRecord .info (Part.message askingParts)).run (Session.perform (.lasting 1)) x.state =
        .finished .returned s' ∧
      s'.HasText .standardOut (Bytes.ofString "xy[INFO] up\n") := by
  obtain ⟨es, x, run, hregistered, hthrough, htext, free, howner, prints, hlineEnd⟩ :
      ∃ (es : List Event) (x : Crowd),
        Run (Session.start ⟨.hosted, .lf, false⟩ (fun _ => none) .empty) es x ∧
          registered es = true ∧ letsThrough es = true ∧
          x.state.HasText .standardOut (Bytes.ofString "xy") ∧
          x.state.locks .log = CheckedMutex.unowned ∧
          x.state.tokenOf (.lasting 1) = 0x700000000010 ∧
          x.state.Prints (.lasting 1) .patient .standardOut ∧ x.state.lineEnd = .lf := by
    refine ⟨_, _, Crew.run_of_follow
      [(.lasting 0, some (.print [.text (Bytes.ofString "x"), .run [.call .registerLogger],
          .text (Bytes.ofString "y")])),
        (.lasting 0, none), (.lasting 0, none), (.lasting 0, none), (.lasting 0, none),
        (.lasting 1, some (.call .registerLogger)), (.lasting 1, none), (.lasting 0, none),
        (.lasting 0, none), (.lasting 0, none), (.lasting 0, none)] rfl, rfl, rfl, ?_, rfl, rfl, ?_,
      rfl⟩
    · exact ⟨_, rfl, rfl⟩
    · exact ⟨rfl, rfl, trivial⟩
  obtain ⟨-, hsuccesses, -, -, -, -, hfacade, -, -, -, hline⟩ := logger_is_off_or_the_log run
  have owns : x.state.tokenOf (.lasting 1) ≠ Token.noOwner := by
    rw [howner]
    decide
  obtain ⟨⟨s', logs⟩, -⟩ := hline (.lasting 1) .standardOut .info _ _ free owns prints
    (utters_askingParts _ _ _ _)
  have hrun := hfacade (.lasting 1) .info (Part.message askingParts)
  rw [hthrough, if_pos rfl] at hrun
  rw [hregistered] at hsuccesses
  have hsaid := logs.hasText _ htext
  rw [hlineEnd] at hsaid
  exact ⟨es, x, s', run, hsuccesses, hrun.trans logs.run_eq, hsaid⟩

end Logger

end DiagnosticLog
