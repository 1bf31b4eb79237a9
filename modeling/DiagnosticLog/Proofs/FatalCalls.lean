import DiagnosticLog.Proofs.Output.Unwinding

/-!
# Fatal calls end the run

The message of a fatal call may run any steps, and fatal calls among them.  The run ends with the
code of the innermost call, the one that comes to the end of its words; where a fragment of a
message cannot be formatted, a guest cuts the message short and ends all the same, but in a process
the call is unwound with its message and the run goes on.
-/

namespace DiagnosticLog

open Program (Reaches)

variable {α β : Type}

/-! ## The innermost call -/

namespace FinalCall

/-- These exchanges of a task are those up to the call and then its words, all of them, and in its
words no other such call has been reached.  After its words the call has found this console, if it
has found one. -/
def EndsIn (call : FinalCall) (console : Option ConsoleId) (task : Task α) (xs : List Talk) :
    Prop :=
  ∃ ys zs, ∃ f : Finish → Task α, xs = ys ++ (zs ++ [Request.currentConsole.talk console]) ∧
    Reaches task ys (call.task >>= f) ∧ Reaches call.words zs (.done .returned) ∧
    ∀ (inner : FinalCall) vs ws g, zs = vs ++ ws → ¬ Reaches call.words vs (inner.task >>= g)

variable {call : FinalCall} {console : Option ConsoleId} {p q : Task α} {xs ys : List Talk}

theorem EndsIn.later (h : call.EndsIn console q ys) (reaches : Reaches p xs q) :
    call.EndsIn console p (xs ++ ys) := by
  obtain ⟨ys, zs, f, rfl, hys, hwords⟩ := h
  exact ⟨xs ++ ys, zs, f, (List.append_assoc ..).symm, reaches.append hys, hwords⟩

theorem EndsIn.bind (h : call.EndsIn console p xs) (f : α → Task β) :
    call.EndsIn console (p >>= f) xs := by
  obtain ⟨ys, zs, g, hxs, hys, hwords⟩ := h
  have hbind := hys.bind_left f
  rw [Program.bind_assoc] at hbind
  exact ⟨ys, zs, _, hxs, hbind, hwords⟩

theorem EndsIn.found (h : call.EndsIn console p xs) : Request.currentConsole.talk console ∈ xs := by
  obtain ⟨ys, zs, -, rfl, -⟩ := h
  simp

theorem reaches_lineEndAndFlush_done {finish : Finish}
    (h : Reaches lineEndAndFlush xs (.done finish)) : finish = .returned := by
  obtain ⟨_, _, _, -, -, hflush⟩ := Program.reaches_bind_done h
  obtain ⟨_, _, _, -, -, hlast⟩ := Program.reaches_bind_done hflush
  cases hlast
  rfl

theorem isUnwinding_of_words (h : Reaches call.words xs (.done .unwound)) :
    ∃ talk ∈ xs, Talk.isUnwinding talk := by
  cases call with
  | exit code =>
      obtain ⟨_, _, _, -, -, hlast⟩ := Program.reaches_bind_done h
      cases hlast
  | exitWith code m =>
      obtain ⟨finish, ys, zs, rfl, hys, hzs⟩ := Program.reaches_bind_done h
      cases finish with
      | returned => cases reaches_lineEndAndFlush_done hzs
      | unwound =>
          cases hzs
          rcases reaches_printWith_done hys with
            ⟨-, hreturned⟩ | ⟨c, formatting, ws, vs, -, -, rfl⟩
          · cases hreturned
          · exact ⟨(Request.endPrint c formatting).talk .unwound, by simp, rfl⟩
  | misuse operation e =>
      cases h with
      | @cons _ _ token _ _ after =>
          cases after with
          | @cons _ _ address zs _ after =>
              have hprint : Reaches
                  (Log.printUrgent (Log.mutexFailureMessage token address operation e) >>=
                    fun _ => lineEndAndFlush) zs (.done .unwound) := after
              obtain ⟨_, _, _, -, -, hlast⟩ := Program.reaches_bind_done hprint
              cases reaches_lineEndAndFlush_done hlast
  | unopened e =>
      cases h with
      | cons after => cases after

theorem reaches_task_done {finish : Finish} (h : Reaches call.task xs (.done finish)) :
    finish = .unwound ∧ ∃ talk ∈ xs, Talk.isUnwinding talk := by
  obtain ⟨finish, ys, zs, rfl, hys, hzs⟩ := Program.reaches_bind_done h
  obtain ⟨rfl, rfl, rfl⟩ := reaches_close_done hzs
  rw [List.append_nil]
  exact ⟨rfl, isUnwinding_of_words hys⟩

theorem EndsIn.self (h : Reaches call.words xs (.done .returned))
    (quiet : ∀ talk ∈ xs, Talk.isUnwinding talk = false) (console : Option ConsoleId) :
    call.EndsIn console call.task (xs ++ [Request.currentConsole.talk console]) := by
  refine ⟨[], xs, .done, rfl, ?_, h, ?_⟩
  · rw [Program.bind_done]
    exact .nil
  -- a call in its words would have had to be unwound, for the words went on after it
  · rintro inner vs ws g rfl hinner
    obtain ⟨finish, us, us', rfl, hus, -⟩ := Program.reaches_bind_done (h.of_append hinner)
    obtain ⟨-, talk, htalk, hunwinding⟩ := reaches_task_done hus
    have hquiet := quiet talk (List.mem_append_right _ (List.mem_append_left _ htalk))
    rw [hquiet] at hunwinding
    cases hunwinding

end FinalCall

theorem Message.IsPlain.not_inside {m : Message} (plain : m.IsPlain) {p : Task α}
    {xs : List Talk} {d : Demand} : ¬ m.Inside p xs d := by
  rintro ⟨effect, _, _, _, _, hmem, -⟩
  exact plain.effect_not_mem effect hmem

theorem Request.OfBeginning.not_isStop {urgency : Urgency} {xs : List Talk} {r : Request}
    (asks : r.OfBeginning urgency xs) : r.isStop = false := by
  induction asks with
  | again rest ih => exact ih
  | _ => rfl

theorem Request.OfPrint.not_isStop {urgency : Urgency} {xs : List Talk} {r : Request}
    (own : r.OfPrint urgency xs) : r.isStop = false := by
  cases own with
  | first asks => exact asks.not_isStop
  | _ => rfl

/-- The request that ends the run is made by a call that has said its words. -/
theorem Composed.endsIn_of_stop {unwinds : α → Prop} {p : Task α} (h : Composed unwinds p)
    {P : Session → Prop} {xs : List Talk} (answered : Answered P xs) {d : Demand}
    {next : d.Reply → Task α} (reaches : Reaches p xs (.ask d next)) (stop : d.request.isStop) :
    ∃ (call : FinalCall) (console : Option ConsoleId), call.EndsIn console p xs ∧
      d = (Request.stop console call.code).demand := by
  -- the innermost call is found from the inside: in a task of a message first, then in the words
  -- of a call, and only when these are done it is the call itself
  induction h generalizing xs with
  | done _ => cases reaches
  | @request r _ plain goesOn _ =>
      cases reaches with
      | nil =>
          rw [goesOn] at stop
          cases stop
      | cons after => cases after
  | @print urgency m effects ih =>
      rcases reaches_printWith_ask reaches with ⟨r, own, rfl⟩ | inside
      · rw [own.not_isStop] at stop
        cases stop
      · obtain ⟨effect, ys, zs, next', f, hmem, rfl, hys, hzs⟩ := inside
        obtain ⟨call, console, ends, hd⟩ :=
          ih effect hmem (answered.mono (List.subset_append_right ..)) hzs
        exact ⟨call, console, (ends.bind f).later hys, hd⟩
  | @pieces urgency m plain =>
      rcases reaches_printWith_ask reaches with ⟨r, own, rfl⟩ | inside
      · rw [own.not_isStop] at stop
        cases stop
      · exact absurd inside plain.not_inside
  | choice =>
      rcases (reaches_tryOpenStream_iff.mp reaches).asks rfl with rfl | rfl | rfl <;> cases stop
  | registration =>
      rcases (reaches_registerLogger_iff.mp reaches).asks rfl with rfl | rfl <;> cases stop
  | @final call unwinds words returns ih =>
      rcases Program.reaches_bind_ask reaches with ⟨next', hask⟩ | ⟨finish, ys, zs, rfl, hys, hzs⟩
      · obtain ⟨inner, console, ends, hd⟩ := ih answered hask
        exact ⟨inner, console, ends.bind _, hd⟩
      · cases finish with
        | returned =>
            have hanswered := answered.mono (List.subset_append_left ..)
            have hquiet := (words.tells hanswered hys).quiet returns
            cases hzs with
            | nil => cases stop
            | @cons _ _ console _ _ after =>
                cases after with
                | nil => exact ⟨call, console, .self hys hquiet console, rfl⟩
                | @cons _ _ never _ _ _ => exact nomatch never
        | unwound => cases hzs
  | @bind α β p f unwinds unwinds' first rest unwinding unwound ihFirst ihRest ihUnwinding =>
      rcases Program.reaches_bind_ask reaches with ⟨next', hask⟩ | ⟨a, ys, zs, rfl, hys, hzs⟩
      · obtain ⟨call, console, ends, hd⟩ := ihFirst answered hask
        exact ⟨call, console, ends.bind _, hd⟩
      · have hsecond : ∃ (call : FinalCall) (console : Option ConsoleId),
            call.EndsIn console (f a) zs ∧ d = (Request.stop console call.code).demand := by
          have answered' := answered.mono (List.subset_append_right ys zs)
          by_cases ha : unwinds a
          · exact ihUnwinding a ha answered' hzs
          · exact ihRest a ha answered' hzs
        obtain ⟨call, console, ends, hd⟩ := hsecond
        exact ⟨call, console, ends.later (hys.bind_right _), hd⟩

/-! ## Last words -/

/-- Last words have found that no sink had been chosen, and go on like any other print or flush. -/
def FoundUnset (xs : List Talk) : Prop :=
  (Request.beginPrint .urgent).talk (.sink .unresolved) ∈ xs ∨ Talk.unset ∈ xs

theorem FoundUnset.mono {xs ys : List Talk} (found : FoundUnset xs) (h : xs ⊆ ys) :
    FoundUnset ys :=
  found.imp (h ·) (h ·)

theorem Request.IsUrgent.mono {way : WayOut} {late late' : Prop} {r : Request}
    (urgent : r.IsUrgent way late) (h : late → late') : r.IsUrgent way late' := by
  cases r with
  | takeChannel c => exact fun hc => h (urgent hc)
  | flush urgency c => exact urgent.imp_right h
  | _ => exact urgent

theorem Request.OfPrint.isUrgent {xs : List Talk} {r : Request} (own : r.OfPrint .urgent xs)
    (way : WayOut) : r.IsUrgent way (FoundUnset xs) := by
  cases own with
  | put | last => trivial
  | first asks =>
      cases asks with
      | first | attempt => trivial
      | take waits =>
          rintro rfl
          cases waits
      | divert => exact nofun
      | again rest =>
          have hunset {ys : List Talk} :
              FoundUnset ((Request.beginPrint .urgent).talk (.sink .unresolved) :: ys) :=
            .inl (List.mem_cons_self ..)
          cases rest with
          | first | attempt => trivial
          | take | divert => exact fun _ => hunset

section Ends

variable {way : WayOut} {xs : List Talk} {d : Demand}

theorem reaches_flushUrgent_ask {next : d.Reply → Task Unit} (way : WayOut)
    (h : Reaches Log.flushUrgent xs (.ask d next)) :
    ∃ r : Request, r.IsUrgent way (FoundUnset xs) ∧ d = r.demand := by
  cases h with
  | nil => exact ⟨.currentSink, trivial, rfl⟩
  | @cons _ _ sink _ _ after =>
      match sink with
      | none => cases after
      | some .standardOut | some .standardError | some (.file _) =>
          cases after with
          | nil => exact ⟨.flush .urgent _, Or.inl rfl, rfl⟩
          | cons after => cases after
      | some .unresolved =>
          have hunset {ys : List Talk} : FoundUnset (Talk.unset :: ys) :=
            .inr (List.mem_cons_self ..)
          have hflush : Reaches Log.flush _ _ := after
          cases hflush with
          | nil => exact ⟨.currentSink, trivial, rfl⟩
          | @cons _ _ sink _ _ after =>
              cases sink with
              | none => cases after
              | some sink =>
                  cases after with
                  | nil => exact ⟨.flush .patient _, Or.inr hunset, rfl⟩
                  | cons after => cases after

theorem reaches_exit_ask {code : Int32} (given : Given way xs) {next : d.Reply → Task α}
    (h : Reaches (Log.exit code) xs (.ask d next)) :
    ∃ r : Request, r.IsUrgent way (FoundUnset xs) ∧ d = r.demand := by
  rcases Program.reaches_bind_ask h with ⟨next', hask⟩ | ⟨_, ys, zs, rfl, hys, hzs⟩
  · exact reaches_flushUrgent_ask way hask
  · cases hzs with
    | nil => exact ⟨.currentConsole, trivial, rfl⟩
    | @cons _ _ console _ _ after =>
        cases after with
        | nil =>
            obtain ⟨t, s, s', out, reply⟩ :=
              given ⟨Request.currentConsole.demand, console⟩ (by simp)
            exact ⟨.stop console code, Session.console_of_reply out reply, rfl⟩
        | @cons _ _ never _ _ _ => exact nomatch never

end Ends

section ExitWith

variable {code : Int32} {m : Message} {way : WayOut} {xs : List Talk}

theorem reaches_exitWith_ask (given : Given way xs) {d : Demand} {next : d.Reply → Task Finish}
    (h : Reaches (Log.exitWith code m) xs (.ask d next)) :
    (∃ r : Request, r.IsUrgent way (FoundUnset xs) ∧ d = r.demand) ∨
      m.Inside (Log.exitWith code m) xs d := by
  rcases Program.reaches_bind_ask h with ⟨next', hask⟩ | ⟨finish, ys, zs, rfl, hys, hzs⟩
  · rcases reaches_printWith_ask hask with ⟨r, own, hd⟩ | inside
    · exact .inl ⟨r, own.isUrgent way, hd⟩
    · exact .inr (inside.bind _)
  · left
    have hlate {vs : List Talk} (hvs : vs ⊆ zs) {r : Request}
        (urgent : r.IsUrgent way (FoundUnset vs)) : r.IsUrgent way (FoundUnset (ys ++ zs)) :=
      urgent.mono fun found => found.mono (List.subset_append_of_subset_right _ hvs)
    cases finish with
    | returned =>
        rcases Program.reaches_bind_ask hzs with ⟨next', hask⟩ | ⟨_, vs, ws, rfl, hvs, hws⟩
        · rcases reaches_printWith_ask hask with ⟨r, own, hd⟩ | inside
          · exact ⟨r, hlate (List.Subset.refl _) (own.isUrgent way), hd⟩
          · exact absurd inside (Message.isPlain_ofPieces [.lineEnd]).not_inside
        · have given' : Given way ws :=
            given.answered.mono (List.subset_append_of_subset_right _ (List.subset_append_right ..))
          obtain ⟨r, urgent, hd⟩ := reaches_exit_ask given' hws
          exact ⟨r, hlate (List.subset_append_right ..) urgent, hd⟩
    | unwound => cases hzs

theorem reaches_exitWith_done {finish : Finish}
    (h : Reaches (Log.exitWith code m) xs (.done finish)) : finish = .unwound := by
  rw [FinalCall.exitWith_eq] at h
  exact (FinalCall.reaches_task_done h).1

end ExitWith

/-! ## What becomes of a fatal call -/

/-- The code and the message of a step that is a fatal call with a message. -/
def Step.fatal? : Step → Option (Int32 × Message)
  | .exitWith code parts => some (code, Part.message parts)
  | .assertion false text file line =>
      some (Config.assertionFailureCode,
        Log.assertionMessage (Part.message text) (Part.message file) line)
  | .call (.foreign (.assertion condition text file line)) =>
      if Log.Foreign.truth condition then none
      else
        some (Config.assertionFailureCode,
          Log.assertionMessage (Message.ofPieces (Piece.shown (Log.Foreign.shownBytes text)))
            (Message.ofPieces (Piece.shown (Log.Foreign.shownBytes file))) line)
  | _ => none

theorem Step.task_of_fatal {step : Step} {code : Int32} {m : Message}
    (fatal : step.fatal? = some (code, m)) :
    step.task = (do return Answer.ofFinish (← Log.exitWith code m)) := by
  unfold Step.fatal? at fatal
  split at fatal
  · cases fatal
    rw [Step.task]
  · cases fatal
    rw [Step.task]
    rfl
  · split at fatal
    · cases fatal
    · rename_i condition text file line hfalse
      cases fatal
      rw [Step.task, Call.task, ForeignCall.task, Log.Foreign.assertCondition, if_neg hfalse]
      rfl
  · cases fatal

/-- What becomes of a fatal call with message `m` when its thread goes on with it until the call is
over or has to wait; `xs` is what was said in it until then. -/
inductive Fate (way : WayOut) (t : ThreadId) (task : Task (Option Answer)) (m : Message)
    (xs : List Talk) : Outcome Request.interface Session Ending (Option Answer) → Prop where
  /-- It ends the run, with the code of the innermost call. -/
  | ends {call : FinalCall} {s : Session} (innermost : call.EndsIn way.console? task xs) :
      Fate way t task m xs (.ended (way.ending call.code) s)
  /-- A step in the middle of the message has to wait. -/
  | waitsInside {d : Demand} {next : d.Reply → Task (Option Answer)} {s : Session}
      (inside : m.Inside task xs d) : Fate way t task m xs (.waiting (.ask d next) s)
  /-- Its last words have to wait for another thread that is printing to the channel they need. That
  is the log file only if they found before that no sink had been chosen. -/
  | waitsOutside {d : Demand} {next : d.Reply → Task (Option Answer)} {s : Session} {c : Channel}
      (needs : d.request.Needs c) (hinders : s.Hinders t c) (late : c = .file → FoundUnset xs) :
      Fate way t task m xs (.waiting (.ask d next) s)
  /-- A fragment could not be formatted in a process. -/
  | unwinds {c : Channel} {s : Session} (process : way = .process)
      (fault : (Request.endPrint c .fault).talk .unwound ∈ xs) :
      Fate way t task m xs (.finished (some .panic) s)

section Fates

variable {step : Step} {code : Int32} {m : Message} {way : WayOut} {xs : List Talk}

theorem Step.fate_of_done (fatal : step.fatal? = some (code, m)) (solo : step.isSolo)
    (given : Given way xs) {answer : Option Answer} (reaches : Reaches step.task xs (.done answer))
    (t : ThreadId) (s : Session) : Fate way t step.task m xs (.finished answer s) := by
  have hpanic : answer = some .panic := by
    rw [Step.task_of_fatal fatal] at reaches
    obtain ⟨finish, ys, zs, rfl, hys, hzs⟩ := Program.reaches_bind_done reaches
    cases hzs
    rw [reaches_exitWith_done hys]
    rfl
  subst hpanic
  obtain ⟨c, fault⟩ := ((step.composed solo).tells given.answered reaches).fault rfl
  exact .unwinds (given.process_of_fault fault) fault

theorem Step.fate_of_wait (fatal : step.fatal? = some (code, m)) (given : Given way xs) {d : Demand}
    {next : d.Reply → Task (Option Answer)} (reaches : Reaches step.task xs (.ask d next))
    {t : ThreadId} {s : Session} (out : s.wayOut = some way)
    (wait : Session.perform t d s = .wait) :
    Fate way t step.task m xs (.waiting (.ask d next) s) := by
  rw [Step.task_of_fatal fatal] at reaches ⊢
  rcases Program.reaches_bind_ask reaches with ⟨next', hask⟩ | ⟨finish, ys, zs, rfl, hys, hzs⟩
  · rcases reaches_exitWith_ask given hask with ⟨r, urgent, rfl⟩ | inside
    · obtain ⟨c, needs, hinders, late⟩ := Session.hinders_of_wait urgent out wait
      exact .waitsOutside needs hinders late
    · exact .waitsInside (inside.bind _)
  · cases hzs

theorem Step.fate_of_stop (solo : step.isSolo) (given : Given way xs) {d : Demand}
    {next : d.Reply → Task (Option Answer)} (reaches : Reaches step.task xs (.ask d next))
    {t : ThreadId} {s s' : Session} {e : Ending} (out : s.wayOut = some way)
    (stop : Session.perform t d s = .stop e s') : Fate way t step.task m xs (.ended e s') := by
  obtain ⟨caller, r⟩ := d
  obtain ⟨console, code, rfl⟩ := Session.request_of_stop stop
  obtain ⟨call, found, innermost, hd⟩ :=
    (step.composed solo).endsIn_of_stop given.answered reaches rfl
  cases hd
  obtain ⟨u, s₁, s₁', out', reply⟩ := given _ innermost.found
  obtain rfl := Session.console_of_reply out' reply
  rw [Session.ending_of_stop out rfl stop]
  exact .ends innermost

/-- Wherever a fatal call has come to, whatever other threads did meanwhile, it goes on to end the
run with the code of the innermost call, unless it waits or is unwound, and it is unwound in a
process only.  It never returns. -/
theorem fatal_call_ends_the_run (fatal : step.fatal? = some (code, m)) (solo : step.isSolo)
    (given : Given way xs) {q : Task (Option Answer)} (reaches : Reaches step.task xs q)
    {s : Session} (out : s.wayOut = some way) (t : ThreadId) :
    ∃ ys, Given way (xs ++ ys) ∧
      Fate way t step.task m (xs ++ ys) (q.run (Session.perform t) s) := by
  induction q generalizing xs s with
  | done answer =>
      have fate := step.fate_of_done fatal solo given reaches t s
      exact ⟨[], by rwa [List.append_nil], by rwa [List.append_nil]⟩
  | ask d next ih =>
      cases hd : Session.perform t d s with
      | reply answer s' =>
          have hgiven : Given way (xs ++ [⟨d, answer⟩]) := by
            refine given.answered.append fun talk htalk => ?_
            rw [List.mem_singleton.mp htalk]
            exact ⟨_, s, s', out, hd⟩
          obtain ⟨ys, hys, fate⟩ :=
            ih answer hgiven (reaches.snoc answer) (Session.wayOut_of_reply out hd)
          rw [Program.run_ask_of_reply hd]
          rw [List.append_assoc] at hys fate
          exact ⟨_, hys, fate⟩
      | wait =>
          have fate := Step.fate_of_wait fatal given reaches out hd
          rw [Program.run_ask_of_wait hd]
          exact ⟨[], by rwa [List.append_nil], by rwa [List.append_nil]⟩
      | stop e s' =>
          have fate : Fate way t step.task m xs (.ended e s') :=
            step.fate_of_stop solo given reaches out hd
          rw [Program.run_ask_of_stop hd]
          exact ⟨[], by rwa [List.append_nil], by rwa [List.append_nil]⟩

end Fates

/-! ## A call in the message of another -/

def nestedParts (last : List Part) : List Part :=
  [.text (Bytes.ofString "a"), .run [.exitWith 300 (.text (Bytes.ofString "b") :: last)]]

namespace Session

def newProcess : Session :=
  start ⟨.hosted, .lf, false⟩ (fun _ => none) .empty

def newGuest (id : ConsoleId) : Session :=
  ((Log.installConsole id).run (perform (.lasting 0))
    (start ⟨.guest, .lf, false⟩ (fun _ => none) .empty)).state

end Session

open Session Step in
/-- The inner call ends the run, in a guest even if its own message cannot be formatted. -/
theorem nested_fatal_call_ends_the_run :
    (∃ xs s, (exitWith 3 (nestedParts [])).task.run (perform (.lasting 0)) newProcess =
        .ended (.exit 44) s ∧
      Fate .process (.lasting 0) (exitWith 3 (nestedParts [])).task
        (Part.message (nestedParts [])) xs (.ended (.exit 44) s)) ∧
    ∃ xs s, (exitWith 3 (nestedParts [.fail])).task.run (perform (.lasting 0)) (newGuest 1) =
        .ended (.halt 1 300) s ∧
      Fate (.console 1) (.lasting 0) (exitWith 3 (nestedParts [.fail])).task
        (Part.message (nestedParts [.fail])) xs (.ended (.halt 1 300) s) := by
  have fatal (parts : List Part) : (exitWith 3 parts).fatal? = some (3, Part.message parts) := rfl
  have given (way : WayOut) : Given way [] := nofun
  obtain ⟨xs, -, fate⟩ := fatal_call_ends_the_run (fatal (nestedParts [])) rfl
    (given .process) .nil (s := newProcess) rfl (.lasting 0)
  obtain ⟨ys, -, fate'⟩ := fatal_call_ends_the_run (fatal (nestedParts [.fail])) rfl
    (given (.console 1)) .nil (s := newGuest 1) rfl (.lasting 0)
  exact ⟨⟨xs, _, rfl, fate⟩, ys, _, rfl, fate'⟩

open Session in
/-- A process goes on when the message of a fatal call cannot be formatted. -/
theorem fatal_call_is_unwound_by_its_message :
    ∃ s, (Step.exitWith 3 [.text (Bytes.ofString "a"), .fail]).task.run (perform (.lasting 0))
      newProcess = .finished (some .panic) s :=
  ⟨_, rfl⟩

end DiagnosticLog
