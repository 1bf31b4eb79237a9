import DiagnosticLog.Log.Lock
import DiagnosticLog.Log.Setup
import DiagnosticLog.Proofs.Mutex.Stage
import DiagnosticLog.Proofs.Session.Printing

/-!
# Last words of a process

A fatal call logs one line and ends the process.  It neither takes the log lock nor waits for the
writer of a log file, so what becomes of the line depends on whether a print to the file is under
way: if none is, the line follows all that was logged before, and if one is, the caller's own or
that of another thread, the line goes to standard error and the file keeps what it has.

The call is taken whole here.  Where prints of other threads begin and end in the middle of it, its
message, the end of its line and its flush fare each in their own way (`Output.Interrupted`).
-/

namespace DiagnosticLog

/-- A call that ends the process, with a message of pieces if it takes one. -/
inductive FatalCall where
  | assertion (text file : List Piece) (line : Int32)
  | exitWith (code : Int32) (message : List Piece)
  | exit (code : Int32)
  | lock
  | unlock

namespace FatalCall

def task : FatalCall → Task Unit
  | assertion text file line => do
      let _ ← Log.assertCondition false (Message.ofPieces text) (Message.ofPieces file) line
  | exitWith code message => do
      let _ ← Log.exitWith code (Message.ofPieces message)
  | exit code => Log.exit code
  | lock => Log.lock
  | unlock => Log.unlock

def code : FatalCall → Int32
  | assertion _ _ _ => Config.assertionFailureCode
  | exitWith code _ => code
  | exit code => code
  | lock => Config.mutexFailureCode
  | unlock => Config.mutexFailureCode

/-- What makes the call fatal: the lock is taken by its owner, or released by a thread that is
not. -/
def Misused (s : Session) (t : ThreadId) : FatalCall → Prop
  | lock => s.tokenOf t ≠ Token.anonymous ∧ (s.locks .log).owner = s.tokenOf t
  | unlock =>
      (s.locks .log).raw.flag = false ∨
        CheckedMutex.Stage.Foreign (s.tokenOf t) (s.locks .log).owner
  | _ => True

/-- What the misuse of the log lock by thread `t` is called. -/
def misuseText (s : Session) (t : ThreadId) (operation : String) (e : MutexError) : Bytes :=
  Bytes.ofString "Thread " ++ Bytes.ofChars (Numeral.shortWord (s.tokenOf t)) ++
    Bytes.ofString " could not " ++ Bytes.ofString operation ++ Bytes.ofString " mutex " ++
    Bytes.ofChars (Numeral.shortWord s.lockAddress) ++ Bytes.ofString ": " ++
    Bytes.ofString e.message

/-- The last words of thread `t`: the message of the call and a line end, or nothing. -/
def words (s : Session) (t : ThreadId) : FatalCall → Bytes
  | assertion text file line =>
      Bytes.ofString "log_assert " ++ file.flatMap s.spell ++ Bytes.ofString "[" ++
        Bytes.ofChars (Numeral.integer line.toInt) ++ Bytes.ofString "]: " ++
        text.flatMap s.spell ++ s.lineEnd.bytes
  | exitWith _ message => message.flatMap s.spell ++ s.lineEnd.bytes
  | exit _ => []
  | lock => misuseText s t "lock" .deadlock ++ s.lineEnd.bytes
  | unlock => misuseText s t "unlock" .notOwner ++ s.lineEnd.bytes

end FatalCall

namespace Hosted

def FileInUse (h : Hosted) : Prop :=
  h.channel = .file ∧ h.users.file ≠ []

instance (h : Hosted) : Decidable h.FileInUse :=
  inferInstanceAs (Decidable (_ ∧ _))

/-- Everything that was given to a channel has been delivered, and it is this text. -/
def Holds (h : Hosted) (c : Channel) (text : Bytes) : Prop :=
  h.Delivered c text ∧ h.kept c = []

/-- A fatal call of thread `t` has to wait: another thread prints to the standard stream that the
call needs. -/
def Delays (h : Hosted) (t : ThreadId) : FatalCall → Prop
  | .exit _ => h.channel ≠ .file ∧ h.busy t h.channel = true
  | _ => h.busy t (h.destination t .urgent) = true

theorem HasText.holds {h : Hosted} {c : Channel} {text : Bytes} (ht : h.HasText c text)
    (hkept : h.kept c = []) : h.Holds c text := by
  obtain ⟨sent, hsent, rfl⟩ := ht
  rw [hkept, List.append_nil]
  exact ⟨hsent, hkept⟩

/-! ## The end of a process -/

section Ending

variable {h : Hosted} {t : ThreadId}

theorem HasText.close {c : Channel} {text : Bytes} (ht : h.HasText c text)
    (last : Option ThreadId) : (h.close last).HasText c text := by
  unfold Hosted.close
  split
  · exact ht.flushOut
  · exact ht

theorem kept_close {c : Channel} (hkept : h.kept c = []) (last : Option ThreadId) :
    (h.close last).kept c = [] := by
  unfold Hosted.close
  split
  · cases c <;> first | rfl | exact hkept
  · exact hkept

theorem kept_out_close (alone : ∀ user ∈ h.users.out, user = t) :
    (h.close (some t)).out.kept = [] := by
  have hall : (h.users.out.all fun user => some user = some t) = true := by
    simpa using alone
  unfold Hosted.close
  rw [if_pos hall]
  rfl

/-- What a process holds when thread `t` has flushed the log and ended it. -/
def finish (h : Hosted) (t : ThreadId) : Hosted :=
  (if h.FileInUse then h else h.push h.channel).close (some t)

theorem flush_urgent (free : h.channel = .file ∨ h.busy t h.channel = false) :
    h.flush t .urgent h.channel = some (if h.FileInUse then h else h.push h.channel) := by
  unfold flush
  cases hbusy : h.busy t h.channel with
  | true =>
      have hfile : h.channel = .file := by
        rcases free with hfile | hfree
        · exact hfile
        · rw [hfree] at hbusy
          cases hbusy
      have huse : h.FileInUse := by
        refine ⟨hfile, ?_⟩
        simpa [busy, hfile] using hbusy
      simp [Urgency.passesBy, hfile, huse]
  | false =>
      have huse : ¬ h.FileInUse := by
        rintro ⟨hfile, husers⟩
        simp [busy, hfile, husers] at hbusy
      simp [huse]

theorem flush_delayed {urgency : Urgency} (hchannel : h.channel ≠ .file)
    (hbusy : h.busy t h.channel = true) : h.flush t urgency h.channel = none := by
  simp [flush, hbusy, Urgency.passesBy, hchannel]

theorem destination_of_fileInUse (huse : h.FileInUse) :
    h.destination t .urgent = .standardError := by
  obtain ⟨hfile, husers⟩ := huse
  simp [destination, busy, Urgency.passesBy, hfile, husers]

theorem destination_of_not_fileInUse (huse : ¬ h.FileInUse) :
    h.destination t .urgent = h.channel := by
  by_cases hfile : h.channel = .file
  · have husers : h.users.file = [] :=
      Decidable.byContradiction fun hne => huse ⟨hfile, hne⟩
    simp [destination, busy, hfile, husers]
  · simp [destination, Urgency.passesBy, hfile]

end Ending

/-! ## The pieces of a message -/

def puts (h : Hosted) (c : Channel) (xs : List Bytes) : Hosted :=
  xs.foldl (fun h x => (h.put c x).2) h

theorem puts_users (h : Hosted) (c : Channel) (xs : List Bytes) :
    (h.puts c xs).users = h.users := by
  induction xs generalizing h with
  | nil => rfl
  | cons x rest ih => exact (ih (h.put c x).2).trans (h.put_users c x)

theorem puts_channel (h : Hosted) (c : Channel) (xs : List Bytes) :
    (h.puts c xs).channel = h.channel := by
  induction xs generalizing h with
  | nil => rfl
  | cons x rest ih => exact (ih (h.put c x).2).trans (congrArg Sink.channel (h.sink_put c x))

theorem puts_standardError (h : Hosted) (xs : List Bytes) :
    h.puts .standardError xs = { h with err := h.err.add xs.flatten } := by
  induction xs generalizing h with
  | nil => rfl
  | cons x rest ih =>
      show Hosted.puts { h with err := h.err.add x } .standardError rest = _
      rw [ih, List.flatten_cons]
      simp only [Transcript.add_add]

theorem takes_puts {h : Hosted} {c d : Channel} (takes : h.Takes c) (xs : List Bytes) :
    (h.puts d xs).Takes c := by
  induction xs generalizing h with
  | nil => exact takes
  | cons x rest ih => exact ih (takes_put takes d x)

theorem HasText.puts {h : Hosted} {c d : Channel} {text : Bytes} (ht : h.HasText c text)
    (takes : h.Takes d) (xs : List Bytes) :
    (h.puts d xs).HasText c (if c = d then text ++ xs.flatten else text) := by
  induction xs generalizing h text with
  | nil =>
      rw [List.flatten_nil, List.append_nil, ite_self]
      exact ht
  | cons x rest ih =>
      by_cases hc : c = d
      · subst hc
        have hrest := ih (ht.put_self takes x) (takes_put takes c x)
        rw [if_pos rfl, List.append_assoc] at hrest
        rw [if_pos rfl, List.flatten_cons]
        exact hrest
      · have hrest := ih (ht.put_other hc x) (takes_put takes d x)
        rw [if_neg hc] at hrest ⊢
        exact hrest

/-- The log is not written to the file at a location. -/
def Elsewhere (h : Hosted) (location : Location) : Prop :=
  ∀ path w, h.stream = some (.file path w) → w.target ≠ .regular location

theorem Elsewhere.put {h : Hosted} {location : Location} (he : h.Elsewhere location)
    (c : Channel) (x : Bytes) :
    (h.put c x).2.Elsewhere location ∧ (h.put c x).2.tree.text location = h.tree.text location := by
  cases c with
  | file =>
      cases hstream : h.stream with
      | none =>
          have hput : (h.put .file x).2 = h := by simp only [Hosted.put, hstream]
          rw [hput]
          exact ⟨he, rfl⟩
      | some stream =>
          cases stream with
          | file path w =>
              have hne := he path w hstream
              simp only [Hosted.put, hstream]
              refine ⟨?_, FileTree.text_deliver_of_ne h.tree hne _⟩
              intro path' w' heq
              simp only [Option.some.injEq, Stream.file.injEq] at heq
              rw [← heq.2]
              exact hne
          | _ =>
              have hput : (h.put .file x).2 = h := by simp only [Hosted.put, hstream]
              rw [hput]
              exact ⟨he, rfl⟩
  | _ => exact ⟨he, rfl⟩

theorem Elsewhere.puts {h : Hosted} {location : Location} (he : h.Elsewhere location)
    (c : Channel) (xs : List Bytes) :
    (h.puts c xs).Elsewhere location ∧ (h.puts c xs).tree.text location = h.tree.text location := by
  induction xs generalizing h with
  | nil => exact ⟨he, rfl⟩
  | cons x rest ih =>
      have hput := he.put c x
      have hrest := ih hput.1
      exact ⟨hrest.1, hrest.2.trans hput.2⟩

theorem Elsewhere.text_finish {h : Hosted} {location : Location} (he : h.Elsewhere location)
    (t : ThreadId) : (h.finish t).tree.text location = h.tree.text location := by
  have hpush : (h.push h.channel).tree.text location = h.tree.text location := by
    unfold push
    split
    · rfl
    · rfl
    · split
      · rename_i path w hstream
        exact FileTree.text_deliver_of_ne h.tree (he path w hstream) _
      · rfl
    · rfl
  unfold finish close
  split <;> split <;> first | rfl | exact hpush

theorem HasText.finish {h : Hosted} {c : Channel} {text : Bytes} (ht : h.HasText c text)
    (t : ThreadId) : (h.finish t).HasText c text := by
  unfold Hosted.finish
  split
  · exact ht.close (some t)
  · exact (ht.push h.channel).close (some t)

theorem kept_finish {h : Hosted} (takes : h.Takes h.channel) (huse : ¬ h.FileInUse)
    (t : ThreadId) : (h.finish t).kept h.channel = [] := by
  unfold finish
  rw [if_neg huse]
  exact kept_close (kept_push takes) (some t)

theorem kept_out_finish {h : Hosted} {t : ThreadId} (alone : ∀ user ∈ h.users.out, user = t) :
    (h.finish t).out.kept = [] := by
  unfold finish
  split
  · exact kept_out_close alone
  · apply kept_out_close
    rw [users_push]
    exact alone

theorem close_files (h : Hosted) (last : Option ThreadId) :
    (h.close last).err = h.err ∧ (h.close last).tree = h.tree ∧
      (h.close last).stream = h.stream := by
  unfold close
  split <;> exact ⟨rfl, rfl, rfl⟩

end Hosted

/-! ## Fatal calls -/

section FatalCalls

open Session

variable {s : Session} {t : ThreadId} {h : Hosted} {α : Type}

theorem Session.putAll_hosted (hs : s.platform = .hosted h) (c : Channel) (ps : List Piece) :
    s.putAll c ps = { s with platform := .hosted (h.puts c (ps.map s.spell)) } := by
  induction ps generalizing s h with
  | nil =>
      show s = { s with platform := .hosted h }
      rw [← hs]
  | cons piece rest ih =>
      have hput : s.put c piece = { s with platform := .hosted (h.put c (s.spell piece)).2 } := by
        simp only [put, hs]
      have hspell : (s.put c piece).spell = s.spell := (alike_put s c piece).spell
      show (s.put c piece).putAll c rest = _
      rw [ih (h := (h.put c (s.spell piece)).2) (by rw [hput]), hspell, hput]
      rfl

theorem run_stop (hs : s.platform = .hosted h) (t : ThreadId) (code : Int32) :
    (Log.stop code : Task α).run (perform t) s =
      .ended (.exit (exitStatus code)) { s with platform := .hosted (h.close (some t)) } := by
  have hconsole : perform t Request.currentConsole.demand s = .reply none s := by
    simp only [perform_demand, performAs, hs]
  have hstop : perform t (Request.stop none code).demand s =
      .stop (.exit (exitStatus code)) { s with platform := .hosted (h.close (some t)) } := by
    simp only [perform_demand, performAs, hs]
  rw [Log.stop, Request.make_bind, Program.run_ask_of_reply hconsole, Request.make_bind]
  exact Program.run_ask_of_stop hstop _

theorem channel_of_unresolved (unresolved : h.sink.isResolved = false) :
    h.channel = .standardOut := by
  rw [Hosted.channel, Sink.eq_unresolved unresolved]
  rfl

theorem not_fileInUse_of_unresolved (unresolved : h.sink.isResolved = false) : ¬ h.FileInUse := by
  rintro ⟨hfile, -⟩
  rw [channel_of_unresolved unresolved] at hfile
  cases hfile

theorem run_flushUrgent (hs : s.platform = .hosted h)
    (free : h.channel = .file ∨ h.busy t h.channel = false) :
    Log.flushUrgent.run (perform t) s = .finished ()
      { s with platform := .hosted (if h.FileInUse then h else h.push h.channel) } := by
  unfold Log.flushUrgent Log.currentSink
  rw [Request.make_bind, Program.run_ask_of_reply (reply_currentSink hs t)]
  simp only
  split
  · have hflush : perform t (Request.flush .urgent h.channel).demand s = .reply ()
        { s with platform := .hosted (if h.FileInUse then h else h.push h.channel) } := by
      simp only [perform_demand, performAs, hs, Hosted.flush_urgent free]
    exact Program.run_ask_of_reply hflush _
  · rename_i hresolved
    have unresolved : h.sink.isResolved = false := Bool.eq_false_iff.mpr hresolved
    have hfree : h.busy t h.channel = false := by
      rcases free with hfile | hfree
      · rw [channel_of_unresolved unresolved] at hfile
        cases hfile
      · exact hfree
    have hflush : perform t (Request.flush .patient h.channel).demand s = .reply ()
        { s with platform := .hosted (h.push h.channel) } := by
      simp [perform_demand, performAs, hs, Hosted.flush, hfree]
    rw [if_neg (not_fileInUse_of_unresolved unresolved)]
    unfold Log.flush Log.currentSink
    rw [Request.make_bind, Program.run_ask_of_reply (reply_currentSink hs t)]
    exact Program.run_ask_of_reply hflush _

theorem run_flushUrgent_delayed (hs : s.platform = .hosted h) (hchannel : h.channel ≠ .file)
    (hbusy : h.busy t h.channel = true) :
    ∃ rest, Log.flushUrgent.run (perform t) s = .waiting rest s := by
  have hflush (urgency : Urgency) :
      perform t (Request.flush urgency h.channel).demand s = .wait := by
    simp only [perform_demand, performAs, hs, Hosted.flush_delayed hchannel hbusy]
  unfold Log.flushUrgent Log.currentSink
  rw [Request.make_bind, Program.run_ask_of_reply (reply_currentSink hs t)]
  simp only
  split
  · exact ⟨_, Program.run_ask_of_wait (hflush .urgent) _⟩
  · unfold Log.flush Log.currentSink
    rw [Request.make_bind, Program.run_ask_of_reply (reply_currentSink hs t)]
    exact ⟨_, Program.run_ask_of_wait (hflush .patient) _⟩

theorem run_exit (hs : s.platform = .hosted h)
    (free : h.channel = .file ∨ h.busy t h.channel = false) (code : Int32) :
    (Log.exit code : Task α).run (perform t) s =
      .ended (.exit (exitStatus code)) { s with platform := .hosted (h.finish t) } := by
  rw [Log.exit, Program.run_bind_of_finished (run_flushUrgent hs free), run_stop rfl]
  rfl

theorem run_exit_delayed (hs : s.platform = .hosted h) (hchannel : h.channel ≠ .file)
    (hbusy : h.busy t h.channel = true) (code : Int32) :
    ∃ rest, (Log.exit code : Task α).run (perform t) s = .waiting rest s := by
  obtain ⟨rest, hrest⟩ := run_flushUrgent_delayed (t := t) hs hchannel hbusy
  exact ⟨_, Program.run_bind_of_waiting hrest _⟩

theorem free_of_prints {d : Channel} (hs : s.platform = .hosted h)
    (prints : s.Prints t .urgent d) : h.channel = .file ∨ h.busy t h.channel = false := by
  simp only [Prints, hs] at prints
  obtain ⟨hdestination, hfree, -⟩ := prints
  by_cases hfile : h.channel = .file
  · exact .inl hfile
  · have hchannel : h.channel = d := by
      rw [← hdestination]
      exact (Hosted.destination_of_not_fileInUse fun huse => hfile huse.1).symm
    rw [hchannel]
    exact .inr hfree

theorem run_printUrgent {d : Channel} (hs : s.platform = .hosted h)
    (prints : s.Prints t .urgent d) (ps : List Piece) :
    (Log.printUrgent (Message.ofPieces ps)).run (perform t) s =
      .finished .returned { s with platform := .hosted (h.puts d (ps.map s.spell)) } := by
  have hspeaks := speaks_printWith (P := fun _ => True) prints (fun _ _ => trivial) ps
  rw [putAll_hosted hs] at hspeaks
  exact hspeaks.run_eq

theorem run_endLineAndExit {d : Channel} (hs : s.platform = .hosted h)
    (prints : s.Prints t .urgent d) (code : Int32) :
    (Log.endLineAndExit code : Task α).run (perform t) s =
      .ended (.exit (exitStatus code))
        { s with platform := .hosted ((h.puts d [s.lineEnd.bytes]).finish t) } := by
  have hprint : (Log.printUrgent Message.lineEnd).run (perform t) s = _ :=
    run_printUrgent hs prints [.lineEnd]
  have hsaid := prints.putAll d [.lineEnd]
  rw [putAll_hosted hs] at hsaid
  unfold Log.endLineAndExit
  rw [Program.run_bind, hprint]
  exact run_exit rfl (free_of_prints rfl hsaid) code

theorem run_line {d : Channel} (hs : s.platform = .hosted h) (prints : s.Prints t .urgent d)
    (ps : List Piece) {code : Int32} {k : Finish → Task α}
    (hk : k .returned = Log.endLineAndExit code) :
    (Log.printUrgent (Message.ofPieces ps) >>= k).run (perform t) s =
      .ended (.exit (exitStatus code))
        { s with
          platform := .hosted ((h.puts d (ps.map s.spell ++ [s.lineEnd.bytes])).finish t) } := by
  have hsaid := prints.putAll d ps
  rw [putAll_hosted hs] at hsaid
  rw [Program.run_bind, run_printUrgent hs prints ps]
  show (k .returned).run (perform t) _ = _
  rw [hk, run_endLineAndExit rfl hsaid code]
  simp only [Hosted.puts, List.foldl_append]

theorem run_takeOutlet_delayed (hs : s.platform = .hosted h) {urgency : Urgency} {outlet : Outlet}
    {c : Channel} (leads : outlet.channel? = some c) (hbusy : h.busy t c = true)
    (hturned : urgency.passesBy c = true → h.busy t .standardError = true) :
    ∃ rest, (Log.takeOutlet urgency outlet).run (perform t) s = .waiting rest s := by
  have hwait {d : Channel} (busy : h.busy t d = true) :
      perform t (Request.takeChannel d).demand s = .wait :=
    wait_takeChannel hs busy
  have htake : ∃ rest, (Log.takeChannel urgency c).run (perform t) s = .waiting rest s := by
    unfold Log.takeChannel
    split
    · rename_i hpasses
      have htry : perform t (Request.tryTakeChannel c).demand s = .reply false s :=
        reply_tryTakeChannel_of_busy hs hbusy
      rw [Request.make_bind, Program.run_ask_of_reply htry]
      exact ⟨_, Program.run_ask_of_wait (hwait (hturned hpasses)) _⟩
    · exact ⟨_, Program.run_ask_of_wait (hwait hbusy) _⟩
  obtain ⟨rest, hrest⟩ := htake
  rw [Log.takeOutlet, leads]
  exact ⟨_, Program.run_bind_of_waiting hrest _⟩

theorem Hosted.busy_of_destination (hbusy : h.busy t (h.destination t .urgent) = true) :
    h.busy t h.channel = true ∧
      (Urgency.urgent.passesBy h.channel = true → h.busy t .standardError = true) := by
  unfold Hosted.destination at hbusy
  split at hbusy
  · rename_i hturned
    exact ⟨hturned.1, fun _ => hbusy⟩
  · rename_i hstays
    exact ⟨hbusy, fun passes => absurd ⟨hbusy, passes⟩ hstays⟩

theorem run_beginPrint_delayed (hs : s.platform = .hosted h)
    (hbusy : h.busy t (h.destination t .urgent) = true) :
    ∃ rest, (Log.beginPrint .urgent).run (perform t) s = .waiting rest s := by
  obtain ⟨hchannel, hturned⟩ := Hosted.busy_of_destination hbusy
  have houtlet (urgency : Urgency) :
      perform t (Request.beginPrint urgency).demand s = .reply (.sink h.sink) s := by
    simp only [perform_demand, performAs, hs]
  show ∃ rest, Log.beginUrgent.run (perform t) s = .waiting rest s
  unfold Log.beginUrgent
  rw [Request.make_bind, Program.run_ask_of_reply (houtlet .urgent)]
  split
  · unfold Log.beginPatient
    rw [Request.make_bind, Program.run_ask_of_reply (houtlet .patient)]
    exact run_takeOutlet_delayed hs rfl hchannel fun passes => by cases passes
  · exact run_takeOutlet_delayed hs rfl hchannel hturned

theorem run_line_delayed (hs : s.platform = .hosted h)
    (hbusy : h.busy t (h.destination t .urgent) = true) (m : Message) (k : Finish → Task α) :
    ∃ rest, (Log.printUrgent m >>= k).run (perform t) s = .waiting rest s := by
  obtain ⟨rest, hbegin⟩ := run_beginPrint_delayed hs hbusy
  exact ⟨_, Program.run_bind_of_waiting (Program.run_bind_of_waiting hbegin _) _⟩

/-! ### Misuse of the log lock -/

theorem run_enter_own (known : s.tokenOf t ≠ Token.anonymous)
    (own : (s.locks .log).owner = s.tokenOf t) :
    (Log.enter .log).run (perform t) s = .finished (.error .deadlock) s := by
  unfold Log.enter
  rw [Request.make_bind, Program.run_ask_of_reply (reply_self s t)]
  unfold Log.onLock CheckedMutex.enterAs
  rw [if_neg known, Access.make_bind, Program.relay_ask, Request.make_bind,
    Program.run_ask_of_reply (reply_loadOwner s t), if_pos own]
  rfl

theorem run_leave_foreign (foreign : (s.locks .log).raw.flag = false ∨
      CheckedMutex.Stage.Foreign (s.tokenOf t) (s.locks .log).owner) :
    (Log.leave .log).run (perform t) s = .finished (.error .notOwner) s := by
  unfold Log.leave
  rw [Request.make_bind, Program.run_ask_of_reply (reply_self s t)]
  unfold Log.onLock CheckedMutex.exitAs
  rw [Access.make_bind, Program.relay_ask, Request.make_bind,
    Program.run_ask_of_reply (reply_isLocked s t)]
  cases hflag : (s.locks .log).raw.flag with
  | false => rfl
  | true =>
      have hforeign : CheckedMutex.Stage.Foreign (s.tokenOf t) (s.locks .log).owner := by
        rcases foreign with hfree | hforeign
        · rw [hfree] at hflag
          cases hflag
        · exact hforeign
      rw [if_pos rfl, Access.make_bind, Program.relay_ask, Request.make_bind,
        Program.run_ask_of_reply (reply_loadOwner s t)]
      rw [if_pos (show _ ∧ _ ∧ _ from hforeign)]
      rfl

def misusePieces (s : Session) (t : ThreadId) (operation : String) (e : MutexError) :
    List Piece :=
  [.text (Bytes.ofString "Thread ")] ++
    Piece.ofGroups (Numeral.shortWordGroups (s.tokenOf t)) ++
    [.text (Bytes.ofString " could not ")] ++ [.text (Bytes.ofString operation)] ++
    [.text (Bytes.ofString " mutex ")] ++
    Piece.ofGroups (Numeral.shortWordGroups s.lockAddress) ++ [.text (Bytes.ofString ": ")] ++
    [.text (Bytes.ofString e.message)]

theorem spell_misusePieces (s : Session) (t : ThreadId) (operation : String) (e : MutexError) :
    (misusePieces s t operation e).flatMap s.spell = FatalCall.misuseText s t operation e := by
  simp only [misusePieces, List.flatMap_append, spell_ofGroups,
    Numeral.flatten_shortWordGroups, FatalCall.misuseText]
  simp [spell]

theorem run_mutexFailure (s : Session) (t : ThreadId) (operation : String) (e : MutexError) :
    (Log.mutexFailure operation e : Task α).run (perform t) s =
      (Log.printUrgent (Message.ofPieces (misusePieces s t operation e)) >>= fun _ =>
        Log.endLineAndExit Config.mutexFailureCode).run (perform t) s := by
  have haddress : perform t Request.lockAddress.demand s = .reply s.lockAddress s := rfl
  have hmessage : Log.mutexFailureMessage (s.tokenOf t) s.lockAddress operation e =
      Message.ofPieces (misusePieces s t operation e) := by
    simp [Log.mutexFailureMessage, misusePieces, Message.text, Message.ofPieces]
  unfold Log.mutexFailure
  rw [Request.make_bind, Program.run_ask_of_reply (reply_self s t), Request.make_bind,
    Program.run_ask_of_reply haddress, hmessage]

theorem FatalCall.run_lock (misused : FatalCall.lock.Misused s t) :
    Log.lock.run (perform t) s =
      (Log.mutexFailure "lock" .deadlock : Task Unit).run (perform t) s :=
  Program.run_bind_of_finished (run_enter_own misused.1 misused.2) _

theorem FatalCall.run_unlock (misused : FatalCall.unlock.Misused s t) :
    Log.unlock.run (perform t) s =
      (Log.mutexFailure "unlock" .notOwner : Task Unit).run (perform t) s :=
  Program.run_bind_of_finished (run_leave_foreign misused) _

/-! ### The calls -/

def FatalCall.pieces? (s : Session) (t : ThreadId) : FatalCall → Option (List Piece)
  | assertion text file line =>
      some ([.text (Bytes.ofString "log_assert ")] ++ file ++ [.text (Bytes.ofString "[")] ++
        Piece.integer line.toInt ++ [.text (Bytes.ofString "]: ")] ++ text)
  | exitWith _ message => some message
  | exit _ => none
  | lock => some (misusePieces s t "lock" .deadlock)
  | unlock => some (misusePieces s t "unlock" .notOwner)

theorem FatalCall.words_eq {call : FatalCall} {ps : List Piece}
    (h : call.pieces? s t = some ps) : call.words s t = ps.flatMap s.spell ++ s.lineEnd.bytes := by
  cases call with
  | assertion text file line =>
      cases h
      simp only [words, List.flatMap_append, Piece.integer, spell_ofGroups,
        Numeral.flatten_integerGroups]
      simp [spell]
  | exitWith code message =>
      cases h
      rfl
  | exit code => cases h
  | lock =>
      cases h
      rw [spell_misusePieces]
      rfl
  | unlock =>
      cases h
      rw [spell_misusePieces]
      rfl

theorem FatalCall.run_task {call : FatalCall} (misused : call.Misused s t) {ps : List Piece}
    (h : call.pieces? s t = some ps) :
    ∃ (α : Type) (k : Finish → Task α) (f : α → Task Unit),
      k .returned = Log.endLineAndExit call.code ∧
        call.task.run (perform t) s =
          (Log.printUrgent (Message.ofPieces ps) >>= k >>= f).run (perform t) s := by
  cases call with
  | assertion text file line =>
      cases h
      have hmessage : Log.assertionMessage (Message.ofPieces text) (Message.ofPieces file) line =
          Message.ofPieces ([.text (Bytes.ofString "log_assert ")] ++ file ++
            [.text (Bytes.ofString "[")] ++ Piece.integer line.toInt ++
            [.text (Bytes.ofString "]: ")] ++ text) := by
        simp [Log.assertionMessage, Message.text, Message.ofPieces]
      rw [← hmessage]
      exact ⟨Finish, _, _, rfl, rfl⟩
  | exitWith code message =>
      cases h
      exact ⟨Finish, _, _, rfl, rfl⟩
  | exit code => cases h
  | lock =>
      cases h
      refine ⟨Unit, fun _ => Log.endLineAndExit Config.mutexFailureCode, pure, rfl, ?_⟩
      rw [bind_pure]
      exact (FatalCall.run_lock misused).trans (run_mutexFailure s t "lock" .deadlock)
  | unlock =>
      cases h
      refine ⟨Unit, fun _ => Log.endLineAndExit Config.mutexFailureCode, pure, rfl, ?_⟩
      rw [bind_pure]
      exact (FatalCall.run_unlock misused).trans (run_mutexFailure s t "unlock" .notOwner)

theorem FatalCall.run_ended {call : FatalCall} {d : Channel} (hs : s.platform = .hosted h)
    (misused : call.Misused s t) (prints : s.Prints t .urgent d) {ps : List Piece}
    (hps : call.pieces? s t = some ps) :
    call.task.run (perform t) s =
      .ended (.exit (exitStatus call.code))
        { s with
          platform := .hosted ((h.puts d (ps.map s.spell ++ [s.lineEnd.bytes])).finish t) } := by
  obtain ⟨α, k, f, hk, hrun⟩ := call.run_task misused hps
  rw [hrun, Program.run_bind, run_line hs prints ps hk]

theorem FatalCall.run_delayed {call : FatalCall} (hs : s.platform = .hosted h)
    (misused : call.Misused s t) (hdelays : h.Delays t call) :
    ∃ rest, call.task.run (perform t) s = .waiting rest s := by
  cases hps : call.pieces? s t with
  | none =>
      cases call with
      | exit code => exact run_exit_delayed hs hdelays.1 hdelays.2 code
      | _ => cases hps
  | some ps =>
      have hbusy : h.busy t (h.destination t .urgent) = true := by
        cases call with
        | exit code => cases hps
        | _ => exact hdelays
      obtain ⟨α, k, f, -, hrun⟩ := call.run_task misused hps
      obtain ⟨rest, hrest⟩ := run_line_delayed hs hbusy (Message.ofPieces ps) k
      rw [hrun, Program.run_bind, hrest]
      exact ⟨_, rfl⟩

theorem prints_of_free (hs : s.platform = .hosted h)
    (takes : h.Takes h.channel) (hfree : h.busy t (h.destination t .urgent) = false) :
    s.Prints t .urgent (h.destination t .urgent) := by
  have htakes : h.Takes (h.destination t .urgent) := by
    by_cases huse : h.FileInUse
    · rw [Hosted.destination_of_fileInUse huse]
      trivial
    · rw [Hosted.destination_of_not_fileInUse huse]
      exact takes
  unfold Prints
  rw [hs]
  exact ⟨rfl, hfree, htakes⟩

/-- However a call comes to its end, its words have been put where an urgent print goes. -/
theorem FatalCall.run_of_not_delays {call : FatalCall} (hs : s.platform = .hosted h)
    (takes : h.Takes h.channel) (misused : call.Misused s t) (hfree : ¬ h.Delays t call) :
    ∃ xs : List Bytes, xs.flatten = call.words s t ∧
      call.task.run (perform t) s =
        .ended (.exit (exitStatus call.code))
          { s with platform := .hosted ((h.puts (h.destination t .urgent) xs).finish t) } := by
  cases hps : call.pieces? s t with
  | none =>
      cases call with
      | exit code =>
          have hchannel : h.channel = .file ∨ h.busy t h.channel = false := by
            by_cases hfile : h.channel = .file
            · exact .inl hfile
            · right
              rw [← Bool.not_eq_true]
              exact fun hbusy => hfree ⟨hfile, hbusy⟩
          exact ⟨[], rfl, run_exit hs hchannel code⟩
      | _ => cases hps
  | some ps =>
      have hbusy : h.busy t (h.destination t .urgent) = false := by
        rw [← Bool.not_eq_true]
        cases call with
        | exit code => cases hps
        | _ => exact hfree
      refine ⟨ps.map s.spell ++ [s.lineEnd.bytes], ?_, ?_⟩
      · rw [FatalCall.words_eq hps, List.flatten_append, List.flatMap_def]
        simp
      · exact FatalCall.run_ended hs misused (prints_of_free hs takes hbusy) hps

theorem Hosted.finish_of_fileInUse (huse : h.FileInUse) (xs : List Bytes) :
    (h.puts (h.destination t .urgent) xs).finish t =
      Hosted.close { h with err := h.err.add xs.flatten } (some t) := by
  rw [Hosted.destination_of_fileInUse huse, Hosted.puts_standardError]
  exact congrArg (Hosted.close · (some t)) (if_pos huse)

/-- The last words of thread `t` in the process that it ends: what the process holds before and
after them. -/
structure Hosted.LastWords (h : Hosted) (t : ThreadId) (words : Bytes) (h' : Hosted) : Prop where
  /-- The sink gets all that was logged, the words last, and keeps nothing back. -/
  sink : ¬ h.FileInUse →
    ∀ text, h.HasText h.channel text → h'.Holds h.channel (text ++ words)
  /-- Nothing is written elsewhere. -/
  elsewhere : ¬ h.FileInUse →
    ∀ c text, c ≠ h.channel → h.HasText c text → h'.HasText c text
  /-- If the writer of the file is in use, the words go to standard error. -/
  error : h.FileInUse → h'.err.text = h.err.text ++ words
  /-- The file is left as it is then, and what its writer keeps is not delivered. -/
  file : h.FileInUse → h'.tree = h.tree ∧ h'.stream = h.stream
  out : h.FileInUse → ∀ text, h.HasText .standardOut text → h'.HasText .standardOut text
  /-- No other file changes. -/
  files : ∀ location, h.Elsewhere location → h'.tree.text location = h.tree.text location
  /-- Standard output is delivered, unless another thread is printing there. -/
  delivered : (∀ user ∈ h.users.out, user = t) → h'.out.kept = []

theorem lastWords_finish (h : Hosted) (takes : h.Takes h.channel) (t : ThreadId)
    (xs : List Bytes) :
    h.LastWords t xs.flatten ((h.puts (h.destination t .urgent) xs).finish t) where
  sink := by
    intro huse text ht
    rw [Hosted.destination_of_not_fileInUse huse]
    have hput := ht.puts takes xs
    rw [if_pos rfl] at hput
    have huse' : ¬ (h.puts h.channel xs).FileInUse := by
      unfold Hosted.FileInUse
      rw [Hosted.puts_channel, Hosted.puts_users]
      exact huse
    have hchannel := h.puts_channel h.channel xs
    have hkept := Hosted.kept_finish (h := h.puts h.channel xs)
      (by rw [hchannel]; exact Hosted.takes_puts takes xs) huse' t
    rw [hchannel] at hkept
    exact (hput.finish t).holds hkept
  elsewhere := by
    intro huse c text hc ht
    rw [Hosted.destination_of_not_fileInUse huse]
    have hput := ht.puts takes xs
    rw [if_neg hc] at hput
    exact hput.finish t
  error := by
    intro huse
    rw [Hosted.finish_of_fileInUse huse, (Hosted.close_files _ _).1]
    exact Transcript.text_add h.err xs.flatten
  file := by
    intro huse
    rw [Hosted.finish_of_fileInUse huse]
    exact (Hosted.close_files _ _).2
  out := by
    intro huse text ht
    have hput := ht.puts (d := .standardError) trivial xs
    rw [Hosted.destination_of_fileInUse huse]
    exact hput.finish t
  files := by
    intro location he
    have hput := he.puts (h.destination t .urgent) xs
    exact (hput.1.text_finish t).trans hput.2
  delivered := by
    intro alone
    apply Hosted.kept_out_finish
    rw [Hosted.puts_users]
    exact alone

/-- A fatal call leaves the locks alone and waits for no file: it ends the process with its code and
its last words, unless it needs a standard stream to which another thread is printing. -/
theorem last_words (call : FatalCall) (hs : s.platform = .hosted h) (takes : h.Takes h.channel)
    (misused : call.Misused s t) :
    (h.Delays t call → ∃ rest, call.task.run (perform t) s = .waiting rest s) ∧
      (¬ h.Delays t call → ∃ h' : Hosted, h.LastWords t (call.words s t) h' ∧
        call.task.run (perform t) s =
          .ended (.exit (exitStatus call.code)) { s with platform := .hosted h' }) := by
  refine ⟨FatalCall.run_delayed hs misused, fun hfree => ?_⟩
  obtain ⟨xs, hwords, hrun⟩ := FatalCall.run_of_not_delays hs takes misused hfree
  exact ⟨_, hwords ▸ lastWords_finish h takes t xs, hrun⟩

end FatalCalls

/-! ## Some processes -/

namespace Session

def after {α : Type} (s : Session) (t : ThreadId) (task : Task α) : Session :=
  (task.run (perform t) s).state

def fresh : Session :=
  start ⟨.hosted, .lf, false⟩ (fun _ => none) .empty

def opened (s : Session) : Session :=
  s.after (.lasting 0) (Log.openStream (some (Bytes.ofString "vm.log")))

def locked (s : Session) : Session :=
  s.after (.lasting 0) (do Log.printBuffer (Bytes.ofString "use"); Log.lock)

def printing (s : Session) : Session :=
  (s.after (.lasting 0) Log.lock).after (.lasting 1)
    (Log.print [.piece (.text (Bytes.ofString "use")), .effect (do Log.lock; return .returned)])

end Session

open Session in
/-- The owner of the log lock takes it again, in the middle of a line. -/
theorem last_words_of_second_lock : ∃ h h' : Hosted, fresh.opened.locked.platform = .hosted h ∧
    h'.Holds .file
      (Bytes.ofString "use" ++ FatalCall.words fresh.opened.locked (.lasting 0) .lock) ∧
    FatalCall.lock.task.run (perform (.lasting 0)) fresh.opened.locked =
      .ended (.exit 255) { fresh.opened.locked with platform := .hosted h' } := by
  obtain ⟨h', hwords, hrun⟩ := (last_words .lock (s := fresh.opened.locked) (t := .lasting 0) rfl
    ⟨_, _, rfl, by decide +kernel⟩ ⟨by decide +kernel, by decide +kernel⟩).2
    (by show ¬ (Hosted.busy _ _ _ = true); decide +kernel)
  exact ⟨_, h', rfl, hwords.sink (by decide +kernel) _ ⟨[], rfl, rfl⟩, hrun⟩

open Session in
/-- What the caller of a fatal call does is not all that counts.  Its last words miss the file to
which another thread is printing, wait for one that is printing to the stream they go to, and leave
behind what standard output keeps for one that is printing there. -/
theorem last_words_beside_another_print :
    (∃ h h' : Hosted, fresh.opened.printing.platform = .hosted h ∧
      .lasting 0 ∉ h.users.file ∧ h.HasText h.channel (Bytes.ofString "use") ∧
      (FatalCall.exitWith 3 [.text (Bytes.ofString "bye")]).task.run (perform (.lasting 0))
          fresh.opened.printing =
        .ended (.exit 3) { fresh.opened.printing with platform := .hosted h' } ∧
      ¬ h'.Holds h.channel (Bytes.ofString "usebye" ++ LineEnd.lf.bytes) ∧
      h'.err.text = Bytes.ofString "bye" ++ LineEnd.lf.bytes) ∧
    (∃ rest, (FatalCall.exit 5).task.run (perform (.lasting 0)) fresh.printing =
      .waiting rest fresh.printing) ∧
    ∃ h' : Hosted, (FatalCall.exit 5).task.run (perform (.lasting 0)) fresh.printing.opened =
        .ended (.exit 5) { fresh.printing.opened with platform := .hosted h' } ∧
      h'.out.kept = Bytes.ofString "use" := by
  refine ⟨⟨_, _, rfl, by decide +kernel, ⟨[], rfl, rfl⟩, rfl, ?_, by decide +kernel⟩,
    ⟨_, rfl⟩, _, rfl, by decide +kernel⟩
  rintro ⟨hdelivered, -⟩
  have htext : FileTree.text _ [Bytes.ofString "vm.log"] = _ := hdelivered
  revert htext
  decide +kernel

end DiagnosticLog
