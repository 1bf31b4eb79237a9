import DiagnosticLog.Proofs.LineEnd.Builds
import DiagnosticLog.Proofs.Plays

/-!
# Scripts in the two builds

A turn of a script is quiet if all it asks is, that of the waiting step it lets through included.
Quiet turns lead the build with carriage returns from the converted state to the converted state,
and their reports differ in what has been let out only.
-/

namespace DiagnosticLog

open Program (passes)

namespace Session

theorem Clear.forgetNotes {s : Session} (clear : s.Clear) (thread : Nat) :
    (Script.forgetNotes thread s).Clear :=
  ⟨clear.lineEnd, clear.hosted⟩

theorem clear_start (mode : Mode) (tele : Bool) (environment : String → Option Bytes)
    (tree : FileTree) : (start ⟨mode, .lf, tele⟩ environment tree).Clear := by
  refine ⟨rfl, fun h hs => ?_⟩
  cases mode with
  | hosted =>
      cases hs
      exact ⟨Hosted.not_mem_kept_of_buffers List.not_mem_nil nofun, nofun⟩
  | guest => cases hs

theorem start_withCrlf (mode : Mode) (tele : Bool) (environment : String → Option Bytes)
    (tree : FileTree) : (start ⟨mode, .lf, tele⟩ environment tree).withCrlf =
      start ⟨mode, .crlf, tele⟩ environment tree := by
  cases mode with
  | hosted =>
      have htree : (Hosted.start environment tree).withCrlf = Hosted.start environment tree := by
        simp only [Hosted.withCrlf, Hosted.start, Hosted.logFile, FileTree.withCrlf_none]
        rfl
      simp only [start, withCrlf, Platform.withCrlf, htree]
      rfl
  | guest =>
      simp only [start, withCrlf, Platform.withCrlf, Guest.withCrlf, Vector.map_replicate]
      rfl

theorem close_withCrlf {s : Session} (clear : s.Clear) : s.withCrlf.close = s.close.withCrlf := by
  unfold close
  cases hs : s.platform with
  | hosted h =>
      rw [platform_hosted hs]
      simp only [Hosted.close_withCrlf (clear.hosted h hs)]
      rfl
  | guest g => rw [platform_guest hs]

/-- What has been delivered in a session of the one build is that of the other with every line feed
converted, and nothing else in which the builds could differ does. -/
structure InStep (s s' : Session) : Prop where
  rest : s' = { s with lineEnd := .crlf, platform := s'.platform }
  hosted : ∀ h, s.platform = .hosted h → ∃ h', s'.platform = .hosted h' ∧
    h'.stream = h.stream ∧ h'.opened = h.opened ∧ h'.users = h.users ∧ ∀ c, h'.kept c = h.kept c
  guest : ∀ g, s.platform = .guest g → ∃ g', s'.platform = .guest g' ∧ g'.installed = g.installed
  delivered : Output.ofSession s' = (Output.ofSession s).withCrlf s.logFile
  completed : (Output.ofSession s').completed = (Output.ofSession s).completed

theorem inStep_withCrlf (s : Session) : s.InStep s.withCrlf where
  rest := rfl
  hosted := fun h hs => ⟨h.withCrlf, platform_hosted hs, rfl, rfl, rfl, fun c => by cases c <;> rfl⟩
  guest := fun g hs => ⟨g.withCrlf, platform_guest hs, rfl⟩
  delivered := Output.ofSession_withCrlf s
  completed := by rw [Output.ofSession_withCrlf, Output.completed_withCrlf]

end Session

namespace Script

def State.withCrlf (state : State) : State :=
  State.after state.session.withCrlf state.waiting

def quietTurn (state : State) (t : Turn) : Bool :=
  t.step.task.passes (Session.perform (.lasting t.thread)) Session.quiet state.session &&
    match runAs t.thread t.step.task state.session with
    | .finished _ s =>
        t.joins.all fun joined =>
          (state.waiting.find? fun w => w.thread = joined).all fun w =>
            w.rest.passes (Session.perform (.lasting joined)) Session.quiet
              (forgetNotes t.thread s)
    | .waiting _ _ => true
    | .ended _ _ => true

section Runs

variable {s : Session} {thread : Nat} {task : Task (Option Answer)}

theorem runAs_withCrlf (clear : s.Clear)
    (quiet : task.passes (Session.perform (.lasting thread)) Session.quiet s) :
    runAs thread task s.withCrlf = (runAs thread task s).map Session.withCrlf :=
  task.run_map (fun _ _ clear quiet => Session.perform_withCrlf clear quiet)
    (fun _ _ _ _ clear quiet reply => clear.of_reply quiet reply) clear quiet

theorem clear_runAs (clear : s.Clear)
    (quiet : task.passes (Session.perform (.lasting thread)) Session.quiet s)
    (goesOn : ∀ e s', runAs thread task s ≠ .ended e s') : (runAs thread task s).state.Clear :=
  task.run_keeps (fun _ _ _ _ clear quiet reply => clear.of_reply quiet reply) clear quiet goesOn

end Runs

/-! ## Turns -/

section Alike

variable {state : State} {t : Turn} {s : Session}

theorem resumed?_withCrlf (clear : s.Clear)
    (quiet : t.joins.all fun joined =>
      (state.waiting.find? fun w => w.thread = joined).all fun w =>
        w.rest.passes (Session.perform (.lasting joined)) Session.quiet s) :
    resumed? state.withCrlf t s.withCrlf =
        (resumed? state t s).map (fun found => (found.1, found.2.map Session.withCrlf)) ∧
      ∀ joined reach, resumed? state t s = some (joined, reach) →
        (∀ e s', reach ≠ .ended e s') → reach.state.Clear := by
  have hwaiting : state.withCrlf.waiting = state.waiting := rfl
  unfold resumed? resume
  rw [hwaiting]
  cases hjoins : t.joins with
  | none => simp
  | some joined =>
      rw [hjoins, Option.all_some] at quiet
      simp only [Option.bind_some]
      cases hfind : state.waiting.find? fun w => w.thread = joined with
      | none => simp
      | some w =>
          rw [hfind, Option.all_some] at quiet
          constructor
          · simp only [Option.map_some, runAs_withCrlf clear quiet]
          · rintro _ _ ⟨⟩
            exact clear_runAs clear quiet

/-- The outcome of a turn, and that of the same turn in the build with carriage returns. -/
structure Alike (state : State) (plain crlf : Report × Option State) (s : Session)
    (result : Result) (joined : Option Result) (next : Option State) : Prop where
  plain : plain = (state.report s result joined, next)
  crlf : crlf = (state.withCrlf.report s.withCrlf result joined, next.map State.withCrlf)
  clear : ∀ state', next = some state' → state'.session.Clear

theorem alike_closing (clear : s.Clear) (result : Result) {through : Option (Nat × Reach)}
    (left : ∀ joined reach, through = some (joined, reach) → (∀ e s', reach ≠ .ended e s') →
      reach.state.Clear) :
    ∃ s' result' joined next, Alike state (closing state result s through)
      (closing state.withCrlf result s.withCrlf
        (through.map fun found => (found.1, found.2.map Session.withCrlf)))
      s' result' joined next := by
  match through with
  | none =>
      refine ⟨s, result, none, some (State.after s state.waiting), rfl, rfl, ?_⟩
      rintro _ ⟨⟩
      exact clear
  | some (joined, .ended e s') => exact ⟨s', .ended e, none, none, rfl, rfl, nofun⟩
  | some (joined, .waiting rest s') =>
      refine ⟨s', result, some .blocked, some (State.after s' _), rfl, rfl, ?_⟩
      rintro _ ⟨⟩
      exact left joined _ rfl nofun
  | some (joined, .finished answer s') =>
      refine ⟨forgetNotes joined s', result, some (.done answer (notesOf joined s')),
        some (State.after _ _), rfl, rfl, ?_⟩
      rintro _ ⟨⟩
      exact (left joined _ rfl nofun).forgetNotes joined

theorem alike_turn (clear : state.session.Clear) (quiet : quietTurn state t) :
    ∃ s result joined next,
      Alike state (turn state t) (turn state.withCrlf t) s result joined next := by
  simp only [quietTurn, Bool.and_eq_true] at quiet
  obtain ⟨hstep, hrest⟩ := quiet
  have hcrlf : runAs t.thread t.step.task state.withCrlf.session = _ := runAs_withCrlf clear hstep
  have hclear := clear_runAs clear hstep
  cases hrun : runAs t.thread t.step.task state.session with
  | ended e s =>
      rw [hrun] at hcrlf
      refine ⟨s, .ended e, none, none, ?_, ?_, nofun⟩
      · simp only [turn, hrun]
      · simp only [turn, hcrlf, Outcome.map]
        rfl
  | waiting rest s =>
      rw [hrun] at hcrlf hclear
      refine ⟨s, .blocked, none, some (State.after s (state.waiting ++ [⟨t.thread, rest⟩])), ?_, ?_,
        ?_⟩
      · simp only [turn, hrun]
      · simp only [turn, hcrlf, Outcome.map]
        rfl
      · rintro _ ⟨⟩
        exact hclear (by simp)
  | finished answer s =>
      rw [hrun] at hcrlf hclear hrest
      have hforgotten : (forgetNotes t.thread s).Clear := (hclear (by simp)).forgetNotes t.thread
      obtain ⟨hresumed, hleft⟩ := resumed?_withCrlf hforgotten hrest
      have hturn : turn state.withCrlf t =
          closing state.withCrlf (.done answer (notesOf t.thread s))
            (forgetNotes t.thread s).withCrlf
            (resumed? state.withCrlf t (forgetNotes t.thread s).withCrlf) :=
        turn_of_finished hcrlf
      rw [hturn, turn_of_finished hrun, hresumed]
      exact alike_closing hforgotten _ hleft

end Alike

/-! ## Scripts -/

theorem Plays.crlf {s : Session} {turns : List Turn} {state : State} (clear : s.Clear)
    (plays : Plays (fun state t => quietTurn state t) (State.start s) turns state) :
    state.session.Clear ∧
      Plays (fun _ _ => True) (State.start s.withCrlf) turns state.withCrlf := by
  induction plays with
  | nil => exact ⟨clear, .nil⟩
  | @snoc turns t state next before quiet goesOn ih =>
      obtain ⟨hclear, hplays⟩ := ih
      obtain ⟨s', result, joined, next', alike⟩ := alike_turn hclear quiet
      obtain rfl : next' = some next := by rw [← goesOn, alike.plain]
      refine ⟨alike.clear next rfl, hplays.snoc trivial ?_⟩
      rw [alike.crlf]
      rfl

/-- A script that is quiet all the way is run by both builds in step: when the plain build has come
through some of its turns, so has the build with carriage returns, with a session that differs in
the line ends of what has been delivered only; the next turn, and the end of the script, come to
the same in both. -/
theorem crlf_differs_in_line_ends {mode : Mode} {tele : Bool}
    {environment : String → Option Bytes} {tree : FileTree} {turns : List Turn} {state : State}
    (plays : Plays (fun state t => quietTurn state t)
      (State.start (Session.start ⟨mode, .lf, tele⟩ environment tree)) turns state) :
    ∃ state' : State,
      Plays (fun _ _ => True) (State.start (Session.start ⟨mode, .crlf, tele⟩ environment tree))
        turns state' ∧
      state.session.InStep state'.session ∧ state'.waiting = state.waiting ∧
      state.session.close.InStep state'.session.close ∧
      ∀ t, quietTurn state t → ∃ s s' result joined, s.InStep s' ∧
        (turn state t).1 = state.report s result joined ∧
        (turn state' t).1 = state'.report s' result joined ∧
        (turn state' t).2.isSome = (turn state t).2.isSome := by
  have hplays := plays.crlf (Session.clear_start mode tele environment tree)
  rw [Session.start_withCrlf] at hplays
  obtain ⟨hclear, hplays'⟩ := hplays
  refine ⟨state.withCrlf, hplays', state.session.inStep_withCrlf, rfl, ?_, ?_⟩
  · show state.session.close.InStep state.session.withCrlf.close
    rw [Session.close_withCrlf hclear]
    exact state.session.close.inStep_withCrlf
  · intro t quiet
    obtain ⟨s, result, joined, next, alike⟩ := alike_turn hclear quiet
    refine ⟨s, s.withCrlf, result, joined, s.inStep_withCrlf, ?_, ?_, ?_⟩
    · rw [alike.plain]
    · rw [alike.crlf]
    · rw [alike.plain, alike.crlf, Option.isSome_map]

def follow (state : State) : List Turn → Option State
  | [] => some state
  | t :: rest =>
      if quietTurn state t then (turn state t).2.bind fun next => follow next rest else none

theorem plays_of_follow {turns : List Turn} {first state : State}
    (h : follow first turns = some state) :
    Plays (fun state t => quietTurn state t) first turns state := by
  induction turns generalizing first with
  | nil =>
      cases h
      exact .nil
  | cons t rest ih =>
      simp only [follow] at h
      split at h
      · rename_i quiet
        obtain ⟨next, hnext, hrest⟩ := Option.bind_eq_some_iff.mp h
        exact .cons quiet hnext (ih hrest)
      · cases h

def sharedFile : List Turn :=
  [⟨0, .call (.openStream (some (Bytes.ofString "vm.log"))), none⟩, ⟨0, .call .lock, none⟩,
    ⟨0, .print [.text (Bytes.ofString "a")], none⟩,
    ⟨1, .println [.text (Bytes.ofString "c"), .integer 7], none⟩,
    ⟨0, .call .newline, none⟩, ⟨0, .call .unlock, some 1⟩]

theorem crlf_differs_in_line_ends_of_file : ∃ state : State,
    Plays (fun _ _ => True)
      (State.start (Session.start ⟨.hosted, .crlf, false⟩ (fun _ => none) .empty))
      sharedFile state ∧
    (Output.ofSession state.session).files =
      [([Bytes.ofString "vm.log"], Bytes.ofString "a\r\nc7\r\n")] := by
  have hplain :
      (follow (State.start (Session.start ⟨.hosted, .lf, false⟩ (fun _ => none) .empty))
        sharedFile).map (fun final =>
          ((Output.ofSession final.session).files, final.session.logFile)) =
        some ([([Bytes.ofString "vm.log"], Bytes.ofString "a\nc7\n")],
          some [Bytes.ofString "vm.log"]) := by
    decide +kernel
  obtain ⟨final, hfollow, hfinal⟩ := Option.map_eq_some_iff.mp hplain
  obtain ⟨hfiles, hlog⟩ := Prod.mk.inj hfinal
  obtain ⟨state, hplays, hsame, -⟩ := crlf_differs_in_line_ends (plays_of_follow hfollow)
  refine ⟨state, hplays, ?_⟩
  have hdelivered := congrArg Output.files hsame.delivered
  simp only [Output.withCrlf, hfiles, hlog] at hdelivered
  rw [hdelivered]
  decide +kernel

end Script

end DiagnosticLog
