import DiagnosticLog.Proofs.Output.Formatting
import DiagnosticLog.Proofs.Survival.Uses
import DiagnosticLog.Script.Step

/-!
# Lines of arbitrary messages

A message may run tasks in its middle.  As long as these leave the log lock alone and let the next
print go where the message goes, the line of the message is its text and a line end, said under the
lock (`logs_line`).  However its beginning is cut into pieces, a line goes on in the same way after
it (`reaches_opening`).
-/

namespace DiagnosticLog

open Program (Reaches)

theorem Log.deliver_append (c : Channel) (m m' : Message) :
    deliver c (m ++ m') = deliver c m >>= fun
      | .complete => deliver c m'
      | other => .done other := by
  induction m with
  | nil => rfl
  | cons fragment rest ih =>
      cases fragment with
      | piece p =>
          show Program.ask _ _ = Program.ask _ _
          congr 1
          funext taken
          cases taken with
          | true => exact ih
          | false => rfl
      | effect task =>
          show task >>= _ = task >>= _ >>= _
          rw [Program.bind_assoc]
          congr 1
          funext finish
          cases finish with
          | returned => exact ih
          | unwound => rfl
      | fault => rfl

/-! ## What is said under the lock -/

namespace Session

variable {s s' : Session} {t : ThreadId} {c : Channel} {lineEnd : LineEnd} {me : Token}

def Held (me : Token) (s : Session) : Prop :=
  s.locks .log = lockOf me

/-- The thread holds the log lock, and its next print goes to the channel at once. -/
structure Poised (t : ThreadId) (c : Channel) (lineEnd : LineEnd) (me : Token) (s : Session) :
    Prop where
  held : s.Held me
  tokenOf : s.tokenOf t = me
  lineEnd : s.lineEnd = lineEnd
  prints : s.Prints t .patient c

structure Midst (t : ThreadId) (c : Channel) (lineEnd : LineEnd) (me : Token) (s : Session) :
    Prop where
  takes : s.Takes c
  after : Poised t c lineEnd me (s.modifyUsers c (List.erase · t))

theorem Held.of_alike (held : s.Held me) (halike : Alike s s') : s'.Held me :=
  (congrFun halike.locks _).trans held

theorem Poised.put (poised : Poised t c lineEnd me s) (p : Piece) :
    Poised t c lineEnd me (s.put c p) := by
  have halike := alike_put s c p
  constructor
  · exact poised.held.of_alike halike
  · rw [halike.tokenOf, poised.tokenOf]
  · rw [halike.lineEnd, poised.lineEnd]
  · exact poised.prints.put c p

theorem Poised.midst (poised : Poised t c lineEnd me s) :
    Midst t c lineEnd me (s.modifyUsers c (t :: ·)) where
  takes := poised.prints.takes.modifyUsers c _
  after := by
    rw [modifyUsers_erase_cons]
    exact poised

namespace Midst

theorem put (midst : Midst t c lineEnd me s) (p : Piece) : Midst t c lineEnd me (s.put c p) where
  takes := midst.takes.put c p
  after := by
    rw [← put_modifyUsers]
    exact midst.after.put p

theorem held (midst : Midst t c lineEnd me s) : s.Held me := by
  have hafter := midst.after.held
  rw [Held, (alike_modifyUsers s c (List.erase · t)).locks] at hafter
  exact hafter

theorem spell (midst : Midst t c lineEnd me s) : s.spell = lineEnd.spell := by
  rw [spell_eq, ← midst.after.lineEnd, (alike_modifyUsers s c (List.erase · t)).lineEnd]

theorem setNotes (midst : Midst t c lineEnd me s) (notes : ThreadId → List (Option Answer)) :
    Midst t c lineEnd me { s with notes } := by
  have hmodify : modifyUsers { s with notes } c (List.erase · t) =
      { s.modifyUsers c (List.erase · t) with notes } := by
    obtain ⟨_, _, platform⟩ := s
    cases platform <;> rfl
  refine ⟨midst.takes, ?_⟩
  rw [hmodify]
  exact ⟨midst.after.held, midst.after.tokenOf, midst.after.lineEnd, midst.after.prints⟩

end Midst

/-- In the middle of a print of the thread the message is formatted to its end, comes to this text,
and leaves the lock alone. -/
def Utters (t : ThreadId) (c : Channel) (lineEnd : LineEnd) (me : Token) (m : Message)
    (b : Bytes) : Prop :=
  ∀ s, Midst t c lineEnd me s →
    ∃ s', Speaks t c (Held me) (Log.deliver c m) s b .complete s' ∧ Midst t c lineEnd me s'

namespace Utters

variable {m m' : Message} {b b' : Bytes}

theorem append (first : Utters t c lineEnd me m b) (second : Utters t c lineEnd me m' b') :
    Utters t c lineEnd me (m ++ m') (b ++ b') := by
  intro s midst
  obtain ⟨s₁, hfirst, midst₁⟩ := first s midst
  obtain ⟨s₂, hsecond, midst₂⟩ := second s₁ midst₁
  rw [Log.deliver_append]
  exact ⟨s₂, hfirst.bind hsecond, midst₂⟩

theorem ofPieces (ps : List Piece) :
    Utters t c lineEnd me (Message.ofPieces ps) (ps.flatMap lineEnd.spell) := by
  intro s midst
  induction ps generalizing s with
  | nil => exact ⟨s, .done, midst⟩
  | cons p rest ih =>
      obtain ⟨s', hrest, midst'⟩ := ih _ (midst.put p)
      have hwritten : s.written c (.put c p) = lineEnd.spell p := by
        rw [← midst.spell]
        exact if_pos rfl
      rw [List.flatMap_cons, ← hwritten]
      exact ⟨s', .ask midst.held midst.takes (reply_put midst.takes p) rfl hrest, midst'⟩

theorem effect {task : Task Finish}
    (through : ∀ s, Midst t c lineEnd me s →
      ∃ s', Speaks t c (Held me) task s b .returned s' ∧ Midst t c lineEnd me s') :
    Utters t c lineEnd me [.effect task] b := by
  intro s midst
  obtain ⟨s', htask, midst'⟩ := through s midst
  refine ⟨s', ?_, midst'⟩
  rw [← List.append_nil b]
  show Speaks t c (Held me) (task >>= _) s (b ++ []) Formatting.complete s'
  exact htask.bind .done

theorem run {steps : List (Step × Bytes)}
    (through : ∀ step ∈ steps, ∀ s, Midst t c lineEnd me s →
      ∃ s' answer, Speaks t c (Held me) step.1.task s step.2 answer s' ∧
        answer ≠ some .panic ∧ Midst t c lineEnd me s') :
    Utters t c lineEnd me (Part.run (steps.map Prod.fst)).fragments (steps.flatMap Prod.snd) := by
  apply effect
  induction steps with
  | nil => exact fun s midst => ⟨s, .done, midst⟩
  | cons step rest ih =>
      intro s midst
      obtain ⟨s₁, answer, hstep, hanswer, midst₁⟩ := through step (List.mem_cons_self ..) s midst
      have hnoted := midst₁.setNotes (update s₁.notes t (s₁.notes t ++ [answer]))
      obtain ⟨s₂, hrest, midst₂⟩ :=
        ih (fun step hmem => through step (List.mem_cons_of_mem _ hmem)) _ hnoted
      have hnote : Speaks t c (Held me) (Request.make (.note answer)) s₁ [] () _ :=
        .request midst₁.held midst₁.takes rfl trivial rfl
      refine ⟨s₂, ?_, midst₂⟩
      rw [List.map_cons, List.flatMap_cons, Step.runInside]
      apply hstep.bind
      rw [if_neg hanswer]
      exact hnote.bind hrest

theorem speaks_print (utters : Utters t c lineEnd me m b) (poised : Poised t c lineEnd me s) :
    ∃ s', Speaks t c (Held me) (Log.print m) s b .returned s' ∧ Poised t c lineEnd me s' := by
  obtain ⟨s', hdeliver, midst⟩ := utters _ poised.midst
  have hend : Speaks t c (Held me) (Request.make (.endPrint c .complete)) s' [] .returned
      (s'.modifyUsers c (List.erase · t)) :=
    .request midst.held midst.takes (reply_endPrint t c .complete) trivial rfl
  have hprint := (speaks_beginPrint poised.prints poised.held).bind
    (f := fun destination => Log.printTo m destination) (hdeliver.bind hend)
  rw [List.append_nil] at hprint
  exact ⟨_, hprint, midst.after⟩

theorem speaks_line (utters : Utters t c lineEnd me m b) (poised : Poised t c lineEnd me s) :
    ∃ s', Speaks t c (Held me) (Log.line m) s (b ++ lineEnd.bytes) .returned s' ∧
      Poised t c lineEnd me s' := by
  obtain ⟨s₁, hmessage, poised₁⟩ := utters.speaks_print poised
  obtain ⟨s₂, hend, poised₂⟩ := (ofPieces [.lineEnd]).speaks_print poised₁
  rw [show [Piece.lineEnd].flatMap lineEnd.spell = lineEnd.bytes from List.append_nil _] at hend
  exact ⟨s₂, hmessage.bind hend, poised₂⟩

end Utters

/-- The thread runs the body under the log lock: it takes the lock, says the text while it holds the
lock, and frees it. -/
structure Logs (t : ThreadId) (c : Channel) (body : Task Finish) (s : Session) (b : Bytes)
    (s' : Session) : Prop where
  takes : Log.lock.run (perform t) s = .finished () (s.setLock (lockOf (s.tokenOf t)))
  speaks : ∃ s₁, Speaks t c (Held (s.tokenOf t)) body (s.setLock (lockOf (s.tokenOf t))) b
    .returned s₁ ∧ Log.unlock.run (perform t) s₁ = .finished () s'
  free : s'.locks .log = CheckedMutex.unowned
  run_eq : (Log.bracketed body).run (perform t) s = .finished .returned s'
  hasText : ∀ text, s.HasText c text → s'.HasText c (text ++ b)

theorem run_lock_unowned (free : s.locks .log = CheckedMutex.unowned)
    (owns : s.tokenOf t ≠ Token.noOwner) :
    Log.lock.run (perform t) s = .finished () (s.setLock (lockOf (s.tokenOf t))) := by
  by_cases known : s.tokenOf t = Token.anonymous
  · rw [lock_eq, Program.run_ask_of_reply (reply_self s t), if_pos known]
    exact run_atLock_free free
  · have hforeign : (s.locks .log).owner ≠ s.tokenOf t := by
      rw [free]
      exact owns.symm
    rw [run_lock known hforeign]
    exact run_atLock_free free

theorem logs_line (free : s.locks .log = CheckedMutex.unowned)
    (owns : s.tokenOf t ≠ Token.noOwner) (prints : s.Prints t .patient c) {m : Message} {b : Bytes}
    (utters : Utters t c s.lineEnd (s.tokenOf t) m b) :
    ∃ s', Logs t c (Log.line m) s (b ++ s.lineEnd.bytes) s' := by
  have htakes := run_lock_unowned free owns
  have poised : Poised t c s.lineEnd (s.tokenOf t) (s.setLock (lockOf (s.tokenOf t))) :=
    ⟨locks_setLock s _, rfl, rfl, prints⟩
  obtain ⟨s₁, hspeaks, poised₁⟩ := utters.speaks_line poised
  have hown : s₁.locks .log = lockOf (s₁.tokenOf t) := by
    rw [poised₁.tokenOf]
    exact poised₁.held
  have hunlock := run_unlock_own hown
  refine ⟨_, htakes, ⟨s₁, hspeaks, hunlock⟩, locks_setLock s₁ _, ?_, ?_⟩
  · unfold Log.bracketed
    rw [Program.run_bind_of_finished htakes, Program.run_bind_of_finished hspeaks.run_eq,
      Program.run_bind_of_finished hunlock]
    rfl
  · intro text ht
    have hset : (s.setLock (lockOf (s.tokenOf t))).HasText c text := ht.of_platform rfl
    exact (hspeaks.hasText hset).of_platform rfl

end Session

/-! ## Where a line goes on -/

namespace Log

/-- The exchanges by which a print begins that finds this, and puts the first pieces of its message,
if it has a destination. -/
def opening (ps : List Piece) (outlet : Outlet) : List Talk :=
  (Request.beginPrint .patient).talk outlet ::
    match outlet.channel? with
    | none => []
    | some c =>
        (Request.takeChannel c).talk () :: ps.map fun p => (Request.put c p).talk true

/-- What is left of the line of a message when its beginning has been put. -/
def lineFrom (m : Message) (outlet : Outlet) : Task Finish := do
  let finish ← (do
    match ← printTo m outlet.channel? with
    | .returned => print Message.lineEnd
    | .unwound => return .unwound)
  unlock
  return finish

variable {ps : List Piece} {m : Message} {xs : List Talk} {outlet : Outlet}

theorem reaches_deliver_pieces (c : Channel) (ps : List Piece) (m : Message) :
    Reaches (deliver c (Message.ofPieces ps ++ m)) (ps.map fun p => (Request.put c p).talk true)
      (deliver c m) := by
  induction ps with
  | nil => exact .nil
  | cons p rest ih => exact .cons ih

theorem reaches_print_pieces (ps : List Piece) (m : Message) (outlet : Outlet) :
    Reaches (print (Message.ofPieces ps ++ m)) (opening ps outlet) (printTo m outlet.channel?) := by
  refine .cons ?_
  show Reaches (takeOutlet .patient outlet >>= printTo (Message.ofPieces ps ++ m)) _ _
  unfold takeOutlet
  cases outlet.channel? with
  | none => exact .nil
  | some c =>
      have htake : takeChannel .patient c = (do
          Request.make (.takeChannel c)
          return c) := if_neg nofun
      simp only [htake]
      exact .cons ((reaches_deliver_pieces c ps m).bind_left _)

/-- However the beginning of a message is cut, the line goes on in the same way after it. -/
theorem reaches_opening (locks : Reaches lock xs (.done ())) (ps : List Piece) (m : Message)
    (outlet : Outlet) :
    Reaches (println (Message.ofPieces ps ++ m)) (xs ++ opening ps outlet) (lineFrom m outlet) :=
  locks.bind (((reaches_print_pieces ps m outlet).bind_left _).bind_left _)

theorem reaches_println_iff (locks : Reaches lock xs (.done ())) {ys : List Talk}
    {q : Task Finish} :
    Reaches (println (Message.ofPieces ps ++ m)) (xs ++ opening ps outlet ++ ys) q ↔
      Reaches (lineFrom m outlet) ys q := by
  have hopening := reaches_opening locks ps m outlet
  exact ⟨fun h => h.of_append hopening, fun h => hopening.append h⟩

end Log

end DiagnosticLog
