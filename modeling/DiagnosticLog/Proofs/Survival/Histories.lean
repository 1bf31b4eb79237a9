import DiagnosticLog.Proofs.FatalCalls
import DiagnosticLog.Proofs.Survival.Uses

/-!
# What threads survive

Any number of threads use the log lock, in any order the lock allows: a thread that has to wait for
the lock is put aside, and goes on when it gets another turn.  The history of a run tells who holds
the lock, also where guards have outlived the lock they stood for, and so it tells which turn will
be the last (`survives_until_misuse`).

Each turn is taken whole here.  What the line of a misuse leaves behind in the middle of another
thread's line is told request by request in `Output.Interrupted`.
-/

namespace DiagnosticLog

open Session

namespace LockUse

variable {ι : Type}

inductive Event (ι : Type) where
  | done (i : ι) (use : LockUse)
  /-- The thread has to wait for the lock. -/
  | putAside (i : ι) (use : LockUse)

namespace Event

def thread : Event ι → ι
  | done i _ => i
  | putAside i _ => i

def use : Event ι → LockUse
  | done _ use => use
  | putAside _ use => use

end Event

/-- A run of threads that use the log lock, between two of their turns. -/
structure Scene (ι : Type) where
  session : Session
  /-- The use at which a thread waits, and what is left of it. -/
  waiting : ι → Option (LockUse × Task Unit)

namespace Scene

def start (s : Session) : Scene ι :=
  ⟨s, fun _ => none⟩

/-- What thread `i` runs in its turn: a use that it begins, or what is left of the one at which it
waits. -/
inductive Turn (x : Scene ι) (i : ι) : LockUse → Task Unit → Prop where
  | begins (use : LockUse) (free : x.waiting i = none) : Turn x i use use.task
  | goesOn {use : LockUse} {rest : Task Unit} (waits : x.waiting i = some (use, rest)) :
      Turn x i use rest

end Scene

variable [DecidableEq ι]

inductive Step (name : ι → ThreadId) : Scene ι → Event ι → Scene ι → Prop where
  | done {x : Scene ι} {i : ι} {use : LockUse} {task : Task Unit} {s : Session}
      (turn : x.Turn i use task)
      (run : task.run (perform (name i)) x.session = .finished () s) :
      Step name x (.done i use) ⟨s, Function.update x.waiting i none⟩
  | putAside {x : Scene ι} {i : ι} {use : LockUse} {task rest : Task Unit} {s : Session}
      (turn : x.Turn i use task)
      (run : task.run (perform (name i)) x.session = .waiting rest s) :
      Step name x (.putAside i use) ⟨s, Function.update x.waiting i (some (use, rest))⟩

inductive Run (name : ι → ThreadId) (x : Scene ι) : List (Event ι) → Scene ι → Prop where
  | nil : Run name x [] x
  | snoc {es : List (Event ι)} {e : Event ι} {y z : Scene ι} :
      Run name x es y → Step name y e z → Run name x (es ++ [e]) z

/-! ## Histories -/

def Event.enter (l : Account ι) : Event ι → Account ι
  | .done i use => l.after i use
  | .putAside _ _ => l

def account (es : List (Event ι)) : Account ι :=
  es.foldl Event.enter .empty

theorem account_snoc (es : List (Event ι)) (e : Event ι) :
    account (es ++ [e]) = e.enter (account es) := by
  simp [account, List.foldl_append]

def WellBracketed (es : List (Event ι)) : Prop :=
  ∀ fs e, fs ++ [e] <+: es → ¬ (account fs).Misused e.thread e.use

theorem WellBracketed.snoc {es : List (Event ι)} {e : Event ι} (h : WellBracketed es)
    (used : ¬ (account es).Misused e.thread e.use) : WellBracketed (es ++ [e]) := by
  intro fs f hprefix
  rcases List.prefix_concat_iff.mp hprefix with heq | hprefix
  · obtain ⟨rfl, hf⟩ := List.append_inj' heq rfl
    cases hf
    exact used
  · exact h fs f hprefix

/-! ## The invariant -/

variable {name : ι → ThreadId} {s₀ : Session} {c : Channel} {way : WayOut}

/-- A thread that waits has found that it does not hold the lock, and has only to take it. -/
def WaitsAtLock (name : ι → ThreadId) (s₀ : Session) (l : Account ι)
    (waiting : ι → Option (LockUse × Task Unit)) : Prop :=
  ∀ i use rest, waiting i = some (use, rest) →
    use.takesLock ∧ l.holder ≠ some i ∧ rest = use.left (s₀.tokenOf (name i))

structure Invariant (name : ι → ThreadId) (s₀ : Session) (c : Channel) (way : WayOut)
    (es : List (Event ι)) (x : Scene ι) : Prop where
  accords : (account es).Accords name s₀ c way x.session
  waits : WaitsAtLock name s₀ (account es) x.waiting
  bracketed : WellBracketed es

/-- What comes of the turn of thread `i` at a use of the lock, in a session that accords with the
account. -/
inductive Verdict (name : ι → ThreadId) (s₀ : Session) (c : Channel) (way : WayOut)
    (l : Account ι) (i : ι) (use : LockUse) (s : Session) :
    Outcome Request.interface Session Ending Unit → Prop where
  | ends {s' : Session} (misused : l.Misused i use)
      (told : s₀.Takes c → ∀ before, s₀.HasText c before →
        s'.Holds c (before ++ l.said.flatMap s₀.spell ++
          FatalCall.misuseText s₀ (name i) use.operation use.error ++ s₀.lineEnd.bytes)) :
      Verdict name s₀ c way l i use s (.ended way.misused s')
  | waits (takes : use.takesLock) (outside : l.holder ≠ some i) (blocked : l.Blocked i use) :
      Verdict name s₀ c way l i use s (.waiting (use.left (s₀.tokenOf (name i))) s)
  | goesOn {s' : Session} (used : ¬ l.Misused i use) (free : ¬ l.Blocked i use)
      (accords : (l.after i use).Accords name s₀ c way s') :
      Verdict name s₀ c way l i use s (.finished () s')

section Verdicts

variable (distinct : Function.Injective fun i => s₀.tokenOf (name i))
  (known : ∀ i, (s₀.tokenOf (name i)).reserved = false)
  {l : Account ι} {s : Session} {i : ι} {use : LockUse}

include distinct

theorem verdict_left (h : l.Accords name s₀ c way s) (takes : use.takesLock)
    (outside : l.holder ≠ some i) :
    Verdict name s₀ c way l i use s
      ((use.left (s₀.tokenOf (name i))).run (perform (name i)) s) := by
  have injective : Function.Injective name := fun i j hij => distinct (congrArg s₀.tokenOf hij)
  have used : ¬ l.Misused i use := mt (Account.misused_of_takesLock takes).mp outside
  cases hholder : l.holder with
  | none =>
      obtain ⟨s', hrun, haccords⟩ := h.run_left_free (i := i) injective hholder takes
      rw [hrun]
      refine .goesOn used ?_ haccords
      rintro ⟨-, j, -, hj⟩
      rw [hholder] at hj
      cases hj
  | some j =>
      rw [h.run_left_held hholder]
      refine .waits takes outside ⟨takes, j, ?_, hholder⟩
      rintro rfl
      exact outside hholder

include known

theorem verdict_task (h : l.Accords name s₀ c way s) (i : ι) (use : LockUse) :
    Verdict name s₀ c way l i use s (use.task.run (perform (name i)) s) := by
  have injective : Function.Injective name := fun i j hij => distinct (congrArg s₀.tokenOf hij)
  by_cases misused : l.Misused i use
  · obtain ⟨s', hrun, htold⟩ := h.run_misused distinct known misused
    rw [hrun]
    exact .ends misused htold
  · cases takes : use.takesLock with
    | true =>
        have outside := mt (Account.misused_of_takesLock takes).mpr misused
        rw [h.run_takesLock distinct known takes outside]
        exact verdict_left distinct h takes outside
    | false =>
        obtain ⟨s', hrun, haccords⟩ := h.run_release injective takes misused
        rw [hrun]
        refine .goesOn misused ?_ haccords
        rintro ⟨htakes, -⟩
        rw [takes] at htakes
        cases htakes

theorem Invariant.verdict {es : List (Event ι)} {x : Scene ι}
    (inv : Invariant name s₀ c way es x) {task : Task Unit} (turn : x.Turn i use task) :
    Verdict name s₀ c way (account es) i use x.session
      (task.run (perform (name i)) x.session) := by
  cases turn with
  | begins free => exact verdict_task distinct known inv.accords i use
  | goesOn waits =>
      obtain ⟨takes, outside, rfl⟩ := inv.waits i use _ waits
      exact verdict_left distinct inv.accords takes outside

end Verdicts

/-! ## Runs -/

theorem holder_after {l : Account ι} {i j : ι} {use : LockUse}
    (h : (l.after i use).holder = some j) : j = i ∨ l.holder = some j := by
  cases use with
  | lock => exact .inl (Option.some.inj h).symm
  | acquire => exact .inl (Option.some.inj h).symm
  | unlock => cases h
  | drop =>
      unfold Account.after at h
      cases hguards : l.guards i with
      | zero =>
          rw [hguards] at h
          exact .inr h
      | succ n =>
          rw [hguards] at h
          cases h
  | line message => exact .inr h
  | emptyLine => exact .inr h

section Waits

variable {l : Account ι} {waiting : ι → Option (LockUse × Task Unit)} {i : ι} {use : LockUse}

theorem WaitsAtLock.done (h : WaitsAtLock name s₀ l waiting) (i : ι) (use : LockUse) :
    WaitsAtLock name s₀ (l.after i use) (Function.update waiting i none) := by
  intro j use' rest hj
  by_cases hji : j = i
  · rw [hji, Function.update_self] at hj
    cases hj
  · rw [Function.update_of_ne hji] at hj
    obtain ⟨takes, outside, hrest⟩ := h j use' rest hj
    exact ⟨takes, fun holds => (holder_after holds).elim hji outside, hrest⟩

theorem WaitsAtLock.putAside (h : WaitsAtLock name s₀ l waiting) (takes : use.takesLock)
    (outside : l.holder ≠ some i) :
    WaitsAtLock name s₀ l
      (Function.update waiting i (some (use, use.left (s₀.tokenOf (name i))))) := by
  intro j use' rest hj
  by_cases hji : j = i
  · subst hji
    rw [Function.update_self] at hj
    cases hj
    exact ⟨takes, outside, rfl⟩
  · rw [Function.update_of_ne hji] at hj
    exact h j use' rest hj

end Waits

theorem Invariant.start (free : s₀.locks .log = CheckedMutex.unowned)
    (unguarded : ∀ i, s₀.guards (name i) = 0) (idle : s₀.Idle c) (out : s₀.wayOut = some way) :
    Invariant name s₀ c way [] (Scene.start s₀) where
  accords := {
    lock := free
    guards := unguarded
    idle := idle
    wayOut := out
    tokenOf := rfl
    lineEnd := rfl
    lockAddress := rfl
    takes := id
    told := fun takes before ht => (List.append_nil before).symm ▸ ht }
  waits := nofun
  bracketed := by
    intro fs e hprefix
    cases List.append_eq_nil_iff.mp (List.prefix_nil.mp hprefix) |>.2

theorem Invariant.step (distinct : Function.Injective fun i => s₀.tokenOf (name i))
    (known : ∀ i, (s₀.tokenOf (name i)).reserved = false) {es : List (Event ι)} {e : Event ι}
    {x y : Scene ι} (inv : Invariant name s₀ c way es x) (step : Step name x e y) :
    Invariant name s₀ c way (es ++ [e]) y := by
  cases step with
  | @done i use task s turn run =>
      have verdict := inv.verdict distinct known turn
      rw [run] at verdict
      cases verdict with
      | goesOn used free accords =>
          have haccount : account (es ++ [.done i use]) = (account es).after i use :=
            account_snoc ..
          refine ⟨?_, ?_, inv.bracketed.snoc used⟩
          · rw [haccount]
            exact accords
          · rw [haccount]
            exact inv.waits.done i use
  | @putAside i use task rest s turn run =>
      have verdict := inv.verdict distinct known turn
      rw [run] at verdict
      cases verdict with
      | waits takes outside blocked =>
          have haccount : account (es ++ [.putAside i use]) = account es := account_snoc ..
          have used := mt (Account.misused_of_takesLock takes).mp outside
          refine ⟨?_, ?_, inv.bracketed.snoc used⟩
          · rw [haccount]
            exact inv.accords
          · rw [haccount]
            exact inv.waits.putAside takes outside

theorem Run.invariant (distinct : Function.Injective fun i => s₀.tokenOf (name i))
    (known : ∀ i, (s₀.tokenOf (name i)).reserved = false)
    (free : s₀.locks .log = CheckedMutex.unowned) (unguarded : ∀ i, s₀.guards (name i) = 0)
    (idle : s₀.Idle c) (out : s₀.wayOut = some way) {es : List (Event ι)} {x : Scene ι}
    (run : Run name (Scene.start s₀) es x) : Invariant name s₀ c way es x := by
  induction run with
  | nil => exact .start free unguarded idle out
  | snoc _ step ih => exact ih.step distinct known step

/-- The run survives just the turns in which nobody takes the lock that it holds or releases one
that it does not hold, whatever guards it keeps.  A turn in which the lock is misused is the last:
it logs the misuse after all that was printed before, and ends the run. -/
theorem survives_until_misuse (distinct : Function.Injective fun i => s₀.tokenOf (name i))
    (known : ∀ i, (s₀.tokenOf (name i)).reserved = false)
    (free : s₀.locks .log = CheckedMutex.unowned) (unguarded : ∀ i, s₀.guards (name i) = 0)
    (idle : s₀.Idle c) (out : s₀.wayOut = some way) {es : List (Event ι)} {x : Scene ι}
    (run : Run name (Scene.start s₀) es x) {i : ι} {use : LockUse} {task : Task Unit}
    (turn : x.Turn i use task) :
    WellBracketed es ∧
      ((∃ e s, task.run (perform (name i)) x.session = .ended e s) ↔
        (account es).Misused i use) ∧
      ((account es).Misused i use →
        ∃ s, task.run (perform (name i)) x.session = .ended way.misused s ∧
          (s₀.Takes c → ∀ before, s₀.HasText c before →
            s.Holds c (before ++ (account es).said.flatMap s₀.spell ++
              FatalCall.misuseText s₀ (name i) use.operation use.error ++ s₀.lineEnd.bytes))) ∧
      ((account es).Blocked i use →
        ∃ rest, task.run (perform (name i)) x.session = .waiting rest x.session) ∧
      (¬ (account es).Misused i use → ¬ (account es).Blocked i use →
        ∃ s, task.run (perform (name i)) x.session = .finished () s) := by
  have inv := run.invariant distinct known free unguarded idle out
  have verdict := inv.verdict distinct known turn
  refine ⟨inv.bracketed, ?_⟩
  generalize task.run (perform (name i)) x.session = outcome at verdict ⊢
  cases verdict with
  | @ends s' misused told =>
      refine ⟨⟨fun _ => misused, fun _ => ⟨_, _, rfl⟩⟩, fun _ => ⟨s', rfl, told⟩, ?_,
        fun used => absurd misused used⟩
      rintro ⟨takes, j, hji, hj⟩
      rw [(Account.misused_of_takesLock takes).mp misused] at hj
      exact absurd (Option.some.inj hj).symm hji
  | waits takes outside blocked =>
      have used := mt (Account.misused_of_takesLock takes).mp outside
      exact ⟨⟨nofun, fun misused => absurd misused used⟩, fun misused => absurd misused used,
        fun _ => ⟨_, rfl⟩, fun _ free => absurd blocked free⟩
  | @goesOn s' used free accords =>
      exact ⟨⟨nofun, fun misused => absurd misused used⟩, fun misused => absurd misused used,
        fun blocked => absurd blocked free, fun _ _ => ⟨s', rfl⟩⟩

def twoThreads (i : Fin 2) : ThreadId :=
  .lasting i

/-- In a process the first thread unlocks by hand what its guard stands for, and drops the guard
when the second thread, which has waited, holds the lock.  In a guest the second thread unlocks what
the first one has locked. -/
theorem survives_until_stale_guard_is_dropped :
    (∃ es x s, Run twoThreads (Scene.start fresh.opened) es x ∧ x.Turn 0 drop drop.task ∧
      drop.task.run (perform (.lasting 0)) x.session = .ended (.exit 255) s ∧
      s.Holds .file (Bytes.ofString "b" ++ LineEnd.lf.bytes ++
        FatalCall.misuseText fresh.opened (.lasting 0) "unlock" .notOwner ++ LineEnd.lf.bytes)) ∧
    ∃ es x s, Run twoThreads (Scene.start (newGuest 1)) es x ∧ x.Turn 1 unlock unlock.task ∧
      unlock.task.run (perform (.lasting 1)) x.session = .ended (.halt 1 (-1)) s ∧
      s.Holds (.console 1) (FatalCall.misuseText (newGuest 1) (.lasting 1) "unlock" .notOwner ++
        LineEnd.lf.bytes) := by
  constructor
  · have distinct : Function.Injective fun i => fresh.opened.tokenOf (twoThreads i) := by
      intro i j
      revert i j
      decide +kernel
    have idle : fresh.opened.Idle .file := ⟨rfl, rfl⟩
    have takes : fresh.opened.Takes .file := ⟨_, _, rfl, by decide +kernel⟩
    have out : fresh.opened.wayOut = some .process := rfl
    have start : Run twoThreads (Scene.start fresh.opened) [] (Scene.start fresh.opened) := .nil
    have acquired := start.snoc (.done (i := 0) (.begins acquire rfl) rfl)
    have waits := acquired.snoc
      (.putAside (i := 1) (.begins (line [.text (Bytes.ofString "b")]) rfl) rfl)
    have unlocked := waits.snoc (.done (i := 0) (.begins unlock rfl) rfl)
    have printed := unlocked.snoc (.done (i := 1) (.goesOn rfl) rfl)
    have locked := printed.snoc (.done (i := 1) (.begins lock rfl) rfl)
    obtain ⟨-, -, hends, -, -⟩ := survives_until_misuse distinct (by decide +kernel) rfl
      (fun _ => rfl) idle out locked (i := 0) (.begins drop rfl)
    obtain ⟨s, hrun, hholds⟩ := hends ⟨by decide, by decide⟩
    exact ⟨_, _, s, locked, .begins drop rfl, hrun, hholds takes [] ⟨[], rfl, rfl⟩⟩
  · have distinct : Function.Injective fun i => (newGuest 1).tokenOf (twoThreads i) := by
      intro i j
      revert i j
      decide +kernel
    have idle : (newGuest 1).Idle (.console 1) := ⟨1, rfl, rfl⟩
    have takes : (newGuest 1).Takes (.console 1) := ⟨1, rfl⟩
    have out : (newGuest 1).wayOut = some (.console 1) := rfl
    have start : Run twoThreads (Scene.start (newGuest 1)) [] (Scene.start (newGuest 1)) := .nil
    have locked := start.snoc (.done (i := 0) (.begins lock rfl) rfl)
    obtain ⟨-, -, hends, -, -⟩ := survives_until_misuse distinct (by decide +kernel) rfl
      (fun _ => rfl) idle out locked (i := 1) (.begins unlock rfl)
    obtain ⟨s, hrun, hholds⟩ := hends (by show some 0 ≠ some 1; decide)
    refine ⟨_, _, s, locked, .begins unlock rfl, hrun, hholds takes [] ?_⟩
    rintro id ⟨⟩
    rfl

end LockUse

end DiagnosticLog
