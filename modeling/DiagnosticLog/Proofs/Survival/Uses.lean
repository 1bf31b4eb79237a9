import DiagnosticLog.Proofs.Statement.Whole
import DiagnosticLog.Proofs.Survival.Idle

/-!
# Uses of the log lock

The log lock is taken and released by hand, by guards, and by the operations that log a whole line.
An account of the uses says who holds it, which guards are kept and what has been printed.  A
session accords with the account as long as the lock has not been misused, and then the account
tells what comes of the next use: it ends the run (`Accords.run_misused`), it waits
(`Accords.run_left_held`), or it is done and the session accords with the account again
(`Accords.run_left_free`, `Accords.run_release`).
-/

namespace DiagnosticLog

open Session

inductive LockUse where
  | lock
  | unlock
  /-- Take the lock and keep a guard. -/
  | acquire
  /-- Give up the guard kept last. -/
  | drop
  | line (message : List Piece)
  | emptyLine
  deriving DecidableEq, Repr

namespace LockUse

def task : LockUse → Task Unit
  | lock => Log.lock
  | unlock => Log.unlock
  | acquire => Log.acquireGuard
  | drop => Log.dropGuard
  | line message => do
      let _ ← Log.println (Message.ofPieces message)
  | emptyLine => do
      let _ ← Log.printlnEmpty

def takesLock : LockUse → Bool
  | unlock => false
  | drop => false
  | _ => true

/-- What a use does when it has taken the lock, if it takes it. -/
def inner : LockUse → Task Unit
  | acquire => Request.make .pushGuard
  | line message => (Statement.line message).inner
  | emptyLine => Statement.emptyLine.inner
  | _ => return ()

def operation (use : LockUse) : String :=
  if use.takesLock then "lock" else "unlock"

def error (use : LockUse) : MutexError :=
  if use.takesLock then .deadlock else .notOwner

theorem task_eq_lock_inner {use : LockUse} (takes : use.takesLock) :
    use.task = (do Log.lock; use.inner) := by
  cases use with
  | lock => exact (bind_pure Log.lock).symm
  | acquire => rfl
  | line message => exact (Statement.line message).task_eq_lock_inner
  | emptyLine => exact Statement.emptyLine.task_eq_lock_inner
  | unlock => cases takes
  | drop => cases takes

end LockUse

structure Account (ι : Type) where
  holder : Option ι
  /-- The number of guards that each thread keeps. -/
  guards : ι → Nat
  said : List Piece

namespace Account

variable {ι : Type}

def empty : Account ι :=
  ⟨none, fun _ => 0, []⟩

def after [DecidableEq ι] (l : Account ι) (i : ι) : LockUse → Account ι
  | .lock => { l with holder := some i }
  | .unlock => { l with holder := none }
  | .acquire =>
      { l with holder := some i, guards := Function.update l.guards i (l.guards i + 1) }
  | .drop =>
      match l.guards i with
      | 0 => l
      | n + 1 => { l with holder := none, guards := Function.update l.guards i n }
  | .line message => { l with said := l.said ++ (message ++ [.lineEnd]) }
  | .emptyLine => { l with said := l.said ++ [.lineEnd] }

/-- Thread `i` takes the lock while it holds it, or releases it while it does not. -/
def Misused (l : Account ι) (i : ι) : LockUse → Prop
  | .unlock => l.holder ≠ some i
  | .drop => 0 < l.guards i ∧ l.holder ≠ some i
  | _ => l.holder = some i

/-- Another thread holds the lock that thread `i` is to take. -/
def Blocked (l : Account ι) (i : ι) (use : LockUse) : Prop :=
  use.takesLock ∧ ∃ j, j ≠ i ∧ l.holder = some j

theorem misused_of_takesLock {l : Account ι} {i : ι} {use : LockUse} (takes : use.takesLock) :
    l.Misused i use ↔ l.holder = some i := by
  cases use with
  | unlock => cases takes
  | drop => cases takes
  | _ => exact Iff.rfl

end Account

/-! ## The lock in a session -/

/-- What is left of taking the log lock to a thread that has found that it does not own it. -/
def Log.atLock (me : Token) : Task Unit :=
  .ask (Request.access .log .lockRaw).demand fun _ =>
    .ask (Request.access .log (.storeOwner me)).demand fun _ => return ()

def LockUse.left (me : Token) (use : LockUse) : Task Unit := do
  Log.atLock me
  use.inner

namespace Session

variable {s : Session} {t : ThreadId} {me other : Token}

theorem lock_eq : Log.lock = .ask Request.self.demand fun me =>
    if me = Token.anonymous then Log.atLock me
    else
      .ask (Request.access .log .loadOwner).demand fun owner =>
        if owner = me then Log.mutexFailure "lock" .deadlock else Log.atLock me := by
  unfold Log.lock Log.enter
  rw [Request.make_bind, Program.ask_bind]
  congr 1
  funext me
  by_cases known : me = Token.anonymous
  · simp only [CheckedMutex.enterAs, if_pos known]
    rfl
  · rw [if_neg known, Statement.onLock_enterAs known, Program.ask_bind]
    congr 1
    funext owner
    split <;> rfl

theorem run_lock (known : s.tokenOf t ≠ Token.anonymous)
    (foreign : (s.locks .log).owner ≠ s.tokenOf t) :
    Log.lock.run (perform t) s = (Log.atLock (s.tokenOf t)).run (perform t) s := by
  rw [lock_eq, Program.run_ask_of_reply (reply_self s t), if_neg known,
    Program.run_ask_of_reply (reply_loadOwner s t), if_neg foreign]

theorem run_atLock_free (free : s.locks .log = CheckedMutex.unowned) :
    (Log.atLock me).run (perform t) s = .finished () (s.setLock (lockOf me)) := by
  have htake : perform t (Request.access .log .lockRaw).demand s =
      .reply () (s.setLock (lockOf Token.noOwner)) :=
    reply_access (by rw [free]; rfl)
  have hstore := reply_storeOwner (t := t) (locks_setLock s (lockOf Token.noOwner)) me
  rw [setLock_setLock] at hstore
  unfold Log.atLock
  rw [Program.run_ask_of_reply htake, Program.run_ask_of_reply hstore]
  rfl

theorem run_atLock_held (held : s.locks .log = lockOf other) :
    (Log.atLock me).run (perform t) s = .waiting (Log.atLock me) s := by
  apply Program.run_ask_of_wait
  apply Statement.lockRaw_taken
  rw [held]
  rfl

def MayRelease (s : Session) (t : ThreadId) : Prop :=
  (s.locks .log).raw.flag = true ∧
    ¬ CheckedMutex.Stage.Foreign (s.tokenOf t) (s.locks .log).owner

theorem unlock_eq : Log.unlock = .ask Request.self.demand fun me =>
    .ask (Request.access .log .isLocked).demand fun locked =>
      if locked then
        .ask (Request.access .log .loadOwner).demand fun owner =>
          if CheckedMutex.Stage.Foreign me owner then Log.mutexFailure "unlock" .notOwner
          else
            .ask (Request.access .log (.storeOwner Token.noOwner)).demand fun _ =>
              .ask (Request.access .log .unlockRaw).demand fun _ => .done ()
      else Log.mutexFailure "unlock" .notOwner := by
  unfold Log.unlock Log.leave
  rw [Request.make_bind, Program.ask_bind]
  congr 1
  funext me
  rw [onLock_exitAs, Program.ask_bind]
  congr 1
  funext locked
  cases locked with
  | false => rfl
  | true =>
      simp only [if_true, Program.ask_bind]
      congr 1
      funext owner
      split <;> rfl

theorem run_release (may : s.MayRelease t) :
    Log.unlock.run (perform t) s = .finished () (s.setLock CheckedMutex.unowned) := by
  obtain ⟨taken, own⟩ := may
  have hdisown : perform t (Request.access .log (.storeOwner Token.noOwner)).demand s =
      .reply () (s.setLock ⟨(s.locks .log).raw, Token.noOwner⟩) := reply_storeOwner rfl _
  have hfree := reply_unlockRaw (t := t)
    (locks_setLock s ⟨(s.locks .log).raw, Token.noOwner⟩)
  rw [setLock_setLock] at hfree
  rw [unlock_eq, Program.run_ask_of_reply (reply_self s t),
    Program.run_ask_of_reply (reply_isLocked s t), if_pos taken,
    Program.run_ask_of_reply (reply_loadOwner s t), if_neg own,
    Program.run_ask_of_reply hdisown, Program.run_ask_of_reply hfree]
  rfl

theorem run_unlock_own (own : s.locks .log = lockOf (s.tokenOf t)) :
    Log.unlock.run (perform t) s = .finished () (s.setLock CheckedMutex.unowned) := by
  apply run_release
  rw [MayRelease, own]
  exact ⟨rfl, fun foreign => foreign.2.2 rfl⟩

theorem run_dropGuard {n : Nat} (kept : s.guards t = n + 1) :
    Log.dropGuard.run (perform t) s = Log.unlock.run (perform t) (s.setGuards t n) := by
  have hpop : perform t Request.popGuard.demand s = .reply true (s.setGuards t n) :=
    reply_popGuard kept
  unfold Log.dropGuard
  rw [Request.make_bind, Program.run_ask_of_reply hpop]
  rfl

theorem run_dropGuard_none (none : s.guards t = 0) :
    Log.dropGuard.run (perform t) s = .finished () s := by
  have hpop : perform t Request.popGuard.demand s = .reply false s := by
    simp only [perform_demand, performAs, none]
  unfold Log.dropGuard
  rw [Request.make_bind, Program.run_ask_of_reply hpop]
  rfl

end Session

/-! ## Sessions that accord with an account -/

namespace Account

variable {ι : Type}

/-- The lock as the account has it, where threads have these tokens. -/
def mutex (token : ι → Token) (l : Account ι) : CheckedMutex SpinLock :=
  match l.holder with
  | none => CheckedMutex.unowned
  | some i => lockOf (token i)

/-- Apart from its locks and guards, this has become of the session `s₀` when the pieces have been
said: nobody is in the middle of a print, and nothing that a use depends on has changed. -/
structure Continues (s₀ : Session) (c : Channel) (way : WayOut) (said : List Piece) (s : Session) :
    Prop where
  idle : s.Idle c
  wayOut : s.wayOut = some way
  tokenOf : s.tokenOf = s₀.tokenOf
  lineEnd : s.lineEnd = s₀.lineEnd
  lockAddress : s.lockAddress = s₀.lockAddress
  takes : s₀.Takes c → s.Takes c
  told : s₀.Takes c → ∀ before, s₀.HasText c before →
    s.HasText c (before ++ said.flatMap s₀.spell)

namespace Continues

variable {s₀ s s' : Session} {c : Channel} {way : WayOut} {said : List Piece}

theorem of_rest (h : Continues s₀ c way said s)
    (rest : s' = { s with locks := s'.locks, guards := s'.guards }) :
    Continues s₀ c way said s' := by
  rw [rest]
  exact ⟨h.idle.of_platform rfl, h.wayOut, h.tokenOf, h.lineEnd, h.lockAddress, h.takes,
    fun takes before ht => (h.told takes before ht).of_platform rfl⟩

theorem puts (h : Continues s₀ c way said s) {ps : List Piece} (puts : s.Puts c ps s') :
    Continues s₀ c way (said ++ ps) s' where
  idle := puts.idle h.idle
  wayOut := puts.wayOut.trans h.wayOut
  tokenOf := puts.alike.tokenOf.trans h.tokenOf
  lineEnd := puts.alike.lineEnd.trans h.lineEnd
  lockAddress := by rw [puts.alike.rest, h.lockAddress]
  takes takes := puts.takes (h.takes takes)
  told takes before ht := by
    have hspell : s.spell = s₀.spell := by rw [spell_eq, h.lineEnd, spell_eq]
    have hsaid := puts.hasText (h.takes takes) (h.told takes before ht)
    rw [hspell, List.append_assoc, ← List.flatMap_append] at hsaid
    exact hsaid

end Continues

structure Accords (name : ι → ThreadId) (s₀ : Session) (c : Channel) (way : WayOut)
    (l : Account ι) (s : Session) : Prop extends Continues s₀ c way l.said s where
  lock : s.locks .log = l.mutex fun i => s₀.tokenOf (name i)
  guards : ∀ i, s.guards (name i) = l.guards i

namespace Accords

variable {name : ι → ThreadId} {s₀ s s' : Session} {c : Channel} {way : WayOut} {l : Account ι}
  {i : ι} {use : LockUse}

theorem setHolder (h : Accords name s₀ c way l s) (holder : Option ι) :
    Accords name s₀ c way { l with holder }
      (s.setLock (mutex (fun i => s₀.tokenOf (name i)) { l with holder })) where
  toContinues := h.toContinues.of_rest rfl
  lock := locks_setLock s _
  guards := h.guards

theorem setGuards [DecidableEq ι] (h : Accords name s₀ c way l s)
    (injective : Function.Injective name) (i : ι) (n : Nat) :
    Accords name s₀ c way { l with guards := Function.update l.guards i n }
      (s.setGuards (name i) n) where
  toContinues := h.toContinues.of_rest rfl
  lock := h.lock
  guards := by
    intro j
    show update s.guards (name i) n (name j) = Function.update l.guards i n j
    by_cases hj : j = i
    · rw [hj, update_self, Function.update_self]
    · rw [update_of_ne fun he => hj (injective he), Function.update_of_ne hj, h.guards]

theorem puts (h : Accords name s₀ c way l s) {ps : List Piece} (puts : s.Puts c ps s') :
    Accords name s₀ c way { l with said := l.said ++ ps } s' where
  toContinues := h.toContinues.puts puts
  lock := by rw [puts.alike.locks, h.lock, mutex, mutex]
  guards i := by rw [puts.alike.guards, h.guards]

/-! ### Misuse -/

theorem run_failure (h : Accords name s₀ c way l s) (t : ThreadId) (operation : String)
    (e : MutexError) :
    ∃ s', (Log.mutexFailure operation e : Task Unit).run (perform t) s = .ended way.misused s' ∧
      (s₀.Takes c → ∀ before, s₀.HasText c before →
        s'.Holds c (before ++ l.said.flatMap s₀.spell ++
          FatalCall.misuseText s₀ t operation e ++ s₀.lineEnd.bytes)) := by
  obtain ⟨s', hrun, hholds⟩ := run_mutexFailure_idle (α := Unit) h.idle h.wayOut t operation e
  refine ⟨s', hrun, fun takes before ht => ?_⟩
  have hsaid := hholds (h.takes takes) _ (h.told takes before ht)
  rw [FatalCall.misuseText, h.tokenOf, h.lockAddress, h.lineEnd] at hsaid
  exact hsaid

section Tokens

variable (distinct : Function.Injective fun i => s₀.tokenOf (name i))
  (known : ∀ i, (s₀.tokenOf (name i)).reserved = false)

include known

theorem known_tokenOf (h : Accords name s₀ c way l s) (i : ι) :
    s.tokenOf (name i) ≠ Token.anonymous := by
  rw [h.tokenOf]
  exact Token.ne_anonymous_of_not_reserved (known i)

include distinct

theorem owner_ne (h : Accords name s₀ c way l s) (foreign : l.holder ≠ some i) :
    (s.locks .log).owner ≠ s.tokenOf (name i) := by
  rw [h.lock, h.tokenOf]
  unfold mutex
  split
  · exact (Token.ne_noOwner_of_not_reserved (known i)).symm
  · rename_i j hj
    intro he
    rw [hj, distinct he] at foreign
    exact foreign rfl

theorem run_unlock_foreign (h : Accords name s₀ c way l s) (foreign : l.holder ≠ some i) :
    Log.unlock.run (perform (name i)) s =
      (Log.mutexFailure "unlock" .notOwner : Task Unit).run (perform (name i)) s := by
  apply FatalCall.run_unlock
  cases hl : l.holder with
  | none =>
      left
      rw [h.lock, mutex, hl]
      rfl
  | some j =>
      have howner : (s.locks .log).owner = s₀.tokenOf (name j) := by
        rw [h.lock, mutex, hl]
        rfl
      refine .inr ⟨h.known_tokenOf known i, ?_, h.owner_ne distinct known foreign⟩
      rw [howner]
      exact Token.ne_anonymous_of_not_reserved (known j)

/-- A misuse ends the run, and is told after all that was printed before. -/
theorem run_misused [DecidableEq ι] (h : Accords name s₀ c way l s)
    (misused : l.Misused i use) :
    ∃ s', use.task.run (perform (name i)) s = .ended way.misused s' ∧
      (s₀.Takes c → ∀ before, s₀.HasText c before →
        s'.Holds c (before ++ l.said.flatMap s₀.spell ++
          FatalCall.misuseText s₀ (name i) use.operation use.error ++ s₀.lineEnd.bytes)) := by
  have injective : Function.Injective name := fun i j hij => distinct (congrArg s₀.tokenOf hij)
  cases htakes : use.takesLock with
  | true =>
      have holds := (misused_of_takesLock htakes).mp misused
      have howner : (s.locks .log).owner = s.tokenOf (name i) := by
        rw [h.lock, mutex, holds, h.tokenOf]
        rfl
      obtain ⟨s', hrun, hholds⟩ := h.run_failure (name i) "lock" .deadlock
      have hlock := (FatalCall.run_lock ⟨h.known_tokenOf known i, howner⟩).trans hrun
      rw [LockUse.task_eq_lock_inner htakes, Program.run_bind_of_ended hlock, LockUse.operation,
        LockUse.error, htakes]
      exact ⟨s', rfl, hholds⟩
  | false =>
      cases use with
      | unlock =>
          obtain ⟨s', hrun, hholds⟩ := h.run_failure (name i) "unlock" .notOwner
          exact ⟨s', (h.run_unlock_foreign distinct known misused).trans hrun, hholds⟩
      | drop =>
          obtain ⟨hkept, foreign⟩ := misused
          obtain ⟨n, hn⟩ := Nat.exists_eq_add_one.mpr hkept
          have hdrop := run_dropGuard ((h.guards i).trans hn)
          have hleft := h.setGuards injective i n
          obtain ⟨s', hrun, hholds⟩ := hleft.run_failure (name i) "unlock" .notOwner
          have hunlock := hleft.run_unlock_foreign distinct known foreign
          exact ⟨s', hdrop.trans (hunlock.trans hrun), hholds⟩
      | _ => cases htakes

/-! ### Use -/

theorem run_takesLock (h : Accords name s₀ c way l s) (takes : use.takesLock)
    (outside : l.holder ≠ some i) :
    use.task.run (perform (name i)) s =
      (use.left (s₀.tokenOf (name i))).run (perform (name i)) s := by
  have hlock := run_lock (h.known_tokenOf known i) (h.owner_ne distinct known outside)
  rw [LockUse.task_eq_lock_inner takes, LockUse.left, Program.run_bind, hlock, h.tokenOf,
    Program.run_bind]

end Tokens

theorem run_left_held (h : Accords name s₀ c way l s) {j : ι} (held : l.holder = some j)
    (me : Token) (use : LockUse) (t : ThreadId) :
    (use.left me).run (perform t) s = .waiting (use.left me) s := by
  have hlock : s.locks .log = lockOf (s₀.tokenOf (name j)) := by
    rw [h.lock, mutex, held]
  exact Program.run_bind_of_waiting (run_atLock_held hlock) _

theorem run_unlock (h : Accords name s₀ c way l s) (own : l.holder = some i) :
    ∃ s', Log.unlock.run (perform (name i)) s = .finished () s' ∧
      Accords name s₀ c way { l with holder := none } s' := by
  have hown : s.locks .log = lockOf (s.tokenOf (name i)) := by
    rw [h.lock, mutex, own, h.tokenOf]
  exact ⟨_, run_unlock_own hown, h.setHolder none⟩

theorem run_then_unlock (h : Accords name s₀ c way l s) (own : l.holder = some i)
    {α : Type} {said : Task α} {a : α} {ps : List Piece}
    (speaks : said.run (perform (name i)) s = .finished a s') (puts : s.Puts c ps s') :
    ∃ s'', (said >>= fun _ => Log.unlock).run (perform (name i)) s = .finished () s'' ∧
      Accords name s₀ c way { l with holder := none, said := l.said ++ ps } s'' := by
  obtain ⟨s'', hunlock, haccords⟩ := (h.puts puts).run_unlock (i := i) own
  exact ⟨s'', (Program.run_bind_of_finished speaks _).trans hunlock, haccords⟩

variable [DecidableEq ι] (injective : Function.Injective name)

include injective

theorem run_inner (h : Accords name s₀ c way { l with holder := some i } s)
    (free : l.holder = none) (takes : use.takesLock) :
    ∃ s', use.inner.run (perform (name i)) s = .finished () s' ∧
      Accords name s₀ c way (l.after i use) s' := by
  cases l with
  | mk holder guards said =>
      cases free
      cases use with
      | lock => exact ⟨s, rfl, h⟩
      | acquire =>
          have hpush : LockUse.acquire.inner.run (perform (name i)) s =
              .finished () (s.setGuards (name i) (s.guards (name i) + 1)) := rfl
          rw [h.guards] at hpush
          exact ⟨_, hpush, h.setGuards injective i (guards i + 1)⟩
      | line message =>
          obtain ⟨s', hline, hputs⟩ := run_line_idle h.idle (name i) message
          exact h.run_then_unlock rfl hline hputs
      | emptyLine =>
          obtain ⟨s', hend, hputs⟩ := run_printWith h.idle (name i) .patient [.lineEnd]
          exact h.run_then_unlock rfl hend hputs
      | unlock => cases takes
      | drop => cases takes

theorem run_left_free (h : Accords name s₀ c way l s) (free : l.holder = none)
    (takes : use.takesLock) :
    ∃ s', (use.left (s₀.tokenOf (name i))).run (perform (name i)) s = .finished () s' ∧
      Accords name s₀ c way (l.after i use) s' := by
  have hfree : s.locks .log = CheckedMutex.unowned := by
    rw [h.lock, mutex, free]
  obtain ⟨s', hinner, haccords⟩ := (h.setHolder (some i)).run_inner injective free takes
  exact ⟨s', (Program.run_bind_of_finished (run_atLock_free hfree) _).trans hinner, haccords⟩

theorem run_release (h : Accords name s₀ c way l s) (releases : use.takesLock = false)
    (used : ¬ l.Misused i use) :
    ∃ s', use.task.run (perform (name i)) s = .finished () s' ∧
      Accords name s₀ c way (l.after i use) s' := by
  cases use with
  | unlock => exact h.run_unlock (Decidable.not_not.mp used)
  | drop =>
      cases hguards : l.guards i with
      | zero =>
          refine ⟨s, run_dropGuard_none ((h.guards i).trans hguards), ?_⟩
          simp only [after, hguards]
          exact h
      | succ n =>
          have own : l.holder = some i := by
            refine Decidable.not_not.mp fun foreign => used ⟨?_, foreign⟩
            omega
          obtain ⟨s', hunlock, haccords⟩ := (h.setGuards injective i n).run_unlock own
          refine ⟨s', (run_dropGuard ((h.guards i).trans hguards)).trans hunlock, ?_⟩
          simp only [after, hguards]
          exact haccords
  | _ => cases releases

end Accords

end Account

end DiagnosticLog
