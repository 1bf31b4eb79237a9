/-!
# Raw locks

A raw lock excludes and knows nothing of owners: it is locked or not, and whoever unlocks it
unlocks it.  `RawLock` names the accesses, `LawfulRawLock` the contract that anything built on a
raw lock may rely on, and `SpinLock` is the busy-waiting lock that meets it.
-/

namespace DiagnosticLog

/-- The accesses of a raw lock, each of them atomic. -/
class RawLock (L : Type) where
  unlocked : L
  /-- Take the lock; `none` when the caller has to wait. -/
  lock : L → Option L
  /-- Take the lock if it is free, and tell whether it was. -/
  tryLock : L → Bool × L
  /-- Tell whether the lock is taken. -/
  isLocked : L → Bool
  /-- Free the lock. -/
  unlock : L → L

/-- The contract of raw locks.  Nothing is promised of unlocking a lock that is free. -/
class LawfulRawLock (L : Type) [RawLock L] : Prop where
  isLocked_unlocked : RawLock.isLocked (RawLock.unlocked : L) = false
  lock_eq_none_iff (l : L) : RawLock.lock l = none ↔ RawLock.isLocked l = true
  isLocked_of_lock {l l' : L} : RawLock.lock l = some l' → RawLock.isLocked l' = true
  tryLock_fst (l : L) : (RawLock.tryLock l).1 = !RawLock.isLocked l
  isLocked_tryLock (l : L) : RawLock.isLocked (RawLock.tryLock l).2 = true
  isLocked_unlock (l : L) :
    RawLock.isLocked l = true → RawLock.isLocked (RawLock.unlock l) = false

/-- A lock of one flag that waiting threads keep testing. -/
structure SpinLock where
  flag : Bool
  deriving DecidableEq, Repr

namespace SpinLock

/-- Set the flag and tell what it was before, in one access. -/
def swap (l : SpinLock) (flag : Bool) : Bool × SpinLock :=
  (l.flag, ⟨flag⟩)

/-- One round of taking the lock: whoever finds the flag unset has set it first. -/
def lock (l : SpinLock) : Option SpinLock :=
  match l.swap true with
  | (false, l') => some l'
  | (true, _) => none

def tryLock (l : SpinLock) : Bool × SpinLock :=
  ((!(l.swap true).1), (l.swap true).2)

instance : RawLock SpinLock where
  unlocked := ⟨false⟩
  lock := lock
  tryLock := tryLock
  isLocked := flag
  unlock _ := ⟨false⟩

instance : LawfulRawLock SpinLock where
  isLocked_unlocked := rfl
  lock_eq_none_iff := by
    rintro ⟨flag⟩
    cases flag <;> simp [RawLock.lock, RawLock.isLocked, lock, swap]
  isLocked_of_lock := by
    rintro ⟨flag⟩ l' h
    cases flag <;> simp [RawLock.lock, lock, swap] at h
    subst h
    rfl
  tryLock_fst _ := rfl
  isLocked_tryLock _ := rfl
  isLocked_unlock _ _ := rfl

end SpinLock

end DiagnosticLog
