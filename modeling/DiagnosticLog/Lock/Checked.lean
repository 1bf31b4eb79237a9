import DiagnosticLog.Lock.Raw
import DiagnosticLog.Program

/-!
# The owner-checking mutex

A statement of the log is made of several prints, so its lock is entered and left by separate
calls.  The mutex remembers the token of the thread that entered it, and so turns a second entry
by the owner and an exit by anyone else into an error instead of a hang or a broken statement.

The mutex is two variables, a raw lock and the owner, and entering and leaving it are short
programs of atomic accesses to them.  They can be run alone (`CheckedMutex.perform`) or
interleaved access by access.
-/

namespace DiagnosticLog

/-- The name a thread gives of itself. -/
abbrev Token : Type := UInt64

namespace Token

/-- The owner of a mutex nobody owns; no thread has this token. -/
def noOwner : Token := 0xFFFFFFFFFFFFFFFF

/-- The token of a thread whose identity is not known.  Such threads exclude each other, but are
checked neither for a second entry nor for leaving what others entered. -/
def anonymous : Token := 0xFFFFFFFFFFFFFFFE

/-- The tokens that no thread reports as its own. -/
def reserved (t : Token) : Bool :=
  t == noOwner || t == anonymous

theorem ne_noOwner_of_not_reserved {t : Token} (h : t.reserved = false) : t ≠ noOwner := by
  rintro rfl
  simp [reserved] at h

theorem ne_anonymous_of_not_reserved {t : Token} (h : t.reserved = false) : t ≠ anonymous := by
  rintro rfl
  simp [reserved] at h

end Token

/-- Why a mutex could not be entered or left. -/
inductive MutexError where
  /-- The caller owns the mutex already. -/
  | deadlock
  /-- The mutex is free, or owned by another thread. -/
  | notOwner
  deriving DecidableEq, Repr

def MutexError.message : MutexError → String
  | deadlock => "resource deadlock avoided"
  | notOwner => "operation not permitted"

/-- A raw lock with the token of the thread that took it. -/
structure CheckedMutex (L : Type) where
  raw : L
  owner : Token
  deriving DecidableEq, Repr

/-- One atomic access to a mutex. -/
inductive Access where
  | loadOwner
  | storeOwner (owner : Token)
  | lockRaw
  | tryLockRaw
  | isLocked
  | unlockRaw
  deriving DecidableEq, Repr

@[reducible] def Access.Reply : Access → Type
  | loadOwner => Token
  | storeOwner _ => Unit
  | lockRaw => Unit
  | tryLockRaw => Bool
  | isLocked => Bool
  | unlockRaw => Unit

abbrev Access.interface : Interface :=
  ⟨Access, Access.Reply⟩

def Access.make (a : Access) : Program Access.interface a.Reply :=
  .ask a .done

@[simp] theorem Access.make_bind {α : Type} (a : Access)
    (f : a.Reply → Program Access.interface α) : (Access.make a >>= f) = .ask a f := rfl

namespace CheckedMutex

variable {L : Type} [RawLock L]

def unowned : CheckedMutex L :=
  ⟨RawLock.unlocked, Token.noOwner⟩

instance : Inhabited (CheckedMutex L) :=
  ⟨unowned⟩

/-- What each access does.  Only taking the raw lock can make its caller wait. -/
def perform : Machine Access.interface (CheckedMutex L) Empty
  | .loadOwner, m => .reply m.owner m
  | .storeOwner owner, m => .reply () { m with owner }
  | .lockRaw, m =>
      match RawLock.lock m.raw with
      | some raw => .reply () { m with raw }
      | none => .wait
  | .tryLockRaw, m => .reply (RawLock.tryLock m.raw).1 { m with raw := (RawLock.tryLock m.raw).2 }
  | .isLocked, m => .reply (RawLock.isLocked m.raw) m
  | .unlockRaw, m => .reply () { m with raw := RawLock.unlock m.raw }

/-! ## Entering and leaving -/

/-- Take the raw lock, waiting for it if need be, and then own the mutex. -/
def take (me : Token) : Program Access.interface (Except MutexError Unit) := do
  Access.make .lockRaw
  Access.make (.storeOwner me)
  return .ok ()

/--
Enter the mutex as the thread with token `me`.

The owner is cleared before the raw lock is freed, so only the thread inside can find its own
token here.  The check is made once, before waiting.
-/
def enterAs (me : Token) : Program Access.interface (Except MutexError Unit) := do
  if me = Token.anonymous then
    take me
  else
    let owner ← Access.make .loadOwner
    if owner = me then
      return .error .deadlock
    else
      take me

def give : Program Access.interface (Except MutexError Unit) := do
  Access.make (.storeOwner Token.noOwner)
  Access.make .unlockRaw
  return .ok ()

/-- Leave the mutex as the thread with token `me`.  Where the caller or the owner is anonymous,
it is enough that somebody is inside. -/
def exitAs (me : Token) : Program Access.interface (Except MutexError Unit) := do
  let locked ← Access.make .isLocked
  if locked then
    let owner ← Access.make .loadOwner
    if me ≠ Token.anonymous ∧ owner ≠ Token.anonymous ∧ owner ≠ me then
      return .error .notOwner
    else
      give
  else
    return .error .notOwner

end CheckedMutex

end DiagnosticLog
