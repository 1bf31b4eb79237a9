/-!
# Threads

A run has threads that live through the whole of it and threads that live through one step only.
A task does not know which thread runs it: it makes its requests as that thread, whichever it is,
or as a thread that it has started itself.
-/

namespace DiagnosticLog

inductive ThreadId where
  /-- A thread that lives through the whole run. -/
  | lasting (n : Nat)
  /-- A thread that lives through one step only. -/
  | passing (n : Nat)
  deriving DecidableEq, Repr

inductive Caller where
  /-- The thread that runs the task. -/
  | runner
  /-- A thread that the task has started. -/
  | started (n : Nat)
  deriving DecidableEq, Repr

def update {α β : Type} [DecidableEq α] (f : α → β) (a : α) (b : β) : α → β :=
  fun x => if x = a then b else f x

@[simp] theorem update_self {α β : Type} [DecidableEq α] (f : α → β) (a : α) (b : β) :
    update f a b a = b := by
  simp [update]

@[simp] theorem update_of_ne {α β : Type} [DecidableEq α] {f : α → β} {a x : α} {b : β}
    (h : x ≠ a) : update f a b x = f x := by
  simp [update, h]

theorem update_eq_self {α β : Type} [DecidableEq α] (f : α → β) (a : α) :
    update f a (f a) = f := by
  funext x
  unfold update
  split
  · rename_i hx
    rw [hx]
  · rfl

theorem update_update {α β : Type} [DecidableEq α] (f : α → β) (a : α) (b c : β) :
    update (update f a b) a c = update f a c := by
  funext x
  unfold update
  split <;> rfl

/-- The thread a caller is, in a task that is run by the given thread. -/
def Caller.thread (runner : ThreadId) : Caller → ThreadId
  | .runner => runner
  | .started n => .passing n

end DiagnosticLog
