/-!
# Programs that ask a machine

A program is a tree of requests: it is finished, or it makes one request and goes on with the
reply.  What a request does is not part of the program; a machine gives it its effect.  The same
program can therefore be run alone, be stopped where it has to wait and be taken up again later,
or be interleaved with other programs one request at a time.

The main statements are the monad laws of programs and `Program.run_bind`: running a sequence is
running its first part and then its second.
-/

namespace DiagnosticLog

/-- What may be asked of a machine, and the type of the reply to each request. -/
structure Interface where
  Request : Type
  Reply : Request → Type

/-- A finite-branching tree of requests with results of type `α` at its leaves. -/
inductive Program (I : Interface) (α : Type) : Type where
  | done (result : α)
  /-- The program makes a request and goes on with its reply. -/
  | ask (request : I.Request) (next : I.Reply request → Program I α)

namespace Program

variable {I J : Interface} {α β γ : Type}

def bind : Program I α → (α → Program I β) → Program I β
  | done a, f => f a
  | ask r next, f => ask r fun reply => (next reply).bind f

instance : Monad (Program I) where
  pure := done
  bind := bind

def request (r : I.Request) : Program I (I.Reply r) :=
  ask r done

@[simp] theorem pure_eq_done (a : α) : (pure a : Program I α) = done a := rfl

@[simp] theorem done_bind (a : α) (f : α → Program I β) : (done a >>= f) = f a := rfl

@[simp] theorem ask_bind (r : I.Request) (next : I.Reply r → Program I α)
    (f : α → Program I β) : (ask r next >>= f) = ask r fun reply => next reply >>= f := rfl

@[simp] theorem request_bind (r : I.Request) (f : I.Reply r → Program I β) :
    (request r >>= f) = ask r f := rfl

theorem bind_done (p : Program I α) : (p >>= done) = p := by
  induction p with
  | done a => rfl
  | ask r next ih =>
      rw [ask_bind]
      congr
      funext reply
      exact ih reply

theorem bind_assoc (p : Program I α) (f : α → Program I β) (g : β → Program I γ) :
    (p >>= f >>= g) = p >>= fun a => f a >>= g := by
  induction p with
  | done a => rfl
  | ask r next ih =>
      simp only [ask_bind]
      congr
      funext reply
      exact ih reply

instance : LawfulMonad (Program I) :=
  LawfulMonad.mk' (Program I) bind_done (fun _ _ => rfl) bind_assoc

/-- Carry out each request of a program by a program over another interface. -/
def relay (send : (r : I.Request) → Program J (I.Reply r)) : Program I α → Program J α
  | done a => done a
  | ask r next => (send r).bind fun reply => (next reply).relay send

@[simp] theorem relay_done (send : (r : I.Request) → Program J (I.Reply r)) (a : α) :
    (done a).relay send = done a := rfl

@[simp] theorem relay_ask (send : (r : I.Request) → Program J (I.Reply r)) (r : I.Request)
    (next : I.Reply r → Program I α) :
    (ask r next).relay send = send r >>= fun reply => (next reply).relay send := rfl

theorem relay_bind (send : (r : I.Request) → Program J (I.Reply r)) (p : Program I α)
    (f : α → Program I β) :
    (p >>= f).relay send = p.relay send >>= fun a => (f a).relay send := by
  induction p with
  | done a => rfl
  | ask r next ih =>
      simp only [ask_bind, relay_ask, bind_assoc]
      congr
      funext reply
      exact ih reply

/-- Run a program up to its first request of the given kind; the result is what is left to do,
that request first. -/
def upTo (stops : I.Request → Bool) : Program I α → Program I (Program I α)
  | done a => done (done a)
  | ask r next =>
      if stops r then done (ask r next) else ask r fun reply => (next reply).upTo stops

@[simp] theorem upTo_done (stops : I.Request → Bool) (a : α) :
    (done a : Program I α).upTo stops = done (done a) := rfl

/-- Going on with what is left makes up the whole program. -/
theorem upTo_bind_id (stops : I.Request → Bool) (p : Program I α) : (p.upTo stops >>= id) = p := by
  induction p with
  | done a => rfl
  | ask r next ih =>
      unfold upTo
      split
      · rfl
      · rw [ask_bind]
        congr
        funext reply
        exact ih reply

end Program

/-! ## Machines -/

/-- What a request does to a machine in state `σ`: it is answered, it cannot be answered now and
leaves the state alone, or it ends the run for good. -/
inductive Effect (σ ε β : Type) : Type where
  | reply (answer : β) (state : σ)
  | wait
  | stop (ending : ε) (state : σ)

abbrev Machine (I : Interface) (σ ε : Type) : Type :=
  (r : I.Request) → σ → Effect σ ε (I.Reply r)

/-- How far a program comes on a machine that runs nothing else: to its end, to a request that
has to wait (`rest` is what is left to do, that request first), or to the end of the run. -/
inductive Outcome (I : Interface) (σ ε α : Type) : Type where
  | finished (result : α) (state : σ)
  | waiting (rest : Program I α) (state : σ)
  | ended (ending : ε) (state : σ)

namespace Outcome

variable {I : Interface} {σ ε α : Type}

def state : Outcome I σ ε α → σ
  | finished _ s => s
  | waiting _ s => s
  | ended _ s => s

end Outcome

namespace Program

variable {I : Interface} {σ ε α β : Type}

def run (m : Machine I σ ε) : Program I α → σ → Outcome I σ ε α
  | done a, s => .finished a s
  | ask r next, s =>
      match m r s with
      | .reply answer s' => (next answer).run m s'
      | .wait => .waiting (ask r next) s
      | .stop e s' => .ended e s'

@[simp] theorem run_done (m : Machine I σ ε) (a : α) (s : σ) :
    (done a).run m s = .finished a s := rfl

theorem run_ask_of_reply {m : Machine I σ ε} {r : I.Request} {s s' : σ} {answer : I.Reply r}
    (h : m r s = .reply answer s') (next : I.Reply r → Program I α) :
    (ask r next).run m s = (next answer).run m s' := by
  simp only [run, h]

theorem run_ask_of_wait {m : Machine I σ ε} {r : I.Request} {s : σ}
    (h : m r s = .wait) (next : I.Reply r → Program I α) :
    (ask r next).run m s = .waiting (ask r next) s := by
  simp only [run, h]

theorem run_ask_of_stop {m : Machine I σ ε} {r : I.Request} {s s' : σ} {e : ε}
    (h : m r s = .stop e s') (next : I.Reply r → Program I α) :
    (ask r next).run m s = .ended e s' := by
  simp only [run, h]

theorem run_bind (m : Machine I σ ε) (p : Program I α) (f : α → Program I β) (s : σ) :
    (p >>= f).run m s =
      match p.run m s with
      | .finished a s' => (f a).run m s'
      | .waiting rest s' => .waiting (rest >>= f) s'
      | .ended e s' => .ended e s' := by
  induction p generalizing s with
  | done a => rfl
  | ask r next ih =>
      simp only [ask_bind, run]
      cases m r s with
      | reply answer s' => exact ih answer s'
      | wait => rfl
      | stop e s' => rfl

section Sequences

variable {m : Machine I σ ε} {p : Program I α} {s s' : σ}

theorem run_bind_of_finished {a : α} (h : p.run m s = .finished a s') (f : α → Program I β) :
    (p >>= f).run m s = (f a).run m s' := by
  rw [run_bind, h]

theorem run_bind_of_waiting {rest : Program I α} (h : p.run m s = .waiting rest s')
    (f : α → Program I β) : (p >>= f).run m s = .waiting (rest >>= f) s' := by
  rw [run_bind, h]

theorem run_bind_of_ended {e : ε} (h : p.run m s = .ended e s') (f : α → Program I β) :
    (p >>= f).run m s = .ended e s' := by
  rw [run_bind, h]

end Sequences

end Program

end DiagnosticLog
