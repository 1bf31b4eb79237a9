import DiagnosticLog.Program

/-!
# Programs on two machines

Where a map from the states of one machine to those of another commutes with every request, a
program comes on both to the same point.  `run_map` needs this only for the requests that the run
really makes: they pass a test, and the test may depend on the state they are made in.  Where the
states are merely related, `agrees_ask` and `agrees_bind` follow a program on both machines.
-/

namespace DiagnosticLog

variable {I : Interface} {σ τ ε α β : Type}

def Effect.map (f : σ → τ) : Effect σ ε β → Effect τ ε β
  | .reply answer s => .reply answer (f s)
  | .wait => .wait
  | .stop e s => .stop e (f s)

def Outcome.map (f : σ → τ) : Outcome I σ ε α → Outcome I τ ε α
  | .finished a s => .finished a (f s)
  | .waiting rest s => .waiting rest (f s)
  | .ended e s => .ended e (f s)

/-- The two effects are the same, but for answers and states that are related. -/
inductive Effect.Agrees (R : σ → τ → Prop) (answers : β → β → Prop) :
    Effect σ ε β → Effect τ ε β → Prop where
  | reply {answer answer' : β} (alike : answers answer answer') {s : σ} {s' : τ}
      (states : R s s') : Agrees R answers (.reply answer s) (.reply answer' s')
  | wait : Agrees R answers .wait .wait
  | stop (e : ε) {s : σ} {s' : τ} (states : R s s') : Agrees R answers (.stop e s) (.stop e s')

/-- Two programs come to the same point on states that are related: they finish with results that
are related, wait with the same rest, or end the run in the same way. -/
inductive Outcome.Agrees (R : σ → τ → Prop) (results : α → α → Prop) (rests : Program I α → Prop) :
    Outcome I σ ε α → Outcome I τ ε α → Prop where
  | finished {a a' : α} {s : σ} {s' : τ} (result : results a a') (states : R s s') :
      Agrees R results rests (.finished a s) (.finished a' s')
  | waiting {rest : Program I α} {s : σ} {s' : τ} (left : rests rest) (states : R s s') :
      Agrees R results rests (.waiting rest s) (.waiting rest s')
  | ended (e : ε) {s : σ} {s' : τ} (states : R s s') :
      Agrees R results rests (.ended e s) (.ended e s')

theorem Outcome.Agrees.mono {R : σ → τ → Prop} {results results' : α → α → Prop}
    {rests rests' : Program I α → Prop} {o : Outcome I σ ε α} {o' : Outcome I τ ε α}
    (agrees : o.Agrees R results rests o') (hresults : ∀ a a', results a a' → results' a a')
    (hrests : ∀ p, rests p → rests' p) : o.Agrees R results' rests' o' := by
  cases agrees with
  | finished result states => exact .finished (hresults _ _ result) states
  | waiting left states => exact .waiting (hrests _ left) states
  | ended e states => exact .ended e states

namespace Program

/-- Whether every request of a run passes a test in the state in which it is made. -/
def passes (m : Machine I σ ε) (test : I.Request → σ → Bool) : Program I α → σ → Bool
  | done _, _ => true
  | ask r next, s =>
      test r s &&
        match m r s with
        | .reply answer s' => (next answer).passes m test s'
        | .wait => true
        | .stop _ _ => true

variable {m : Machine I σ ε} {m' : Machine I τ ε} {test : I.Request → σ → Bool} {f : σ → τ}
  {P : σ → Prop}

theorem run_map (commutes : ∀ r s, P s → test r s → m' r (f s) = (m r s).map f)
    (keeps : ∀ r s answer s', P s → test r s → m r s = .reply answer s' → P s')
    (p : Program I α) {s : σ} (here : P s) (passes : p.passes m test s) :
    p.run m' (f s) = (p.run m s).map f := by
  induction p generalizing s with
  | done a => rfl
  | ask r next ih =>
      simp only [Program.passes, Bool.and_eq_true] at passes
      obtain ⟨htest, hrest⟩ := passes
      have hcommutes := commutes r s here htest
      cases hr : m r s with
      | reply answer s' =>
          rw [hr] at hcommutes hrest
          rw [run_ask_of_reply hr, run_ask_of_reply hcommutes]
          exact ih answer (keeps r s answer s' here htest hr) hrest
      | wait =>
          rw [hr] at hcommutes
          rw [run_ask_of_wait hr, run_ask_of_wait hcommutes]
          rfl
      | stop e s' =>
          rw [hr] at hcommutes
          rw [run_ask_of_stop hr, run_ask_of_stop hcommutes]
          rfl

theorem run_keeps (keeps : ∀ r s answer s', P s → test r s → m r s = .reply answer s' → P s')
    (p : Program I α) {s : σ} (here : P s) (passes : p.passes m test s)
    (goesOn : ∀ e s', p.run m s ≠ .ended e s') : P (p.run m s).state := by
  induction p generalizing s with
  | done a => exact here
  | ask r next ih =>
      simp only [Program.passes, Bool.and_eq_true] at passes
      obtain ⟨htest, hrest⟩ := passes
      cases hr : m r s with
      | reply answer s' =>
          rw [hr] at hrest
          rw [run_ask_of_reply hr] at goesOn ⊢
          exact ih answer (keeps r s answer s' here htest hr) hrest goesOn
      | wait =>
          rw [run_ask_of_wait hr]
          exact here
      | stop e s' => exact absurd (run_ask_of_stop hr next) (goesOn e s')

section Agreement

variable {R : σ → τ → Prop} {results : α → α → Prop} {results' : β → β → Prop}
  {rests : Program I α → Prop} {rests' : Program I β → Prop} {p p' : Program I α} {s : σ} {s' : τ}

/-- Programs that agree on the first request and on all that follows agree. -/
theorem agrees_ask {r : I.Request} {answers : I.Reply r → I.Reply r → Prop}
    {next : I.Reply r → Program I α} (request : (m r s).Agrees R answers (m' r s'))
    (follows : ∀ answer answer' s₁ s₁', m r s = .reply answer s₁ → answers answer answer' →
      R s₁ s₁' → ((next answer).run m s₁).Agrees R results rests ((next answer').run m' s₁'))
    (states : R s s') (left : rests (.ask r next)) :
    ((ask r next).run m s).Agrees R results rests ((ask r next).run m' s') := by
  generalize hr : m r s = effect, hr' : m' r s' = effect' at request
  cases request with
  | @reply answer answer' alike s₁ s₁' states =>
      rw [run_ask_of_reply hr, run_ask_of_reply hr']
      exact follows answer answer' s₁ s₁' hr alike states
  | wait =>
      rw [run_ask_of_wait hr, run_ask_of_wait hr']
      exact .waiting left states
  | stop e states =>
      rw [run_ask_of_stop hr, run_ask_of_stop hr']
      exact .ended e states

theorem agrees_bind {f : α → Program I β}
    (first : (p.run m s).Agrees R results rests (p'.run m' s'))
    (follows : ∀ a a' s₁ s₁', results a a' → R s₁ s₁' →
      ((f a).run m s₁).Agrees R results' rests' ((f a').run m' s₁'))
    (left : ∀ rest, rests rest → rests' (rest >>= f)) :
    ((p >>= f).run m s).Agrees R results' rests' ((p' >>= f).run m' s') := by
  rw [run_bind, run_bind]
  generalize p.run m s = outcome, p'.run m' s' = outcome' at first
  cases first with
  | finished result states => exact follows _ _ _ _ result states
  | waiting h states => exact .waiting (left _ h) states
  | ended e states => exact .ended e states

end Agreement

end Program

end DiagnosticLog
