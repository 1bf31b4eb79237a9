import DiagnosticLog.Lock.Checked

/-!
# Stages of an operation on a mutex

Entering and leaving a mutex are a few accesses each.  A stage says which access of which operation
comes next, and `Move` lists all that an access at a stage can do.  `move_of_reply` is the one place
where the programs of the operations are opened: what follows argues about moves.
-/

namespace DiagnosticLog

namespace CheckedMutex

inductive Operation where
  | enter
  | exit
  deriving DecidableEq, Repr

def Operation.program (me : Token) : Operation → Program Access.interface (Except MutexError Unit)
  | enter => enterAs me
  | exit => exitAs me

/-- The access of an operation that comes next. -/
inductive Stage where
  /-- An entry looks whether the caller owns the mutex. -/
  | checking
  /-- An entry takes the raw lock. -/
  | taking
  /-- An entry stores the caller as the owner. -/
  | claiming
  /-- An exit looks whether the raw lock is taken. -/
  | testing
  /-- An exit looks who owns the mutex. -/
  | comparing
  /-- An exit clears the owner. -/
  | disowning
  /-- An exit frees the raw lock. -/
  | freeing
  deriving DecidableEq, Repr

namespace Stage

def operation : Stage → Operation
  | checking => .enter
  | taking => .enter
  | claiming => .enter
  | testing => .exit
  | comparing => .exit
  | disowning => .exit
  | freeing => .exit

/-- The first stage of an operation; the anonymous do not look for themselves. -/
def first (me : Token) : Operation → Stage
  | .enter => if me = Token.anonymous then taking else checking
  | .exit => testing

@[reducible] def access (me : Token) : Stage → Access
  | checking => .loadOwner
  | taking => .lockRaw
  | claiming => .storeOwner me
  | testing => .isLocked
  | comparing => .loadOwner
  | disowning => .storeOwner Token.noOwner
  | freeing => .unlockRaw

/-- What an exit refuses: neither the caller nor the owner is anonymous, and they differ. -/
def Foreign (me owner : Token) : Prop :=
  me ≠ Token.anonymous ∧ owner ≠ Token.anonymous ∧ owner ≠ me

instance (me owner : Token) : Decidable (Foreign me owner) :=
  inferInstanceAs (Decidable (_ ∧ _ ∧ _))

/-- How the operation goes on with the reply to the access. -/
def next (me : Token) :
    (st : Stage) → (st.access me).Reply → Program Access.interface (Except MutexError Unit)
  | checking, (owner : Token) => if owner = me then .done (.error .deadlock) else take me
  | taking, _ => .ask (.storeOwner me) fun _ => .done (.ok ())
  | claiming, _ => .done (.ok ())
  | testing, (locked : Bool) =>
      if locked then
        .ask .loadOwner fun owner =>
          if Foreign me owner then .done (.error .notOwner) else give
      else .done (.error .notOwner)
  | comparing, (owner : Token) => if Foreign me owner then .done (.error .notOwner) else give
  | disowning, _ => .ask .unlockRaw fun _ => .done (.ok ())
  | freeing, _ => .done (.ok ())

def rest (me : Token) (st : Stage) : Program Access.interface (Except MutexError Unit) :=
  .ask (st.access me) (st.next me)

theorem program_eq_rest (me : Token) (op : Operation) : op.program me = (first me op).rest me := by
  cases op with
  | exit => rfl
  | enter =>
      by_cases h : me = Token.anonymous <;>
        simp only [Operation.program, first, enterAs, h, if_true, if_false] <;> rfl

theorem eq_of_access_eq {me : Token} {st st' : Stage} (hop : st.operation = st'.operation)
    (haccess : st.access me = st'.access me) : st = st' := by
  cases st <;> cases st' <;> simp_all [operation, access]

theorem operation_first (me : Token) (op : Operation) : (first me op).operation = op := by
  cases op with
  | exit => rfl
  | enter => simp only [first]; split <;> rfl

end Stage

/-! ## Moves -/

/-- Where an operation is after an access: at another stage, or at its end. -/
inductive Progress where
  | on (st : Stage)
  | ended (result : Except MutexError Unit)

def Progress.rest (me : Token) : Progress → Program Access.interface (Except MutexError Unit)
  | on st => st.rest me
  | ended result => .done result

def Progress.result? : Progress → Option (Except MutexError Unit)
  | on _ => none
  | ended result => some result

variable {L : Type} [RawLock L]

/-- All that the next access of a thread with token `me` can do. -/
inductive Move (me : Token) : Stage → CheckedMutex L → CheckedMutex L → Progress → Prop where
  | checkOwn {m : CheckedMutex L} (own : m.owner = me) :
      Move me .checking m m (.ended (.error .deadlock))
  | checkOther {m : CheckedMutex L} (other : m.owner ≠ me) : Move me .checking m m (.on .taking)
  | take {m : CheckedMutex L} {raw : L} (free : RawLock.lock m.raw = some raw) :
      Move me .taking m ⟨raw, m.owner⟩ (.on .claiming)
  | claim {m : CheckedMutex L} : Move me .claiming m ⟨m.raw, me⟩ (.ended (.ok ()))
  | testFree {m : CheckedMutex L} (free : RawLock.isLocked m.raw = false) :
      Move me .testing m m (.ended (.error .notOwner))
  | testTaken {m : CheckedMutex L} (taken : RawLock.isLocked m.raw = true) :
      Move me .testing m m (.on .comparing)
  | compareForeign {m : CheckedMutex L} (foreign : Stage.Foreign me m.owner) :
      Move me .comparing m m (.ended (.error .notOwner))
  | compareOwn {m : CheckedMutex L} (own : ¬ Stage.Foreign me m.owner) :
      Move me .comparing m m (.on .disowning)
  | disown {m : CheckedMutex L} : Move me .disowning m ⟨m.raw, Token.noOwner⟩ (.on .freeing)
  | free {m : CheckedMutex L} :
      Move me .freeing m ⟨RawLock.unlock m.raw, m.owner⟩ (.ended (.ok ()))

theorem move_of_reply {me : Token} {st : Stage} {m m' : CheckedMutex L}
    {answer : (st.access me).Reply} (h : perform (st.access me) m = .reply answer m') :
    ∃ p : Progress, Move me st m m' p ∧ st.next me answer = p.rest me := by
  cases st with
  | checking =>
      have heq : Effect.reply m.owner m = .reply answer m' := h
      cases heq
      by_cases own : m.owner = me
      · exact ⟨_, .checkOwn own, if_pos own⟩
      · exact ⟨_, .checkOther own, if_neg own⟩
  | taking =>
      cases hlock : RawLock.lock m.raw with
      | none => simp [Stage.access, perform, hlock] at h
      | some raw =>
          have heq : (Effect.reply () ⟨raw, m.owner⟩ : Effect _ Empty Unit) = .reply answer m' := by
            simpa [perform, hlock] using h
          cases heq
          exact ⟨_, .take hlock, rfl⟩
  | claiming =>
      have heq : Effect.reply () ⟨m.raw, me⟩ = .reply answer m' := h
      cases heq
      exact ⟨_, .claim, rfl⟩
  | testing =>
      have heq : Effect.reply (RawLock.isLocked m.raw) m = .reply answer m' := h
      cases heq
      cases locked : RawLock.isLocked m.raw with
      | false => exact ⟨_, .testFree locked, rfl⟩
      | true => exact ⟨_, .testTaken locked, rfl⟩
  | comparing =>
      have heq : Effect.reply m.owner m = .reply answer m' := h
      cases heq
      by_cases foreign : Stage.Foreign me m.owner
      · exact ⟨_, .compareForeign foreign, if_pos foreign⟩
      · exact ⟨_, .compareOwn foreign, if_neg foreign⟩
  | disowning =>
      have heq : Effect.reply () ⟨m.raw, Token.noOwner⟩ = .reply answer m' := h
      cases heq
      exact ⟨_, .disown, rfl⟩
  | freeing =>
      have heq : Effect.reply () ⟨RawLock.unlock m.raw, m.owner⟩ = .reply answer m' := h
      cases heq
      exact ⟨_, .free, rfl⟩

theorem Move.operation_eq {me : Token} {st st' : Stage} {m m' : CheckedMutex L}
    (move : Move me st m m' (.on st')) : st'.operation = st.operation := by
  cases move <;> rfl

/-- Up to such a stage an operation has changed nothing. -/
def Stage.Silent : Stage → Prop
  | claiming | freeing => False
  | _ => True

def Progress.Silent : Progress → Prop
  | on st => st.Silent
  | ended result => result ≠ .ok ()

theorem Move.unchanged {me : Token} {st : Stage} {m m' : CheckedMutex L} {p : Progress}
    (move : Move me st m m' p) (h : p.Silent) : st.Silent ∧ m' = m := by
  cases move <;> simp_all [Progress.Silent, Stage.Silent]

theorem Move.ne_taking [LawfulRawLock L] {me : Token} {st : Stage} {m m' : CheckedMutex L}
    {p : Progress} (move : Move me st m m' p) (locked : RawLock.isLocked m.raw = true) :
    st ≠ .taking := by
  rintro rfl
  cases move with
  | take free => simp [(LawfulRawLock.lock_eq_none_iff m.raw).mpr locked] at free

theorem reply_of_ne_taking (me : Token) (m : CheckedMutex L) {st : Stage} (hst : st ≠ .taking) :
    ∃ answer m', perform (st.access me) m = .reply answer m' := by
  cases st with
  | taking => exact absurd rfl hst
  | _ => exact ⟨_, _, rfl⟩

end CheckedMutex

end DiagnosticLog
