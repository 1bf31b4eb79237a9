import DiagnosticLog.Proofs.Crew
import DiagnosticLog.Proofs.Mutex.Stage

/-!
# Exclusion and exact errors of the owner-checking mutex

Threads with tokens of their own enter and leave one mutex in any order whatever, access by access.
A thread holds the mutex from the return of an entry that succeeds until its next exit that does, an
operation returning with its last access.

The owner and the raw lock change in different steps, so there are moments at which one of them is
ahead of the other: the raw lock is taken and no owner is stored yet, or the owner is cleared and
the raw lock is not free yet.  The invariant says that at such a moment exactly one thread is
between the two, and that no thread but the holder ever finds its own token.
-/

namespace DiagnosticLog

namespace CheckedMutex

variable {L ι : Type}

abbrev Event (L ι : Type) : Type :=
  Crew.Event Access.interface ι Operation (CheckedMutex L) (Except MutexError Unit)

abbrev Crowd (L ι : Type) : Type :=
  Crew Access.interface ι Operation (CheckedMutex L) (Except MutexError Unit)

/-! ## What a run tells -/

variable [DecidableEq ι]

/-- Whether a thread that held the mutex or not holds it after an event. -/
def heldAfter (t : ι) (held : Prop) (e : Event L ι) : Prop :=
  match e.returned? with
  | some (u, op, .ok ()) => if u = t then op = .enter else held
  | _ => held

def Holds (t : ι) (es : List (Event L ι)) : Prop :=
  es.foldl (heldAfter t) False

def taker? (es : List (Event L ι)) : Option ι :=
  es.foldl (fun taker e =>
    match e with
    | .made t _ .lockRaw _ _ _ _ => some t
    | _ => taker) none

/-- The mutex before and after each access of the operation that a thread began last. -/
def accesses (t : ι) (es : List (Event L ι)) : List (CheckedMutex L × CheckedMutex L) :=
  es.foldl (fun seen e =>
    match e with
    | .began u _ _ => if u = t then [] else seen
    | .made u _ _ _ before after _ => if u = t then seen ++ [(before, after)] else seen) []

def Frees : Event L ι → Prop
  | .made _ _ .unlockRaw _ _ _ _ => True
  | _ => False

theorem holds_snoc (t : ι) (es : List (Event L ι)) (e : Event L ι) :
    Holds t (es ++ [e]) = heldAfter t (Holds t es) e := by
  simp [Holds]

theorem heldAfter_of_ne {t : ι} {e : Event L ι} (h : e.thread ≠ t) (held : Prop) :
    heldAfter t held e = held := by
  unfold heldAfter
  cases e with
  | began u job result =>
      have hu : u ≠ t := h
      rcases result with _ | _ | ⟨⟩ <;> simp [Crew.Event.returned?, hu]
  | made u job r answer before after result =>
      have hu : u ≠ t := h
      rcases result with _ | _ | ⟨⟩ <;> simp [Crew.Event.returned?, hu]

theorem holds_snoc_of_ne {t : ι} {e : Event L ι} (h : e.thread ≠ t) (es : List (Event L ι)) :
    Holds t (es ++ [e]) = Holds t es := by
  rw [holds_snoc, heldAfter_of_ne h]

theorem holds_began (t u : ι) (op : Operation) (es : List (Event L ι)) :
    Holds t (es ++ [.began u op none]) = Holds t es := by
  simp [holds_snoc, heldAfter, Crew.Event.returned?]

theorem holds_made_ok {t : ι} {op : Operation} {a : Access} {answer : a.Reply}
    {before after : CheckedMutex L} (es : List (Event L ι)) :
    Holds t (es ++ [.made t op a answer before after (some (.ok ()))]) = (op = .enter) := by
  simp [holds_snoc, heldAfter, Crew.Event.returned?]

theorem holds_made_of_ne {t : ι} {op : Operation} {a : Access} {answer : a.Reply}
    {before after : CheckedMutex L} (es : List (Event L ι))
    {result : Option (Except MutexError Unit)} (h : result ≠ some (.ok ())) :
    Holds t (es ++ [.made t op a answer before after result]) = Holds t es := by
  rcases result with _ | _ | ⟨⟩
  · simp [holds_snoc, heldAfter, Crew.Event.returned?]
  · simp [holds_snoc, heldAfter, Crew.Event.returned?]
  · exact absurd rfl h

omit [DecidableEq ι] in
theorem taker?_made {t : ι} {st : Stage} {me : Token} {op : Operation}
    {answer : (st.access me).Reply} {before after : CheckedMutex L} {es : List (Event L ι)}
    {result : Option (Except MutexError Unit)} (hst : st ≠ .taking) :
    taker? (es ++ [.made t op (st.access me) answer before after result]) = taker? es := by
  cases st <;> simp_all [taker?]

theorem accesses_snoc_of_ne {t : ι} {e : Event L ι} (h : e.thread ≠ t) (es : List (Event L ι)) :
    accesses t (es ++ [e]) = accesses t es := by
  cases e with
  | began u job result =>
      have hu : u ≠ t := h
      simp [accesses, hu]
  | made u job r answer before after result =>
      have hu : u ≠ t := h
      simp [accesses, hu]

theorem accesses_began (t : ι) (op : Operation) (es : List (Event L ι))
    (result : Option (Except MutexError Unit)) :
    accesses t (es ++ [.began t op result]) = [] := by
  simp [accesses]

theorem accesses_made (t : ι) (op : Operation) {a : Access} {answer : a.Reply}
    {before after : CheckedMutex L} (es : List (Event L ι))
    (result : Option (Except MutexError Unit)) :
    accesses t (es ++ [.made t op a answer before after result]) =
      accesses t es ++ [(before, after)] := by
  simp [accesses]

/-! ## Where a thread is -/

variable {token : ι → Token}

def At (token : ι → Token) (y : Crowd L ι) (t : ι) (st : Stage) : Prop :=
  y.doing t = some (st.operation, st.rest (token t))

omit [DecidableEq ι] in
theorem At.unique {y : Crowd L ι} {t : ι} {st st' : Stage} (h : At token y t st)
    (h' : At token y t st') : st = st' := by
  have heq := Option.some.inj (h.symm.trans h')
  obtain ⟨hop, hrest⟩ := Prod.mk.inj heq
  exact Stage.eq_of_access_eq hop (Program.ask.inj hrest).1

omit [DecidableEq ι] in
theorem At.of_eq {y z : Crowd L ι} {t : ι} {st : Stage} (h : At token y t st)
    (hdoing : z.doing t = y.doing t) : At token z t st :=
  hdoing.trans h

/-- At such a stage an operation has changed nothing yet, nor is it bound to. -/
def Stage.Harmless : Stage → Prop
  | checking | taking | testing | comparing => True
  | _ => False

/-- The stages at which an operation of the holder is before it gives up the ownership. -/
def Stage.OfHolder : Stage → Prop
  | checking | testing | comparing | disowning => True
  | _ => False

/-- A thread that neither holds the mutex nor has taken the raw lock. -/
structure Outside (token : ι → Token) (es : List (Event L ι)) (y : Crowd L ι) (t : ι) : Prop where
  unheld : ¬ Holds t es
  stage : y.doing t = none ∨ ∃ st, st.Harmless ∧ At token y t st

/-- A thread that has taken the raw lock: it is about to store itself as the owner, it holds the
mutex, or it has cleared the owner and is about to free the raw lock. -/
inductive Inside (token : ι → Token) (es : List (Event L ι)) (y : Crowd L ι) (t : ι) : Prop where
  | claiming (unheld : ¬ Holds t es) (owner : y.state.owner = Token.noOwner)
      (stage : At token y t .claiming)
  | holding (held : Holds t es) (owner : y.state.owner = token t)
      (stage : y.doing t = none ∨ ∃ st, st.OfHolder ∧ At token y t st)
  | freeing (held : Holds t es) (owner : y.state.owner = Token.noOwner)
      (stage : At token y t .freeing)

theorem Inside.staged {es : List (Event L ι)} {y : Crowd L ι} {t : ι}
    (h : Inside token es y t) : y.doing t = none ∨ ∃ st, At token y t st := by
  cases h with
  | claiming _ _ stage => exact .inr ⟨_, stage⟩
  | holding _ _ stage => exact stage.imp id fun ⟨st, _, hst⟩ => ⟨st, hst⟩
  | freeing _ _ stage => exact .inr ⟨_, stage⟩

theorem Inside.owner_cases {es : List (Event L ι)} {y : Crowd L ι} {t : ι}
    (h : Inside token es y t) : y.state.owner = Token.noOwner ∨ y.state.owner = token t := by
  cases h with
  | claiming _ owner _ => exact .inl owner
  | holding _ owner _ => exact .inr owner
  | freeing _ owner _ => exact .inl owner

theorem Outside.staged {es : List (Event L ι)} {y : Crowd L ι} {t : ι}
    (h : Outside token es y t) : y.doing t = none ∨ ∃ st, At token y t st :=
  h.stage.imp id fun ⟨st, _, hst⟩ => ⟨st, hst⟩

theorem Outside.of_ne {es : List (Event L ι)} {y z : Crowd L ι} {e : Event L ι} {t : ι}
    (h : Outside token es y t) (hne : e.thread ≠ t) (hdoing : z.doing t = y.doing t) :
    Outside token (es ++ [e]) z t := by
  constructor
  · rw [holds_snoc_of_ne hne]
    exact h.unheld
  · rcases h.stage with hnone | ⟨st, hharmless, hst⟩
    · exact .inl (hdoing.trans hnone)
    · exact .inr ⟨st, hharmless, hst.of_eq hdoing⟩

theorem Inside.of_ne {es : List (Event L ι)} {y z : Crowd L ι} {e : Event L ι} {t : ι}
    (h : Inside token es y t) (hne : e.thread ≠ t) (hdoing : z.doing t = y.doing t)
    (howner : z.state.owner = y.state.owner) : Inside token (es ++ [e]) z t := by
  have hheld : Holds t (es ++ [e]) = Holds t es := holds_snoc_of_ne hne es
  cases h with
  | claiming unheld owner stage =>
      exact .claiming (hheld ▸ unheld) (howner.trans owner) (stage.of_eq hdoing)
  | holding held owner stage =>
      have hstage : z.doing t = none ∨ ∃ st, st.OfHolder ∧ At token z t st := by
        rcases stage with hnone | ⟨st, hof, hst⟩
        · exact .inl (hdoing.trans hnone)
        · exact .inr ⟨st, hof, hst.of_eq hdoing⟩
      exact .holding (hheld ▸ held) (howner.trans owner) hstage
  | freeing held owner stage =>
      exact .freeing (hheld ▸ held) (howner.trans owner) (stage.of_eq hdoing)

/-! ## One event -/

variable [RawLock L]

abbrev Next (token : ι → Token) : Crowd L ι → Event L ι → Crowd L ι → Prop :=
  Crew.Step (fun _ => perform) fun t op => Operation.program (token t) op

abbrev Reaches (token : ι → Token) : List (Event L ι) → Crowd L ι → Prop :=
  Crew.Run (fun _ => perform) (fun t op => Operation.program (token t) op) (Crew.idle unowned)

def Progress.doing (me : Token) (op : Operation) :
    Progress → Option (Operation × Program Access.interface (Except MutexError Unit))
  | on st => some (op, st.rest me)
  | ended _ => none

theorem next_cases {y z : Crowd L ι} {e : Event L ι}
    (staged : ∀ t, y.doing t = none ∨ ∃ st, At token y t st) (h : Next token y e z) :
    (∃ t op, y.doing t = none ∧ e = .began t op none ∧
      z = ⟨y.state, Function.update y.doing t
        (some (op, (Stage.first (token t) op).rest (token t)))⟩) ∨
    (∃ t st answer m' p, At token y t st ∧ Move (token t) st y.state m' p ∧
      e = .made t st.operation (st.access (token t)) answer y.state m' p.result? ∧
      z = ⟨m', Function.update y.doing t (p.doing (token t) st.operation)⟩) := by
  cases h with
  | @began t op free =>
      refine Or.inl ⟨t, op, free, ?_⟩
      rw [Stage.program_eq_rest]
      exact ⟨rfl, rfl⟩
  | @made t op r next answer m' busy reply =>
      right
      rcases staged t with hnone | ⟨st, hst⟩
      · rw [hnone] at busy
        contradiction
      obtain ⟨hop, hrest⟩ := Prod.mk.inj (Option.some.inj (busy.symm.trans hst))
      subst hop
      cases hrest
      obtain ⟨p, hmove, hnext⟩ := move_of_reply reply
      refine ⟨t, st, answer, m', p, hst, hmove, ?_⟩
      rw [hnext]
      cases p <;> exact ⟨rfl, rfl⟩

/-! ## The invariant -/

/-- Either the mutex is free and all threads are outside, or all but one are. -/
inductive Invariant (token : ι → Token) (es : List (Event L ι)) (y : Crowd L ι) : Prop where
  | free (raw : RawLock.isLocked y.state.raw = false) (owner : y.state.owner = Token.noOwner)
      (outside : ∀ t, Outside token es y t)
  | taken (i : ι) (raw : RawLock.isLocked y.state.raw = true) (taker : taker? es = some i)
      (inside : Inside token es y i) (outside : ∀ t, t ≠ i → Outside token es y t)

theorem Invariant.staged {es : List (Event L ι)} {y : Crowd L ι} (h : Invariant token es y)
    (t : ι) : y.doing t = none ∨ ∃ st, At token y t st := by
  cases h with
  | free _ _ outside => exact (outside t).staged
  | taken i _ _ inside outside =>
      by_cases ht : t = i
      · exact ht ▸ inside.staged
      · exact (outside t ht).staged

theorem Invariant.began {es : List (Event L ι)} {y : Crowd L ι} {t : ι} {op : Operation}
    (named : ∀ t, (token t).reserved = false) (h : Invariant token es y)
    (hnone : y.doing t = none) :
    Invariant token (es ++ [.began t op none]) ⟨y.state, Function.update y.doing t
      (some (op, (Stage.first (token t) op).rest (token t)))⟩ := by
  have hanonymous := Token.ne_anonymous_of_not_reserved (named t)
  have hstage : At token ⟨y.state, Function.update y.doing t
      (some (op, (Stage.first (token t) op).rest (token t)))⟩ t (Stage.first (token t) op) := by
    simp [At, Stage.operation_first]
  have houtside : ∀ u, Outside token es y u → Outside token (es ++ [.began t op none])
      ⟨y.state, Function.update y.doing t
        (some (op, (Stage.first (token t) op).rest (token t)))⟩ u := by
    intro u hu
    by_cases hut : u = t
    · subst hut
      have hharmless : (Stage.first (token u) op).Harmless := by
        cases op <;> simp [Stage.first, hanonymous, Stage.Harmless]
      have hunheld : ¬ Holds u (es ++ [.began u op none]) := by
        rw [holds_began]
        exact hu.unheld
      exact ⟨hunheld, .inr ⟨_, hharmless, hstage⟩⟩
    · exact hu.of_ne (Ne.symm hut) (Function.update_of_ne hut _ _)
  cases h with
  | free raw owner outside => exact .free raw owner fun u => houtside u (outside u)
  | taken i raw taker inside outside =>
      have htaker : taker? (es ++ [.began t op none]) = some i := by simpa [taker?] using taker
      have hinside : Inside token (es ++ [.began t op none]) ⟨y.state, Function.update y.doing t
          (some (op, (Stage.first (token t) op).rest (token t)))⟩ i := by
        by_cases hit : i = t
        · subst hit
          cases inside with
          | claiming _ _ stage => simp [At, hnone] at stage
          | freeing _ _ stage => simp [At, hnone] at stage
          | holding held owner _ =>
              have hof : (Stage.first (token i) op).OfHolder := by
                cases op <;> simp [Stage.first, hanonymous, Stage.OfHolder]
              have hheld : Holds i (es ++ [.began i op none]) := by
                rw [holds_began]
                exact held
              exact .holding hheld owner (.inr ⟨_, hof, hstage⟩)
        · exact inside.of_ne (Ne.symm hit) (Function.update_of_ne hit _ _) rfl
      exact .taken i raw htaker hinside fun u hu => houtside u (outside u hu)

/-! ## Moves outside and inside -/

/-- An outside thread changes nothing unless it takes the raw lock; and if its operation ends, then
as an exit that is refused. -/
theorem Outside.move {es : List (Event L ι)} {y : Crowd L ι} {t : ι} {st : Stage}
    {m' : CheckedMutex L} {p : Progress} (hname : token t ≠ Token.anonymous)
    (howner : y.state.owner ≠ token t) (hknown : y.state.owner ≠ Token.anonymous)
    (h : Outside token es y t) (hst : At token y t st) (move : Move (token t) st y.state m' p) :
    (m' = y.state ∧ ((p = .ended (.error .notOwner) ∧ st.operation = .exit) ∨
      ∃ st', st'.Harmless ∧ p = .on st')) ∨
    (∃ raw, RawLock.lock y.state.raw = some raw ∧ m' = ⟨raw, y.state.owner⟩ ∧
      st = .taking ∧ p = .on .claiming) := by
  have hharmless : st.Harmless := by
    rcases h.stage with hnone | ⟨st', hst', hat⟩
    · simp [At, hnone] at hst
    · exact hst.unique hat ▸ hst'
  generalize hy : y.state = m at *
  cases move with
  | checkOwn own => exact absurd own howner
  | checkOther _ => exact .inl ⟨rfl, .inr ⟨.taking, trivial, rfl⟩⟩
  | take lock => exact .inr ⟨_, lock, rfl, rfl, rfl⟩
  | claim => exact hharmless.elim
  | testFree _ => exact .inl ⟨rfl, .inl ⟨rfl, rfl⟩⟩
  | testTaken _ => exact .inl ⟨rfl, .inr ⟨.comparing, trivial, rfl⟩⟩
  | compareForeign _ => exact .inl ⟨rfl, .inl ⟨rfl, rfl⟩⟩
  | compareOwn own => exact absurd ⟨hname, hknown, howner⟩ own
  | disown => exact hharmless.elim
  | free => exact hharmless.elim

/-- What the thread that has taken the raw lock can do: it becomes the owner, it is told of a
deadlock, it goes on with its operation, it clears the owner, or it frees the raw lock. -/
theorem Inside.move {es : List (Event L ι)} {y : Crowd L ι} {t : ι} {st : Stage}
    {m' : CheckedMutex L} {p : Progress} (hraw : RawLock.isLocked y.state.raw = true)
    (h : Inside token es y t) (hst : At token y t st) (move : Move (token t) st y.state m' p) :
    (¬ Holds t es ∧ st = .claiming ∧ m' = ⟨y.state.raw, token t⟩ ∧ p = .ended (.ok ())) ∨
    (Holds t es ∧ y.state.owner = token t ∧ m' = y.state ∧
      ((p = .ended (.error .deadlock) ∧ st.operation = .enter) ∨
        ∃ st', st'.OfHolder ∧ p = .on st')) ∨
    (Holds t es ∧ m' = ⟨y.state.raw, Token.noOwner⟩ ∧ p = .on .freeing) ∨
    (Holds t es ∧ st = .freeing ∧ m' = ⟨RawLock.unlock y.state.raw, Token.noOwner⟩ ∧
      p = .ended (.ok ())) := by
  cases h with
  | claiming unheld owner stage =>
      obtain rfl := hst.unique stage
      cases move
      exact .inl ⟨unheld, rfl, rfl, rfl⟩
  | freeing held owner stage =>
      obtain rfl := hst.unique stage
      generalize hy : y.state = m at *
      cases move
      exact .inr (.inr (.inr ⟨held, rfl, by rw [owner], rfl⟩))
  | holding held owner stage =>
      have hof : st.OfHolder := by
        rcases stage with hnone | ⟨st', hst', hat⟩
        · simp [At, hnone] at hst
        · exact hst.unique hat ▸ hst'
      generalize hy : y.state = m at *
      cases move with
      | checkOwn _ => exact .inr (.inl ⟨held, owner, rfl, .inl ⟨rfl, rfl⟩⟩)
      | checkOther other => exact absurd owner other
      | take _ => exact hof.elim
      | claim => exact hof.elim
      | testFree free => simp [hraw] at free
      | testTaken _ => exact .inr (.inl ⟨held, owner, rfl, .inr ⟨.comparing, trivial, rfl⟩⟩)
      | compareForeign foreign => exact absurd owner foreign.2.2
      | compareOwn _ => exact .inr (.inl ⟨held, owner, rfl, .inr ⟨.disowning, trivial, rfl⟩⟩)
      | disown => exact .inr (.inr (.inl ⟨held, rfl, rfl⟩))
      | free => exact hof.elim

def moved (y : Crowd L ι) (t : ι) (m' : CheckedMutex L) (p : Progress) (me : Token)
    (op : Operation) : Crowd L ι :=
  ⟨m', Function.update y.doing t (p.doing me op)⟩

theorem at_moved {y : Crowd L ι} {t : ι} {st st' : Stage} {m' : CheckedMutex L}
    (move : Move (token t) st y.state m' (.on st')) :
    At token (moved y t m' (.on st') (token t) st.operation) t st' := by
  simp [At, moved, Progress.doing, move.operation_eq]

abbrev moveEvent (token : ι → Token) (y : Crowd L ι) (t : ι) (st : Stage)
    (answer : (st.access (token t)).Reply) (m' : CheckedMutex L) (p : Progress) : Event L ι :=
  .made t st.operation (st.access (token t)) answer y.state m' p.result?

theorem Outside.made {es : List (Event L ι)} {y : Crowd L ι} {t : ι} {st : Stage}
    {m' : CheckedMutex L} {p : Progress} {answer : (st.access (token t)).Reply}
    (h : Outside token es y t) (move : Move (token t) st y.state m' p)
    (hp : (p = .ended (.error .notOwner) ∧ st.operation = .exit) ∨
      ∃ st', st'.Harmless ∧ p = .on st') :
    Outside token (es ++ [moveEvent token y t st answer m' p])
      (moved y t m' p (token t) st.operation) t := by
  have hresult : p.result? ≠ some (.ok ()) := by
    rcases hp with ⟨rfl, _⟩ | ⟨st', _, rfl⟩ <;> simp [Progress.result?]
  constructor
  · rw [holds_made_of_ne es hresult]
    exact h.unheld
  · rcases hp with ⟨rfl, _⟩ | ⟨st', hst', rfl⟩
    · left
      simp [moved, Progress.doing]
    · exact .inr ⟨st', hst', at_moved move⟩

theorem Outside.entered {es : List (Event L ι)} {y : Crowd L ι} {t : ι} {m' : CheckedMutex L}
    {answer : (Stage.taking.access (token t)).Reply} (h : Outside token es y t)
    (owner : m'.owner = Token.noOwner) (move : Move (token t) .taking y.state m' (.on .claiming)) :
    Inside token (es ++ [moveEvent token y t .taking answer m' (.on .claiming)])
      (moved y t m' (.on .claiming) (token t) Stage.taking.operation) t := by
  have hresult : (Progress.on .claiming).result? ≠ some (.ok ()) := by simp [Progress.result?]
  apply Inside.claiming
  · rw [holds_made_of_ne es hresult]
    exact h.unheld
  · exact owner
  · exact at_moved move

/-- With each of its changes the thread that has taken the raw lock comes to the next of its three
places, and with the last one out. -/
theorem Inside.made [LawfulRawLock L] {es : List (Event L ι)} {y : Crowd L ι} {t : ι}
    {st : Stage} {m' : CheckedMutex L} {p : Progress} {answer : (st.access (token t)).Reply}
    (hraw : RawLock.isLocked y.state.raw = true) (h : Inside token es y t)
    (hst : At token y t st) (move : Move (token t) st y.state m' p) :
    (RawLock.isLocked m'.raw = true ∧ Inside token (es ++ [moveEvent token y t st answer m' p])
      (moved y t m' p (token t) st.operation) t) ∨
    (RawLock.isLocked m'.raw = false ∧ m'.owner = Token.noOwner ∧
      Outside token (es ++ [moveEvent token y t st answer m' p])
        (moved y t m' p (token t) st.operation) t) := by
  rcases h.move hraw hst move with ⟨_, rfl, rfl, rfl⟩ | ⟨held, owner, rfl, hp⟩ |
    ⟨held, rfl, rfl⟩ | ⟨_, rfl, rfl, rfl⟩
  · have hheld : Holds t (es ++ [moveEvent token y t .claiming answer ⟨y.state.raw, token t⟩
        (.ended (.ok ()))]) := by
      rw [moveEvent, Progress.result?, holds_made_ok]
      rfl
    have hidle : (moved y t ⟨y.state.raw, token t⟩ (.ended (.ok ())) (token t)
        Stage.claiming.operation).doing t = none := by simp [moved, Progress.doing]
    exact .inl ⟨hraw, .holding hheld rfl (.inl hidle)⟩
  · have hresult : p.result? ≠ some (.ok ()) := by
      rcases hp with ⟨rfl, _⟩ | ⟨st', _, rfl⟩ <;> simp [Progress.result?]
    have hheld : Holds t (es ++ [moveEvent token y t st answer y.state p]) := by
      rw [holds_made_of_ne es hresult]
      exact held
    rcases hp with ⟨rfl, _⟩ | ⟨st', hof, rfl⟩
    · have hidle : (moved y t y.state (.ended (.error .deadlock)) (token t) st.operation).doing t =
          none := by simp [moved, Progress.doing]
      exact .inl ⟨hraw, .holding hheld owner (.inl hidle)⟩
    · exact .inl ⟨hraw, .holding hheld owner (.inr ⟨st', hof, at_moved move⟩)⟩
  · have hresult : (Progress.on .freeing).result? ≠ some (.ok ()) := by simp [Progress.result?]
    have hheld : Holds t (es ++ [moveEvent token y t st answer ⟨y.state.raw, Token.noOwner⟩
        (.on .freeing)]) := by
      rw [holds_made_of_ne es hresult]
      exact held
    exact .inl ⟨hraw, .freeing hheld rfl (at_moved move)⟩
  · have hunheld : ¬ Holds t (es ++ [moveEvent token y t .freeing answer
        ⟨RawLock.unlock y.state.raw, Token.noOwner⟩ (.ended (.ok ()))]) := by
      rw [moveEvent, Progress.result?, holds_made_ok]
      simp [Stage.operation]
    have hidle : (moved y t ⟨RawLock.unlock y.state.raw, Token.noOwner⟩ (.ended (.ok ())) (token t)
        Stage.freeing.operation).doing t = none := by simp [moved, Progress.doing]
    exact .inr ⟨LawfulRawLock.isLocked_unlock _ hraw, rfl, hunheld, .inl hidle⟩

theorem Invariant.side {es : List (Event L ι)} {y : Crowd L ι}
    (distinct : Function.Injective token) (named : ∀ t, (token t).reserved = false)
    (h : Invariant token es y) (t : ι) :
    (Outside token es y t ∧ y.state.owner ≠ token t ∧ y.state.owner ≠ Token.anonymous) ∨
    (Inside token es y t ∧ RawLock.isLocked y.state.raw = true ∧ taker? es = some t) := by
  have hfree := Token.ne_noOwner_of_not_reserved (named t)
  cases h with
  | free raw owner outside =>
      have hknown : y.state.owner ≠ Token.anonymous := by
        rw [owner]
        decide
      exact .inl ⟨outside t, owner ▸ hfree.symm, hknown⟩
  | taken i raw taker inside outside =>
      by_cases hti : t = i
      · exact .inr (hti ▸ ⟨inside, raw, taker⟩)
      · have hother : y.state.owner ≠ token t := by
          rcases inside.owner_cases with hno | hi
          · exact hno ▸ hfree.symm
          · exact hi ▸ fun heq => hti (distinct heq).symm
        have hknown : y.state.owner ≠ Token.anonymous := by
          rcases inside.owner_cases with hno | hi
          · rw [hno]
            decide
          · exact hi ▸ Token.ne_anonymous_of_not_reserved (named i)
        exact .inl ⟨outside t hti, hother, hknown⟩

/-- A move keeps the invariant.  Outside, the only move of account is to take the raw lock. -/
theorem Invariant.made {es : List (Event L ι)} {y : Crowd L ι} {t : ι} {st : Stage}
    {m' : CheckedMutex L} {p : Progress} {answer : (st.access (token t)).Reply} [LawfulRawLock L]
    (distinct : Function.Injective token) (named : ∀ t, (token t).reserved = false)
    (h : Invariant token es y) (hst : At token y t st) (move : Move (token t) st y.state m' p) :
    Invariant token (es ++ [moveEvent token y t st answer m' p])
      (moved y t m' p (token t) st.operation) := by
  have hname := Token.ne_anonymous_of_not_reserved (named t)
  have hside := h.side distinct named t
  have hdoing : ∀ u, u ≠ t → (moved y t m' p (token t) st.operation).doing u = y.doing u := by
    intro u hu
    exact Function.update_of_ne hu _ _
  have hothers : ∀ u, u ≠ t → Outside token es y u → Outside token
      (es ++ [moveEvent token y t st answer m' p]) (moved y t m' p (token t) st.operation) u := by
    intro u hu houtside
    exact houtside.of_ne (Ne.symm hu) (hdoing u hu)
  cases h with
  | free raw owner outside =>
      obtain ⟨_, howner, hknown⟩ := hside.resolve_right fun hin => by simp [raw] at hin
      rcases (outside t).move hname howner hknown hst move with
        ⟨rfl, hp⟩ | ⟨raw', hlock, rfl, rfl, rfl⟩
      · have hall : ∀ u, Outside token (es ++ [moveEvent token y t st answer y.state p])
            (moved y t y.state p (token t) st.operation) u := by
          intro u
          by_cases hu : u = t
          · exact hu ▸ (outside t).made move hp
          · exact hothers u hu (outside u)
        exact .free raw owner hall
      · have hraw := LawfulRawLock.isLocked_of_lock hlock
        have htaker : taker? (es ++ [moveEvent token y t .taking answer ⟨raw', y.state.owner⟩
            (.on .claiming)]) = some t := by simp [taker?]
        have hinside : Inside token (es ++ [moveEvent token y t .taking answer
            ⟨raw', y.state.owner⟩ (.on .claiming)]) (moved y t ⟨raw', y.state.owner⟩
              (.on .claiming) (token t) Stage.taking.operation) t :=
          (outside t).entered owner move
        exact .taken t hraw htaker hinside fun u hu => hothers u hu (outside u)
  | taken i raw taker inside outside =>
      have htaker : taker? (es ++ [moveEvent token y t st answer m' p]) = some i :=
        (taker?_made (move.ne_taking raw)).trans taker
      by_cases hti : t = i
      · subst hti
        have hrest := fun u hu => hothers u hu (outside u hu)
        rcases inside.made raw hst move with ⟨hraw, hinside⟩ | ⟨hraw, howner, houtside⟩
        · exact .taken t hraw htaker hinside hrest
        · have hall : ∀ u, Outside token (es ++ [moveEvent token y t st answer m' p])
              (moved y t m' p (token t) st.operation) u := by
            intro u
            by_cases hu : u = t
            · exact hu ▸ houtside
            · exact hrest u hu
          exact .free hraw howner hall
      · obtain ⟨_, howner, hknown⟩ := hside.resolve_right fun hin => by
          simp [taker, Ne.symm hti] at hin
        rcases (outside t hti).move hname howner hknown hst move with
          ⟨rfl, hp⟩ | ⟨raw', hlock, _⟩
        · have hinside : Inside token (es ++ [moveEvent token y t st answer y.state p])
              (moved y t y.state p (token t) st.operation) i :=
            inside.of_ne hti (hdoing i (Ne.symm hti)) rfl
          have hrest : ∀ u, u ≠ i → Outside token (es ++ [moveEvent token y t st answer y.state p])
              (moved y t y.state p (token t) st.operation) u := by
            intro u hu
            by_cases hut : u = t
            · exact hut ▸ (outside t hti).made move hp
            · exact hothers u hut (outside u hu)
          exact .taken i raw htaker hinside hrest
        · simp [(LawfulRawLock.lock_eq_none_iff y.state.raw).mpr raw] at hlock

/-! ## Runs -/

theorem invariant_of_reaches [LawfulRawLock L] (distinct : Function.Injective token)
    (named : ∀ t, (token t).reserved = false) {es : List (Event L ι)} {y : Crowd L ι}
    (run : Reaches token es y) : Invariant token es y := by
  apply Crew.Run.invariant ?_ ?_ run
  · have houtside : ∀ t, Outside token [] (Crew.idle unowned : Crowd L ι) t := by
      intro t
      exact ⟨id, .inl rfl⟩
    exact .free LawfulRawLock.isLocked_unlocked rfl houtside
  · intro es y e z inv next
    rcases next_cases inv.staged next with ⟨t, op, hnone, rfl, rfl⟩ |
      ⟨t, st, answer, m', p, hst, hmove, rfl, rfl⟩
    · exact inv.began named hnone
    · exact inv.made distinct named hst hmove

/-- Before its last change, or its refusal, no access of an operation has changed the mutex. -/
theorem unchanged_of_reaches [LawfulRawLock L] (distinct : Function.Injective token)
    (named : ∀ t, (token t).reserved = false) {es : List (Event L ι)} {y : Crowd L ι}
    (run : Reaches token es y) {t : ι} {st : Stage} (hst : At token y t st) (hsilent : st.Silent) :
    ∀ c ∈ accesses t es, c.1 = c.2 := by
  induction run generalizing t st with
  | nil => simp [accesses]
  | @snoc es e y z run next ih =>
      rcases next_cases (invariant_of_reaches distinct named run).staged next with
        ⟨u, op, hnone, rfl, rfl⟩ | ⟨u, st', answer, m', p, hst', hmove, rfl, rfl⟩
      · by_cases hu : t = u
        · subst hu
          simp [accesses_began]
        · rw [accesses_snoc_of_ne (Ne.symm hu)]
          exact ih (hst.of_eq (Function.update_of_ne hu _ _).symm) hsilent
      · by_cases hu : t = u
        · subst hu
          cases p with
          | ended result => simp [At, Progress.doing] at hst
          | on st'' =>
              obtain rfl := hst.unique (at_moved hmove)
              obtain ⟨hsilent', rfl⟩ := hmove.unchanged hsilent
              rw [accesses_made]
              intro c hc
              rcases List.mem_append.mp hc with hold | hnew
              · exact ih hst' hsilent' c hold
              · rw [List.mem_singleton.mp hnew]
        · rw [accesses_snoc_of_ne (Ne.symm hu)]
          exact ih (hst.of_eq (Function.update_of_ne hu _ _).symm) hsilent

theorem Invariant.ended {es : List (Event L ι)} {y : Crowd L ι} [LawfulRawLock L]
    (distinct : Function.Injective token) (named : ∀ t, (token t).reserved = false)
    (h : Invariant token es y) {t : ι} {st : Stage} {m' : CheckedMutex L}
    {result : Except MutexError Unit} (hst : At token y t st)
    (move : Move (token t) st y.state m' (.ended result)) :
    (st.operation = .enter ∧ (result = .ok () ∧ ¬ Holds t es ∨
      result = .error .deadlock ∧ Holds t es)) ∨
    (st.operation = .exit ∧ (result = .ok () ∧ Holds t es ∨
      result = .error .notOwner ∧ ¬ Holds t es)) := by
  have hname := Token.ne_anonymous_of_not_reserved (named t)
  rcases h.side distinct named t with ⟨houtside, howner, hknown⟩ | ⟨hinside, raw, _⟩
  · rcases houtside.move hname howner hknown hst move with ⟨_, hp⟩ | ⟨_, _, _, _, hp⟩
    · rcases hp with ⟨hp, hexit⟩ | ⟨_, _, hp⟩
      · cases hp
        exact .inr ⟨hexit, .inr ⟨rfl, houtside.unheld⟩⟩
      · cases hp
    · cases hp
  · rcases hinside.move raw hst move with ⟨hheld, rfl, _, hp⟩ | ⟨hheld, _, _, hp⟩ |
      ⟨_, _, hp⟩ | ⟨hheld, rfl, _, hp⟩
    · cases hp
      exact .inl ⟨rfl, .inl ⟨rfl, hheld⟩⟩
    · rcases hp with ⟨hp, henter⟩ | ⟨_, _, hp⟩
      · cases hp
        exact .inl ⟨henter, .inr ⟨rfl, hheld⟩⟩
      · cases hp
    · cases hp
    · cases hp
      exact .inr ⟨rfl, .inl ⟨rfl, hheld⟩⟩

theorem Invariant.holder_unique {es : List (Event L ι)} {y : Crowd L ι}
    (distinct : Function.Injective token) (named : ∀ t, (token t).reserved = false)
    (h : Invariant token es y) {t u : ι} (ht : Holds t es) (hu : Holds u es) : t = u := by
  have htaker : ∀ v, Holds v es → taker? es = some v := by
    intro v hv
    rcases h.side distinct named v with ⟨houtside, _⟩ | ⟨_, _, htaker⟩
    · exact absurd hv houtside.unheld
    · exact htaker
  exact Option.some.inj ((htaker t ht).symm.trans (htaker u hu))

theorem Invariant.returned {es : List (Event L ι)} {y z : Crowd L ι} {e : Event L ι}
    (h : Invariant token es y) (next : Next token y e z) {t : ι} {op : Operation}
    {result : Except MutexError Unit} (hreturned : e.returned? = some (t, op, result)) :
    ∃ st answer m', op = st.operation ∧ At token y t st ∧
      Move (token t) st y.state m' (.ended result) ∧
      e = .made t st.operation (st.access (token t)) answer y.state m' (some result) := by
  rcases next_cases h.staged next with ⟨u, op', _, rfl, _⟩ |
    ⟨u, st, answer, m', p, hst, hmove, rfl, _⟩
  · simp [Crew.Event.returned?] at hreturned
  · cases p with
    | on st' => simp [Crew.Event.returned?, Progress.result?] at hreturned
    | ended r =>
        obtain ⟨rfl, rfl, rfl⟩ : u = t ∧ st.operation = op ∧ r = result := by
          simpa [Crew.Event.returned?, Progress.result?] using hreturned
        exact ⟨st, answer, m', rfl, hst, hmove, rfl⟩

theorem Invariant.frees {es : List (Event L ι)} {y z : Crowd L ι} {e : Event L ι}
    (distinct : Function.Injective token) (named : ∀ t, (token t).reserved = false)
    (h : Invariant token es y) (next : Next token y e z) (hfrees : Frees e) :
    taker? es = some e.thread ∧ RawLock.isLocked y.state.raw = true := by
  rcases next_cases h.staged next with ⟨u, op', _, rfl, _⟩ |
    ⟨u, st, answer, m', p, hst, hmove, rfl, _⟩
  · exact hfrees.elim
  · rcases h.side distinct named u with ⟨houtside, _⟩ | ⟨_, raw, taker⟩
    · rcases houtside.stage with hnone | ⟨st', hharmless, hst'⟩
      · simp [At, hnone] at hst
      · obtain rfl := hst.unique hst'
        cases st <;> simp_all [Frees, Stage.Harmless]
    · exact ⟨taker, raw⟩

theorem Invariant.proceeds {es : List (Event L ι)} {y : Crowd L ι}
    (distinct : Function.Injective token) (named : ∀ t, (token t).reserved = false)
    (h : Invariant token es y) {t : ι} {op : Operation}
    {p : Program Access.interface (Except MutexError Unit)} (hdoing : y.doing t = some (op, p))
    (hcaller : op = .exit ∨ Holds t es) : ∃ e z, Next token y e z ∧ e.thread = t := by
  obtain ⟨st, hst⟩ : ∃ st, At token y t st :=
    (h.staged t).resolve_left fun hnone => by simp [hnone] at hdoing
  have hop : st.operation = op := by
    have heq := Option.some.inj (hst.symm.trans hdoing)
    exact (Prod.mk.inj heq).1
  have htaking : st ≠ .taking := by
    rintro rfl
    rcases hcaller with rfl | hheld
    · cases hop
    · rcases h.side distinct named t with ⟨houtside, _⟩ | ⟨hinside, _⟩
      · exact houtside.unheld hheld
      · cases hinside with
        | claiming unheld _ _ => exact unheld hheld
        | freeing _ _ stage => cases hst.unique stage
        | holding _ _ stage =>
            rcases stage with hnone | ⟨st', hof, hst'⟩
            · simp [hnone] at hdoing
            · exact (hst.unique hst' ▸ hof : Stage.OfHolder .taking)
  obtain ⟨answer, m', hreply⟩ := reply_of_ne_taking (token t) y.state htaking
  exact ⟨_, _, .made hst hreply, rfl⟩

/-- However threads with tokens of their own use a mutex, and whatever they get wrong: at most one
holds it, an operation fails exactly if its caller holds the mutex already (an entry) or does not
hold it (an exit), one that fails has changed nothing, and the raw lock is freed only while it is
taken, by the thread that took it.  Exits never wait, nor do entries of the holder. -/
theorem exclusion_and_exact_errors [LawfulRawLock L] (distinct : Function.Injective token)
    (named : ∀ t, (token t).reserved = false) {es : List (Event L ι)} {y : Crowd L ι}
    (run : Reaches token es y) :
    (∀ t u, Holds t es → Holds u es → t = u) ∧
    (∀ e z t result, Next token y e z → e.returned? = some (t, .enter, result) →
      (result = .error .deadlock ↔ Holds t es) ∧ (result = .ok () ↔ ¬ Holds t es)) ∧
    (∀ e z t result, Next token y e z → e.returned? = some (t, .exit, result) →
      (result = .ok () ↔ Holds t es) ∧ (result = .error .notOwner ↔ ¬ Holds t es)) ∧
    (∀ e z t op error, Next token y e z → e.returned? = some (t, op, .error error) →
      ∀ c ∈ accesses t (es ++ [e]), c.1 = c.2) ∧
    (∀ e z, Next token y e z → Frees e →
      taker? es = some e.thread ∧ RawLock.isLocked y.state.raw = true) ∧
    (∀ t op p, y.doing t = some (op, p) → op = .exit ∨ Holds t es →
      ∃ e z, Next token y e z ∧ e.thread = t) := by
  have inv := invariant_of_reaches distinct named run
  have hunique : ∀ t u, Holds t es → Holds u es → t = u := by
    intro t u ht hu
    exact inv.holder_unique distinct named ht hu
  refine ⟨hunique, ?_, ?_, ?_, fun e z => inv.frees distinct named,
    fun t op p => inv.proceeds distinct named⟩
  · intro e z t result next hreturned
    obtain ⟨st, answer, m', hop, hst, hmove, rfl⟩ := inv.returned next hreturned
    rcases inv.ended distinct named hst hmove with ⟨_, ⟨rfl, hheld⟩ | ⟨rfl, hheld⟩⟩ | ⟨hexit, _⟩
    · simp [hheld]
    · simp [hheld]
    · simp [hexit] at hop
  · intro e z t result next hreturned
    obtain ⟨st, answer, m', hop, hst, hmove, rfl⟩ := inv.returned next hreturned
    rcases inv.ended distinct named hst hmove with ⟨henter, _⟩ | ⟨_, ⟨rfl, hheld⟩ | ⟨rfl, hheld⟩⟩
    · simp [henter] at hop
    · simp [hheld]
    · simp [hheld]
  · intro e z t op error next hreturned c hc
    obtain ⟨st, answer, m', _, hst, hmove, rfl⟩ := inv.returned next hreturned
    obtain ⟨hsilent, rfl⟩ := hmove.unchanged (fun h => by cases h)
    rw [accesses_made] at hc
    rcases List.mem_append.mp hc with hold | hnew
    · exact unchanged_of_reaches distinct named run hst hsilent c hold
    · rw [List.mem_singleton.mp hnew]

def twoTokens : Bool → Token
  | false => 7
  | true => 8

/-- One thread holds the mutex and enters it again, while the other waits for it. -/
theorem exclusion_at_second_entry :
    Function.Injective twoTokens ∧ (∀ t, (twoTokens t).reserved = false) ∧
    ∃ (es : List (Event SpinLock Bool)) (y z : Crowd SpinLock Bool) (e : Event SpinLock Bool),
      Reaches twoTokens es y ∧ Next twoTokens y e z ∧
      e.returned? = some (false, .enter, .error .deadlock) ∧ Holds false es ∧ ¬ Holds true es := by
  have distinct : Function.Injective twoTokens := by
    intro t u
    revert t u
    decide
  have named : ∀ t, (twoTokens t).reserved = false := by decide
  obtain ⟨es, y, z, e, run, next, hreturned⟩ :
      ∃ (es : List (Event SpinLock Bool)) (y z : _) (e : _),
        Reaches twoTokens es y ∧ Next twoTokens y e z ∧
          e.returned? = some (false, .enter, .error .deadlock) :=
    ⟨_, _, _, _, Crew.run_of_follow
      [(false, some .enter), (false, none), (false, none), (true, some .enter), (true, none),
        (false, none), (false, some .enter)] rfl, Crew.step_of_next? false none rfl, rfl⟩
  have exact_errors := exclusion_and_exact_errors distinct named run
  have held := (exact_errors.2.1 e z false _ next hreturned).1.mp rfl
  have unheld : ¬ Holds true es := by
    intro hother
    exact Bool.noConfusion (exact_errors.1 _ _ held hother)
  exact ⟨distinct, named, es, y, z, e, run, next, hreturned, held, unheld⟩

end CheckedMutex

end DiagnosticLog
