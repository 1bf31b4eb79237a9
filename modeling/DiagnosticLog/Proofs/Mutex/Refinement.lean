import DiagnosticLog.Proofs.Mutex.Stage
import Mathlib.Data.List.InsertIdx

/-!
# The mutex as a lock that records its owner

Operations are called on a mutex one after another, by callers with any tokens, shared or not.  An
operation that has to wait is put aside, others are called, and later it is resumed, as often as it
takes.

`OwnerLock` is what a caller has to know of the mutex: it is free, or it is held and one token is
recorded.  `refines_owner_lock` says that the mutex answers like it, call by call, and lets callers
wait like it.
-/

namespace DiagnosticLog

namespace Program

variable {I : Interface} {σ ε α : Type}

/-- The requests a program makes when it runs alone, each with the state it finds. -/
def visits (m : Machine I σ ε) : Program I α → σ → List (I.Request × σ)
  | done _, _ => []
  | ask r next, s =>
      (r, s) ::
        match m r s with
        | .reply answer s' => (next answer).visits m s'
        | _ => []

end Program

namespace CheckedMutex

/-! ## Locks that are used by whole operations -/

/-- What is left of an operation that waits. -/
abbrev Rest : Type :=
  Program Access.interface (Except MutexError Unit)

inductive Attempt (σ ω : Type) where
  | returned (result : Except MutexError Unit) (state : σ)
  | waiting (rest : ω) (state : σ)

/-- A lock with states in `σ`, at which an operation that waits is represented in `ω`. -/
structure LockService (σ ω : Type) where
  call : Operation → Token → σ → Attempt σ ω
  resume : ω → σ → Attempt σ ω

/-- A lock and the operations that wait for it, in the order in which they were put aside. -/
structure Front (σ ω : Type) where
  lock : σ
  waiting : List ω

inductive Use where
  | call (op : Operation) (me : Token)
  /-- Go on with the operation at a place among those that wait. -/
  | resume (place : Nat)
  deriving DecidableEq, Repr

/-- The caller does not go by the token that stands for nobody. -/
def Use.Named : Use → Prop
  | call _ me => me ≠ Token.noOwner
  | resume _ => True

inductive Reply where
  | returned (result : Except MutexError Unit)
  | waits
  /-- There is no operation to resume at the place. -/
  | nobody

namespace LockService

variable {σ ω : Type}

def serve (service : LockService σ ω) (x : Front σ ω) : Use → Reply × Front σ ω
  | .call op me =>
      match service.call op me x.lock with
      | .returned result s => (.returned result, ⟨s, x.waiting⟩)
      | .waiting rest s => (.waits, ⟨s, x.waiting ++ [rest]⟩)
  | .resume place =>
      match x.waiting[place]? with
      | none => (.nobody, x)
      | some rest =>
          match service.resume rest x.lock with
          | .returned result s => (.returned result, ⟨s, x.waiting.eraseIdx place⟩)
          | .waiting rest s => (.waits, ⟨s, x.waiting.set place rest⟩)

def serveAll (service : LockService σ ω) (x : Front σ ω) : List Use → List Reply × Front σ ω
  | [] => ([], x)
  | use :: rest =>
      let first := service.serve x use
      let later := service.serveAll first.2 rest
      (first.1 :: later.1, later.2)

end LockService

/-! ## The mutex, and the lock that records its owner -/

section Checked

variable {L : Type} [RawLock L]

def Attempt.ofOutcome :
    Outcome Access.interface (CheckedMutex L) Empty (Except MutexError Unit) →
      Attempt (CheckedMutex L) Rest
  | .finished result m => .returned result m
  | .waiting rest m => .waiting rest m
  | .ended never _ => nomatch never

/-- The mutex whose operations run access by access, undisturbed by other operations. -/
def checked : LockService (CheckedMutex L) Rest where
  call op me m := .ofOutcome ((op.program me).run perform m)
  resume rest m := .ofOutcome (rest.run perform m)

def Front.program? (x : Front (CheckedMutex L) Rest) : Use → Option Rest
  | .call op me => some (op.program me)
  | .resume place => x.waiting[place]?

end Checked

/-- A lock that is free, or held by somebody who went by a token. -/
inductive OwnerLock where
  | free
  | held (owner : Token)
  deriving DecidableEq, Repr

namespace OwnerLock

/-- Whoever has the recorded token may free the lock.  Where one of the two is anonymous, anyone
may. -/
def MayFree (me owner : Token) : Prop :=
  me = owner ∨ me = Token.anonymous ∨ owner = Token.anonymous

instance (me owner : Token) : Decidable (MayFree me owner) :=
  inferInstanceAs (Decidable (_ ∨ _ ∨ _))

/-- An entry waits while the lock is held, and then records its token. -/
def await (me : Token) : OwnerLock → Attempt OwnerLock Token
  | free => .returned (.ok ()) (held me)
  | held owner => .waiting me (held owner)

def call : Operation → Token → OwnerLock → Attempt OwnerLock Token
  | .enter, me, free => await me free
  | .enter, me, held owner =>
      if me ≠ Token.anonymous ∧ me = owner then .returned (.error .deadlock) (held owner)
      else await me (held owner)
  | .exit, _, free => .returned (.error .notOwner) free
  | .exit, me, held owner =>
      if MayFree me owner then .returned (.ok ()) free
      else .returned (.error .notOwner) (held owner)

/-- The lock itself; an operation that waits is an entry, and all that is left of it is its
token. -/
def service : LockService OwnerLock Token :=
  ⟨call, await⟩

end OwnerLock

/-! ## Simulation -/

section Simulation

variable {L : Type} [RawLock L] {m : CheckedMutex L} {l : OwnerLock} {me : Token}

/-- The raw lock and the owner of a mutex are in the state of an owner lock. -/
inductive Mirrors : CheckedMutex L → OwnerLock → Prop where
  | free {m : CheckedMutex L} (raw : RawLock.isLocked m.raw = false)
      (owner : m.owner = Token.noOwner) : Mirrors m .free
  | held {m : CheckedMutex L} (raw : RawLock.isLocked m.raw = true)
      (named : m.owner ≠ Token.noOwner) : Mirrors m (.held m.owner)

/-- Two attempts at an operation come to the same. -/
inductive Agree : Attempt (CheckedMutex L) Rest → Attempt OwnerLock Token → Prop where
  | returned {m : CheckedMutex L} {l : OwnerLock} {result : Except MutexError Unit}
      (mirrors : Mirrors m l) : Agree (.returned result m) (.returned result l)
  | waiting {m : CheckedMutex L} {l : OwnerLock} {me : Token} (mirrors : Mirrors m l)
      (named : me ≠ Token.noOwner) : Agree (.waiting (Stage.taking.rest me) m) (.waiting me l)

theorem stage_foreign_iff {owner : Token} :
    Stage.Foreign me owner ↔ ¬ OwnerLock.MayFree me owner := by
  simp only [Stage.Foreign, OwnerLock.MayFree, not_or]
  constructor
  · rintro ⟨hme, howner, hne⟩
    exact ⟨Ne.symm hne, hme, howner⟩
  · rintro ⟨hne, hme, howner⟩
    exact ⟨hme, howner, Ne.symm hne⟩

variable [LawfulRawLock L]

theorem take_agrees (mirrors : Mirrors m l) (named : me ≠ Token.noOwner) :
    Agree (.ofOutcome ((Stage.taking.rest me).run perform m)) (OwnerLock.await me l) := by
  cases mirrors with
  | free raw owner =>
      obtain ⟨raw', hlock⟩ : ∃ raw', RawLock.lock m.raw = some raw' := by
        rw [← Option.ne_none_iff_exists', Ne, LawfulRawLock.lock_eq_none_iff, raw]
        exact Bool.false_ne_true
      have hrun : (Stage.taking.rest me).run perform m = .finished (.ok ()) ⟨raw', me⟩ := by
        simp [Stage.rest, Stage.next, Program.run, perform, hlock]
      rw [hrun]
      exact .returned (.held (m := ⟨raw', me⟩) (LawfulRawLock.isLocked_of_lock hlock) named)
  | held raw hnamed =>
      have hlock := (LawfulRawLock.lock_eq_none_iff m.raw).mpr raw
      have hrun : (Stage.taking.rest me).run perform m = .waiting (Stage.taking.rest me) m := by
        simp [Stage.rest, Program.run, perform, hlock]
      rw [hrun]
      exact .waiting (.held raw hnamed) named

omit [LawfulRawLock L] in
theorem run_stage (me : Token) (m : CheckedMutex L) (st : Stage) (hst : st ≠ .taking) :
    ∃ m' p, Move me st m m' p ∧ (st.rest me).run perform m = (p.rest me).run perform m' := by
  obtain ⟨answer, m', hreply⟩ := reply_of_ne_taking me m hst
  obtain ⟨p, hmove, hnext⟩ := move_of_reply hreply
  refine ⟨m', p, hmove, ?_⟩
  rw [Stage.rest, Program.run_ask_of_reply hreply, hnext]

theorem enter_agrees (mirrors : Mirrors m l) (named : me ≠ Token.noOwner) :
    Agree (.ofOutcome ((enterAs me).run perform m)) (OwnerLock.call .enter me l) := by
  have htake := take_agrees mirrors named
  -- who finds itself is told so; everybody else goes on to the raw lock
  have henter : (enterAs me).run perform m =
      if me ≠ Token.anonymous ∧ m.owner = me then .finished (.error .deadlock) m
      else (Stage.taking.rest me).run perform m := by
    rw [show enterAs me = (Stage.first me .enter).rest me from Stage.program_eq_rest me .enter]
    by_cases hme : me = Token.anonymous
    · simp [Stage.first, hme]
    · obtain ⟨m', p, hmove, hrun⟩ := run_stage me m .checking (by simp)
      rw [Stage.first, if_neg hme, hrun]
      cases hmove with
      | checkOwn own => simp [hme, own, Progress.rest]
      | checkOther other => simp [other, Progress.rest]
  rw [henter]
  cases mirrors with
  | free raw owner =>
      rw [if_neg fun own => named (own.2.symm.trans owner)]
      exact htake
  | held raw hnamed =>
      by_cases hown : me ≠ Token.anonymous ∧ me = m.owner
      · rw [if_pos ⟨hown.1, hown.2.symm⟩, OwnerLock.call, if_pos hown]
        exact .returned (.held raw hnamed)
      · rw [if_neg fun own => hown ⟨own.1, own.2.symm⟩, OwnerLock.call, if_neg hown]
        exact htake

theorem exit_agrees (mirrors : Mirrors m l) :
    Agree (.ofOutcome ((exitAs me).run perform m)) (OwnerLock.call .exit me l) := by
  rw [show exitAs me = Stage.testing.rest me from Stage.program_eq_rest me .exit]
  obtain ⟨m₁, p₁, htest, hrun⟩ := run_stage me m .testing nofun
  rw [hrun]
  cases mirrors with
  | free raw owner =>
      cases htest with
      | testFree _ => exact .returned (.free raw owner)
      | testTaken taken => simp [raw] at taken
  | held raw hnamed =>
      cases htest with
      | testFree free => simp [raw] at free
      | testTaken _ =>
          obtain ⟨m₂, p₂, hcompare, hrun⟩ := run_stage me m .comparing nofun
          rw [Progress.rest, hrun]
          cases hcompare with
          | compareForeign foreign =>
              rw [OwnerLock.call, if_neg (stage_foreign_iff.mp foreign)]
              exact .returned (.held raw hnamed)
          | compareOwn own =>
              have free : OwnerLock.MayFree me m.owner :=
                Decidable.not_not.mp fun h => own (stage_foreign_iff.mpr h)
              rw [OwnerLock.call, if_pos free]
              exact .returned (.free (LawfulRawLock.isLocked_unlock _ raw) rfl)

/-- A mutex and those that wait for it are as an owner lock and those that wait for that. -/
structure Corresponds (x : Front (CheckedMutex L) Rest) (y : Front OwnerLock Token) : Prop where
  lock : Mirrors x.lock y.lock
  waiting : x.waiting = y.waiting.map Stage.taking.rest
  named : ∀ me ∈ y.waiting, me ≠ Token.noOwner

variable {x : Front (CheckedMutex L) Rest} {y : Front OwnerLock Token}

theorem Corresponds.call (h : Corresponds x y) (op : Operation) (named : me ≠ Token.noOwner) :
    (checked.serve x (.call op me)).1 = (OwnerLock.service.serve y (.call op me)).1 ∧
      Corresponds (checked.serve x (.call op me)).2
        (OwnerLock.service.serve y (.call op me)).2 := by
  have hagree : Agree (checked.call op me x.lock) (OwnerLock.service.call op me y.lock) := by
    cases op with
    | enter => exact enter_agrees h.lock named
    | exit => exact exit_agrees h.lock
  simp only [LockService.serve]
  generalize checked.call op me x.lock = a, OwnerLock.service.call op me y.lock = b at hagree
  cases hagree with
  | returned mirrors => exact ⟨rfl, mirrors, h.waiting, h.named⟩
  | waiting mirrors hme =>
      refine ⟨rfl, mirrors, ?_, ?_⟩
      · simp [h.waiting]
      · intro u hu
        rcases List.mem_append.mp hu with hold | hnew
        · exact h.named u hold
        · exact List.mem_singleton.mp hnew ▸ hme

theorem Corresponds.resume (h : Corresponds x y) (place : Nat) :
    (checked.serve x (.resume place)).1 = (OwnerLock.service.serve y (.resume place)).1 ∧
      Corresponds (checked.serve x (.resume place)).2
        (OwnerLock.service.serve y (.resume place)).2 := by
  have hplace : x.waiting[place]? = (y.waiting[place]?).map Stage.taking.rest := by
    rw [h.waiting, List.getElem?_map]
  simp only [LockService.serve, hplace]
  cases hy : y.waiting[place]? with
  | none => exact ⟨rfl, h⟩
  | some me =>
      have hagree : Agree (checked.resume (Stage.taking.rest me) x.lock)
          (OwnerLock.service.resume me y.lock) :=
        take_agrees h.lock (h.named me (List.mem_of_getElem? hy))
      simp only [Option.map_some]
      generalize checked.resume (Stage.taking.rest me) x.lock = a,
        OwnerLock.service.resume me y.lock = b at hagree
      cases hagree with
      | returned mirrors =>
          refine ⟨rfl, mirrors, ?_, fun u hu => h.named u (List.mem_of_mem_eraseIdx hu)⟩
          simp [h.waiting, List.eraseIdx_map]
      | waiting mirrors hme =>
          refine ⟨rfl, mirrors, ?_, ?_⟩
          · simp [h.waiting, List.map_set]
          · intro u hu
            rcases List.mem_or_eq_of_mem_set hu with hold | rfl
            · exact h.named u hold
            · exact hme

theorem Corresponds.serve (h : Corresponds x y) {use : Use} (named : use.Named) :
    (checked.serve x use).1 = (OwnerLock.service.serve y use).1 ∧
      Corresponds (checked.serve x use).2 (OwnerLock.service.serve y use).2 := by
  cases use with
  | call op me => exact h.call op named
  | resume place => exact h.resume place

theorem Corresponds.serveAll (h : Corresponds x y) {uses : List Use}
    (named : ∀ use ∈ uses, use.Named) :
    (checked.serveAll x uses).1 = (OwnerLock.service.serveAll y uses).1 ∧
      Corresponds (checked.serveAll x uses).2 (OwnerLock.service.serveAll y uses).2 := by
  induction uses generalizing x y with
  | nil => exact ⟨rfl, h⟩
  | cons use rest ih =>
      obtain ⟨hreply, hafter⟩ := h.serve (named use (List.mem_cons_self ..))
      obtain ⟨hreplies, hend⟩ := ih hafter fun u hu => named u (List.mem_cons_of_mem _ hu)
      simp only [LockService.serveAll]
      exact ⟨by rw [hreply, hreplies], hend⟩

end Simulation

/-! ## What single operations leave alone -/

section Stages

variable {L : Type} [RawLock L] {me : Token} {st : Stage} {m m' : CheckedMutex L}

/-- How many accesses an operation still makes at most. -/
def Stage.left : Stage → Nat
  | checking => 3
  | taking => 2
  | claiming => 1
  | testing => 4
  | comparing => 3
  | disowning => 2
  | freeing => 1

theorem Move.left_lt {st' : Stage} (move : Move me st m m' (.on st')) : st'.left < st.left := by
  cases move <;> decide

/-- What holds at a stage if it holds wherever the next move leads holds at every stage. -/
theorem Stage.move_induction (me : Token) {motive : Stage → CheckedMutex L → Prop}
    (step : ∀ st m, (∀ st' m', Move me st m m' (.on st') → motive st' m') → motive st m)
    (st : Stage) (m : CheckedMutex L) : motive st m := by
  induction hn : st.left using Nat.strongRecOn generalizing st m with
  | ind n ih =>
      apply step
      intro st' m' move
      exact ih st'.left (hn ▸ move.left_lt) st' m' rfl

theorem run_rest_error {e : MutexError}
    (h : (st.rest me).run perform m = .finished (.error e) m') : st.Silent ∧ m' = m := by
  induction st, m using @Stage.move_induction L _ me with
  | step st m ih =>
      rw [Stage.rest] at h
      cases heffect : perform (st.access me) m with
      | wait =>
          rw [Program.run_ask_of_wait heffect] at h
          cases h
      | stop never _ => exact nomatch never
      | reply answer m₁ =>
          obtain ⟨p, move, hnext⟩ := move_of_reply heffect
          rw [Program.run_ask_of_reply heffect, hnext] at h
          cases p with
          | ended result =>
              cases h
              exact move.unchanged (p := .ended (.error e)) nofun
          | on st' =>
              obtain ⟨hsilent, rfl⟩ := ih st' m₁ move h
              exact move.unchanged (p := .on st') hsilent

/-- From here on an exit relies on the raw lock being taken. -/
def Stage.Armed : Stage → Prop
  | comparing | disowning | freeing => True
  | _ => False

theorem Move.armed {st' : Stage} (move : Move me st m m' (.on st'))
    (h : st.Armed → RawLock.isLocked m.raw = true) (harmed : st'.Armed) :
    RawLock.isLocked m'.raw = true := by
  cases move with
  | testTaken taken => exact taken
  | compareOwn | disown => exact h trivial
  | checkOther | take => exact harmed.elim

/-- An operation that relies on the raw lock no sooner than it has seen it taken frees it only
while it is taken. -/
theorem visits_rest_unlocks (h : st.Armed → RawLock.isLocked m.raw = true) {found : CheckedMutex L}
    (hmem : (.unlockRaw, found) ∈ (st.rest me).visits perform m) :
    RawLock.isLocked found.raw = true := by
  induction st, m using @Stage.move_induction L _ me with
  | step st m ih =>
      rw [Stage.rest, Program.visits, List.mem_cons] at hmem
      rcases hmem with hhere | hlater
      · obtain ⟨haccess, rfl⟩ := Prod.mk.inj hhere
        apply h
        cases st <;> trivial
      · split at hlater
        · rename_i answer m₁ hreply
          obtain ⟨p, move, hnext⟩ := move_of_reply hreply
          rw [hnext] at hlater
          cases p with
          | ended result => cases hlater
          | on st' => exact ih st' m₁ move (move.armed h) hlater
        · cases hlater

end Stages

/-! ## Refinement -/

section Refinement

variable {L : Type} [RawLock L] {x x' : Front (CheckedMutex L) Rest} {y : Front OwnerLock Token}

theorem run_of_returned {use : Use} {result : Except MutexError Unit}
    (h : checked.serve x use = (.returned result, x')) :
    ∃ p, x.program? use = some p ∧ p.run perform x.lock = .finished result x'.lock := by
  have hfinished {p : Rest} {m' : CheckedMutex L}
      (hp : Attempt.ofOutcome (p.run perform x.lock) = .returned result m') :
      p.run perform x.lock = .finished result m' := by
    cases hrun : p.run perform x.lock with
    | finished r s =>
        rw [hrun] at hp
        cases hp
        rfl
    | waiting rest s => simp [hrun, Attempt.ofOutcome] at hp
    | ended never s => exact nomatch never
  cases use with
  | call op me =>
      simp only [LockService.serve] at h
      split at h
      · rename_i r s hcall
        cases h
        exact ⟨op.program me, rfl, hfinished hcall⟩
      · simp at h
  | resume place =>
      simp only [LockService.serve] at h
      split at h
      · simp at h
      · rename_i rest hplace
        split at h
        · rename_i r s hresume
          cases h
          exact ⟨rest, hplace, hfinished hresume⟩
        · simp at h

theorem Corresponds.program_eq_rest (h : Corresponds x y) {use : Use} {p : Rest}
    (hp : x.program? use = some p) : ∃ me st, ¬ Stage.Armed st ∧ p = st.rest me := by
  cases use with
  | call op me =>
      obtain rfl : op.program me = p := Option.some.inj hp
      refine ⟨me, Stage.first me op, ?_, Stage.program_eq_rest me op⟩
      cases op with
      | exit => exact id
      | enter =>
          rw [Stage.first]
          split <;> exact id
  | resume place =>
      have hmem : p ∈ x.waiting := List.mem_of_getElem? hp
      rw [h.waiting] at hmem
      obtain ⟨me, _, rfl⟩ := List.mem_map.mp hmem
      exact ⟨me, .taking, id, rfl⟩

theorem Mirrors.isLocked_iff {m : CheckedMutex L} {l : OwnerLock} (h : Mirrors m l) :
    RawLock.isLocked m.raw = true ↔ m.owner ≠ Token.noOwner := by
  cases h with
  | free raw owner => simp [raw, owner]
  | held raw named => simp [raw, named]

/-- Whatever operations are called on a new mutex, by callers that may share tokens or be anonymous,
and whichever of those that wait are resumed: it answers as the owner lock does, lets the same
callers wait, and records the owner that the owner lock records.  Between operations the raw lock
is taken exactly if there is an owner.  An operation that fails changes nothing, and none frees the
raw lock unless it is taken. -/
theorem refines_owner_lock [LawfulRawLock L] {m : CheckedMutex L}
    (new : m = unowned ∨ m = default) {uses : List Use} (named : ∀ use ∈ uses, use.Named) :
    ∃ replies x y,
      checked.serveAll ⟨m, []⟩ uses = (replies, x) ∧
      OwnerLock.service.serveAll ⟨.free, []⟩ uses = (replies, y) ∧
      Mirrors x.lock y.lock ∧ x.waiting = y.waiting.map Stage.taking.rest ∧
      (RawLock.isLocked x.lock.raw = true ↔ x.lock.owner ≠ Token.noOwner) ∧
      (∀ use e x', checked.serve x use = (.returned (.error e), x') → x'.lock = x.lock) ∧
      (∀ use p found, x.program? use = some p →
        (.unlockRaw, found) ∈ p.visits perform x.lock → RawLock.isLocked found.raw = true) := by
  obtain rfl : m = unowned := new.elim id id
  have hstart : Corresponds (⟨unowned, []⟩ : Front (CheckedMutex L) Rest) ⟨.free, []⟩ :=
    ⟨.free LawfulRawLock.isLocked_unlocked rfl, rfl, nofun⟩
  obtain ⟨hreplies, hend⟩ := hstart.serveAll named
  refine ⟨_, _, _, rfl, Prod.ext hreplies.symm rfl, hend.lock, hend.waiting,
    hend.lock.isLocked_iff, ?_, ?_⟩
  · intro use e x' herror
    obtain ⟨p, hp, hrun⟩ := run_of_returned herror
    obtain ⟨me, st, _, rfl⟩ := hend.program_eq_rest hp
    exact (run_rest_error hrun).2
  · intro use p found hp hmem
    obtain ⟨me, st, hunarmed, rfl⟩ := hend.program_eq_rest hp
    exact visits_rest_unlocks (fun harmed => absurd harmed hunarmed) hmem

/-- Two callers share the token 7; the others are anonymous or have the token 8. -/
def mixedUses : List Use :=
  [.call .enter 7, .call .enter Token.anonymous, .call .enter 7, .call .exit 8,
    .call .exit Token.anonymous, .resume 0, .call .enter 7, .call .exit 8, .call .exit 8]

theorem refines_with_mixed_callers :
    (∀ use ∈ mixedUses, use.Named) ∧
    ∃ (x : Front (CheckedMutex SpinLock) Rest),
      checked.serveAll ⟨unowned, []⟩ mixedUses =
        ([.returned (.ok ()), .waits, .returned (.error .deadlock), .returned (.error .notOwner),
          .returned (.ok ()), .returned (.ok ()), .waits, .returned (.ok ()),
          .returned (.error .notOwner)], x) ∧
      RawLock.isLocked x.lock.raw = false ∧ x.waiting = [Stage.taking.rest 7] := by
  have named : ∀ use ∈ mixedUses, use.Named := by
    simp [mixedUses, Use.Named, Token.noOwner, Token.anonymous]
  obtain ⟨replies, x, y, hx, hy, mirrors, hwaiting, _⟩ :=
    refines_owner_lock (m := (unowned : CheckedMutex SpinLock)) (.inl rfl) named
  cases hy
  refine ⟨named, x, hx, ?_, hwaiting⟩
  cases mirrors with
  | free raw owner => exact raw

end Refinement

end CheckedMutex

end DiagnosticLog
