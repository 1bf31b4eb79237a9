import DiagnosticLog.Proofs.Mutex.Stage
import Mathlib.Logic.Function.Basic

/-!
# Threads that leave what they have entered

Threads that enter a mutex only when they do not hold it, and leave it only when they do, exclude
each other even if they are sometimes anonymous: a thread may enter under one token and leave under
another.  The owner then does not tell who holds the mutex.  That exactly one thread is inside
follows from the raw lock, and that none finds its own token by mistake from the owner being, at any
time, nobody, anonymous, or the thread that is inside.
-/

namespace DiagnosticLog

namespace CheckedMutex

variable {L ι : Type}

/-- Where a thread is that uses a mutex: at no operation on it, or at a stage of one, which it began
under some token. -/
inductive Standing where
  | resting (held : Bool)
  | within (me : Token) (st : Stage)

namespace Standing

def held : Standing → Bool
  | resting held => held
  | within _ st => st.operation = .exit

end Standing

/-- Where an operation leads a thread that keeps to the brackets: only the failure of an operation
leaves it where it was. -/
def Progress.standing (me : Token) (op : Operation) : Progress → Standing
  | on st => .within me st
  | ended (.ok _) => .resting (op = .enter)
  | ended (.error _) => .resting (op = .exit)

section Tokens

variable (token : ι → Token)

def GoesBy (t : ι) (me : Token) : Prop :=
  me = Token.anonymous ∨ me = token t

/-- The stages of an exit up to the one at which it clears the owner. -/
def Stage.Leaves : Stage → Prop
  | testing | comparing | disowning => True
  | _ => False

/-- A thread that is not inside, and at most about to enter. -/
inductive Standing.Outside (t : ι) : Standing → Prop where
  | resting : Standing.Outside t (.resting false)
  | checking : Standing.Outside t (.within (token t) .checking)
  | taking {me : Token} (known : GoesBy token t me) : Standing.Outside t (.within me .taking)

/-- A thread that has taken the raw lock, and the owner meanwhile. -/
inductive Standing.Inside (t : ι) : Token → Standing → Prop where
  | claiming {me : Token} (known : GoesBy token t me) :
      Standing.Inside t Token.noOwner (.within me .claiming)
  | resting {owner : Token} (entered : GoesBy token t owner) :
      Standing.Inside t owner (.resting true)
  | leaving {owner me : Token} {st : Stage} (entered : GoesBy token t owner)
      (known : GoesBy token t me) (leaves : st.Leaves) : Standing.Inside t owner (.within me st)
  | freeing {me : Token} : Standing.Inside t Token.noOwner (.within me .freeing)

variable [RawLock L]

/-- Either the mutex is free and all threads are outside, or all but one are. -/
inductive Orderly (m : CheckedMutex L) (standing : ι → Standing) : Prop where
  | free (raw : RawLock.isLocked m.raw = false) (owner : m.owner = Token.noOwner)
      (outside : ∀ t, Standing.Outside token t (standing t))
  | taken (i : ι) (raw : RawLock.isLocked m.raw = true)
      (inside : Standing.Inside token i m.owner (standing i))
      (outside : ∀ t, t ≠ i → Standing.Outside token t (standing t))

end Tokens

variable {token : ι → Token} {t : ι} {s : Standing} {me owner : Token} {st : Stage}

theorem Standing.Outside.not_held (h : Standing.Outside token t s) : s.held = false := by
  cases h <;> rfl

theorem Standing.Inside.owner_cases (h : Standing.Inside token t owner s) :
    owner = Token.noOwner ∨ GoesBy token t owner := by
  cases h with
  | claiming _ => exact .inl rfl
  | resting entered => exact .inr entered
  | leaving entered _ _ => exact .inr entered
  | freeing => exact .inl rfl

theorem not_foreign_of_goesBy (hme : GoesBy token t me) (howner : GoesBy token t owner) :
    ¬ Stage.Foreign me owner := by
  rintro ⟨hname, hknown, hne⟩
  exact hne ((howner.resolve_left hknown).trans (hme.resolve_left hname).symm)

theorem ne_token_of_not_self {i : ι} (distinct : Function.Injective token)
    (named : ∀ t, (token t).reserved = false) (hti : t ≠ i)
    (howner : owner = Token.noOwner ∨ GoesBy token i owner) : owner ≠ token t := by
  rcases howner with rfl | rfl | rfl
  · exact (Token.ne_noOwner_of_not_reserved (named t)).symm
  · exact (Token.ne_anonymous_of_not_reserved (named t)).symm
  · exact fun heq => hti (distinct heq).symm

section Orderly

variable [RawLock L] {m m' : CheckedMutex L} {standing : ι → Standing}

/-- What an outside thread does next: it finds the mutex not to be its own, or takes the raw
lock. -/
theorem Standing.Outside.move {p : Progress} (h : Standing.Outside token t (.within me st))
    (howner : m.owner ≠ token t) (move : Move me st m m' p) :
    (m' = m ∧ p = .on .taking ∧ GoesBy token t me) ∨
    (∃ raw, RawLock.lock m.raw = some raw ∧ m' = ⟨raw, m.owner⟩ ∧ p = .on .claiming ∧
      GoesBy token t me) := by
  cases h with
  | checking =>
      cases move with
      | checkOwn own => exact absurd own howner
      | checkOther _ => exact .inl ⟨rfl, rfl, .inr rfl⟩
  | taking known =>
      cases move with
      | take lock => exact .inr ⟨_, lock, rfl, rfl, known⟩

/-- What the thread inside does next: it goes on inside, or it frees the raw lock when the owner has
been cleared. -/
theorem Standing.Inside.move {p : Progress} (h : Standing.Inside token t m.owner (.within me st))
    (raw : RawLock.isLocked m.raw = true) (move : Move me st m m' p) :
    (m'.raw = m.raw ∧ Standing.Inside token t m'.owner (p.standing me st.operation) ∧
      ∀ e, p ≠ .ended (.error e)) ∨
    (m' = ⟨RawLock.unlock m.raw, Token.noOwner⟩ ∧ st = .freeing ∧ p = .ended (.ok ())) := by
  generalize howner : m.owner = owner at h
  cases h with
  | claiming known =>
      cases move
      exact .inl ⟨rfl, .resting known, nofun⟩
  | leaving entered known leaves =>
      subst howner
      cases move with
      | testFree free => simp [raw] at free
      | testTaken _ => exact .inl ⟨rfl, .leaving entered known trivial, nofun⟩
      | compareForeign foreign => exact absurd foreign (not_foreign_of_goesBy known entered)
      | compareOwn _ => exact .inl ⟨rfl, .leaving entered known trivial, nofun⟩
      | disown => exact .inl ⟨rfl, .freeing, nofun⟩
      | checkOwn | checkOther | take | claim | free => exact leaves.elim
  | freeing =>
      cases move
      exact .inr ⟨by rw [howner], rfl, rfl⟩

theorem Orderly.side (h : Orderly token m standing) (distinct : Function.Injective token)
    (named : ∀ t, (token t).reserved = false) (t : ι) :
    (Standing.Outside token t (standing t) ∧ m.owner ≠ token t) ∨
    (Standing.Inside token t m.owner (standing t) ∧ RawLock.isLocked m.raw = true) := by
  cases h with
  | free raw owner outside =>
      exact .inl ⟨outside t, owner ▸ (Token.ne_noOwner_of_not_reserved (named t)).symm⟩
  | taken i raw inside outside =>
      by_cases hti : t = i
      · exact .inr (hti ▸ ⟨inside, raw⟩)
      · exact .inl ⟨outside t hti, ne_token_of_not_self distinct named hti inside.owner_cases⟩

theorem Orderly.held_unique (h : Orderly token m standing) {u : ι}
    (ht : (standing t).held) (hu : (standing u).held) : t = u := by
  cases h with
  | free _ _ outside => simp [(outside t).not_held] at ht
  | taken i _ _ outside =>
      have hin : ∀ v, (standing v).held → v = i := by
        intro v hv
        by_contra hvi
        simp [(outside v hvi).not_held] at hv
      exact (hin t ht).trans (hin u hu).symm

theorem Orderly.freeing (h : Orderly token m standing) (hst : standing t = .within me .freeing) :
    RawLock.isLocked m.raw = true ∧ m.owner = Token.noOwner := by
  have hnot : ¬ Standing.Outside token t (standing t) := by
    rw [hst]
    nofun
  cases h with
  | free _ _ outside => exact absurd (outside t) hnot
  | taken i raw inside outside =>
      by_cases hti : t = i
      · subst hti
        rw [hst] at inside
        generalize m.owner = owner at inside
        cases inside with
        | leaving _ _ leaves => exact leaves.elim
        | freeing => exact ⟨raw, rfl⟩
      · exact absurd (outside t hti) hnot

variable [DecidableEq ι]

theorem Standing.Outside.of_update {u : ι} {s' : Standing} (hs' : Standing.Outside token t s')
    (h : u ≠ t → Standing.Outside token u (standing u)) :
    Standing.Outside token u (Function.update standing t s' u) := by
  by_cases hu : u = t
  · rw [hu, Function.update_self]
    exact hs'
  · rw [Function.update_of_ne hu]
    exact h hu

theorem Standing.Outside.of_update_of_ne {u : ι} (hu : u ≠ t) (s' : Standing)
    (h : Standing.Outside token u (standing u)) :
    Standing.Outside token u (Function.update standing t s' u) := by
  rw [Function.update_of_ne hu]
  exact h

theorem Orderly.began (h : Orderly token m standing) {op : Operation}
    (hrest : standing t = .resting (op = .exit)) (known : GoesBy token t me) :
    Orderly token m (Function.update standing t (.within me (Stage.first me op))) := by
  have houtside (hs : Standing.Outside token t (standing t)) :
      Standing.Outside token t (.within me (Stage.first me op)) := by
    cases op with
    | exit =>
        rw [hrest] at hs
        cases hs
    | enter =>
        rw [Stage.first]
        split
        · exact .taking known
        · rename_i hname
          rw [known.resolve_left hname]
          exact .checking
  cases h with
  | free raw owner outside =>
      exact .free raw owner fun u => (houtside (outside t)).of_update fun _ => outside u
  | taken i raw inside outside =>
      by_cases hti : t = i
      · subst hti
        have hinside : Standing.Inside token t m.owner (.within me (Stage.first me op)) := by
          rw [hrest] at inside
          generalize m.owner = owner at inside ⊢
          cases op with
          | enter => cases inside
          | exit =>
              cases inside with
              | resting entered => exact .leaving entered known trivial
        refine .taken t raw ?_ fun u hu => (outside u hu).of_update_of_ne hu _
        rw [Function.update_self]
        exact hinside
      · have houtside' := houtside (outside t hti)
        refine .taken i raw ?_ fun u hu => houtside'.of_update fun _ => outside u hu
        rw [Function.update_of_ne (Ne.symm hti)]
        exact inside

/-- No operation of threads that keep to the brackets fails, and each access keeps order. -/
theorem Orderly.made [LawfulRawLock L] (h : Orderly token m standing)
    (distinct : Function.Injective token) (named : ∀ t, (token t).reserved = false)
    {p : Progress} (hst : standing t = .within me st) (move : Move me st m m' p) :
    Orderly token m' (Function.update standing t (p.standing me st.operation)) ∧
      ∀ e, p ≠ .ended (.error e) := by
  have hside := h.side distinct named t
  rw [hst] at hside
  cases h with
  | free raw owner outside =>
      obtain ⟨hout, howner⟩ := hside.resolve_right fun hin => by simp [raw] at hin
      rcases hout.move howner move with ⟨rfl, rfl, known⟩ | ⟨raw', hlock, rfl, rfl, known⟩
      · have houtside : Standing.Outside token t (.within me .taking) := .taking known
        exact ⟨.free raw owner fun u => houtside.of_update fun _ => outside u, nofun⟩
      · refine ⟨.taken t (LawfulRawLock.isLocked_of_lock hlock) ?_ fun u hu =>
          (outside u).of_update_of_ne hu _, nofun⟩
        rw [Function.update_self, owner]
        exact .claiming known
  | taken i raw inside outside =>
      by_cases hti : t = i
      · subst hti
        rw [hst] at inside
        rcases inside.move raw move with ⟨hraw, hinside, hok⟩ | ⟨rfl, rfl, rfl⟩
        · refine ⟨.taken t (hraw ▸ raw) ?_ fun u hu => (outside u hu).of_update_of_ne hu _, hok⟩
          rw [Function.update_self]
          exact hinside
        · exact ⟨.free (LawfulRawLock.isLocked_unlock _ raw) rfl fun u =>
            Standing.Outside.resting.of_update (outside u), nofun⟩
      · have hout : Standing.Outside token t (.within me st) := hst ▸ outside t hti
        have howner := ne_token_of_not_self distinct named hti inside.owner_cases
        rcases hout.move howner move with ⟨rfl, rfl, known⟩ | ⟨raw', hlock, _⟩
        · refine ⟨.taken i raw ?_ fun u hu => (Standing.Outside.taking known).of_update fun _ =>
            outside u hu, nofun⟩
          rw [Function.update_of_ne (Ne.symm hti)]
          exact inside
        · simp [(LawfulRawLock.lock_eq_none_iff m.raw).mpr raw] at hlock

end Orderly

end CheckedMutex

end DiagnosticLog
