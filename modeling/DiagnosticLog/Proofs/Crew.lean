import DiagnosticLog.Program
import Mathlib.Data.List.Induction
import Mathlib.Logic.Function.Basic

/-!
# Threads that take turns

A crew is a number of threads that do jobs on one machine.  A thread that is at no job may begin any
job at any time.  It then makes the requests of the job's program one by one, and between two of
them any other thread may make its own; a request that has to wait is not made.  A job is over with
the last request of its program.

A run is recorded as the list of its events.  Whatever is said about the past of a run, such as who
holds a lock or what has been printed, is a function of that list.

The main statements are `Run.invariant`, the induction over a run, and `run_of_follow`, which makes
a run out of a schedule that can be computed.
-/

namespace DiagnosticLog

namespace Program

variable {I : Interface} {α β : Type}

def result? : Program I α → Option α
  | done a => some a
  | ask _ _ => none

@[simp] theorem result?_done (a : α) : (done a : Program I α).result? = some a := rfl

@[simp] theorem result?_ask (r : I.Request) (next : I.Reply r → Program I α) :
    (ask r next).result? = none := rfl

structure Exchange (I : Interface) where
  request : I.Request
  answer : I.Reply request

/-- After these exchanges this much is left of a program. -/
inductive Reaches : Program I α → List (Exchange I) → Program I α → Prop where
  | nil {p : Program I α} : Reaches p [] p
  | cons {r : I.Request} {next : I.Reply r → Program I α} {answer : I.Reply r}
      {xs : List (Exchange I)} {q : Program I α} (rest : Reaches (next answer) xs q) :
      Reaches (ask r next) (⟨r, answer⟩ :: xs) q

theorem Reaches.snoc {p : Program I α} {xs : List (Exchange I)} {r : I.Request}
    {next : I.Reply r → Program I α} (h : Reaches p xs (ask r next)) (answer : I.Reply r) :
    Reaches p (xs ++ [⟨r, answer⟩]) (next answer) := by
  generalize hq : ask r next = q at h
  induction h with
  | nil =>
      rw [← hq]
      exact .cons .nil
  | cons rest ih => exact .cons (ih hq)

theorem Reaches.append {p q q' : Program I α} {xs ys : List (Exchange I)} (h : Reaches p xs q)
    (rest : Reaches q ys q') : Reaches p (xs ++ ys) q' := by
  induction h with
  | nil => exact rest
  | cons _ ih => exact .cons (ih rest)

theorem Reaches.of_append {p q q' : Program I α} {xs ys : List (Exchange I)}
    (h : Reaches p (xs ++ ys) q') (first : Reaches p xs q) : Reaches q ys q' := by
  induction first with
  | nil => exact h
  | cons _ ih =>
      cases h with
      | cons rest => exact ih rest

theorem Reaches.bind_left {p p' : Program I α} {xs : List (Exchange I)} (h : Reaches p xs p')
    (f : α → Program I β) : Reaches (p >>= f) xs (p' >>= f) := by
  induction h with
  | nil => exact .nil
  | cons rest ih => exact .cons ih

theorem Reaches.bind {p : Program I α} {f : α → Program I β} {a : α} {xs ys : List (Exchange I)}
    {q : Program I β} (h : Reaches p xs (done a)) (rest : Reaches (f a) ys q) :
    Reaches (p >>= f) (xs ++ ys) q := by
  generalize hdone : done a = p' at h
  induction h with
  | nil =>
      rw [← hdone]
      exact rest
  | cons _ ih => exact .cons (ih hdone)

theorem Reaches.bind_right {p : Program I α} {a : α} {xs : List (Exchange I)}
    (h : Reaches p xs (done a)) (f : α → Program I β) : Reaches (p >>= f) xs (f a) := by
  have hrest := h.bind (Reaches.nil (p := f a))
  rw [List.append_nil] at hrest
  exact hrest

theorem reaches_bind_iff {p : Program I α} {f : α → Program I β} {xs : List (Exchange I)}
    {q : Program I β} :
    Reaches (p >>= f) xs q ↔
      (∃ p', Reaches p xs p' ∧ q = (p' >>= f)) ∨
        ∃ a ys zs, xs = ys ++ zs ∧ Reaches p ys (done a) ∧ Reaches (f a) zs q := by
  constructor
  · intro h
    induction p generalizing xs with
    | done a => exact .inr ⟨a, [], xs, rfl, .nil, h⟩
    | ask r next ih =>
        cases h with
        | nil => exact .inl ⟨ask r next, .nil, rfl⟩
        | @cons _ _ answer xs' _ rest =>
            rcases ih answer rest with ⟨p', hp', rfl⟩ | ⟨a, ys, zs, rfl, hys, hzs⟩
            · exact .inl ⟨p', .cons hp', rfl⟩
            · exact .inr ⟨a, ⟨r, answer⟩ :: ys, zs, rfl, .cons hys, hzs⟩
  · rintro (⟨p', hp', rfl⟩ | ⟨a, ys, zs, rfl, hys, hzs⟩)
    · exact hp'.bind_left f
    · exact hys.bind hzs

theorem reaches_bind_ask {p : Program I α} {f : α → Program I β} {xs : List (Exchange I)}
    {r : I.Request} {next : I.Reply r → Program I β} (h : Reaches (p >>= f) xs (ask r next)) :
    (∃ next', Reaches p xs (ask r next')) ∨
      ∃ a ys zs, xs = ys ++ zs ∧ Reaches p ys (done a) ∧ Reaches (f a) zs (ask r next) := by
  rcases reaches_bind_iff.mp h with ⟨p', hp', heq⟩ | hrest
  · cases p' with
    | done a => exact .inr ⟨a, xs, [], (List.append_nil xs).symm, hp', by rw [heq]; exact .nil⟩
    | ask r' next' =>
        cases heq
        exact .inl ⟨next', hp'⟩
  · exact .inr hrest

theorem reaches_bind_done {p : Program I α} {f : α → Program I β} {xs : List (Exchange I)} {b : β}
    (h : Reaches (p >>= f) xs (done b)) :
    ∃ a ys zs, xs = ys ++ zs ∧ Reaches p ys (done a) ∧ Reaches (f a) zs (done b) := by
  rcases reaches_bind_iff.mp h with ⟨p', hp', heq⟩ | hrest
  · cases p' with
    | done a => exact ⟨a, xs, [], (List.append_nil xs).symm, hp', by rw [heq]; exact .nil⟩
    | ask r' next' => cases heq
  · exact hrest

end Program

/-- The state of the machine, and of each thread that is at a job what is left of it. -/
structure Crew (I : Interface) (ι J σ α : Type) where
  state : σ
  doing : ι → Option (J × Program I α)

namespace Crew

variable {I : Interface} {ι J σ ε α : Type}

inductive Event (I : Interface) (ι J σ α : Type) where
  /-- A thread begins a job, and ends it if there is nothing to ask. -/
  | began (t : ι) (job : J) (result : Option α)
  /-- A thread at a job makes a request, and ends the job if it was the last one. -/
  | made (t : ι) (job : J) (r : I.Request) (answer : I.Reply r) (before after : σ)
      (result : Option α)

namespace Event

def thread : Event I ι J σ α → ι
  | began t _ _ => t
  | made t _ _ _ _ _ _ => t

/-- The job that ends with the event, by its thread, and its result. -/
def returned? : Event I ι J σ α → Option (ι × J × α)
  | began t job result => result.map (t, job, ·)
  | made t job _ _ _ _ result => result.map (t, job, ·)

theorem thread_of_returned? {e : Event I ι J σ α} {t : ι} {job : J} {a : α}
    (h : e.returned? = some (t, job, a)) : e.thread = t := by
  cases e <;>
  · obtain ⟨_, _, heq⟩ := Option.map_eq_some_iff.mp h
    exact (Prod.mk.inj heq).1

end Event

def idle (s : σ) : Crew I ι J σ α :=
  ⟨s, fun _ => none⟩

/-- What a thread is at when this is left of its job. -/
def remaining (job : J) : Program I α → Option (J × Program I α)
  | .done _ => none
  | .ask r next => some (job, .ask r next)

@[simp] theorem remaining_done (job : J) (a : α) :
    remaining job (.done a : Program I α) = none := rfl

@[simp] theorem remaining_ask (job : J) (r : I.Request) (next : I.Reply r → Program I α) :
    remaining job (.ask r next) = some (job, .ask r next) := rfl

theorem remaining_eq_some {job job' : J} {p p' : Program I α}
    (h : remaining job p = some (job', p')) : job = job' ∧ p = p' := by
  cases p with
  | done a => simp at h
  | ask r next => simpa using h

variable [DecidableEq ι] (m : ι → Machine I σ ε) (program : ι → J → Program I α)

inductive Step : Crew I ι J σ α → Event I ι J σ α → Crew I ι J σ α → Prop where
  | began {x : Crew I ι J σ α} {t : ι} (job : J) (free : x.doing t = none) :
      Step x (.began t job (program t job).result?)
        ⟨x.state, Function.update x.doing t (remaining job (program t job))⟩
  | made {x : Crew I ι J σ α} {t : ι} {job : J} {r : I.Request}
      {next : I.Reply r → Program I α} {answer : I.Reply r} {s : σ}
      (busy : x.doing t = some (job, .ask r next)) (reply : m t r x.state = .reply answer s) :
      Step x (.made t job r answer x.state s (next answer).result?)
        ⟨s, Function.update x.doing t (remaining job (next answer))⟩

inductive Run (x : Crew I ι J σ α) : List (Event I ι J σ α) → Crew I ι J σ α → Prop where
  | nil : Run x [] x
  | snoc {es : List (Event I ι J σ α)} {e : Event I ι J σ α} {y z : Crew I ι J σ α} :
      Run x es y → Step m program y e z → Run x (es ++ [e]) z

variable {m program}

/-- What holds at first and is kept by every event of a run holds all along. -/
theorem Run.invariant {x y : Crew I ι J σ α} {es : List (Event I ι J σ α)}
    {motive : List (Event I ι J σ α) → Crew I ι J σ α → Prop} (first : motive [] x)
    (keep : ∀ es y e z, motive es y → Step m program y e z → motive (es ++ [e]) z)
    (run : Run m program x es y) : motive es y := by
  induction run with
  | nil => exact first
  | snoc _ step ih => exact keep _ _ _ _ ih step

/-! ## What the threads ask -/

/-- The exchanges of a thread since it began its job, after one more event. -/
def Event.record (t : ι) (xs : List (Program.Exchange I)) :
    Event I ι J σ α → List (Program.Exchange I)
  | .began u _ _ => if u = t then [] else xs
  | .made u _ r answer _ _ _ => if u = t then xs ++ [⟨r, answer⟩] else xs

/-- The exchanges of a thread since it began the job it is at, or was at last. -/
def exchanges (t : ι) (es : List (Event I ι J σ α)) : List (Program.Exchange I) :=
  es.foldl (Event.record t) []

theorem exchanges_snoc (t : ι) (es : List (Event I ι J σ α)) (e : Event I ι J σ α) :
    exchanges t (es ++ [e]) = Event.record t (exchanges t es) e := by
  simp [exchanges, List.foldl_append]

theorem exchanges_of_ne {t : ι} {e : Event I ι J σ α} (h : e.thread ≠ t)
    (es : List (Event I ι J σ α)) : exchanges t (es ++ [e]) = exchanges t es := by
  rw [exchanges_snoc]
  cases e <;> exact if_neg h

/-- The thread of an event has come, by its exchanges, to what is left of its job, and the event
returns if nothing is left. -/
theorem Step.reaches {y z : Crew I ι J σ α} {es : List (Event I ι J σ α)} {e : Event I ι J σ α}
    (before : ∀ t job q, y.doing t = some (job, q) →
      Program.Reaches (program t job) (exchanges t es) q)
    (step : Step m program y e z) :
    ∃ job p, Program.Reaches (program e.thread job) (exchanges e.thread (es ++ [e])) p ∧
      z.doing = Function.update y.doing e.thread (remaining job p) ∧
      e.returned? = p.result?.map (e.thread, job, ·) := by
  rw [exchanges_snoc]
  cases step with
  | @began t job free =>
      refine ⟨job, program t job, ?_, rfl, rfl⟩
      simp only [Event.record, Event.thread, if_true]
      exact .nil
  | @made t job r next answer s busy reply =>
      refine ⟨job, next answer, ?_, rfl, rfl⟩
      simp only [Event.record, Event.thread, if_true]
      exact (before t job _ busy).snoc answer

theorem Run.reaches {x y : Crew I ι J σ α} {es : List (Event I ι J σ α)}
    (run : Run m program x es y) (idle : ∀ t, x.doing t = none) :
    ∀ t job q, y.doing t = some (job, q) →
      Program.Reaches (program t job) (exchanges t es) q := by
  apply run.invariant (motive := fun es y => ∀ t job q, y.doing t = some (job, q) →
    Program.Reaches (program t job) (exchanges t es) q)
  · intro t job q busy
    rw [idle t] at busy
    cases busy
  · intro es y e z before step t job q busy
    obtain ⟨job', p, hreaches, hdoing, -⟩ := step.reaches before
    rw [hdoing] at busy
    by_cases ht : t = e.thread
    · subst ht
      rw [Function.update_self] at busy
      obtain ⟨rfl, rfl⟩ := remaining_eq_some busy
      exact hreaches
    · rw [Function.update_of_ne ht] at busy
      rw [exchanges_of_ne (Ne.symm ht)]
      exact before t job q busy

theorem Run.reaches_returned {x y z : Crew I ι J σ α} {es : List (Event I ι J σ α)}
    {e : Event I ι J σ α} (run : Run m program x es y) (idle : ∀ t, x.doing t = none)
    (step : Step m program y e z) {t : ι} {job : J} {a : α}
    (returned : e.returned? = some (t, job, a)) :
    Program.Reaches (program t job) (exchanges t (es ++ [e])) (.done a) := by
  obtain ⟨job', p, hreaches, -, hreturned⟩ := step.reaches (run.reaches idle)
  cases p with
  | done b =>
      rw [hreturned] at returned
      cases returned
      exact hreaches
  | ask r next =>
      rw [hreturned] at returned
      cases returned

/-! ## Parts of a run -/

theorem Run.trans {x y z : Crew I ι J σ α} {es fs : List (Event I ι J σ α)}
    (first : Run m program x es y) (rest : Run m program y fs z) :
    Run m program x (es ++ fs) z := by
  induction rest with
  | nil =>
      rw [List.append_nil]
      exact first
  | snoc _ step ih =>
      rw [← List.append_assoc]
      exact ih.snoc step

theorem Run.eq_of_nil {x y : Crew I ι J σ α} (run : Run m program x [] y) : y = x := by
  generalize hes : [] = es at run
  cases run with
  | nil => rfl
  | snoc => simp at hes

theorem Run.split {x z : Crew I ι J σ α} {es fs : List (Event I ι J σ α)}
    (run : Run m program x (es ++ fs) z) :
    ∃ y, Run m program x es y ∧ Run m program y fs z := by
  induction fs using List.reverseRecOn generalizing z with
  | nil =>
      rw [List.append_nil] at run
      exact ⟨z, run, .nil⟩
  | append_singleton fs e ih =>
      generalize hes : es ++ (fs ++ [e]) = gs at run
      cases run with
      | nil => simp at hes
      | snoc before step =>
          rw [← List.append_assoc] at hes
          obtain ⟨rfl, hlast⟩ := List.append_inj' hes rfl
          cases hlast
          obtain ⟨y, first, rest⟩ := ih before
          exact ⟨y, first, rest.snoc step⟩

theorem Run.uncons {x z : Crew I ι J σ α} {e : Event I ι J σ α} {es : List (Event I ι J σ α)}
    (run : Run m program x (e :: es) z) :
    ∃ y, Step m program x e y ∧ Run m program y es z := by
  have joined : Run m program x ([e] ++ es) z := run
  obtain ⟨y, first, rest⟩ := joined.split
  generalize hes : [e] = gs at first
  cases first with
  | nil => cases hes
  | @snoc gs e' y' _ before step =>
      have hes' : [] ++ [e] = gs ++ [e'] := hes
      obtain ⟨rfl, hlast⟩ := List.append_inj' hes' rfl
      cases hlast
      cases before.eq_of_nil
      exact ⟨y, step, rest⟩

def Event.exchange? (t : ι) : Event I ι J σ α → Option (Program.Exchange I)
  | .began _ _ _ => none
  | .made u _ r answer _ _ _ => if u = t then some ⟨r, answer⟩ else none

def asked (t : ι) (es : List (Event I ι J σ α)) : List (Program.Exchange I) :=
  es.filterMap (Event.exchange? t)

theorem asked_append (t : ι) (es fs : List (Event I ι J σ α)) :
    asked t (es ++ fs) = asked t es ++ asked t fs :=
  List.filterMap_append

theorem asked_snoc (t : ι) (es : List (Event I ι J σ α)) (e : Event I ι J σ α) :
    asked t (es ++ [e]) = asked t es ++ (e.exchange? t).toList := by
  unfold asked
  rw [List.filterMap_append]
  cases h : e.exchange? t <;> simp [h]

theorem exists_made_of_exchange? {t : ι} {e : Event I ι J σ α} {talk : Program.Exchange I}
    (h : e.exchange? t = some talk) :
    ∃ job s s' result, e = .made t job talk.request talk.answer s s' result := by
  cases e with
  | began => cases h
  | made u job r answer s s' result =>
      by_cases hu : u = t
      · subst hu
        obtain rfl : (⟨r, answer⟩ : Program.Exchange I) = talk := by simpa [Event.exchange?] using h
        exact ⟨job, s, s', result, rfl⟩
      · simp [Event.exchange?, hu] at h

theorem exists_made_of_getLast? {t : ι} {es : List (Event I ι J σ α)} {e : Event I ι J σ α}
    {talk : Program.Exchange I} (thread : e.thread = t)
    (h : (exchanges t (es ++ [e])).getLast? = some talk) :
    ∃ job s s' result, e = .made t job talk.request talk.answer s s' result := by
  rw [exchanges_snoc] at h
  cases e with
  | began u job result =>
      have hu : u = t := thread
      rw [Event.record, if_pos hu] at h
      cases h
  | made u job r answer s s' result =>
      have hu : u = t := thread
      rw [Event.record, if_pos hu, List.getLast?_concat] at h
      cases hu
      cases h
      exact ⟨job, s, s', result, rfl⟩

theorem Run.first_asked {x z : Crew I ι J σ α} {es : List (Event I ι J σ α)}
    (run : Run m program x es z) {t : ι} {talk : Program.Exchange I}
    {rest : List (Program.Exchange I)} (h : asked t es = talk :: rest) :
    ∃ es₁ e es₂ y y', es = es₁ ++ e :: es₂ ∧ asked t es₁ = [] ∧ e.exchange? t = some talk ∧
      asked t es₂ = rest ∧ Run m program x es₁ y ∧ Step m program y e y' ∧
      Run m program y' es₂ z := by
  obtain ⟨es₁, e, es₂, rfl, hnone, he, hrest⟩ := List.filterMap_eq_cons_iff.mp h
  obtain ⟨y, first, later⟩ := run.split
  obtain ⟨y', step, last⟩ := later.uncons
  exact ⟨es₁, e, es₂, y, y', rfl, List.filterMap_eq_nil_iff.mpr hnone, he, hrest, first, step, last⟩

theorem Run.split_asked {x z : Crew I ι J σ α} {es : List (Event I ι J σ α)}
    (run : Run m program x es z) {t : ι} {xs ys : List (Program.Exchange I)}
    (h : asked t es = xs ++ ys) :
    ∃ es₁ es₂ y, es = es₁ ++ es₂ ∧ asked t es₁ = xs ∧ asked t es₂ = ys ∧
      Run m program x es₁ y ∧ Run m program y es₂ z := by
  obtain ⟨es₁, es₂, rfl, hxs, hys⟩ := List.filterMap_eq_append_iff.mp h
  obtain ⟨y, first, later⟩ := run.split
  exact ⟨es₁, es₂, y, rfl, hxs, hys, first, later⟩

theorem Run.goes_on {x y : Crew I ι J σ α} {es : List (Event I ι J σ α)}
    (run : Run m program x es y) {t : ι} {job : J} {p : Program I α}
    (busy : x.doing t = some (job, p)) (stays : ∀ job' result, .began t job' result ∉ es) :
    (∀ before, exchanges t (before ++ es) = exchanges t before ++ asked t es) ∧
      ∀ job' q, y.doing t = some (job', q) → job' = job ∧ Program.Reaches p (asked t es) q := by
  induction run with
  | nil =>
      refine ⟨fun before => by simp [asked], fun job' q hdoing => ?_⟩
      rw [busy] at hdoing
      cases hdoing
      exact ⟨rfl, .nil⟩
  | @snoc es e y z _ step ih =>
      obtain ⟨hexchanges, hdoing⟩ := ih fun job' result hmem => stays job' result (by simp [hmem])
      constructor
      · intro before
        rw [← List.append_assoc, exchanges_snoc, hexchanges, asked_snoc]
        cases e with
        | began u job' result =>
            by_cases hu : u = t
            · subst hu
              refine absurd ?_ (stays job' result)
              exact List.mem_append_right es (List.mem_singleton_self _)
            · simp [Event.record, Event.exchange?, hu]
        | made u job' r answer s s' result =>
            by_cases hu : u = t
            · simp [Event.record, Event.exchange?, hu]
            · simp [Event.record, Event.exchange?, hu]
      · intro job' q hq
        rw [asked_snoc]
        cases step with
        | @began u job'' free =>
            by_cases hu : u = t
            · subst hu
              exact absurd (List.mem_append_right es (List.mem_singleton_self _)) (stays job'' _)
            · have hq' := (Function.update_of_ne (Ne.symm hu) _ y.doing).symm.trans hq
              simpa [Event.exchange?] using hdoing job' q hq'
        | @made u job'' r next answer s busy' reply =>
            by_cases hu : u = t
            · subst hu
              obtain ⟨rfl, hreaches⟩ := hdoing _ _ busy'
              have hq' := (Function.update_self u _ y.doing).symm.trans hq
              obtain ⟨rfl, rfl⟩ := remaining_eq_some hq'
              refine ⟨rfl, ?_⟩
              simpa [Event.exchange?] using hreaches.snoc answer
            · have hq' := (Function.update_of_ne (Ne.symm hu) _ y.doing).symm.trans hq
              simpa [Event.exchange?, hu] using hdoing job' q hq'

/-! ## Schedules -/

/-- The event that comes next if a thread is given its turn: it begins the given job, or it goes
on with the one it is at. -/
def next? (m : ι → Machine I σ ε) (program : ι → J → Program I α) (x : Crew I ι J σ α) (t : ι)
    (job : Option J) : Option (Event I ι J σ α × Crew I ι J σ α) :=
  match job, x.doing t with
  | some job, none =>
      some (.began t job (program t job).result?,
        ⟨x.state, Function.update x.doing t (remaining job (program t job))⟩)
  | none, some (job, .ask r next) =>
      match m t r x.state with
      | .reply answer s =>
          some (.made t job r answer x.state s (next answer).result?,
            ⟨s, Function.update x.doing t (remaining job (next answer))⟩)
      | _ => none
  | _, _ => none

theorem step_of_next? {x y : Crew I ι J σ α} (t : ι) (job : Option J) {e : Event I ι J σ α}
    (h : next? m program x t job = some (e, y)) : Step m program x e y := by
  unfold next? at h
  split at h
  · rename_i job hdoing
    simp only [Option.some.injEq, Prod.mk.injEq] at h
    obtain ⟨rfl, rfl⟩ := h
    exact .began job hdoing
  · rename_i job r next hdoing
    split at h
    · rename_i answer s hreply
      simp only [Option.some.injEq, Prod.mk.injEq] at h
      obtain ⟨rfl, rfl⟩ := h
      exact .made hdoing hreply
    · simp at h
  · simp at h

/-- Give the threads their turns as they are listed, and tell what happened. -/
def follow (m : ι → Machine I σ ε) (program : ι → J → Program I α) (x : Crew I ι J σ α) :
    List (ι × Option J) → Option (List (Event I ι J σ α) × Crew I ι J σ α)
  | [] => some ([], x)
  | (t, job) :: rest =>
      match next? m program x t job with
      | some (e, y) => (follow m program y rest).map fun (es, z) => (e :: es, z)
      | none => none

theorem Run.cons {x y z : Crew I ι J σ α} {e : Event I ι J σ α} {es : List (Event I ι J σ α)}
    (step : Step m program x e y) (run : Run m program y es z) :
    Run m program x (e :: es) z := by
  induction run with
  | nil => exact .snoc .nil step
  | snoc _ last ih => exact .snoc ih last

theorem run_of_follow {x y : Crew I ι J σ α} (turns : List (ι × Option J))
    {es : List (Event I ι J σ α)} (h : follow m program x turns = some (es, y)) :
    Run m program x es y := by
  induction turns generalizing x es with
  | nil =>
      simp only [follow, Option.some.injEq, Prod.mk.injEq] at h
      obtain ⟨rfl, rfl⟩ := h
      exact .nil
  | cons turn rest ih =>
      obtain ⟨t, job⟩ := turn
      simp only [follow] at h
      split at h
      · rename_i e z hnext
        obtain ⟨⟨es', z'⟩, hrest, hcons⟩ := Option.map_eq_some_iff.mp h
        simp only [Prod.mk.injEq] at hcons
        obtain ⟨rfl, rfl⟩ := hcons
        exact Run.cons (step_of_next? t job hnext) (ih hrest)
      · simp at h

end Crew

end DiagnosticLog
