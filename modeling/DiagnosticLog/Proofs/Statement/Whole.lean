import DiagnosticLog.Proofs.Crew
import DiagnosticLog.Proofs.Statement.Alone
import DiagnosticLog.Script.Contention

/-!
# Whole statements do not interleave

Any number of threads log statements, one request at a time and in any order.  The prints take no
lock themselves.  That statements stay whole rests on an invariant over all threads: a thread that
has not got the lock has changed nothing yet, and what is left to the one that has got it is to say
the rest of its statement and to give the lock back (`Invariant`).
-/

namespace DiagnosticLog

open Session

namespace Statement

variable {ι : Type}

abbrev Crowd (ι : Type) : Type :=
  Crew Request.interface ι Statement Session Unit

abbrev Event (ι : Type) : Type :=
  Crew.Event Request.interface ι Statement Session Unit

/-- The statements whose threads have got the lock, in the order in which they got it. -/
def entered (es : List (Event ι)) : List (ι × Statement) :=
  es.filterMap fun
    | .began _ _ _ => none
    | .made i stmt d _ _ _ _ => if Contention.takesLock d then some (i, stmt) else none

def finished (es : List (Event ι)) : List (ι × Statement) :=
  es.filterMap fun e => e.returned?.map fun ended => (ended.1, ended.2.1)

def texts (s : Session) (stmts : List (ι × Statement)) : Bytes :=
  stmts.flatMap fun entry => entry.2.text s

@[simp] theorem entered_append (es fs : List (Event ι)) :
    entered (es ++ fs) = entered es ++ entered fs :=
  List.filterMap_append

@[simp] theorem finished_append (es fs : List (Event ι)) :
    finished (es ++ fs) = finished es ++ finished fs :=
  List.filterMap_append

theorem texts_append (s : Session) (xs ys : List (ι × Statement)) :
    texts s (xs ++ ys) = texts s xs ++ texts s ys :=
  List.flatMap_append

theorem entered_made (i : ι) (stmt : Statement) (d : Demand) (answer : d.Reply) (s s' : Session)
    (result : Option Unit) :
    entered [.made i stmt d answer s s' result] =
      if Contention.takesLock d then [(i, stmt)] else [] := by
  cases h : Contention.takesLock d <;> simp [entered, h]

theorem finished_made (i : ι) (stmt : Statement) (d : Demand) (answer : d.Reply)
    (s s' : Session) (result : Option Unit) :
    finished [.made i stmt d answer s s' result] =
      (result.map fun _ => (i, stmt)).toList := by
  cases result <;> simp [finished, Crew.Event.returned?]

/-! ## Before the lock -/

/-- A thread with token `me` has not got the lock for its statement yet. -/
inductive Outside (me : Token) (stmt : Statement) : Task Unit → Prop where
  | start : Outside me stmt stmt.task
  | checking : Outside me stmt (checking me stmt)
  | taking : Outside me stmt (taking me stmt)

theorem Outside.remaining {me : Token} {stmt : Statement} {q : Task Unit}
    (h : Outside me stmt q) :
    q.result? = none ∧ Crew.remaining stmt q = some (stmt, q) := by
  cases h with
  | start =>
      obtain ⟨next, htask, -⟩ := stmt.task_eq_ask
      rw [htask]
      exact ⟨rfl, rfl⟩
  | checking => exact ⟨rfl, rfl⟩
  | taking => exact ⟨rfl, rfl⟩

section Threads

variable {s₀ s s' : Session} {t : ThreadId} {c : Channel} {me : Token} {stmt : Statement}
  {q : Task Unit} {d : Demand} {next : d.Reply → Task Unit} {answer : d.Reply}

theorem lockRaw_taken (taken : (s.locks .log).raw.flag = true) :
    perform t (Request.access .log .lockRaw).demand s = .wait := by
  simp [perform_demand, performAs, CheckedMutex.perform, RawLock.lock, SpinLock.lock,
    SpinLock.swap, taken]

theorem lockRaw_free (free : (s.locks .log).raw.flag = false) :
    perform t (Request.access .log .lockRaw).demand s =
      .reply () (s.setLock ⟨⟨true⟩, (s.locks .log).owner⟩) := by
  apply reply_access
  simp [CheckedMutex.perform, RawLock.lock, SpinLock.lock, SpinLock.swap, free]

/-- What a request before the lock can do: it changes nothing, or it takes the raw lock. -/
theorem Outside.step (h : Outside me stmt q) (hq : q = .ask d next) (known : me ≠ Token.anonymous)
    (hme : s.tokenOf t = me) (howner : (s.locks .log).owner ≠ me)
    (reply : perform t d s = .reply answer s') :
    (Contention.takesLock d = false ∧ s' = s ∧ Outside me stmt (next answer)) ∨
      (Contention.takesLock d = true ∧ (s.locks .log).raw.flag = false ∧
        s' = s.setLock ⟨⟨true⟩, (s.locks .log).owner⟩ ∧ next answer = stmt.claiming me) := by
  cases h with
  | start =>
      obtain ⟨next', htask, hnext⟩ := stmt.task_eq_ask
      rw [htask] at hq
      cases hq
      rw [reply_self, hme] at reply
      cases reply
      left
      rw [hnext me known]
      exact ⟨rfl, rfl, .checking⟩
  | checking =>
      cases hq
      rw [reply_loadOwner] at reply
      cases reply
      refine .inl ⟨rfl, rfl, ?_⟩
      simp only [if_neg howner]
      exact .taking
  | taking =>
      cases hq
      right
      cases hflag : (s.locks .log).raw.flag with
      | true =>
          rw [lockRaw_taken hflag] at reply
          cases reply
      | false =>
          rw [lockRaw_free hflag] at reply
          cases reply
          exact ⟨rfl, rfl, rfl, rfl⟩

theorem Outside.ne_stop (h : Outside me stmt q) (hq : q = .ask d next) (e : Ending) :
    perform t d s ≠ .stop e s' := by
  cases h with
  | start =>
      obtain ⟨next', htask, -⟩ := stmt.task_eq_ask
      rw [htask] at hq
      cases hq
      rw [reply_self]
      exact fun h => by cases h
  | checking =>
      cases hq
      rw [reply_loadOwner]
      exact fun h => by cases h
  | taking =>
      cases hq
      cases hflag : (s.locks .log).raw.flag with
      | true =>
          rw [lockRaw_taken hflag]
          exact fun h => by cases h
      | false =>
          rw [lockRaw_free hflag]
          exact fun h => by cases h

theorem takesLock_eq_false (taken : (s.locks .log).raw.flag = true)
    (reply : perform t d s = .reply answer s') : Contention.takesLock d = false := by
  obtain ⟨caller, request⟩ := d
  cases hrequest : Contention.takesLock ⟨caller, request⟩ with
  | false => rfl
  | true =>
      unfold Contention.takesLock at hrequest
      split at hrequest
      · rename_i heq
        simp only at heq
        subst heq
        have hwait := lockRaw_taken (t := caller.thread t) taken
        simp only [perform_demand] at hwait
        simp only [perform, hwait] at reply
        cases reply
      · cases hrequest

end Threads

/-! ## The invariant -/

/-- All threads but the holder of the lock are outside. -/
def OthersOutside (token : ι → Token) (holder : Option ι) (x : Crowd ι) : Prop :=
  ∀ j stmt q, holder ≠ some j → x.doing j = some (stmt, q) → Outside (token j) stmt q

namespace OthersOutside

variable [DecidableEq ι] {token : ι → Token} {holder : Option ι} {x : Crowd ι}

theorem stays (h : OthersOutside token holder x) {i : ι} {stmt : Statement} {q : Task Unit}
    (hq : Outside (token i) stmt q) (s : Session) :
    OthersOutside token holder ⟨s, Function.update x.doing i (some (stmt, q))⟩ := by
  intro j stmt' q' hj hdoing
  by_cases hji : j = i
  · subst hji
    simp only [Function.update_self, Option.some.injEq, Prod.mk.injEq] at hdoing
    obtain ⟨rfl, rfl⟩ := hdoing
    exact hq
  · simp only [Function.update_of_ne hji] at hdoing
    exact h j stmt' q' hj hdoing

theorem goesIn (h : OthersOutside token holder x) {i : ι} (hi : holder = none ∨ holder = some i)
    (now : Option (Statement × Task Unit)) (s : Session) :
    OthersOutside token (some i) ⟨s, Function.update x.doing i now⟩ := by
  intro j stmt q hj hdoing
  have hji : j ≠ i := fun he => hj (congrArg some he.symm)
  have hholder : holder ≠ some j := by
    rcases hi with rfl | rfl
    · exact fun he => by cases he
    · exact hj
  simp only [Function.update_of_ne hji] at hdoing
  exact h j stmt q hholder hdoing

theorem goesOut {i : ι} (h : OthersOutside token (some i) x) (s : Session) :
    OthersOutside token none ⟨s, Function.update x.doing i none⟩ := by
  intro j stmt q _ hdoing
  by_cases hji : j = i
  · subst hji
    simp at hdoing
  · simp only [Function.update_of_ne hji] at hdoing
    exact h j stmt q (fun he => hji (Option.some.inj he).symm) hdoing

end OthersOutside

section Runs

variable [DecidableEq ι] (name : ι → ThreadId) (s₀ : Session) (c : Channel) (before : Bytes)

abbrev Reaches (es : List (Event ι)) (x : Crowd ι) : Prop :=
  Crew.Run (fun i => perform (name i)) (fun _ => task) (Crew.idle s₀) es x

abbrev tokens (i : ι) : Token :=
  s₀.tokenOf (name i)

/-- Nobody has the lock, and every statement that got it is finished. -/
structure Free (es : List (Event ι)) (x : Crowd ι) : Prop where
  settled : Settled s₀ c CheckedMutex.unowned x.state
  told : x.state.HasText c (before ++ texts s₀ (finished es))
  all : entered es = finished es
  others : OthersOutside (tokens name s₀) none x

/-- Thread `i` has the lock and has said a part of its statement.  It says the rest whatever the
others do, and then gives the lock back. -/
structure Held (es : List (Event ι)) (x : Crowd ι) (i : ι) (stmt : Statement) (said : Bytes) :
    Prop where
  rest : ∃ d next left last, x.doing i = some (stmt, .ask d next) ∧
    Speaks (name i) c (Inside s₀ (tokens name s₀ i)) (.ask d next) x.state left () last ∧
    Settled s₀ c CheckedMutex.unowned last ∧ said ++ left = stmt.text s₀
  told : x.state.HasText c (before ++ texts s₀ (finished es) ++ said)
  all : entered es = finished es ++ [(i, stmt)]
  others : OthersOutside (tokens name s₀) (some i) x

def Invariant (es : List (Event ι)) (x : Crowd ι) : Prop :=
  Free name s₀ c before es x ∨ ∃ i stmt said, Held name s₀ c before es x i stmt said

variable {name s₀ c before} {es : List (Event ι)} {y : Crowd ι} {i j : ι} {stmt stmt' : Statement}
  {said : Bytes}

/-! ### Threads that have not got the lock -/

section Outside

variable {e : Event ι} {q : Task Unit} (hentered : entered [e] = []) (hfinished : finished [e] = [])

include hentered hfinished

theorem Free.quiet (h : Free name s₀ c before es y) (outside : Outside (tokens name s₀ i) stmt q) :
    Free name s₀ c before (es ++ [e])
      ⟨y.state, Function.update y.doing i (some (stmt, q))⟩ := by
  have hfinished' : finished (es ++ [e]) = finished es := by
    rw [finished_append, hfinished, List.append_nil]
  have hentered' : entered (es ++ [e]) = entered es := by
    rw [entered_append, hentered, List.append_nil]
  constructor
  · exact h.settled
  · rw [hfinished']
    exact h.told
  · rw [hentered', hfinished', h.all]
  · exact h.others.stays outside _

theorem Held.quiet (h : Held name s₀ c before es y j stmt' said) (hij : i ≠ j)
    (outside : Outside (tokens name s₀ i) stmt q) :
    Held name s₀ c before (es ++ [e])
      ⟨y.state, Function.update y.doing i (some (stmt, q))⟩ j stmt' said := by
  obtain ⟨d, next, left, last, hdoing, hrest⟩ := h.rest
  have hfinished' : finished (es ++ [e]) = finished es := by
    rw [finished_append, hfinished, List.append_nil]
  have hentered' : entered (es ++ [e]) = entered es := by
    rw [entered_append, hentered, List.append_nil]
  have hdoing' := (Function.update_of_ne hij.symm (some (stmt, q)) y.doing).trans hdoing
  constructor
  · exact ⟨d, next, left, last, hdoing', hrest⟩
  · rw [hfinished']
    exact h.told
  · rw [hentered', hfinished', h.all]
  · exact h.others.stays outside _

end Outside

theorem Invariant.began (inv : Invariant name s₀ c before es y) (idle : y.doing i = none) :
    Invariant name s₀ c before (es ++ [.began i stmt stmt.task.result?])
      ⟨y.state, Function.update y.doing i (Crew.remaining stmt stmt.task)⟩ := by
  have hstart : Outside (tokens name s₀ i) stmt stmt.task := .start
  have hentered : entered [.began i stmt stmt.task.result?] = [] := rfl
  have hfinished : finished [.began i stmt stmt.task.result?] = [] := by
    simp [finished, Crew.Event.returned?, hstart.remaining.1]
  rw [hstart.remaining.2]
  rcases inv with hfree | ⟨j, stmt', said, hheld⟩
  · exact .inl (hfree.quiet hentered hfinished hstart)
  · have hij : i ≠ j := by
      rintro rfl
      obtain ⟨d, next, left, last, hdoing, -⟩ := hheld.rest
      rw [idle] at hdoing
      cases hdoing
    exact .inr ⟨j, stmt', said, hheld.quiet hentered hfinished hij hstart⟩

section Requests

variable {d : Demand} {next : d.Reply → Task Unit} {answer : d.Reply} {s : Session}

theorem Free.made (h : Free name s₀ c before es y)
    (known : ∀ i, (tokens name s₀ i).reserved = false)
    (prints : ∀ i, s₀.Prints (name i) .patient c)
    (busy : y.doing i = some (stmt, .ask d next))
    (reply : perform (name i) d y.state = .reply answer s) :
    Invariant name s₀ c before
      (es ++ [.made i stmt d answer y.state s (next answer).result?])
      ⟨s, Function.update y.doing i (Crew.remaining stmt (next answer))⟩ := by
  have outside := h.others i stmt _ (fun h => by cases h) busy
  have hme : y.state.tokenOf (name i) = tokens name s₀ i := congrFun h.settled.tokenOf (name i)
  have hnobody : (y.state.locks .log).owner = Token.noOwner := by
    rw [h.settled.lock]
    rfl
  have howner : (y.state.locks .log).owner ≠ tokens name s₀ i := by
    rw [hnobody]
    exact (Token.ne_noOwner_of_not_reserved (known i)).symm
  rcases outside.step rfl (Token.ne_anonymous_of_not_reserved (known i)) hme howner reply with
    ⟨hlock, rfl, hnext⟩ | ⟨hlock, -, rfl, hnext⟩
  · have hentered : entered [.made i stmt d answer y.state y.state (next answer).result?] = [] := by
      rw [entered_made, hlock]
      rfl
    have hfinished :
        finished [.made i stmt d answer y.state y.state (next answer).result?] = [] := by
      rw [finished_made, hnext.remaining.1]
      rfl
    rw [hnext.remaining.2]
    exact .inl (h.quiet hentered hfinished hnext)
  · have hheld := h.settled.setLock (lockOf Token.noOwner)
    obtain ⟨last, hspeaks, hlast⟩ := speaks_claiming (prints i) hheld rfl stmt
    have hdoing := Function.update_self i
      (Crew.remaining stmt (stmt.claiming (tokens name s₀ i))) y.doing
    rw [hnobody, hnext]
    refine .inr ⟨i, stmt, [], ⟨_, _, _, last, hdoing, hspeaks, hlast, rfl⟩, ?_, ?_,
      h.others.goesIn (.inl rfl) _ _⟩
    · have htold : (y.state.setLock (lockOf Token.noOwner)).HasText c _ := h.told.of_platform rfl
      rw [finished_append, finished_made, List.append_nil]
      exact (List.append_nil (finished es)).symm ▸ htold
    · rw [entered_append, finished_append, entered_made, finished_made, hlock, h.all]
      exact congrArg (· ++ [(i, stmt)]) (List.append_nil (finished es)).symm

theorem Held.made_beside (h : Held name s₀ c before es y j stmt' said)
    (distinct : Function.Injective (tokens name s₀))
    (known : ∀ i, (tokens name s₀ i).reserved = false) (hij : i ≠ j)
    (busy : y.doing i = some (stmt, .ask d next))
    (reply : perform (name i) d y.state = .reply answer s) :
    Held name s₀ c before
      (es ++ [.made i stmt d answer y.state s (next answer).result?])
      ⟨s, Function.update y.doing i (Crew.remaining stmt (next answer))⟩ j stmt' said := by
  have outside := h.others i stmt _ (fun he => hij (Option.some.inj he).symm) busy
  obtain ⟨d', next', left, last, -, speaks, -, -⟩ := h.rest
  have inside := speaks.here
  have hme : y.state.tokenOf (name i) = tokens name s₀ i := congrFun inside.tokenOf (name i)
  have howner : (y.state.locks .log).owner ≠ tokens name s₀ i := by
    rcases inside.owner with hnobody | hother
    · rw [hnobody]
      exact (Token.ne_noOwner_of_not_reserved (known i)).symm
    · rw [hother]
      exact fun he => hij (distinct he).symm
  rcases outside.step rfl (Token.ne_anonymous_of_not_reserved (known i)) hme howner reply with
    ⟨hlock, rfl, hnext⟩ | ⟨-, hfree, -, -⟩
  · have hentered : entered [.made i stmt d answer y.state y.state (next answer).result?] = [] := by
      rw [entered_made, hlock]
      rfl
    have hfinished :
        finished [.made i stmt d answer y.state y.state (next answer).result?] = [] := by
      rw [finished_made, hnext.remaining.1]
      rfl
    rw [hnext.remaining.2]
    exact h.quiet hentered hfinished hij hnext
  · rw [inside.taken] at hfree
    cases hfree

/-! ### The thread that has got the lock -/

/-- The holder of the lock says a part of its statement; with the last request it gives the lock
back. -/
theorem Held.made (h : Held name s₀ c before es y i stmt said)
    (busy : y.doing i = some (stmt', .ask d next))
    (reply : perform (name i) d y.state = .reply answer s) :
    Invariant name s₀ c before
      (es ++ [.made i stmt' d answer y.state s (next answer).result?])
      ⟨s, Function.update y.doing i (Crew.remaining stmt' (next answer))⟩ := by
  obtain ⟨d', next', left, last, hdoing, speaks, settled, whole⟩ := h.rest
  rw [hdoing] at busy
  cases busy
  have hlock : Contention.takesLock d = false := takesLock_eq_false speaks.here.taken reply
  obtain ⟨rest, rfl, htold, hrest⟩ := speaks.step reply h.told
  have hentered : entered (es ++ [.made i stmt d answer y.state s (next answer).result?]) =
      finished es ++ [(i, stmt)] := by
    rw [entered_append, entered_made, hlock, h.all]
    exact List.append_nil _
  cases hnext : next answer with
  | done a =>
      rw [hnext] at hrest hentered
      cases hrest
      have hfinished : finished (es ++ [.made i stmt d answer y.state s (some ())]) =
          finished es ++ [(i, stmt)] := by
        rw [finished_append, finished_made]
        rfl
      refine .inl ⟨settled, ?_, ?_, h.others.goesOut s⟩
      · rw [List.append_nil] at whole
        rw [Program.result?_done, hfinished, texts_append]
        rw [List.append_assoc, List.append_assoc, whole] at htold
        simpa [texts] using htold
      · rw [hentered, Program.result?_done, hfinished]
  | ask d' next' =>
      rw [hnext] at hrest hentered
      have hfinished : finished (es ++ [.made i stmt d answer y.state s none]) = finished es := by
        rw [finished_append, finished_made]
        exact List.append_nil _
      have hdoing := Function.update_self i (Crew.remaining stmt (.ask d' next')) y.doing
      have hwhole : (said ++ y.state.written c d.request) ++ rest = stmt.text s₀ := by
        rw [List.append_assoc, whole]
      refine .inr ⟨i, stmt, said ++ y.state.written c d.request,
        ⟨d', next', rest, last, hdoing, hrest, settled, hwhole⟩, ?_, ?_,
        h.others.goesIn (.inr rfl) _ s⟩
      · rw [Program.result?_ask, hfinished, ← List.append_assoc]
        exact htold
      · rw [hentered, Program.result?_ask, hfinished]

end Requests

theorem invariant_of_reaches (distinct : Function.Injective (tokens name s₀))
    (known : ∀ i, (tokens name s₀ i).reserved = false)
    (prints : ∀ i, s₀.Prints (name i) .patient c) (free : s₀.locks .log = CheckedMutex.unowned)
    (told : s₀.HasText c before) (run : Reaches name s₀ es y) :
    Invariant name s₀ c before es y := by
  apply run.invariant (motive := Invariant name s₀ c before)
  · refine .inl ⟨⟨free, fun t h => h, rfl, rfl, rfl⟩, ?_, rfl, ?_⟩
    · rw [← List.append_nil before] at told
      exact told
    · intro j stmt q _ hdoing
      cases hdoing
  · intro es y e z inv step
    cases step with
    | began stmt idle => exact inv.began idle
    | @made i stmt d next answer s busy reply =>
        rcases inv with hfree | ⟨j, stmt', said, hheld⟩
        · exact hfree.made known prints busy reply
        · by_cases hij : i = j
          · subst hij
            exact hheld.made busy reply
          · exact .inr ⟨j, stmt', said, hheld.made_beside distinct known hij busy reply⟩

theorem Invariant.ne_stop (inv : Invariant name s₀ c before es y) {d : Demand}
    {next : d.Reply → Task Unit} (busy : y.doing i = some (stmt, .ask d next)) (e : Ending)
    (s : Session) : perform (name i) d y.state ≠ .stop e s := by
  rcases inv with hfree | ⟨j, stmt', said, hheld⟩
  · exact (hfree.others i stmt _ (fun he => by cases he) busy).ne_stop rfl e
  · by_cases hij : i = j
    · subst hij
      obtain ⟨d', next', left, last, hdoing, speaks, -⟩ := hheld.rest
      rw [hdoing] at busy
      cases busy
      cases speaks with
      | ask here takes reply only rest =>
          rw [reply]
          exact fun he => by cases he
    · exact (hheld.others i stmt _ (fun he => hij (Option.some.inj he).symm) busy).ne_stop rfl e

/-- However threads with tokens of their own log their statements, the text of the sink is always
that of the finished statements, in the order in which they got the lock, and a prefix of the text
of the one statement that has it.  No thread is ended by a misuse of the lock. -/
theorem statements_stay_whole (distinct : Function.Injective (tokens name s₀))
    (known : ∀ i, (tokens name s₀ i).reserved = false)
    (prints : ∀ i, s₀.Prints (name i) .patient c) (free : s₀.locks .log = CheckedMutex.unowned)
    (told : s₀.HasText c before) (run : Reaches name s₀ es y) :
    (∃ said, y.state.HasText c (before ++ texts s₀ (finished es) ++ said) ∧
      ((entered es = finished es ∧ said = [] ∧ (y.state.locks .log).raw.flag = false) ∨
        ∃ i stmt q, entered es = finished es ++ [(i, stmt)] ∧ y.doing i = some (stmt, q) ∧
          said <+: stmt.text s₀ ∧ (y.state.locks .log).raw.flag = true)) ∧
    ∀ i stmt d next, y.doing i = some (stmt, .ask d next) →
      ∀ e s, perform (name i) d y.state ≠ .stop e s := by
  have inv := invariant_of_reaches distinct known prints free told run
  refine ⟨?_, fun i stmt d next busy => inv.ne_stop busy⟩
  rcases inv with hfree | ⟨i, stmt, said, hheld⟩
  · refine ⟨[], ?_, .inl ⟨hfree.all, rfl, ?_⟩⟩
    · rw [List.append_nil]
      exact hfree.told
    · rw [hfree.settled.lock]
      rfl
  · obtain ⟨d, next, left, last, hdoing, speaks, -, whole⟩ := hheld.rest
    exact ⟨said, hheld.told,
      .inr ⟨i, stmt, _, hheld.all, hdoing, ⟨left, whole⟩, speaks.here.taken⟩⟩

end Runs

def twoThreads : Bool → ThreadId
  | false => .lasting 0
  | true => .lasting 1

def process : Session :=
  Session.start ⟨.hosted, .lf, false⟩ (fun _ => none) .empty

/-- One thread is in the middle of its statement, and the other has come to the lock. -/
theorem whole_in_the_middle :
    ∃ (es : List (Event Bool)) (y : Crowd Bool) (said : Bytes),
      Reaches twoThreads process es y ∧ (y.doing true).isSome ∧
      entered es = [(false, locked [.newline, .int 7])] ∧ finished es = [] ∧
      y.state.HasText .standardOut said ∧ said <+: (locked [.newline, .int 7]).text process := by
  have distinct : Function.Injective (tokens twoThreads process) := by
    intro i j
    revert i j
    decide
  have known : ∀ i, (tokens twoThreads process i).reserved = false := by decide
  have prints : ∀ i, process.Prints (twoThreads i) .patient .standardOut :=
    fun i => ⟨rfl, rfl, trivial⟩
  obtain ⟨es, y, run, hbusy, hentered, hfinished⟩ : ∃ (es : List (Event Bool)) (y : Crowd Bool),
      Reaches twoThreads process es y ∧ (y.doing true).isSome ∧
      entered es = [(false, locked [.newline, .int 7])] ∧ finished es = [] :=
    ⟨_, _, Crew.run_of_follow
      [(false, some (locked [.newline, .int 7])), (false, none), (false, none), (false, none),
        (true, some (line [])), (true, none), (true, none), (false, none), (false, none),
        (false, none)] rfl, rfl, rfl, rfl⟩
  obtain ⟨⟨said, htold, hlock⟩, -⟩ :=
    statements_stay_whole distinct known prints rfl ⟨[], rfl, rfl⟩ run
  rw [hentered, hfinished] at hlock
  rw [hfinished] at htold
  refine ⟨es, y, said, run, hbusy, hentered, hfinished, htold, ?_⟩
  rcases hlock with ⟨hnone, -, -⟩ | ⟨i, stmt, q, hlast, -, hprefix, -⟩
  · cases hnone
  · cases hlast
    exact hprefix

end Statement

end DiagnosticLog
