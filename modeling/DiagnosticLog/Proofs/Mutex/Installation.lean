import DiagnosticLog.Proofs.Crew
import DiagnosticLog.Proofs.Mutex.Bracketed
import DiagnosticLog.Proofs.Session.Move
import DiagnosticLog.Script.Call

/-!
# Locking while the console is installed

Threads of a guest enter and leave one lock by turns, each leaving what it has entered.  At any
moment some thread may install the console, and from then on every operation that begins finds its
thread to have a token; those that have begun go on as they are.

`brackets_survive_installation` says that this never does any harm, in whichever order the threads
make their requests.
-/

namespace DiagnosticLog

open CheckedMutex (Operation Stage Progress Move Standing Orderly GoesBy)

namespace Installation

inductive Job where
  | use (op : Operation)
  | install (id : ConsoleId)
  deriving DecidableEq, Repr

def Job.task (name : LockName) : Job → Task Answer
  | use .enter => do return Answer.ofMutex (← Log.enter name)
  | use .exit => do return Answer.ofMutex (← Log.leave name)
  | install id => do return Answer.ofInstall (← Log.installConsole id)

variable {ι : Type}

abbrev Event (ι : Type) : Type :=
  Crew.Event Request.interface ι Job Session Answer

abbrev Crowd (ι : Type) : Type :=
  Crew Request.interface ι Job Session Answer

/-! ## What a run tells -/

section History

variable [DecidableEq ι]

/-- Whether a thread that held the lock or not holds it after an event. -/
def heldAfter (t : ι) (held : Bool) (e : Event ι) : Bool :=
  match e.returned? with
  | some (u, .use op, .ok) => if u = t then op = .enter else held
  | _ => held

def holds (t : ι) (es : List (Event ι)) : Bool :=
  es.foldl (heldAfter t) false

/-- Whether an event keeps to the brackets: no thread that holds the lock begins to enter it, and no
other begins to leave it. -/
def isProper (held : ι → Bool) : Event ι → Bool
  | .began t (.use op) _ => held t = decide (op = .exit)
  | _ => true

def keepBrackets (held : ι → Bool) : List (Event ι) → Bool
  | [] => true
  | e :: rest => isProper held e && keepBrackets (fun t => heldAfter t (held t) e) rest

/-- Whether all events keep to the brackets, where nobody holds the lock at first. -/
def bracketed (es : List (Event ι)) : Bool :=
  keepBrackets (fun _ => false) es

def Installed (es : List (Event ι)) : Prop :=
  ∃ e ∈ es, ∃ t id, e.returned? = some (t, .install id, .ok)

def Frees (name : LockName) : Event ι → Prop
  | .made _ _ ⟨_, .access other .unlockRaw⟩ _ _ _ _ => other = name
  | _ => False

theorem holds_snoc (t : ι) (es : List (Event ι)) (e : Event ι) :
    holds t (es ++ [e]) = heldAfter t (holds t es) e := by
  simp [holds]

theorem keepBrackets_snoc (held : ι → Bool) (es : List (Event ι)) (e : Event ι) :
    keepBrackets held (es ++ [e]) =
      (keepBrackets held es && isProper (fun t => es.foldl (heldAfter t) (held t)) e) := by
  induction es generalizing held with
  | nil => simp [keepBrackets]
  | cons first rest ih => simp [keepBrackets, ih, Bool.and_assoc]

theorem bracketed_snoc (es : List (Event ι)) (e : Event ι) :
    bracketed (es ++ [e]) = (bracketed es && isProper (fun t => holds t es) e) :=
  keepBrackets_snoc _ es e

theorem heldAfter_of_ne {t : ι} {e : Event ι} (h : e.thread ≠ t) (held : Bool) :
    heldAfter t held e = held := by
  unfold heldAfter
  split
  · rename_i u op hreturned
    exact if_neg fun hu => h ((Crew.Event.thread_of_returned? hreturned).trans hu)
  · rfl

theorem holds_snoc_of_ne {t : ι} {e : Event ι} (h : e.thread ≠ t) (es : List (Event ι)) :
    holds t (es ++ [e]) = holds t es := by
  rw [holds_snoc, heldAfter_of_ne h]

theorem holds_snoc_of_silent (t : ι) (es : List (Event ι)) {e : Event ι}
    (h : e.returned? = none) : holds t (es ++ [e]) = holds t es := by
  rw [holds_snoc, heldAfter, h]

theorem holds_snoc_install (t : ι) (es : List (Event ι)) {e : Event ι} {u : ι} {id : ConsoleId}
    {a : Answer} (h : e.returned? = some (u, .install id, a)) :
    holds t (es ++ [e]) = holds t es := by
  rw [holds_snoc, heldAfter, h]

theorem holds_snoc_use {t : ι} {op : Operation} (es : List (Event ι)) {e : Event ι}
    (h : e.returned? = some (t, .use op, .ok)) : holds t (es ++ [e]) = decide (op = .enter) := by
  rw [holds_snoc, heldAfter, h]
  exact if_pos rfl

omit [DecidableEq ι] in
theorem installed_snoc (es : List (Event ι)) (e : Event ι) :
    Installed (es ++ [e]) ↔ Installed es ∨ ∃ t id, e.returned? = some (t, .install id, .ok) := by
  simp only [Installed, List.mem_append, List.mem_singleton]
  constructor
  · rintro ⟨e', hmem | rfl, h⟩
    · exact .inl ⟨e', hmem, h⟩
    · exact .inr h
  · rintro (⟨e', hmem, h⟩ | h)
    · exact ⟨e', .inl hmem, h⟩
    · exact ⟨e, .inr rfl, h⟩

omit [DecidableEq ι] in
theorem installed_snoc_of_silent (es : List (Event ι)) {e : Event ι} (h : e.returned? = none) :
    Installed (es ++ [e]) ↔ Installed es := by
  simp [installed_snoc, h]

omit [DecidableEq ι] in
theorem installed_snoc_use (es : List (Event ι)) {e : Event ι} {t : ι} {op : Operation}
    {a : Answer} (h : e.returned? = some (t, .use op, a)) :
    Installed (es ++ [e]) ↔ Installed es := by
  simp [installed_snoc, h]

omit [DecidableEq ι] in
theorem installed_snoc_install (es : List (Event ι)) {e : Event ι} {t : ι} {id : ConsoleId}
    {a : Answer} (h : e.returned? = some (t, .install id, a)) :
    Installed (es ++ [e]) ↔ Installed es ∨ a = .ok := by
  simp [installed_snoc, h]

end History

/-! ## Where a thread is -/

variable {name : LockName} {thread : ι → ThreadId} {token : ι → Token}

/-- A part of an operation on the lock, as part of a job. -/
def onMutex (name : LockName) (p : Program Access.interface (Except MutexError Unit)) :
    Task Answer := do
  return Answer.ofMutex (← Log.onLock name p)

theorem task_use (name : LockName) (op : Operation) :
    (Job.use op).task name =
      .ask Request.self.demand fun me => onMutex name ((Stage.first me op).rest me) := by
  simp only [← Stage.program_eq_rest]
  cases op <;> rfl

/-- A thread that is at a job, or not, stands so to the lock. -/
inductive Stands (name : LockName) : Option (Job × Task Answer) → Standing → Prop where
  | idle {held : Bool} : Stands name none (.resting held)
  /-- It is about to ask for its own token. -/
  | beginning (op : Operation) :
      Stands name (some (.use op, (Job.use op).task name)) (.resting (op = .exit))
  | within (me : Token) (st : Stage) :
      Stands name (some (.use st.operation, onMutex name (st.rest me))) (.within me st)
  | installing (id : ConsoleId) (held : Bool) :
      Stands name (some (.install id, (Job.install id).task name)) (.resting held)

theorem Stands.ne_done {job : Job} {a : Answer} {s : Standing} :
    ¬ Stands name (some (job, .done a)) s := by
  intro h
  generalize hdoing : some (job, (.done a : Task Answer)) = doing at h
  cases h with
  | idle | within | installing => cases hdoing
  | beginning op =>
      rw [task_use] at hdoing
      cases hdoing

def doingAfter (name : LockName) (me : Token) (op : Operation) :
    Progress → Option (Job × Task Answer)
  | .on st => some (.use op, onMutex name (st.rest me))
  | .ended _ => none

theorem result?_onMutex (name : LockName) (me : Token) (p : Progress) :
    (onMutex name (p.rest me)).result? = p.result?.map Answer.ofMutex := by
  cases p <;> rfl

theorem remaining_onMutex (name : LockName) (me : Token) (op : Operation) (p : Progress) :
    Crew.remaining (.use op) (onMutex name (p.rest me)) = doingAfter name me op p := by
  cases p <;> rfl

/-! ## One event -/

section Events

variable [DecidableEq ι]

abbrev Next (name : LockName) (thread : ι → ThreadId) : Crowd ι → Event ι → Crowd ι → Prop :=
  Crew.Step (fun t => Session.perform (thread t)) fun _ => Job.task name

abbrev Reaches (name : LockName) (thread : ι → ThreadId) (s : Session) :
    List (Event ι) → Crowd ι → Prop :=
  Crew.Run (fun t => Session.perform (thread t)) (fun _ => Job.task name) (Crew.idle s)

/-- All that a thread can do next, where threads stand to the lock as given. -/
inductive Acts (name : LockName) (thread : ι → ThreadId) (y : Crowd ι) (standing : ι → Standing)
    (t : ι) : Event ι → Crowd ι → Prop where
  | begins (job : Job) (idle : y.doing t = none) :
      Acts name thread y standing t (.began t job none)
        ⟨y.state, Function.update y.doing t (some (job, job.task name))⟩
  | identifies (op : Operation) (rests : standing t = .resting (op = .exit)) :
      Acts name thread y standing t
        (.made t (.use op) Request.self.demand (y.state.tokenOf (thread t)) y.state y.state none)
        ⟨y.state, Function.update y.doing t
          (some (.use op, onMutex name
            ((Stage.first (y.state.tokenOf (thread t)) op).rest (y.state.tokenOf (thread t)))))⟩
  | accesses {me : Token} {st : Stage} {m' : CheckedMutex SpinLock} {p : Progress}
      (answer : (st.access me).Reply) (stands : standing t = .within me st)
      (move : Move me st (y.state.locks name) m' p) :
      Acts name thread y standing t
        (.made t (.use st.operation) (Request.access name (st.access me)).demand answer y.state
          { y.state with locks := update y.state.locks name m' } (p.result?.map Answer.ofMutex))
        ⟨{ y.state with locks := update y.state.locks name m' },
          Function.update y.doing t (doingAfter name me st.operation p)⟩
  | installs (id : ConsoleId) {g : Guest} {held : Bool} (guest : y.state.platform = .guest g)
      (rests : standing t = .resting held) :
      Acts name thread y standing t
        (.made t (.install id) (Request.installConsole id).demand (g.install id).1 y.state
          { y.state with platform := .guest (g.install id).2 }
          (some (Answer.ofInstall (g.install id).1)))
        ⟨{ y.state with platform := .guest (g.install id).2 }, Function.update y.doing t none⟩

theorem acts_of_next {y z : Crowd ι} {e : Event ι} {standing : ι → Standing} {g : Guest}
    (guest : y.state.platform = .guest g) (stands : ∀ t, Stands name (y.doing t) (standing t))
    (next : Next name thread y e z) : Acts name thread y standing e.thread e z := by
  cases next with
  | @began t job free =>
      cases job with
      | use op =>
          have h : Acts name thread y standing t _ _ := .begins (.use op) free
          rw [task_use] at h ⊢
          exact h
      | install id => exact .begins (.install id) free
  | @made t job r next answer s busy reply =>
      have hstands := stands t
      rw [busy] at hstands
      generalize hrests : standing t = standing' at hstands
      generalize hdoing : some (job, Program.ask r next) = doing at hstands
      cases hstands with
      | idle => cases hdoing
      | beginning op =>
          rw [task_use] at hdoing
          cases hdoing
          cases reply
          exact .identifies op hrests
      | within me st =>
          cases hdoing
          obtain ⟨m', hperform, rfl⟩ := Session.access_of_reply reply
          obtain ⟨p, move, hnext⟩ := CheckedMutex.move_of_reply hperform
          have h : Acts name thread y standing t _ _ := .accesses answer hrests move
          rw [← result?_onMutex name, ← remaining_onMutex, ← hnext] at h
          exact h
      | installing id held =>
          cases hdoing
          simp only [Session.perform_demand, Session.performAs, guest] at reply
          cases reply
          exact .installs id guest hrests

/-! ## The invariant -/

/-- The session is that of a guest, threads have their tokens, and they use the lock in order. -/
structure Invariant (name : LockName) (thread : ι → ThreadId) (token : ι → Token)
    (es : List (Event ι)) (y : Crowd ι) : Prop where
  guest : ∃ g, y.state.platform = .guest g ∧ (g.installed.isSome ↔ Installed es)
  tokens : ∀ t, y.state.tokens (thread t) = token t
  order : ∃ standing, Orderly token (y.state.locks name) standing ∧
    ∀ t, Stands name (y.doing t) (standing t) ∧ holds t es = (standing t).held

theorem Invariant.tokenOf {es : List (Event ι)} {y : Crowd ι}
    (h : Invariant name thread token es y) (t : ι) :
    (Installed es → y.state.tokenOf (thread t) = token t) ∧
    (¬ Installed es → y.state.tokenOf (thread t) = Token.anonymous) := by
  obtain ⟨g, hs, hinstalled⟩ := h.guest
  rw [← hinstalled, Session.tokenOf, hs, ← h.tokens t]
  exact ⟨fun hg => if_pos hg, fun hg => if_neg hg⟩

theorem Invariant.goesBy {es : List (Event ι)} {y : Crowd ι}
    (h : Invariant name thread token es y) (t : ι) :
    GoesBy token t (y.state.tokenOf (thread t)) := by
  by_cases hinstalled : Installed es
  · exact .inr ((h.tokenOf t).1 hinstalled)
  · exact .inl ((h.tokenOf t).2 hinstalled)

theorem stands_update {es : List (Event ι)} {y : Crowd ι} {standing : ι → Standing} {e : Event ι}
    {t : ι} (h : ∀ t, Stands name (y.doing t) (standing t) ∧ holds t es = (standing t).held)
    (ht : e.thread = t) {doing : Option (Job × Task Answer)} {s : Standing}
    (hdoing : Stands name doing s) (hheld : holds t (es ++ [e]) = s.held) (u : ι) :
    Stands name (Function.update y.doing t doing u) (Function.update standing t s u) ∧
      holds u (es ++ [e]) = (Function.update standing t s u).held := by
  by_cases hu : u = t
  · rw [hu, Function.update_self, Function.update_self]
    exact ⟨hdoing, hheld⟩
  · rw [Function.update_of_ne hu, Function.update_of_ne hu,
      holds_snoc_of_ne (ht ▸ Ne.symm hu)]
    exact h u

theorem stands_stay {es : List (Event ι)} {y : Crowd ι} {standing : ι → Standing} {e : Event ι}
    {t : ι} (h : ∀ t, Stands name (y.doing t) (standing t) ∧ holds t es = (standing t).held)
    (ht : e.thread = t) {doing : Option (Job × Task Answer)}
    (hdoing : Stands name doing (standing t)) (hheld : holds t (es ++ [e]) = holds t es) (u : ι) :
    Stands name (Function.update y.doing t doing u) (standing u) ∧
      holds u (es ++ [e]) = (standing u).held := by
  have hall := stands_update h ht hdoing (hheld.trans (h t).2) u
  rwa [Function.update_eq_self] at hall

/-- A thread that keeps to the brackets is about to enter if it does not hold the lock, and about to
leave if it does. -/
theorem stands_begin {job : Job} {s : Standing} (idle : Stands name none s)
    (proper : ∀ op, job = .use op → s.held = decide (op = .exit)) :
    Stands name (some (job, job.task name)) s := by
  cases idle with
  | @idle held =>
      cases job with
      | install id => exact .installing id held
      | use op =>
          obtain rfl : held = decide (op = .exit) := proper op rfl
          exact .beginning op

theorem stands_after {me : Token} {st : Stage} {m m' : CheckedMutex SpinLock} {p : Progress}
    (move : Move me st m m' p) :
    Stands name (doingAfter name me st.operation p) (p.standing me st.operation) := by
  cases p with
  | on st' =>
      have hstage : Stands name _ _ := .within me st'
      rw [move.operation_eq] at hstage
      exact hstage
  | ended result => cases result <;> exact .idle

theorem holds_after {es : List (Event ι)} {t : ι} {me : Token} {st : Stage}
    {m m' : CheckedMutex SpinLock} {p : Progress}
    (hheld : holds t es = (Standing.within me st).held)
    (move : Move me st m m' p) (hok : ∀ e, p ≠ .ended (.error e)) (d : Demand) (answer : d.Reply)
    (s s' : Session) :
    holds t (es ++ [.made t (.use st.operation) d answer s s' (p.result?.map Answer.ofMutex)]) =
      (p.standing me st.operation).held := by
  cases p with
  | on st' =>
      rw [holds_snoc_of_silent t es rfl, hheld, Progress.standing, Standing.held, Standing.held,
        move.operation_eq]
  | ended result =>
      cases result with
      | ok _ => exact holds_snoc_use es rfl
      | error e => exact absurd rfl (hok e)

theorem Invariant.kept {es : List (Event ι)} {y z : Crowd ι} {e : Event ι}
    (h : Invariant name thread token es y) (distinct : Function.Injective token)
    (named : ∀ t, (token t).reserved = false) (next : Next name thread y e z)
    (proper : isProper (fun t => holds t es) e) : Invariant name thread token (es ++ [e]) z := by
  obtain ⟨g, hs, hinstalled⟩ := h.guest
  obtain ⟨standing, horder, hstands⟩ := h.order
  have hacts := acts_of_next hs (fun t => (hstands t).1) next
  have hknown := h.goesBy e.thread
  generalize ht : e.thread = t at hacts hknown
  cases hacts with
  | begins job idle =>
      have hbegin : Stands name (some (job, job.task name)) (standing t) := by
        refine stands_begin (idle ▸ (hstands t).1) ?_
        rintro op rfl
        rw [← (hstands t).2]
        exact of_decide_eq_true proper
      refine ⟨⟨g, hs, ?_⟩, h.tokens, standing, horder, stands_stay hstands ht hbegin ?_⟩
      · rw [hinstalled, installed_snoc_of_silent es rfl]
      · rw [holds_snoc_of_silent t es rfl]
  | identifies op rests =>
      generalize y.state.tokenOf (thread t) = me at hknown ht ⊢
      have hstage : Stands name _ _ := .within me (Stage.first me op)
      rw [Stage.operation_first] at hstage
      refine ⟨⟨g, hs, ?_⟩, h.tokens, _, horder.began rests hknown,
        stands_update hstands ht hstage ?_⟩
      · rw [hinstalled, installed_snoc_of_silent es rfl]
      · rw [holds_snoc_of_silent t es rfl, (hstands t).2, rests, Standing.held, Standing.held,
          Stage.operation_first]
  | @accesses me st m' p answer stands move =>
      obtain ⟨horder', hok⟩ := horder.made distinct named stands move
      have hheld := (hstands t).2
      rw [stands] at hheld
      refine ⟨⟨g, hs, ?_⟩, h.tokens, Function.update standing t (p.standing me st.operation), ?_,
        stands_update hstands ht (stands_after move) (holds_after hheld move hok _ _ _ _)⟩
      · rw [hinstalled]
        cases p with
        | on st' => rw [installed_snoc_of_silent es rfl]
        | ended result => rw [installed_snoc_use es rfl]
      · show Orderly token (update y.state.locks name m' name) _
        rw [update_self]
        exact horder'
  | @installs id g' held guest rests =>
      rw [hs] at guest
      cases guest
      refine ⟨⟨_, rfl, ?_⟩, h.tokens, standing, horder, stands_stay hstands ht (rests ▸ .idle) ?_⟩
      · rw [installed_snoc_install es rfl, ← hinstalled]
        unfold Guest.install
        split <;> simp_all [Answer.ofInstall]
      · rw [holds_snoc_install t es rfl]

/-! ## Runs -/

theorem invariant_of_reaches {s : Session} {g : Guest} (guest : s.platform = .guest g)
    (uninstalled : g.installed = none) (new : s.locks name = CheckedMutex.unowned)
    (tokens : ∀ t, s.tokens (thread t) = token t) (distinct : Function.Injective token)
    (named : ∀ t, (token t).reserved = false) {es : List (Event ι)} {y : Crowd ι}
    (run : Reaches name thread s es y) (brackets : bracketed es = true) :
    Invariant name thread token es y := by
  induction run with
  | nil =>
      refine ⟨⟨g, guest, by simp [uninstalled, Installed]⟩, tokens, fun _ => .resting false, ?_,
        fun _ => ⟨.idle, rfl⟩⟩
      show Orderly token (s.locks name) _
      rw [new]
      exact .free rfl rfl fun _ => .resting
  | snoc _ next ih =>
      rw [bracketed_snoc, Bool.and_eq_true] at brackets
      exact (ih brackets.1).kept distinct named next brackets.2

theorem Invariant.returned {es : List (Event ι)} {y z : Crowd ι} {e : Event ι}
    (h : Invariant name thread token es y) (distinct : Function.Injective token)
    (named : ∀ t, (token t).reserved = false) (next : Next name thread y e z) {t : ι}
    {op : Operation} {answer : Answer} (hreturned : e.returned? = some (t, .use op, answer)) :
    answer = .ok := by
  obtain ⟨g, hs, _⟩ := h.guest
  obtain ⟨standing, horder, hstands⟩ := h.order
  have hacts := acts_of_next hs (fun t => (hstands t).1) next
  generalize e.thread = u at hacts
  cases hacts with
  | begins | identifies | installs => cases hreturned
  | @accesses me st m' p reply stands move =>
      have hok := (horder.made distinct named stands move).2
      cases p with
      | on st' => cases hreturned
      | ended result =>
          cases hreturned
          cases result with
          | ok _ => rfl
          | error error => exact absurd rfl (hok error)

theorem Invariant.frees {es : List (Event ι)} {y z : Crowd ι} {e : Event ι}
    (h : Invariant name thread token es y) (next : Next name thread y e z)
    (hfrees : Frees name e) :
    holds e.thread es ∧ y.state.locks name = ⟨⟨true⟩, Token.noOwner⟩ ∧
      z.state.locks name = CheckedMutex.unowned := by
  obtain ⟨g, hs, _⟩ := h.guest
  obtain ⟨standing, horder, hstands⟩ := h.order
  have hacts := acts_of_next hs (fun t => (hstands t).1) next
  generalize ht : e.thread = t at hacts
  cases hacts with
  | begins | identifies | installs => exact hfrees.elim
  | @accesses me st m' p answer stands move =>
      obtain rfl : st = .freeing := by
        cases st <;> first | rfl | exact hfrees.elim
      obtain ⟨raw, owner⟩ := horder.freeing stands
      have hheld := (hstands t).2
      rw [stands] at hheld
      have hlocked : y.state.locks name = ⟨⟨true⟩, Token.noOwner⟩ :=
        congrArg₂ CheckedMutex.mk (congrArg SpinLock.mk raw) owner
      refine ⟨hheld, hlocked, ?_⟩
      show update y.state.locks name m' name = _
      rw [update_self]
      generalize y.state.locks name = m at move hlocked
      cases move
      rw [hlocked]
      rfl

theorem Invariant.replies {es : List (Event ι)} {y : Crowd ι}
    (h : Invariant name thread token es y) {t : ι} {d : Demand} {rest : d.Reply → Task Answer}
    (hdoing : y.doing t = some (.use .exit, .ask d rest)) :
    ∃ answer s, Session.perform (thread t) d y.state = .reply answer s := by
  obtain ⟨standing, _, hstands⟩ := h.order
  have hstand := (hstands t).1
  rw [hdoing] at hstand
  generalize hjob : some (Job.use .exit, (.ask d rest : Task Answer)) = doing,
    standing t = stood at hstand
  cases hstand with
  | idle | installing => cases hjob
  | beginning op =>
      rw [task_use] at hjob
      cases hjob
      exact ⟨_, _, rfl⟩
  | within me st =>
      obtain ⟨hop, hrest⟩ := Prod.mk.inj (Option.some.inj hjob)
      have htaking : st ≠ .taking := by
        rintro rfl
        cases hop
      obtain ⟨answer, m', hreply⟩ :=
        CheckedMutex.reply_of_ne_taking me (y.state.locks name) htaking
      cases hrest
      refine ⟨answer, { y.state with locks := update y.state.locks name m' }, ?_⟩
      simp only [Session.perform_demand, Session.performAs, hreply]

theorem Invariant.exit_finishes {es : List (Event ι)} {y : Crowd ι}
    (h : Invariant name thread token es y) (distinct : Function.Injective token)
    (named : ∀ t, (token t).reserved = false) {t : ι} {p : Task Answer}
    (hdoing : y.doing t = some (.use .exit, p)) :
    ∃ s, p.run (Session.perform (thread t)) y.state = .finished .ok s := by
  induction p generalizing es y with
  | done a =>
      obtain ⟨standing, _, hstands⟩ := h.order
      exact absurd (hdoing ▸ (hstands t).1) Stands.ne_done
  | ask d rest ih =>
      obtain ⟨answer, s, hreply⟩ := h.replies hdoing
      have next : Next name thread y _ _ := .made hdoing hreply
      rw [Program.run_ask_of_reply hreply]
      cases hrest : rest answer with
      | done a =>
          have hreturned : (Crew.Event.made t (Job.use .exit) d answer y.state s
              (rest answer).result?).returned? = some (t, .use .exit, a) := by
            rw [hrest]
            rfl
          exact ⟨s, by rw [h.returned distinct named next hreturned, Program.run_done]⟩
      | ask d' rest' =>
          rw [← hrest]
          refine ih answer (h.kept distinct named next rfl) ?_
          simp [hrest]

/-- Threads of a guest enter and leave a lock, each leaving what it has entered, and at any moment
one may install the console, which gives all of them tokens of their own.  However they take turns:
at most one holds the lock, no operation on it fails, and when the raw lock is freed it is taken,
by a thread that holds the lock, and nobody is recorded as the owner.  What is left of an exit comes
to its end by itself at any moment. -/
theorem brackets_survive_installation {s : Session} {g : Guest} (guest : s.platform = .guest g)
    (uninstalled : g.installed = none) (new : s.locks name = CheckedMutex.unowned)
    (distinct : Function.Injective fun t => s.tokens (thread t))
    (named : ∀ t, (s.tokens (thread t)).reserved = false) {es : List (Event ι)} {y : Crowd ι}
    (run : Reaches name thread s es y) (brackets : bracketed es = true) :
    (∀ t u, holds t es → holds u es → t = u) ∧
    (∀ e z t op answer, Next name thread y e z →
      e.returned? = some (t, .use op, answer) → answer = .ok) ∧
    (∀ e z, Next name thread y e z → Frees name e →
      holds e.thread es ∧ y.state.locks name = ⟨⟨true⟩, Token.noOwner⟩ ∧
        z.state.locks name = CheckedMutex.unowned) ∧
    (∀ t p, y.doing t = some (.use .exit, p) →
      ∃ s', p.run (Session.perform (thread t)) y.state = .finished .ok s') ∧
    (∀ t, (Installed es → y.state.tokenOf (thread t) = s.tokens (thread t)) ∧
      (¬ Installed es → y.state.tokenOf (thread t) = Token.anonymous)) := by
  have inv := invariant_of_reaches guest uninstalled new (fun _ => rfl) distinct named run brackets
  refine ⟨?_, fun e z t op answer next => inv.returned distinct named next,
    fun e z next => inv.frees next, fun t p => inv.exit_finishes distinct named, inv.tokenOf⟩
  intro t u ht hu
  obtain ⟨standing, horder, hstands⟩ := inv.order
  rw [(hstands t).2] at ht
  rw [(hstands u).2] at hu
  exact horder.held_unique ht hu

def threeThreads (t : Fin 3) : ThreadId :=
  .lasting t

/-- One thread enters before the installation and leaves after it, while another waits. -/
theorem exit_after_installation :
    ∃ (es : List (Event (Fin 3))) (y z : Crowd (Fin 3)) (e : Event (Fin 3)),
      Reaches .log threeThreads
        (Session.start ⟨.guest, .lf, false⟩ (fun _ => none) .empty) es y ∧
      bracketed es = true ∧ Next .log threeThreads y e z ∧ Frees .log e ∧
      y.state.tokenOf (threeThreads 0) = 1 ∧ y.state.tokenOf (threeThreads 1) = 2 ∧
      holds 0 es ∧ ¬ holds 1 es ∧ z.state.locks .log = CheckedMutex.unowned := by
  have distinct : Function.Injective fun t => Session.firstToken .guest (threeThreads t) := by
    intro t u
    revert t u
    decide
  have named : ∀ t, (Session.firstToken .guest (threeThreads t)).reserved = false := by decide
  obtain ⟨es, y, z, e, run, brackets, next, frees, h0, h1, ht⟩ :
      ∃ (es : List (Event (Fin 3))) (y z : _) (e : _),
        Reaches .log threeThreads
          (Session.start ⟨.guest, .lf, false⟩ (fun _ => none) .empty) es y ∧
        bracketed es = true ∧ Next .log threeThreads y e z ∧ Frees .log e ∧
        y.state.tokenOf (threeThreads 0) = 1 ∧ y.state.tokenOf (threeThreads 1) = 2 ∧
        e.thread = 0 :=
    ⟨_, _, _, _, Crew.run_of_follow
      [(0, some (.use .enter)), (0, none), (0, none), (0, none), (1, some (.use .enter)),
        (1, none), (2, some (.install 0)), (2, none), (0, some (.use .exit)), (0, none),
        (0, none), (0, none), (0, none)] rfl, rfl, Crew.step_of_next? 0 none rfl, by exact rfl, rfl,
      rfl, by exact rfl⟩
  obtain ⟨hunique, _, hfrees, _⟩ :=
    brackets_survive_installation rfl rfl rfl distinct named run brackets
  obtain ⟨hheld, _, hfree⟩ := hfrees e z next frees
  rw [ht] at hheld
  have hunheld : ¬ holds 1 es := by
    intro hother
    cases hunique 0 1 hheld hother
  exact ⟨es, y, z, e, run, brackets, next, frees, h0, h1, hheld, hunheld, hfree⟩

end Events

end Installation

end DiagnosticLog
