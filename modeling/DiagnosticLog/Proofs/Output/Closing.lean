import DiagnosticLog.Proofs.Output.Laws
import DiagnosticLog.Proofs.Output.Ledger

/-!
# Prints that are ended

Every step ends the prints it began, and no others; so does each thread of a contention, though it
is put aside in the middle of its task.  So the prints that are under way are not followed as a
stack here: those of some callers to one channel are counted, whatever other callers do
(`Step.closes`).
-/

namespace DiagnosticLog

variable {α β : Type}

namespace Request

def Ends (c : Channel) : Request → Prop
  | .endPrint d _ => d = c
  | _ => False

def openAfter (c : Channel) : (r : Request) → r.Reply → Nat → Nat
  | .takeChannel d, _, n => if d = c then n + 1 else n
  | .tryTakeChannel d, true, n => if d = c then n + 1 else n
  | .endPrint d _, _, n => if d = c then n - 1 else n
  | _, _, n => n

variable {c : Channel} {r : Request}

theorem openAfter_add {n : Nat} (ends : r.Ends c → 0 < n) (reply : r.Reply) (k : Nat) :
    r.openAfter c reply (n + k) = r.openAfter c reply n + k := by
  cases r with
  | takeChannel d =>
      simp only [openAfter]
      split <;> omega
  | tryTakeChannel d =>
      cases reply with
      | true =>
          simp only [openAfter]
          split <;> omega
      | false => rfl
  | endPrint d formatting =>
      simp only [openAfter]
      split
      · rename_i hd
        have hopen := ends hd
        omega
      · rfl
  | _ => rfl

theorem Fits.open {o : List Begun} (fits : r.Fits o) (ends : r.Ends c) :
    0 < o.count ⟨c, true⟩ := by
  cases r with
  | endPrint d formatting =>
      obtain rfl : d = c := ends
      exact List.count_pos_iff.mpr (List.mem_of_head? fits)
  | _ => exact ends.elim

theorem Fits.count_opens {o : List Begun} (fits : r.Fits o) (reply : r.Reply) :
    (r.opens reply o).count ⟨c, true⟩ = r.openAfter c reply (o.count ⟨c, true⟩) := by
  cases r with
  | beginPrint urgency =>
      simp only [opens, openAfter, Outlet.begun]
      split
      · rfl
      · cases reply.channel? <;> simp
  | takeChannel d =>
      obtain ⟨rest, rfl⟩ := List.head?_eq_some_iff.mp fits
      simp [opens, openAfter, Begun.taken, List.count_cons]
      split <;> rfl
  | tryTakeChannel d =>
      obtain ⟨rest, rfl⟩ := List.head?_eq_some_iff.mp fits.2
      cases reply with
      | true =>
          simp [opens, openAfter, Begun.taken, List.count_cons]
          split <;> rfl
      | false => simp [opens, openAfter, Begun.diverted]
  | endPrint d formatting =>
      obtain ⟨rest, rfl⟩ := List.head?_eq_some_iff.mp fits
      simp [opens, openAfter, List.count_cons]
      split <;> rfl
  | _ => rfl

end Request

/-! ## What a task leaves open -/

section Tasks

variable (c : Channel) (who : Caller → Bool)

namespace Demand

def Ends (d : Demand) : Prop :=
  who d.caller ∧ d.request.Ends c

def openAfter (d : Demand) (reply : d.Reply) (n : Nat) : Nat :=
  if who d.caller then d.request.openAfter c reply n else n

variable {c who}

theorem openAfter_add {d : Demand} {n : Nat} (ends : d.Ends c who → 0 < n) (reply : d.Reply)
    (k : Nat) : d.openAfter c who reply (n + k) = d.openAfter c who reply n + k := by
  unfold openAfter
  split
  · rename_i hwho
    exact Request.openAfter_add (fun hends => ends ⟨hwho, hends⟩) reply k
  · rfl

end Demand

/-- With `n` prints of the callers to the channel under way, the task ends one of theirs only if one
is, and what it finishes with belongs to the number it leaves under way. -/
def Leaves (R : α → Nat → Prop) : Task α → Nat → Prop
  | .done a, n => R a n
  | .ask d next, n =>
      (d.Ends c who → 0 < n) ∧ ∀ reply, Leaves R (next reply) (d.openAfter c who reply n)

/-- Of the prints of a task's own thread to the channel those that count. -/
def counted (o : List Begun) : Nat :=
  if who .runner then o.count ⟨c, true⟩ else 0

/-- Whichever callers are looked at, the task ends the prints to the channel that they began, and no
others, and finishes with good results only. -/
def Closes (good : α → Prop) (p : Task α) : Prop :=
  ∀ who, Leaves c who (fun a n => n = 0 ∧ good a) p 0

end Tasks

section Own

variable {c : Channel} {who : Caller → Bool} {d : Demand} {o : List Begun}

theorem counted_nil : counted c who [] = 0 :=
  ite_self 0

theorem Request.Fits.counted_pos (own : d.caller = .runner) (fits : d.request.Fits o)
    (ends : d.Ends c who) : 0 < counted c who o := by
  obtain ⟨hwho, hends⟩ := ends
  rw [own] at hwho
  rw [counted, if_pos hwho]
  exact fits.open hends

theorem Request.Fits.counted_opens (own : d.caller = .runner) (fits : d.request.Fits o)
    (reply : d.Reply) :
    counted c who (d.request.opens reply o) = d.openAfter c who reply (counted c who o) := by
  unfold counted Demand.openAfter
  rw [own]
  split
  · exact fits.count_opens reply
  · rfl

end Own

namespace Leaves

variable {c : Channel} {who : Caller → Bool} {R : α → Nat → Prop} {R' : β → Nat → Prop}
  {p : Task α} {f : α → Task β} {n k : Nat}

theorem bind (hp : Leaves c who R p n) (hf : ∀ a m, R a m → Leaves c who R' (f a) (m + k)) :
    Leaves c who R' (p >>= f) (n + k) := by
  induction p generalizing n with
  | done a => exact hf a n hp
  | ask d next ih =>
      obtain ⟨ends, hnext⟩ := hp
      refine ⟨fun hends => Nat.add_pos_left (ends hends) k, fun reply => ?_⟩
      rw [Demand.openAfter_add ends]
      exact ih reply (hnext reply)

theorem of_nests {base o : List Begun} (nests : Nests base p o) {good : α → Prop}
    (h : ∀ a, good a) :
    Leaves c who (fun a m => m = counted c who base ∧ good a) p (counted c who o) := by
  induction p generalizing o with
  | done a => exact ⟨congrArg (counted c who) nests, h a⟩
  | ask d next ih =>
      obtain ⟨own, fits, hnext⟩ := nests
      refine ⟨fits.counted_pos own, fun reply => ?_⟩
      rw [← fits.counted_opens own]
      exact ih reply (hnext reply)

theorem of_beginsAt {o now : List Begun} {p : Task (Option Channel)} (begins : BeginsAt o p now) :
    Leaves c who
      (fun destination m =>
        m = counted c who ((destination.map fun c => ⟨c, true⟩).toList ++ o))
      p (counted c who now) := by
  induction p generalizing now with
  | done destination => exact congrArg (counted c who) begins
  | ask d next ih =>
      obtain ⟨own, fits, hnext⟩ := begins
      refine ⟨fits.counted_pos own, fun reply => ?_⟩
      rw [← fits.counted_opens own]
      exact ih reply (hnext reply)

theorem asStarted (thread : Nat) (hp : Leaves c (fun _ => who (.started thread)) R p n) :
    Leaves c who R (p.asStarted thread) n := by
  induction p generalizing n with
  | done a => exact hp
  | ask d next ih => exact ⟨hp.1, fun reply => ih reply (hp.2 reply)⟩

/-- A task that is put aside on its way leaves under way what it has to end later. -/
theorem upTo (stops : Demand → Bool) (hp : Leaves c who R p n) :
    Leaves c who (fun left m => Leaves c who R left m) (p.upTo stops) n := by
  induction p generalizing n with
  | done a => exact hp
  | ask d next ih =>
      unfold Program.upTo
      split
      · exact hp
      · exact ⟨hp.1, fun reply => ih reply (hp.2 reply)⟩

end Leaves

section Prints

variable {c : Channel} {good : α → Prop} {good' : β → Prop} {p : Task α} {f : α → Task β}

theorem Closes.done {a : α} (h : good a) : Closes c good (.done a) :=
  fun _ => ⟨rfl, h⟩

theorem Closes.bind (hp : Closes c good p) (hf : ∀ a, good a → Closes c good' (f a)) :
    Closes c good' (p >>= f) := by
  intro who
  refine Leaves.bind (k := 0) (hp who) ?_
  rintro a m ⟨rfl, ha⟩
  exact hf a ha who

theorem Closes.of_balanced (h : Balanced p) (hgood : ∀ a, good a) : Closes c good p := by
  intro who
  have hleaves : Leaves c who (fun a n => n = counted c who [] ∧ good a) p (counted c who []) :=
    .of_nests (h []) hgood
  rwa [counted_nil] at hleaves

variable {m : Message}
  (effects : ∀ task, Fragment.effect task ∈ m → Closes c (fun f => f = .unwound → True) task)
include effects

theorem closes_deliver (d : Channel) : Closes c (fun _ => True) (Log.deliver d m) := by
  induction m with
  | nil => exact .done trivial
  | cons fragment rest ih =>
      have hrest := ih fun task htask => effects task (List.mem_cons_of_mem _ htask)
      cases fragment with
      | piece p =>
          intro who
          refine ⟨fun ends => ends.2.elim, fun taken => ?_⟩
          have hcount : Demand.openAfter c who (Request.put d p).demand taken 0 = 0 := ite_self 0
          rw [hcount]
          cases taken with
          | true => exact hrest who
          | false => exact Closes.done trivial who
      | effect task =>
          refine Closes.bind (effects task (List.mem_cons_self ..)) fun finish _ => ?_
          cases finish with
          | returned => exact hrest
          | unwound => exact .done trivial
      | fault => exact .done trivial

theorem closes_printWith (urgency : Urgency) :
    Closes c (fun f => f = .unwound → True) (Log.printWith urgency m) := by
  intro who
  have hbegin : Leaves c who
      (fun d n => n = counted c who ((d.map fun c => ⟨c, true⟩).toList ++ []))
      (Log.beginPrint urgency) (counted c who []) :=
    .of_beginsAt (beginsAt_beginPrint urgency [])
  rw [counted_nil] at hbegin
  refine Leaves.bind (k := 0) hbegin ?_
  rintro destination _ rfl
  cases destination with
  | none =>
      rw [List.append_nil]
      exact ⟨counted_nil, fun _ => trivial⟩
  | some d =>
      have hend (formatting : Formatting) :
          Nests [] (Request.make (.endPrint d formatting)) [⟨d, true⟩] :=
        ⟨rfl, rfl, fun _ => rfl⟩
      have hprint : Leaves c who (fun f n => n = 0 ∧ (f = .unwound → True))
          (Log.printTo m (some d)) (0 + counted c who [⟨d, true⟩]) := by
        refine Leaves.bind (closes_deliver effects d who) ?_
        rintro formatting _ ⟨rfl, -⟩
        rw [Nat.zero_add]
        have hleaves : Leaves c who (fun f n => n = counted c who [] ∧ (f = .unwound → True))
            (Request.make (.endPrint d formatting)) (counted c who [⟨d, true⟩]) :=
          .of_nests (hend formatting) fun _ _ => trivial
        rwa [counted_nil] at hleaves
      rwa [Nat.zero_add] at hprint

end Prints

def TaskLaw.closing (c : Channel) : TaskLaw where
  Holds := Closes c
  unwinding := True
  done := .done
  bind := .bind
  composed h := .of_balanced h.balanced fun _ _ => trivial
  printWith := closes_printWith

/-! ## Threads that log at the same time -/

namespace Contention

variable {c : Channel} {tasks : List (Task Unit)}

/-- What the gathered tasks have left open they end when they take their turns. -/
theorem leaves_gather {who : Caller → Bool}
    (closes : ∀ task ∈ tasks, Closes c (fun _ => True) task) :
    Leaves c who (fun left n => Leaves c who (fun _ m => m = 0 ∧ True) (inTurn left) n)
      (gather tasks) 0 := by
  induction tasks with
  | nil =>
      have hnone : Closes c (fun _ => True) (inTurn []) := .done trivial
      exact hnone who
  | cons task rest ih =>
      obtain ⟨htask, hrest⟩ := List.forall_mem_cons.mp closes
      refine Leaves.bind (k := 0) ((htask who).upTo takesLock) fun first n hfirst => ?_
      rw [Nat.add_zero, ← Nat.zero_add n]
      refine (ih hrest).bind fun left m hleft => ?_
      -- the first task goes on before the others, whose prints are under way meanwhile
      have hturns : Leaves c who (fun _ k => k = 0 ∧ True) (first >>= fun _ => inTurn left)
          (n + m) := by
        refine hfirst.bind ?_
        rintro _ k ⟨rfl, -⟩
        rw [Nat.zero_add]
        exact hleft
      rw [Nat.add_comm m n]
      exact hturns

theorem closes_task (form : StatementForm) (threads count : Nat) :
    Closes c (fun _ => True) (task form threads count) := by
  have hworkers : ∀ task ∈ (List.range threads).map (worker form count),
      Closes c (fun _ => True) task := by
    intro task htask
    obtain ⟨t, -, rfl⟩ := List.mem_map.mp htask
    have hstatements : Closes c (fun _ => True) (statements form t (List.range count)) :=
      (TaskLaw.closing c).statements form t _
    exact fun who => Leaves.asStarted t (hstatements fun _ => who (.started t))
  intro who
  exact Leaves.bind (k := 0) (leaves_gather hworkers) fun _ _ => id

end Contention

def StepLaw.closing (c : Channel) : StepLaw :=
  ⟨TaskLaw.closing c, fun form threads count => Contention.closes_task form threads count⟩

theorem Step.closes (c : Channel) (step : Step) :
    Closes c (fun answer => answer = some .panic → True) step.task :=
  (StepLaw.closing c).step step

/-! ## The writer of the log file -/

def Caller.are (t u : ThreadId) (caller : Caller) : Bool :=
  caller.thread t = u

namespace Session

variable {s s' : Session} {t u : ThreadId} {k n : Nat}

def filePrints (s : Session) (u : ThreadId) : Nat :=
  match s.platform with
  | .hosted h => h.users.file.count u
  | .guest _ => 0

theorem filePrints_of_reply {h : Hosted} (hs : s.platform = .hosted h) {d : Demand}
    {answer : d.Reply} (ends : d.Ends .file (Caller.are t u) → 0 < n)
    (here : s.filePrints u = n + k) (reply : perform t d s = .reply answer s') :
    s'.filePrints u = d.openAfter .file (Caller.are t u) answer n + k := by
  obtain ⟨caller, r⟩ := d
  have reply' : performAs (caller.thread t) r s = .reply answer s' := reply
  obtain ⟨h', hs', move⟩ := move_of_reply hs reply'
  simp only [filePrints, hs] at here
  have hends : (caller.thread t = u ∧ r.Ends .file) → 0 < n :=
    fun both => ends ⟨decide_eq_true both.1, both.2⟩
  simp only [filePrints, hs', Demand.openAfter, Caller.are, decide_eq_true_eq]
  have hsame (hr : r.openAfter .file answer n = n) :
      h.users.file.count u =
        (if caller.thread t = u then r.openAfter .file answer n else n) + k := by
    rw [hr, ite_self]
    exact here
  cases move with
  | @takeChannel _ c free | @tryTakeChannel _ c free =>
      cases c with
      | file =>
          simp only [Users.modify, Request.openAfter, if_true, List.count_cons, beq_iff_eq]
          split <;> omega
      | _ => exact hsame rfl
  | @endPrint _ c formatting =>
      cases c with
      | file =>
          simp only [Hosted.endPrint, Users.modify, Request.openAfter, if_true]
          by_cases hu : caller.thread t = u
          · have hopen := hends ⟨hu, rfl⟩
            rw [if_pos hu, hu, List.count_erase_self, here]
            omega
          · rw [if_neg hu, List.count_erase_of_ne (Ne.symm hu)]
            exact here
      | _ => exact hsame rfl
  | put =>
      rw [Hosted.put_users]
      exact hsame rfl
  | flush free =>
      rw [Hosted.users_push]
      exact hsame rfl
  | openSink opening =>
      rw [opening.rest]
      exact hsame rfl
  | publishSink publication => cases publication <;> exact hsame rfl
  | other hr => cases r <;> first | exact hsame rfl | simp [Request.reachesPlatform] at hr
  | _ => exact hsame rfl

theorem filePrints_of_leaves {h : Hosted} (hs : s.platform = .hosted h) {R : α → Nat → Prop}
    {p : Task α} (leaves : Leaves .file (Caller.are t u) R p n) (here : s.filePrints u = n + k)
    {a : α} (run : p.run (perform t) s = .finished a s') :
    ∃ m, R a m ∧ s'.filePrints u = m + k := by
  induction p generalizing s n h with
  | done b =>
      cases run
      exact ⟨n, leaves, here⟩
  | ask d next ih =>
      cases hd : perform t d s with
      | reply answer s₁ =>
          obtain ⟨h₁, hs₁, -⟩ := move_of_reply hs hd
          rw [Program.run_ask_of_reply hd] at run
          exact ih answer hs₁ (leaves.2 answer) (filePrints_of_reply hs leaves.1 here hd) run
      | wait =>
          rw [Program.run_ask_of_wait hd] at run
          cases run
      | stop e s₁ =>
          rw [Program.run_ask_of_stop hd] at run
          cases run

theorem file_nil_of_closes {h h' : Hosted} (hs : s.platform = .hosted h)
    (hs' : s'.platform = .hosted h') {good : α → Prop} {p : Task α} (closes : Closes .file good p)
    {a : α} (run : p.run (perform t) s = .finished a s') (free : h.users.file = []) :
    h'.users.file = [] := by
  refine List.eq_nil_iff_forall_not_mem.mpr fun u hu => ?_
  have hnone : s.filePrints u = 0 + 0 := by simp only [filePrints, hs, free, List.count_nil]
  obtain ⟨m, ⟨rfl, -⟩, hafter⟩ := filePrints_of_leaves hs (closes (Caller.are t u)) hnone run
  simp only [filePrints, hs'] at hafter
  exact absurd hu (List.count_eq_zero.mp hafter)

end Session

end DiagnosticLog
