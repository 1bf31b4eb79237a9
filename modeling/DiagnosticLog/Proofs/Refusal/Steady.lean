import DiagnosticLog.Proofs.Output.Composed
import DiagnosticLog.Proofs.Refusal.Beside

/-!
# Steady tasks

A steady task puts messages that run nothing and can be formatted, does not touch the log file
otherwise, and does not care for its path.  On processes beside each other it comes to the same
(`Steady.agrees`): whether the file takes a piece or not, the print returns.  All operations of the
log are steady but those that choose the sink or ask for it.
-/

namespace DiagnosticLog

variable {α β : Type}

/-! ## Tasks as others run them -/

def Task.asCaller (caller : Caller) (task : Task α) : Task α :=
  task.relay (Demand.makeAs caller)

namespace Task

variable {caller : Caller}

theorem asCaller_bind (p : Task α) (f : α → Task β) :
    asCaller caller (p >>= f) = asCaller caller p >>= fun a => asCaller caller (f a) :=
  Program.relay_bind _ p f

theorem asCaller_asCaller (caller' : Caller) (p : Task α) :
    asCaller caller' (asCaller caller p) = asCaller caller' p := by
  induction p with
  | done a => rfl
  | ask d next ih => exact congrArg (Program.ask _) (funext ih)

end Task

/-! ## Messages that run nothing -/

/-- The message can be formatted, and runs nothing meanwhile. -/
def Message.IsStill (m : Message) : Prop :=
  ∀ fragment ∈ m, (∃ p, fragment = .piece p) ∨ fragment = .effect (.done .returned)

namespace Message

theorem IsPlain.isStill {m : Message} (plain : m.IsPlain) : m.IsStill :=
  fun fragment h => .inl (plain fragment h)

theorem isStill_ofPieces (ps : List Piece) : (ofPieces ps).IsStill :=
  (isPlain_ofPieces ps).isStill

theorem IsStill.append {m m' : Message} (h : m.IsStill) (h' : m'.IsStill) : IsStill (m ++ m') := by
  intro fragment hfragment
  rcases List.mem_append.mp hfragment with hm | hm'
  · exact h fragment hm
  · exact h' fragment hm'

theorem IsStill.cons {fragment : Fragment} {m : Message} (h : IsStill (fragment :: m)) :
    ((∃ p, fragment = .piece p) ∨ fragment = .effect (.done .returned)) ∧ m.IsStill :=
  List.forall_mem_cons.mp h

end Message

section Prints

variable {m : Message} {c : Channel} {caller : Caller}

theorem asCaller_printTo (c : Channel) (m : Message) :
    (Log.printTo m (some c)).asCaller caller =
      (Log.deliver c m).asCaller caller >>= fun formatting =>
        .ask ⟨caller, .endPrint c formatting⟩ .done :=
  Task.asCaller_bind (Log.deliver c m) fun formatting => Request.make (.endPrint c formatting)

theorem asCaller_deliver_piece (c : Channel) (p : Piece) (m : Message) :
    (Log.deliver c (.piece p :: m)).asCaller caller =
      .ask ⟨caller, .put c p⟩ fun taken =>
        if taken then (Log.deliver c m).asCaller caller else .done .refused := by
  refine congrArg (Program.ask _) (funext fun taken => ?_)
  cases taken <;> rfl

theorem asRunner_deliver (still : m.IsStill) :
    (Log.deliver c m).asCaller .runner = Log.deliver c m := by
  induction m with
  | nil => rfl
  | cons fragment rest ih =>
      obtain ⟨⟨p, rfl⟩ | rfl, hrest⟩ := still.cons
      · refine congrArg (Program.ask _) (funext fun taken => ?_)
        cases taken with
        | true => exact ih hrest
        | false => rfl
      · exact ih hrest

theorem asRunner_printTo (still : m.IsStill) :
    (Log.printTo m (some c)).asCaller .runner = Log.printTo m (some c) := by
  rw [asCaller_printTo, asRunner_deliver still]
  rfl

end Prints

/-! ## Prints on processes beside each other -/

namespace Session

variable {s s' : Session} {t : ThreadId} {m : Message} {c : Channel} {caller : Caller}

theorem run_deliver_file (still : m.IsStill) {h : Hosted} (hosted : s.platform = .hosted h) :
    ∃ formatting s₁, ((Log.deliver .file m).asCaller caller).run (perform t) s =
        .finished formatting s₁ ∧ (formatting = .complete ∨ formatting = .refused) ∧
      s.Beside s₁ := by
  induction m generalizing s h with
  | nil => exact ⟨.complete, s, rfl, .inl rfl, .same hosted⟩
  | cons fragment rest ih =>
      obtain ⟨⟨p, rfl⟩ | rfl, hrest⟩ := still.cons
      · have hput : s.Beside { s with platform := .hosted (h.put .file (s.spell p)).2 } :=
          .processes hosted (.put_file h _)
        have hreply : perform t ⟨caller, .put .file p⟩ s = .reply (h.put .file (s.spell p)).1
            { s with platform := .hosted (h.put .file (s.spell p)).2 } := by
          simp only [perform, performAs, hosted]
        rw [asCaller_deliver_piece, Program.run_ask_of_reply hreply]
        split
        · obtain ⟨formatting, s₁, hrun, hover, b⟩ := ih hrest (s := { s with
            platform := .hosted (h.put .file (s.spell p)).2 }) rfl
          exact ⟨formatting, s₁, hrun, hover, hput.trans b⟩
        · exact ⟨.refused, _, rfl, .inr rfl, hput⟩
      · exact ih hrest hosted

theorem run_deliver_elsewhere (still : m.IsStill) (hc : c ≠ .file) (b : s.Beside s') :
    ∃ s₁ s₁', ((Log.deliver c m).asCaller caller).run (perform t) s = .finished .complete s₁ ∧
      ((Log.deliver c m).asCaller caller).run (perform t) s' = .finished .complete s₁' ∧
      s₁.Beside s₁' := by
  induction m generalizing s s' with
  | nil => exact ⟨s, s', rfl, rfl, b⟩
  | cons fragment rest ih =>
      obtain ⟨⟨p, rfl⟩ | rfl, hrest⟩ := still.cons
      · obtain ⟨s₁, s₁', hput, hput', b₁⟩ := put_beside (caller.thread t) hc p b
        obtain ⟨s₂, s₂', hrun, hrun', b₂⟩ := ih hrest b₁
        have hreply : perform t ⟨caller, .put c p⟩ s = .reply true s₁ := hput
        have hreply' : perform t ⟨caller, .put c p⟩ s' = .reply true s₁' := hput'
        rw [asCaller_deliver_piece, Program.run_ask_of_reply hreply,
          Program.run_ask_of_reply hreply']
        exact ⟨s₂, s₂', hrun, hrun', b₂⟩
      · exact ih hrest b

theorem run_deliver_beside (t : ThreadId) (caller : Caller) (c : Channel) (still : m.IsStill)
    (b : s.Beside s') :
    ∃ formatting formatting' s₁ s₁',
      ((Log.deliver c m).asCaller caller).run (perform t) s = .finished formatting s₁ ∧
      ((Log.deliver c m).asCaller caller).run (perform t) s' = .finished formatting' s₁' ∧
      (formatting = .complete ∨ formatting = .refused) ∧
      (formatting' = .complete ∨ formatting' = .refused) ∧ s₁.Beside s₁' := by
  by_cases hc : c = .file
  · subst hc
    obtain ⟨h, hosted⟩ := b.symm.hosted
    obtain ⟨h', hosted'⟩ := b.hosted
    obtain ⟨formatting, s₁, hrun, hover, hfile⟩ := run_deliver_file still hosted
    obtain ⟨formatting', s₁', hrun', hover', hfile'⟩ := run_deliver_file still hosted'
    exact ⟨formatting, formatting', s₁, s₁', hrun, hrun', hover, hover',
      (hfile.symm.trans b).trans hfile'⟩
  · obtain ⟨s₁, s₁', hrun, hrun', b₁⟩ := run_deliver_elsewhere still hc b
    exact ⟨.complete, .complete, s₁, s₁', hrun, hrun', .inl rfl, .inl rfl, b₁⟩

theorem finishOf_returned {formatting : Formatting}
    (hover : formatting = .complete ∨ formatting = .refused) :
    s.finishOf formatting = .returned := by
  rcases hover with rfl | rfl <;> rfl

theorem beside_endPrint (t : ThreadId) (caller : Caller) (c : Channel) (b : s.Beside s')
    {formatting formatting' : Formatting}
    (hover : formatting = .complete ∨ formatting = .refused)
    (hover' : formatting' = .complete ∨ formatting' = .refused) :
    ∃ s₁ s₁', perform t ⟨caller, .endPrint c formatting⟩ s = .reply .returned s₁ ∧
      perform t ⟨caller, .endPrint c formatting'⟩ s' = .reply .returned s₁' ∧ s₁.Beside s₁' := by
  cases b with
  | processes hosted beside =>
      simp only [perform, performAs, hosted, finishOf_returned hover, finishOf_returned hover']
      have hafter := beside.setUsers c fun users => users.erase (caller.thread t)
      exact ⟨_, _, rfl, rfl, .processes rfl hafter⟩

theorem agrees_printTo (c : Channel) (still : m.IsStill) (b : s.Beside s') :
    (((Log.printTo m (some c)).asCaller caller).run (perform t) s).Agrees Beside
      (fun finish finish' => finish = .returned ∧ finish' = .returned) (fun _ => False)
      (((Log.printTo m (some c)).asCaller caller).run (perform t) s') := by
  rw [asCaller_printTo]
  obtain ⟨formatting, formatting', s₁, s₁', hrun, hrun', hover, hover', b₁⟩ :=
    run_deliver_beside t caller c still b
  obtain ⟨s₂, s₂', hend, hend', b₂⟩ := beside_endPrint t caller c b₁ hover hover'
  rw [Program.run_bind_of_finished hrun, Program.run_bind_of_finished hrun',
    Program.run_ask_of_reply hend, Program.run_ask_of_reply hend']
  exact .finished ⟨rfl, rfl⟩ b₂

end Session

/-! ## Steady tasks -/

/-- The task puts still messages only, touches the log file in no other way, and goes on alike
whatever the path of the file is; what it finishes with has this property. -/
inductive Steady (Q : α → Prop) : Task α → Prop where
  | done {a : α} (good : Q a) : Steady Q (.done a)
  | ask {d : Demand} {next : d.Reply → Task α} (untouched : d.request.touchesFile = false)
      (alike : ∀ answer answer', d.request.Alike answer answer' → next answer' = next answer)
      (rest : ∀ answer, d.request.Gives answer → Steady Q (next answer)) : Steady Q (.ask d next)
  | deliver {caller : Caller} {c : Channel} {m : Message} {f : Finish → Task α}
      (still : m.IsStill) (rest : Steady Q (f .returned)) :
      Steady Q ((Log.printTo m (some c)).asCaller caller >>= f)

namespace Steady

variable {P Q : α → Prop} {Q' : β → Prop} {p : Task α} {f : α → Task β}

/-- On processes beside each other a steady task comes to the same. -/
theorem agrees (steady : Steady Q p) {s s' : Session} (b : s.Beside s') (t : ThreadId) :
    (p.run (Session.perform t) s).Agrees Session.Beside (fun a a' => a' = a ∧ Q a) (Steady Q)
      (p.run (Session.perform t) s') := by
  induction steady generalizing s s' with
  | done good => exact .finished ⟨rfl, good⟩ b
  | ask untouched alike rest ih =>
      apply Program.agrees_ask (Session.performAs_beside b untouched) _ b
        (.ask untouched alike rest)
      intro answer answer' s₁ s₁' reply halike b₁
      rw [alike answer answer' halike]
      exact ih answer ⟨_, s, s₁, reply⟩ b₁
  | deliver still rest ih =>
      apply Program.agrees_bind (Session.agrees_printTo _ still b)
      · rintro _ _ s₁ s₁' ⟨rfl, rfl⟩ b₁
        exact ih b₁
      · exact fun _ => False.elim

theorem blind {d : Demand} {next : d.Reply → Task α} (blind : d.request.seesFile = false)
    (rest : ∀ answer, d.request.Gives answer → Steady Q (next answer)) :
    Steady Q (.ask d next) :=
  .ask (Request.touchesFile_of_blind blind)
    (fun _ _ alike => congrArg next (alike.eq_of_blind blind)) rest

theorem bind (first : Steady P p) (rest : ∀ a, P a → Steady Q' (f a)) : Steady Q' (p >>= f) := by
  induction first with
  | done good => exact rest _ good
  | ask untouched alike _ ih =>
      exact .ask untouched (fun answer answer' h => by rw [alike answer answer' h]) ih
  | deliver still _ ih =>
      rw [Program.bind_assoc]
      exact .deliver still ih

theorem andThen (first : Steady P p) (rest : ∀ a, Steady Q' (f a)) : Steady Q' (p >>= f) :=
  first.bind fun a _ => rest a

theorem ite {c : Prop} [Decidable c] {p q : Task α} (hp : Steady Q p) (hq : Steady Q q) :
    Steady Q (if c then p else q) := by
  split
  · exact hp
  · exact hq

theorem asCaller (steady : Steady Q p) (caller : Caller) : Steady Q (p.asCaller caller) := by
  induction steady with
  | done good => exact .done good
  | @ask d next untouched alike rest ih =>
      have halike (answer answer' : d.Reply) (h : d.request.Alike answer answer') :
          (next answer').asCaller caller = (next answer).asCaller caller := by
        rw [alike answer answer' h]
      exact .ask untouched halike ih
  | deliver still rest ih =>
      rw [Task.asCaller_bind, Task.asCaller_asCaller]
      exact .deliver still ih

theorem make {r : Request} (blind : r.seesFile = false) : Steady r.Gives (Request.make r) :=
  .blind blind fun _ gives => .done gives

theorem takeChannel (urgency : Urgency) (c : Channel) :
    Steady (fun _ => True) (Log.takeChannel urgency c) := by
  unfold Log.takeChannel
  refine .ite ?_ ?_
  · refine .blind rfl fun taken _ => ?_
    cases taken with
    | true => exact .done trivial
    | false => exact .blind rfl fun _ _ => .done trivial
  · exact .blind rfl fun _ _ => .done trivial

theorem takeOutlet (urgency : Urgency) (outlet : Outlet) :
    Steady (fun _ => True) (Log.takeOutlet urgency outlet) := by
  unfold Log.takeOutlet
  cases outlet.channel? with
  | none => exact .done trivial
  | some c => exact (takeChannel urgency c).andThen fun _ => .done trivial

theorem beginPatient : Steady (fun _ => True) Log.beginPatient := by
  refine .ask rfl ?_ fun outlet _ => takeOutlet .patient outlet
  rintro _ _ (_ | _)
  · rfl
  · rfl

theorem beginPrint (urgency : Urgency) : Steady (fun _ => True) (Log.beginPrint urgency) := by
  cases urgency with
  | patient => exact beginPatient
  | urgent =>
      refine .ask rfl ?_ fun outlet _ => .ite beginPatient (takeOutlet .urgent outlet)
      rintro _ _ (_ | _)
      · rfl
      · rfl

theorem printWith (urgency : Urgency) {m : Message} (still : m.IsStill) :
    Steady (· = .returned) (Log.printWith urgency m) := by
  refine (beginPrint urgency).andThen fun destination => ?_
  cases destination with
  | none => exact .done rfl
  | some c =>
      have hprint : Steady (· = .returned)
          ((Log.printTo m (some c)).asCaller .runner >>= .done) :=
        .deliver still (.done rfl)
      rwa [Program.bind_done, asRunner_printTo still] at hprint

theorem flush : Steady (fun _ => True) Log.flush := by
  refine .ask rfl ?_ fun sink _ => ?_
  · rintro _ _ (_ | _)
    · rfl
    · rfl
  · cases sink with
    | none => exact .done trivial
    | some sink => exact .blind rfl fun _ _ => .done trivial

theorem flushUrgent : Steady (fun _ => True) Log.flushUrgent := by
  refine .ask rfl ?_ fun sink _ => ?_
  · rintro _ _ (_ | _)
    · rfl
    · rfl
  · cases sink with
    | none => exact .done trivial
    | some sink => exact .ite (.blind rfl fun _ _ => .done trivial) flush

theorem silent (steady : Steady P p) : Steady (· ≠ some .panic) (DiagnosticLog.silent p) :=
  steady.andThen fun _ => .done nofun

theorem answers {p : Task Finish} (steady : Steady (· = .returned) p) :
    Steady (· ≠ some .panic) (do return Answer.ofFinish (← p)) := by
  apply steady.bind
  rintro _ rfl
  exact .done nofun

end Steady

end DiagnosticLog
