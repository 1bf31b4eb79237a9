import DiagnosticLog.Proofs.Output.Choosing
import DiagnosticLog.Proofs.Output.Composed
import DiagnosticLog.Proofs.Session.WayOut

/-!
# Unwinding

Other threads may do anything between two requests of a task, and all that is taken to be known of
the answers is that some session gave each of them.  That is enough to tell whether a task has been
unwound: an unwinding begins where a fragment of a message cannot be formatted, in a process, and it
is not stopped until the whole task is done.
-/

namespace DiagnosticLog

open Program (Reaches)

variable {α : Type}

def Answered (P : Session → Prop) (xs : List Talk) : Prop :=
  ∀ talk ∈ xs, ∃ t s s', P s ∧
    Session.performAs t talk.request.request s = .reply talk.answer s'

def Given (way : WayOut) (xs : List Talk) : Prop :=
  ∀ talk ∈ xs, ∃ t s s', s.wayOut = some way ∧
    Session.performAs t talk.request.request s = .reply talk.answer s'

namespace Answered

variable {P : Session → Prop} {xs ys : List Talk}

theorem mono (answered : Answered P xs) (h : ys ⊆ xs) : Answered P ys :=
  fun talk htalk => answered talk (h htalk)

theorem append (answered : Answered P xs) (answered' : Answered P ys) : Answered P (xs ++ ys) := by
  intro talk htalk
  rcases List.mem_append.mp htalk with hx | hy
  · exact answered talk hx
  · exact answered' talk hy

theorem finish_endPrint (answered : Answered P xs) {c : Channel} {formatting : Formatting}
    {finish : Finish} (h : (Request.endPrint c formatting).talk finish ∈ xs) :
    (finish = .returned ∧ formatting ≠ .unwound) ∨
      (finish = .unwound ∧ formatting = .fault ∧ ∃ s, P s ∧ s.wayOut = some .process) ∨
      (finish = .unwound ∧ formatting = .unwound) := by
  obtain ⟨t, s, s', hs, hreply⟩ := answered _ h
  refine (Session.finish_of_reply hreply).imp_right (Or.imp_left ?_)
  rintro ⟨hfinish, hfault, hprocess⟩
  exact ⟨hfinish, hfault, s, hs, hprocess⟩

theorem process_of_fault (answered : Answered P xs) {c : Channel}
    (fault : (Request.endPrint c .fault).talk .unwound ∈ xs) :
    ∃ s, P s ∧ s.wayOut = some .process := by
  rcases answered.finish_endPrint fault with ⟨hreturned, -⟩ | ⟨-, -, hprocess⟩ | ⟨-, hunwound⟩
  · cases hreturned
  · exact hprocess
  · cases hunwound

end Answered

namespace Given

variable {way : WayOut} {xs : List Talk}

theorem answered (given : Given way xs) : Answered (fun s => s.wayOut = some way) xs :=
  given

theorem process_of_fault (given : Given way xs) {c : Channel}
    (fault : (Request.endPrint c .fault).talk .unwound ∈ xs) : way = .process := by
  obtain ⟨s, hway, hprocess⟩ := given.answered.process_of_fault fault
  exact Option.some.inj (hway.symm.trans hprocess)

end Given

def Talk.isUnwinding : Talk → Bool
  | ⟨⟨_, .endPrint _ _⟩, finish⟩ => finish = .unwound
  | _ => false

/-- The exchanges tell whether there has been an unwinding: it begins at a fragment that cannot be
formatted. -/
def Tells (unwound : Prop) (xs : List Talk) : Prop :=
  (unwound ∧ ∃ c, (Request.endPrint c .fault).talk .unwound ∈ xs) ∨
    (¬ unwound ∧ ∀ talk ∈ xs, Talk.isUnwinding talk = false)

namespace Tells

variable {unwound : Prop} {xs ys : List Talk}

theorem quiet (tells : Tells unwound xs) (h : ¬ unwound) :
    ∀ talk ∈ xs, Talk.isUnwinding talk = false := by
  rcases tells with ⟨hunwound, -⟩ | ⟨-, hquiet⟩
  · exact absurd hunwound h
  · exact hquiet

theorem fault (tells : Tells unwound xs) (h : unwound) :
    ∃ c, (Request.endPrint c .fault).talk .unwound ∈ xs := by
  rcases tells with ⟨-, hfault⟩ | ⟨hreturned, -⟩
  · exact hfault
  · exact absurd h hreturned

theorem append (tells : Tells unwound ys) (h : ∀ talk ∈ xs, Talk.isUnwinding talk = false) :
    Tells unwound (xs ++ ys) := by
  rcases tells with ⟨hunwound, c, hc⟩ | ⟨hreturned, hquiet⟩
  · exact .inl ⟨hunwound, c, List.mem_append_right _ hc⟩
  · refine .inr ⟨hreturned, fun talk htalk => ?_⟩
    rcases List.mem_append.mp htalk with hx | hy
    · exact h talk hx
    · exact hquiet talk hy

theorem of_fault (h : unwound) {c : Channel}
    (hc : (Request.endPrint c .fault).talk .unwound ∈ xs) : Tells unwound xs :=
  .inl ⟨h, c, hc⟩

end Tells

section Unwinding

variable {P : Session → Prop} {m : Message} {xs : List Talk} {c : Channel} {urgency : Urgency}

/-- Formatting is unwound by a task in the middle of the message only; a fragment that cannot be
formatted just stops it. -/
theorem tells_of_deliver
    (effects : ∀ task, Fragment.effect task ∈ m → ∀ {ys : List Talk} {finish : Finish},
      Answered P ys → Reaches task ys (.done finish) → Tells (finish = .unwound) ys)
    (answered : Answered P xs) {formatting : Formatting}
    (h : Reaches (Log.deliver c m) xs (.done formatting)) :
    Tells (formatting = .unwound) xs := by
  induction m generalizing xs with
  | nil =>
      cases h
      exact .inr ⟨by simp, List.forall_mem_nil _⟩
  | cons fragment rest ih =>
      have ih := fun {xs} => @ih xs fun task htask => effects task (List.mem_cons_of_mem _ htask)
      cases fragment with
      | piece p =>
          cases h with
          | @cons _ _ taken xs _ after =>
              have hput : ∀ talk ∈ [(Request.put c p).talk taken],
                  Talk.isUnwinding talk = false := by
                intro talk htalk
                rw [List.mem_singleton.mp htalk]
                rfl
              cases taken with
              | true => exact (ih (answered.mono (List.subset_cons_self ..)) after).append hput
              | false =>
                  cases after
                  exact .inr ⟨by simp, hput⟩
      | effect task =>
          obtain ⟨finish, ys, zs, rfl, hys, hzs⟩ := Program.reaches_bind_done h
          have htask := effects task (List.mem_cons_self ..)
            (answered.mono (List.subset_append_left ..)) hys
          cases finish with
          | returned =>
              have hrest := ih (answered.mono (List.subset_append_right ..)) hzs
              exact hrest.append (htask.quiet (by simp))
          | unwound =>
              cases hzs
              obtain ⟨c, hc⟩ := htask.fault rfl
              exact .of_fault rfl (List.mem_append_left _ hc)
      | fault =>
          cases h
          exact .inr ⟨by simp, List.forall_mem_nil _⟩

theorem Beginning.quiet {q : Task (Option Channel)} (h : Beginning urgency xs q) :
    ∀ talk ∈ xs, Talk.isUnwinding talk = false := by
  induction h with
  | before => exact List.forall_mem_nil _
  | again rest ih => exact List.forall_mem_cons.mpr ⟨rfl, ih⟩
  | nowhere missing => exact List.forall_mem_cons.mpr ⟨rfl, List.forall_mem_nil _⟩
  | found leads chosen taking =>
      refine List.forall_mem_cons.mpr ⟨rfl, ?_⟩
      cases taking <;> simp [Talk.isUnwinding, Request.talk]

theorem tells_of_printWith
    (effects : ∀ task, Fragment.effect task ∈ m → ∀ {ys : List Talk} {finish : Finish},
      Answered P ys → Reaches task ys (.done finish) → Tells (finish = .unwound) ys)
    (answered : Answered P xs) {finish : Finish}
    (h : Reaches (Log.printWith urgency m) xs (.done finish)) :
    Tells (finish = .unwound) xs := by
  rcases reaches_printWith_done h with ⟨begun, rfl⟩ | ⟨c, formatting, ws, ys, begun, hys, rfl⟩
  · exact .inr ⟨by simp, begun.quiet⟩
  · have hsub : ys ⊆ ws ++ (ys ++ [(Request.endPrint c formatting).talk finish]) :=
      List.subset_append_of_subset_right _ (List.subset_append_left ..)
    have hdeliver := tells_of_deliver effects (answered.mono hsub) hys
    have hlast : (Request.endPrint c formatting).talk finish ∈
        ws ++ (ys ++ [(Request.endPrint c formatting).talk finish]) := by simp
    rcases answered.finish_endPrint hlast with ⟨rfl, hne⟩ | ⟨rfl, rfl, -⟩ | ⟨rfl, rfl⟩
    · refine .inr ⟨by simp, ?_⟩
      simp only [List.forall_mem_cons, List.forall_mem_append]
      exact ⟨begun.quiet, hdeliver.quiet hne, rfl, List.forall_mem_nil _⟩
    · exact .of_fault rfl hlast
    · obtain ⟨d, hd⟩ := hdeliver.fault rfl
      exact .of_fault rfl (hsub hd)

theorem formatting_of_isPlain (plain : m.IsPlain) {formatting : Formatting}
    (h : Reaches (Log.deliver c m) xs (.done formatting)) :
    formatting = .complete ∨ formatting = .refused := by
  induction m generalizing xs with
  | nil =>
      cases h
      exact .inl rfl
  | cons fragment rest ih =>
      obtain ⟨p, rfl⟩ := plain fragment (List.mem_cons_self ..)
      cases h with
      | @cons _ _ taken xs _ after =>
          cases taken with
          | true => exact ih (fun fragment h => plain fragment (List.mem_cons_of_mem _ h)) after
          | false =>
              cases after
              exact .inr rfl

theorem returned_of_isPlain (plain : m.IsPlain) (answered : Answered P xs) {finish : Finish}
    (h : Reaches (Log.printWith urgency m) xs (.done finish)) : finish = .returned := by
  rcases reaches_printWith_done h with ⟨-, rfl⟩ | ⟨c, formatting, ws, ys, -, hys, rfl⟩
  · rfl
  · have hformatting := formatting_of_isPlain plain hys
    have hlast : (Request.endPrint c formatting).talk finish ∈
        ws ++ (ys ++ [(Request.endPrint c formatting).talk finish]) := by simp
    rcases answered.finish_endPrint hlast with ⟨rfl, -⟩ | ⟨-, rfl, -⟩ | ⟨-, rfl⟩
    · rfl
    · simp at hformatting
    · simp at hformatting

/-- The result of a task says whether it has been unwound, and so do its exchanges. -/
theorem Composed.tells {unwinds : α → Prop} {p : Task α} (h : Composed unwinds p)
    (answered : Answered P xs) {a : α} (reaches : Reaches p xs (.done a)) :
    Tells (unwinds a) xs := by
  induction h generalizing xs with
  | done returns =>
      cases reaches
      exact .inr ⟨returns, List.forall_mem_nil _⟩
  | @request r unwinds plain goesOn returns =>
      cases reaches with
      | @cons _ _ answer _ _ after =>
          cases after
          obtain ⟨t, s, s', -, hreply⟩ := answered _ (List.mem_singleton_self _)
          refine .inr ⟨returns a ⟨t, s, s', hreply⟩, fun talk htalk => ?_⟩
          rw [List.mem_singleton.mp htalk]
          cases r <;> first | rfl | cases plain
  | print effects ih =>
      exact tells_of_printWith
        (fun task htask _ _ answered reaches => ih task htask answered reaches) answered reaches
  | @pieces urgency m plain =>
      have hreturned := returned_of_isPlain plain answered reaches
      have htells := tells_of_printWith
        (fun task htask => absurd htask (plain.effect_not_mem task)) answered reaches
      exact .inr ⟨id, htells.quiet (by simp [hreturned])⟩
  | choice =>
      refine .inr ⟨id, fun talk htalk => ?_⟩
      cases reaches_tryOpenStream_iff.mp reaches <;>
      · simp only [List.mem_cons, List.not_mem_nil, or_false] at htalk
        rcases htalk with rfl | rfl | rfl <;> rfl
  | registration =>
      refine .inr ⟨id, fun talk htalk => ?_⟩
      cases reaches_registerLogger_iff.mp reaches <;>
      · simp only [List.mem_cons, List.not_mem_nil, or_false] at htalk
        rcases htalk with rfl | rfl <;> rfl
  | final words returns ih =>
      obtain ⟨finish, ys, zs, rfl, hys, hzs⟩ := Program.reaches_bind_done reaches
      obtain ⟨rfl, rfl, rfl⟩ := FinalCall.reaches_close_done hzs
      rw [List.append_nil] at answered ⊢
      exact ih answered hys
  | @bind α β p f unwinds unwinds' first rest unwinding unwound ihFirst ihRest ihUnwinding =>
      obtain ⟨b, ys, zs, rfl, hys, hzs⟩ := Program.reaches_bind_done reaches
      have hfirst := ihFirst (answered.mono (List.subset_append_left ..)) hys
      by_cases hb : unwinds b
      -- the second part cannot make up for it
      · obtain ⟨c, hc⟩ := hfirst.fault hb
        exact .of_fault (unwound b hb zs a hzs) (List.mem_append_left _ hc)
      · have hrest := ihRest b hb (answered.mono (List.subset_append_right ..)) hzs
        exact hrest.append (hfirst.quiet hb)

end Unwinding

end DiagnosticLog
