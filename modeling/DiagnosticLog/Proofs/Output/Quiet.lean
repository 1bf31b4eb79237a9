import DiagnosticLog.Proofs.Output.Laws
import DiagnosticLog.Proofs.Output.Unwinding
import DiagnosticLog.Proofs.Statement.Release

/-!
# Guests are not unwound

In a guest a fragment that cannot be formatted cuts its print short, and nothing else: no step of a
script is unwound there, whatever runs in the middle of its messages (`Step.quiet`).
-/

namespace DiagnosticLog

open Program (Reaches)

variable {α β : Type}

/-- With answers that guests give, the task finishes with good results only. -/
def Quiet (good : α → Prop) (p : Task α) : Prop :=
  ∀ xs a, Answered (fun s => s.mode = .guest) xs → Reaches p xs (.done a) → good a

namespace Quiet

variable {good : α → Prop} {good' : β → Prop} {p : Task α} {f : α → Task β}

theorem done {a : α} (h : good a) : Quiet good (.done a) := by
  intro xs b _ reaches
  cases reaches
  exact h

theorem bind (first : Quiet good p) (rest : ∀ a, good a → Quiet good' (f a)) :
    Quiet good' (p >>= f) := by
  intro xs b answered reaches
  obtain ⟨a, ys, zs, rfl, hys, hzs⟩ := Program.reaches_bind_done reaches
  have ha := first ys a (answered.mono (List.subset_append_left ..)) hys
  exact rest a ha zs b (answered.mono (List.subset_append_right ..)) hzs

theorem any (p : Task α) : Quiet (fun _ => True) p :=
  fun _ _ _ _ => trivial

end Quiet

theorem Composed.quiet {unwinds : α → Prop} {p : Task α} (h : Composed unwinds p) :
    Quiet (fun a => ¬ unwinds a) p := by
  intro xs a answered reaches unwound
  obtain ⟨c, hfault⟩ := (h.tells answered reaches).fault unwound
  obtain ⟨s, guest, process⟩ := answered.process_of_fault hfault
  rw [Session.mode_of_process process] at guest
  cases guest

section Prints

variable {m : Message} (effects : ∀ task, Fragment.effect task ∈ m → Quiet (· ≠ .unwound) task)
include effects

theorem quiet_deliver (c : Channel) : Quiet (· ≠ .unwound) (Log.deliver c m) := by
  induction m with
  | nil => exact .done nofun
  | cons fragment rest ih =>
      have hrest := ih fun task htask => effects task (List.mem_cons_of_mem _ htask)
      cases fragment with
      | piece p =>
          refine (Quiet.any (Request.make (.put c p))).bind ?_
          intro taken _
          cases taken with
          | true => exact hrest
          | false => exact .done nofun
      | effect task =>
          refine (effects task (List.mem_cons_self ..)).bind ?_
          intro finish quiet
          cases finish with
          | returned => exact hrest
          | unwound => exact absurd rfl quiet
      | fault => exact .done nofun

theorem quiet_printWith (urgency : Urgency) :
    Quiet (· ≠ .unwound) (Log.printWith urgency m) := by
  rintro xs _ answered reaches rfl
  rcases reaches_printWith_done reaches with ⟨-, hreturned⟩ | ⟨c, formatting, ws, ys, -, hys, rfl⟩
  · cases hreturned
  · have hdelivered : formatting ≠ .unwound :=
      quiet_deliver effects c ys formatting (answered.mono (by simp)) hys
    have hlast : (Request.endPrint c formatting).talk .unwound ∈
        ws ++ (ys ++ [(Request.endPrint c formatting).talk .unwound]) := by simp
    rcases answered.finish_endPrint hlast with
      ⟨hreturned, -⟩ | ⟨-, -, s, guest, process⟩ | ⟨-, hunwound⟩
    · cases hreturned
    · rw [Session.mode_of_process process] at guest
      cases guest
    · exact absurd hunwound hdelivered

end Prints

def StepLaw.quiet : StepLaw where
  Holds := Quiet
  unwinding := False
  done := .done
  bind := .bind
  composed := Composed.quiet
  printWith := quiet_printWith
  contention _ _ _ := .any _

theorem Step.quiet (step : Step) : Quiet (· ≠ some .panic) step.task :=
  StepLaw.quiet.step step

end DiagnosticLog
