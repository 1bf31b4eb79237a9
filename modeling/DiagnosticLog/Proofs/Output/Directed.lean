import DiagnosticLog.Proofs.Output.Laws
import DiagnosticLog.Proofs.Output.Nesting

/-!
# Where pieces are put

A task puts its pieces only to the channel of a print that it has begun.  So as long as all prints
that begin are sent to one channel, every step keeps to that channel (`Step.keepsTo`), the threads
of a contention included.
-/

namespace DiagnosticLog

variable {α β : Type}

namespace Request

/-- The request is about the channel, if it is about any that prints go to.  Only the writer of a
file is tried. -/
def PutsTo (c : Channel) : Request → Prop
  | .takeChannel d => d = c
  | .tryTakeChannel d => d = .file ∧ d = c
  | .put d _ => d = c
  | _ => True

/-- A print that begins is sent to the channel, and is not turned away from it. -/
def SendsTo (c : Channel) : (r : Request) → r.Reply → Prop
  | .beginPrint _, outlet => ∀ d ∈ outlet.channel?, d = c
  | .tryTakeChannel _, taken => taken = true
  | _, _ => True

variable {c : Channel} {r : Request} {o : List Begun}

theorem Fits.putsTo (fits : r.Fits o) (only : ∀ print ∈ o, print.channel = c) : r.PutsTo c := by
  cases r with
  | takeChannel d => exact only ⟨d, false⟩ (List.mem_of_head? fits)
  | tryTakeChannel d => exact ⟨fits.1, only ⟨d, false⟩ (List.mem_of_head? fits.2)⟩
  | put d piece => exact only ⟨d, true⟩ (List.mem_of_head? fits)
  | _ => trivial

theorem SendsTo.opens {reply : r.Reply} (sends : r.SendsTo c reply)
    (only : ∀ print ∈ o, print.channel = c) : ∀ print ∈ r.opens reply o, print.channel = c := by
  cases r with
  | beginPrint urgency =>
      intro print hprint
      rcases List.mem_append.mp hprint with hnew | hold
      · have hbegun := Option.mem_toList.mp hnew
        unfold Outlet.begun at hbegun
        split at hbegun
        · cases hbegun
        · obtain ⟨d, hd, rfl⟩ := Option.map_eq_some_iff.mp hbegun
          exact sends d hd
      · exact only print hold
  | takeChannel d => exact Begun.forall_mem_modifyHead (f := Begun.taken) (fun _ => id) only
  | tryTakeChannel d =>
      obtain rfl : reply = true := sends
      exact Begun.forall_mem_modifyHead (f := Begun.taken) (fun _ => id) only
  | endPrint e formatting => exact fun print hprint => only print (List.mem_of_mem_tail hprint)
  | _ => exact only

end Request

/-- As long as its prints are sent to the channel, the task puts pieces nowhere else; it finishes
with good results only. -/
def KeepsTo (c : Channel) (good : α → Prop) : Task α → Prop
  | .done a => good a
  | .ask d next =>
      d.request.PutsTo c ∧ ∀ reply, d.request.SendsTo c reply → KeepsTo c good (next reply)

namespace KeepsTo

variable {c : Channel} {good : α → Prop} {good' : β → Prop} {p : Task α} {f : α → Task β}

theorem bind (hp : KeepsTo c good p) (hf : ∀ a, good a → KeepsTo c good' (f a)) :
    KeepsTo c good' (p >>= f) := by
  induction p with
  | done a => exact hf a hp
  | ask d next ih => exact ⟨hp.1, fun reply sends => ih reply (hp.2 reply sends)⟩

theorem of_nests {base o : List Begun} (nests : Nests base p o)
    (only : ∀ print ∈ o, print.channel = c) (h : ∀ a, good a) : KeepsTo c good p := by
  induction p generalizing o with
  | done a => exact h a
  | ask d next ih =>
      obtain ⟨-, fits, hnext⟩ := nests
      exact ⟨fits.putsTo only, fun reply sends => ih reply (hnext reply) (sends.opens only)⟩

theorem of_beginsAt {p : Task (Option Channel)} {o : List Begun} (begins : BeginsAt [] p o)
    (only : ∀ print ∈ o, print.channel = c) : KeepsTo c (fun d => ∀ e ∈ d, e = c) p := by
  induction p generalizing o with
  | done destination =>
      intro d hd
      have ho : o = (destination.map fun c => ⟨c, true⟩).toList ++ [] := begins
      refine only ⟨d, true⟩ ?_
      rw [ho, List.append_nil, Option.mem_toList]
      exact Option.mem_map_of_mem _ hd
  | ask d next ih =>
      obtain ⟨-, fits, hnext⟩ := begins
      exact ⟨fits.putsTo only, fun reply sends => ih reply (hnext reply) (sends.opens only)⟩

theorem asStarted (thread : Nat) (hp : KeepsTo c good p) : KeepsTo c good (p.asStarted thread) := by
  induction p with
  | done a => exact hp
  | ask d next ih => exact ⟨hp.1, fun reply sends => ih reply (hp.2 reply sends)⟩

theorem upTo (stops : Demand → Bool) (hp : KeepsTo c good p) :
    KeepsTo c (KeepsTo c good) (p.upTo stops) := by
  induction p with
  | done a => exact hp
  | ask d next ih =>
      unfold Program.upTo
      split
      · exact hp
      · exact ⟨hp.1, fun reply sends => ih reply (hp.2 reply sends)⟩

end KeepsTo

section Prints

variable {c : Channel} {m : Message}
  (effects : ∀ task, Fragment.effect task ∈ m → KeepsTo c (fun f => f = .unwound → True) task)
include effects

theorem keepsTo_deliver : KeepsTo c (fun _ => True) (Log.deliver c m) := by
  induction m with
  | nil => trivial
  | cons fragment rest ih =>
      have hrest := ih fun task htask => effects task (List.mem_cons_of_mem _ htask)
      cases fragment with
      | piece p =>
          refine ⟨rfl, fun taken _ => ?_⟩
          cases taken with
          | true => exact hrest
          | false => trivial
      | effect task =>
          refine (effects task (List.mem_cons_self ..)).bind fun finish _ => ?_
          cases finish with
          | returned => exact hrest
          | unwound => trivial
      | fault => trivial

theorem keepsTo_printWith (urgency : Urgency) :
    KeepsTo c (fun f => f = .unwound → True) (Log.printWith urgency m) := by
  refine KeepsTo.bind (KeepsTo.of_beginsAt (beginsAt_beginPrint urgency []) nofun) ?_
  intro destination only
  cases destination with
  | none => exact fun _ => trivial
  | some d =>
      obtain rfl : d = c := only d rfl
      exact (keepsTo_deliver effects).bind fun _ _ => ⟨trivial, fun _ _ _ => trivial⟩

end Prints

def TaskLaw.directed (c : Channel) : TaskLaw where
  Holds := KeepsTo c
  unwinding := True
  done h := h
  bind := .bind
  composed h := .of_nests (h.balanced []) nofun fun _ _ => trivial
  printWith := keepsTo_printWith

def StepLaw.directed (c : Channel) : StepLaw where
  toTaskLaw := TaskLaw.directed c
  contention :=
    TaskLaw.contention (fun thread _ => .asStarted thread) fun _ => .upTo Contention.takesLock

theorem Step.keepsTo (c : Channel) (step : Step) :
    KeepsTo c (fun answer => answer = some .panic → True) step.task :=
  (StepLaw.directed c).step step

end DiagnosticLog
