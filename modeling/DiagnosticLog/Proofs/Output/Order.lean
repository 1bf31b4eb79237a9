import DiagnosticLog.Proofs.Output.Choosing
import DiagnosticLog.Proofs.Output.Laws
import DiagnosticLog.Proofs.Output.Nesting

/-!
# Choices are made in order

A choice of the sink runs nothing else in its middle, nor does a registration of the logger.  So a
thread opens a sink only right after it has been told that none has been chosen, it sets the log up
only right after it has opened one, and it has the global logger let records through only right
after it has registered the log, whatever step it runs (`Step.inOrder`).
-/

namespace DiagnosticLog

open Program (Reaches)

variable {α β : Type}

/-- The demand may follow the last exchange of its thread, if there was one. -/
def Demand.Follows (last : Option Talk) : Demand → Prop
  | ⟨caller, .openSink _⟩ => last = some ⟨⟨caller, .currentSink⟩, some .unresolved⟩
  | ⟨caller, .publishSink⟩ => ∃ path, last = some ⟨⟨caller, .openSink path⟩, .ok ()⟩
  | ⟨caller, .setMaxLevel level⟩ =>
      level = .trace ∧ last = some ⟨⟨caller, .registerLogger⟩, true⟩
  | _ => True

theorem Demand.follows_of_none {d : Demand} (h : d.Follows none) (last : Option Talk) :
    d.Follows last := by
  obtain ⟨caller, r⟩ := d
  cases r with
  | openSink path => cases h
  | publishSink =>
      obtain ⟨path, hpath⟩ := h
      cases hpath
  | setMaxLevel level => cases h.2
  | _ => trivial

/-- After this last exchange of its thread, the task chooses in order; it finishes with good results
only. -/
def InOrder (good : α → Prop) : Option Talk → Task α → Prop
  | _, .done a => good a
  | last, .ask d next =>
      d.Follows last ∧ ∀ answer, InOrder good (some ⟨d, answer⟩) (next answer)

namespace InOrder

variable {good : α → Prop} {good' : β → Prop} {p q : Task α} {f : α → Task β}
  {last : Option Talk}

theorem anywhere (h : InOrder good none p) (last : Option Talk) : InOrder good last p := by
  cases p with
  | done a => exact h
  | ask d next => exact ⟨Demand.follows_of_none h.1 last, h.2⟩

theorem ask {d : Demand} {next : d.Reply → Task α} (first : d.Follows none)
    (rest : ∀ answer, InOrder good none (next answer)) : InOrder good none (.ask d next) :=
  ⟨first, fun answer => (rest answer).anywhere _⟩

theorem bind (first : InOrder good last p) (rest : ∀ a, good a → InOrder good' none (f a)) :
    InOrder good' last (p >>= f) := by
  induction p generalizing last with
  | done a => exact (rest a first).anywhere last
  | ask d next ih => exact ⟨first.1, fun answer => ih answer (first.2 answer)⟩

theorem mono {good' : α → Prop} (h : InOrder good last p) (weaker : ∀ a, good a → good' a) :
    InOrder good' last p := by
  induction p generalizing last with
  | done a => exact weaker a h
  | ask d next ih => exact ⟨h.1, fun answer => ih answer (h.2 answer)⟩

theorem upTo (h : InOrder good last p) :
    InOrder (InOrder good none) last (p.upTo Contention.takesLock) := by
  induction p generalizing last with
  | done a => exact h
  | ask d next ih =>
      unfold Program.upTo
      split
      · rename_i takes
        -- whoever takes the lock has finished all choices before
        refine ⟨?_, h.2⟩
        obtain ⟨caller, r⟩ := d
        cases r <;> trivial
      · exact ⟨h.1, fun answer => ih answer (h.2 answer)⟩

theorem asStarted (thread : Nat) (h : InOrder good last p) :
    InOrder good (last.map fun talk => ⟨⟨.started thread, talk.request.request⟩, talk.answer⟩)
      (p.asStarted thread) := by
  induction p generalizing last with
  | done a => exact h
  | ask d next ih =>
      refine ⟨?_, fun answer => ih answer (h.2 answer)⟩
      have hfollows := h.1
      obtain ⟨caller, r⟩ := d
      cases r with
      | openSink path =>
          obtain rfl : last = _ := hfollows
          rfl
      | publishSink =>
          obtain ⟨path, rfl⟩ : ∃ path, last = _ := hfollows
          exact ⟨path, rfl⟩
      | setMaxLevel level =>
          obtain ⟨rfl, rfl⟩ : _ ∧ last = _ := hfollows
          exact ⟨rfl, rfl⟩
      | _ => trivial

theorem follows {xs : List Talk} {d : Demand} {next : d.Reply → Task α} (h : InOrder good last p)
    (reaches : Reaches p xs (.ask d next)) : d.Follows (xs.getLast?.or last) := by
  induction p generalizing last xs with
  | done a => cases reaches
  | ask e more ih =>
      cases reaches with
      | nil => exact h.1
      | @cons _ _ answer xs _ rest =>
          have hfollows := ih answer (h.2 answer) rest
          rw [List.getLast?_cons]
          cases hlast : xs.getLast? with
          | none =>
              rw [hlast] at hfollows
              exact hfollows
          | some talk =>
              rw [hlast] at hfollows
              exact hfollows

end InOrder

/-! ## Prints -/

abbrev ChoosesInOrder (p : Task α) : Prop :=
  InOrder (fun _ => True) none p

theorem inOrder_takeOutlet (urgency : Urgency) (outlet : Outlet) :
    ChoosesInOrder (Log.takeOutlet urgency outlet) := by
  unfold Log.takeOutlet
  cases outlet.channel? with
  | none => trivial
  | some c =>
      have htake : ChoosesInOrder (Log.takeChannel urgency c) := by
        unfold Log.takeChannel
        split
        · refine .ask trivial fun taken => ?_
          cases taken with
          | true => trivial
          | false => exact .ask trivial fun _ => trivial
        · exact .ask trivial fun _ => trivial
      exact htake.bind fun _ _ => trivial

theorem inOrder_beginPrint (urgency : Urgency) : ChoosesInOrder (Log.beginPrint urgency) := by
  have hpatient : ChoosesInOrder Log.beginPatient :=
    .ask trivial fun outlet => inOrder_takeOutlet .patient outlet
  cases urgency with
  | patient => exact hpatient
  | urgent =>
      refine .ask trivial fun outlet => ?_
      show ChoosesInOrder (if outlet = .sink .unresolved then Log.beginPatient
        else Log.takeOutlet .urgent outlet)
      split
      · exact hpatient
      · exact inOrder_takeOutlet .urgent outlet

section Prints

variable {m : Message} (effects : ∀ task, Fragment.effect task ∈ m → ChoosesInOrder task)
include effects

theorem inOrder_deliver (c : Channel) : ChoosesInOrder (Log.deliver c m) := by
  induction m with
  | nil => trivial
  | cons fragment rest ih =>
      have hrest := ih fun task htask => effects task (List.mem_cons_of_mem _ htask)
      cases fragment with
      | piece p =>
          refine .ask trivial fun taken => ?_
          cases taken with
          | true => exact hrest
          | false => trivial
      | effect task =>
          refine (effects task (List.mem_cons_self ..)).bind fun finish _ => ?_
          cases finish with
          | returned => exact hrest
          | unwound => trivial
      | fault => trivial

theorem inOrder_printWith (urgency : Urgency) : ChoosesInOrder (Log.printWith urgency m) := by
  refine (inOrder_beginPrint urgency).bind fun destination _ => ?_
  cases destination with
  | none => trivial
  | some c => exact (inOrder_deliver effects c).bind fun _ _ => .ask trivial fun _ => trivial

end Prints

/-! ## Steps -/

theorem inOrder_tryOpenStream (path : Option Bytes) : ChoosesInOrder (Log.tryOpenStream path) := by
  refine ⟨trivial, fun sink => ?_⟩
  match sink with
  | none => trivial
  | some .standardOut | some .standardError | some (.file _) => trivial
  | some .unresolved =>
      refine ⟨rfl, fun opened => ?_⟩
      match opened with
      | .error e => trivial
      | .ok () =>
          refine ⟨⟨path, rfl⟩, fun published => ?_⟩
          match published with
          | none | some sink => trivial

theorem inOrder_registerLogger : ChoosesInOrder Log.registerLogger := by
  refine ⟨trivial, fun first => ?_⟩
  cases first with
  | true => exact ⟨⟨rfl, rfl⟩, fun _ => trivial⟩
  | false => trivial

theorem inOrder_stop (code : Int32) : ChoosesInOrder (Log.stop code : Task α) :=
  .ask trivial fun _ => .ask trivial fun never => nomatch never

theorem Composed.inOrder {unwinds : α → Prop} {p : Task α} (h : Composed unwinds p) :
    ChoosesInOrder p := by
  induction h with
  | done _ => trivial
  | @request r _ plain _ _ =>
      refine .ask ?_ fun _ => trivial
      cases r <;> trivial
  | print _ ih => exact inOrder_printWith ih _
  | pieces plain =>
      exact inOrder_printWith (fun task htask => absurd htask (plain.effect_not_mem task)) _
  | choice => exact inOrder_tryOpenStream _
  | registration => exact inOrder_registerLogger
  | final _ _ ih =>
      refine ih.bind fun finish _ => ?_
      cases finish with
      | returned => exact inOrder_stop _
      | unwound => trivial
  | @bind _ _ _ _ unwinds _ _ _ _ _ ihFirst ihRest ihUnwinding =>
      refine ihFirst.bind fun a _ => ?_
      by_cases ha : unwinds a
      · exact ihUnwinding a ha
      · exact ihRest a ha

def TaskLaw.inOrder : TaskLaw where
  Holds good p := InOrder good none p
  unwinding := True
  done h := h
  bind := .bind
  composed h := h.inOrder.mono fun _ _ _ => trivial
  printWith effects urgency :=
    (inOrder_printWith (fun task htask => (effects task htask).mono fun _ _ => trivial)
      urgency).mono fun _ _ _ => trivial

def StepLaw.inOrder : StepLaw where
  toTaskLaw := TaskLaw.inOrder
  contention := TaskLaw.contention (fun thread _ => .asStarted thread) fun _ => .upTo

theorem Step.inOrder (step : Step) : ChoosesInOrder step.task :=
  (StepLaw.inOrder.step step).mono fun _ _ => trivial

end DiagnosticLog
