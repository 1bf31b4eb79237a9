import DiagnosticLog.Proofs.Output.Composed

/-!
# Prints are nested

In the middle of a print a task may print again, set up the log, be unwound or end the run.
Whatever it does, prints end in the reverse of the order in which they began, and every piece is put
to the channel of the print that began last.  This is so for every step of a script, by induction
over how its task is put together; only the threads of a contention are left out, which make their
requests as others.
-/

namespace DiagnosticLog

/-- A print that has begun and not ended: where it goes, and whether it has taken the channel. -/
structure Begun where
  channel : Channel
  underWay : Bool
  deriving DecidableEq

def Begun.taken (print : Begun) : Begun :=
  { print with underWay := true }

def Begun.diverted (print : Begun) : Begun :=
  { print with channel := .standardError }

/-- The print that has begun where it has found this.  An urgent one that finds no sink chosen
begins once more. -/
def Outlet.begun (urgency : Urgency) (outlet : Outlet) : Option Begun :=
  if urgency = .urgent ∧ outlet = .sink .unresolved then none
  else outlet.channel?.map fun c => ⟨c, false⟩

theorem Begun.forall_mem_modifyHead {P : Begun → Prop} {f : Begun → Begun}
    (hf : ∀ print, P print → P (f print)) {o : List Begun} (h : ∀ print ∈ o, P print) :
    ∀ print ∈ o.modifyHead f, P print := by
  cases o with
  | nil => exact nofun
  | cons first rest =>
      obtain ⟨hfirst, hrest⟩ := List.forall_mem_cons.mp h
      exact List.forall_mem_cons.mpr ⟨hf first hfirst, hrest⟩

namespace Request

def opens : (r : Request) → r.Reply → List Begun → List Begun
  | .beginPrint urgency, outlet, o => (outlet.begun urgency).toList ++ o
  | .takeChannel _, _, o => o.modifyHead Begun.taken
  | .tryTakeChannel _, true, o => o.modifyHead Begun.taken
  | .tryTakeChannel _, false, o => o.modifyHead Begun.diverted
  | .endPrint _ _, _, o => o.tail
  | _, _, o => o

/-- A channel is taken for the innermost print that has begun, and pieces and the end of a print go
to the channel that has been taken.  Only the writer of a file is tried. -/
def Fits : Request → List Begun → Prop
  | .takeChannel c, o => o.head? = some ⟨c, false⟩
  | .tryTakeChannel c, o => c = .file ∧ o.head? = some ⟨c, false⟩
  | .put c _, o => o.head? = some ⟨c, true⟩
  | .endPrint c _, o => o.head? = some ⟨c, true⟩
  | _, _ => True

theorem fits_of_isApart {r : Request} (h : r.isApart) (o : List Begun) : r.Fits o := by
  cases r <;> trivial

theorem opens_of_isApart {r : Request} (h : r.isApart) (reply : r.Reply) (o : List Begun) :
    r.opens reply o = o := by
  cases r <;> first | rfl | simp [isApart] at h

end Request

variable {α β : Type}

/-- A task makes all requests as its own thread, and they fit the prints that have begun, which are
those of the list `o` at first and those of the list `base` when the task is done. -/
def Nests (base : List Begun) : Task α → List Begun → Prop
  | .done _, o => o = base
  | .ask d next, o =>
      d.caller = .runner ∧ d.request.Fits o ∧
        ∀ reply, Nests base (next reply) (d.request.opens reply o)

/-- The task leaves no print of its own open, whatever prints are open around it. -/
def Balanced (task : Task α) : Prop :=
  ∀ o, Nests o task o

theorem Nests.bind {base base' o : List Begun} {p : Task α} {f : α → Task β}
    (hp : Nests base p o) (hf : ∀ a, Nests base' (f a) base) : Nests base' (p >>= f) o := by
  induction p generalizing o with
  | done a =>
      have ho : o = base := hp
      rw [ho]
      exact hf a
  | ask d next ih =>
      obtain ⟨hcaller, hfits, hnext⟩ := hp
      exact ⟨hcaller, hfits, fun reply => ih reply (hnext reply)⟩

namespace Balanced

theorem done (a : α) : Balanced (.done a : Task α) :=
  fun _ => rfl

theorem bind {p : Task α} {f : α → Task β} (hp : Balanced p) (hf : ∀ a, Balanced (f a)) :
    Balanced (p >>= f) :=
  fun o => (hp o).bind fun a => hf a o

theorem apart {r : Request} (h : r.isApart) : Balanced (Request.make r) := by
  intro o
  have hfits := Request.fits_of_isApart h o
  have hopens := fun reply => Request.opens_of_isApart h reply o
  exact ⟨rfl, hfits, hopens⟩

end Balanced

/-! ## Prints -/

/-- The beginning of a print leaves a print open whose channel is taken, if it finds one. -/
def BeginsAt (o : List Begun) : Task (Option Channel) → List Begun → Prop
  | .done destination, now => now = (destination.map fun c => ⟨c, true⟩).toList ++ o
  | .ask d next, now =>
      d.caller = .runner ∧ d.request.Fits now ∧
        ∀ reply, BeginsAt o (next reply) (d.request.opens reply now)

theorem BeginsAt.nests {base o now : List Begun} {p : Task (Option Channel)}
    {f : Option Channel → Task α} (hp : BeginsAt o p now)
    (hf : ∀ destination, Nests base (f destination)
      ((destination.map fun c => ⟨c, true⟩).toList ++ o)) : Nests base (p >>= f) now := by
  induction p generalizing now with
  | done destination =>
      have hnow : now = (destination.map fun c => ⟨c, true⟩).toList ++ o := hp
      rw [hnow]
      exact hf destination
  | ask d next ih =>
      obtain ⟨hcaller, hfits, hnext⟩ := hp
      exact ⟨hcaller, hfits, fun reply => ih reply (hnext reply)⟩

theorem beginsAt_takeOutlet (urgency : Urgency) (outlet : Outlet) (o : List Begun) :
    BeginsAt o (Log.takeOutlet urgency outlet)
      ((outlet.channel?.map fun c => ⟨c, false⟩).toList ++ o) := by
  unfold Log.takeOutlet
  cases outlet.channel? with
  | none => rfl
  | some c =>
      show BeginsAt o (Log.takeChannel urgency c >>= fun c => .done (some c)) (⟨c, false⟩ :: o)
      unfold Log.takeChannel
      split
      · rename_i hpasses
        have hfile : c = .file := (of_decide_eq_true hpasses).2
        refine ⟨rfl, ⟨hfile, rfl⟩, fun taken => ?_⟩
        cases taken with
        | true => rfl
        | false => exact ⟨rfl, rfl, fun _ => rfl⟩
      · exact ⟨rfl, rfl, fun _ => rfl⟩

theorem beginsAt_beginPatient (o : List Begun) : BeginsAt o Log.beginPatient o := by
  refine ⟨rfl, trivial, fun outlet => ?_⟩
  have hbegun : outlet.begun .patient = outlet.channel?.map fun c => ⟨c, false⟩ := if_neg nofun
  show BeginsAt o (Log.takeOutlet .patient outlet) ((outlet.begun .patient).toList ++ o)
  rw [hbegun]
  exact beginsAt_takeOutlet .patient outlet o

theorem beginsAt_beginPrint (urgency : Urgency) (o : List Begun) :
    BeginsAt o (Log.beginPrint urgency) o := by
  cases urgency with
  | patient => exact beginsAt_beginPatient o
  | urgent =>
      refine ⟨rfl, trivial, fun outlet => ?_⟩
      show BeginsAt o (if outlet = .sink .unresolved then Log.beginPatient
        else Log.takeOutlet .urgent outlet) ((outlet.begun .urgent).toList ++ o)
      split
      · rename_i hunset
        have hbegun : outlet.begun .urgent = none := if_pos ⟨rfl, hunset⟩
        rw [hbegun]
        exact beginsAt_beginPatient o
      · rename_i hchosen
        have hbegun : outlet.begun .urgent = outlet.channel?.map fun c => ⟨c, false⟩ :=
          if_neg fun h => hchosen h.2
        rw [hbegun]
        exact beginsAt_takeOutlet .urgent outlet o

section Prints

variable {m : Message} (effects : ∀ task, Fragment.effect task ∈ m → Balanced task)
include effects

theorem nests_deliver (c : Channel) (o : List Begun) :
    Nests (⟨c, true⟩ :: o) (Log.deliver c m) (⟨c, true⟩ :: o) := by
  induction m with
  | nil => rfl
  | cons fragment rest ih =>
      have hrest := ih fun task htask => effects task (List.mem_cons_of_mem _ htask)
      cases fragment with
      | piece p =>
          have hnext : ∀ taken : Bool, Nests (⟨c, true⟩ :: o)
              (if taken then Log.deliver c rest else .done .refused) (⟨c, true⟩ :: o) := by
            intro taken
            cases taken with
            | true => exact hrest
            | false => rfl
          exact ⟨rfl, rfl, hnext⟩
      | effect task =>
          have htask := effects task (List.mem_cons_self ..) (⟨c, true⟩ :: o)
          apply htask.bind
          intro finish
          cases finish with
          | returned => exact hrest
          | unwound => rfl
      | fault => rfl

theorem nests_printTo (destination : Option Channel) (o : List Begun) :
    Nests o (Log.printTo m destination)
      ((destination.map fun c => ⟨c, true⟩).toList ++ o) := by
  cases destination with
  | none => rfl
  | some c =>
      have hend (formatting : Formatting) :
          Nests o (Request.make (.endPrint c formatting)) (⟨c, true⟩ :: o) :=
        ⟨rfl, rfl, fun _ => rfl⟩
      exact (nests_deliver effects c o).bind hend

theorem balanced_printWith (urgency : Urgency) : Balanced (Log.printWith urgency m) := by
  intro o
  exact (beginsAt_beginPrint urgency o).nests fun destination => nests_printTo effects destination o

end Prints

/-! ## Steps -/

theorem balanced_stop (code : Int32) : Balanced (Log.stop code : Task α) :=
  (Balanced.apart rfl).bind fun _ => (Balanced.apart rfl).bind fun never => nomatch never

theorem balanced_tryOpenStream (path : Option Bytes) : Balanced (Log.tryOpenStream path) := by
  apply (Balanced.apart rfl).bind
  intro sink
  cases sink with
  | none => exact .done _
  | some sink =>
      show Balanced (if sink.isResolved then _ else _)
      split
      · exact .done _
      · apply (Balanced.apart rfl).bind
        intro opened
        cases opened with
        | error e => exact .done _
        | ok _ =>
            apply (Balanced.apart rfl).bind
            intro published
            cases published <;> exact .done _

theorem balanced_registerLogger : Balanced Log.registerLogger := by
  apply (Balanced.apart rfl).bind
  intro first
  cases first with
  | true => exact (Balanced.apart rfl).bind fun _ => .done _
  | false => exact .done _

theorem FinalCall.balanced {call : FinalCall} (words : Balanced call.words) :
    Balanced call.task := by
  apply words.bind
  intro finish
  cases finish with
  | returned => exact balanced_stop _
  | unwound => exact .done _

theorem Composed.balanced {unwinds : α → Prop} {task : Task α} (h : Composed unwinds task) :
    Balanced task := by
  induction h with
  | done _ => exact .done _
  | request plain _ _ => exact .apart (Request.isApart_of_isPlain plain)
  | print _ ih => exact balanced_printWith ih _
  | pieces plain =>
      exact balanced_printWith (fun task htask => absurd htask (plain.effect_not_mem task)) _
  | choice => exact balanced_tryOpenStream _
  | registration => exact balanced_registerLogger
  | final _ _ ih => exact FinalCall.balanced ih
  | @bind _ _ _ _ unwinds _ _ _ _ _ ihFirst ihRest ihUnwinding =>
      apply ihFirst.bind
      intro a
      by_cases ha : unwinds a
      · exact ihUnwinding a ha
      · exact ihRest a ha

theorem Step.balanced (step : Step) (solo : step.isSolo) : Balanced step.task :=
  (step.composed solo).balanced

end DiagnosticLog
