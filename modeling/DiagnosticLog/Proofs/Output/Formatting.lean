import DiagnosticLog.Log.Print
import DiagnosticLog.Proofs.Crew
import Mathlib.Data.List.Forall2

/-!
# What a print asks

A print looks where to go when it begins and takes the channel it has found; then it puts every
piece of its message there until it ends.  The exchanges of a task that runs in the middle of the
message stand at the place of the task.  If the formatting stops, what came before has been put, and
nothing of what comes after.
-/

namespace DiagnosticLog

open Program (Exchange Reaches)

abbrev Talk : Type :=
  Exchange Request.interface

def Request.talk (r : Request) (answer : r.Reply) : Talk :=
  ⟨r.demand, answer⟩

/-- A fragment is formatted to its end into a channel, by these exchanges. -/
inductive Fragment.Shows (c : Channel) : Fragment → List Talk → Prop where
  | piece (p : Piece) : Shows c (.piece p) [(Request.put c p).talk true]
  | effect {task : Task Finish} {xs : List Talk} (returns : Reaches task xs (.done .returned)) :
      Shows c (.effect task) xs

/-- How the formatting of the rest of a message stands: it has not begun, its first piece was
refused, or it is at the task that comes first. -/
inductive Stands (c : Channel) : Message → List Talk → Task Formatting → Prop where
  | here {rest : Message} : Stands c rest [] (Log.deliver c rest)
  | refused {p : Piece} {rest : Message} :
      Stands c (.piece p :: rest) [(Request.put c p).talk false] (.done .refused)
  | within {task q : Task Finish} {rest : Message} {xs : List Talk} (reaches : Reaches task xs q) :
      Stands c (.effect task :: rest) xs
        (q >>= fun
          | .returned => Log.deliver c rest
          | .unwound => .done .unwound)

/-- After these exchanges the formatting of a message into a channel has come so far: what is shown
has been formatted fragment by fragment, and the rest stands as it stands. -/
def Formats (c : Channel) (m : Message) (xs : List Talk) (q : Task Formatting) : Prop :=
  ∃ shown rest parts last, m = shown ++ rest ∧ List.Forall₂ (Fragment.Shows c) shown parts ∧
    xs = parts.flatten ++ last ∧ Stands c rest last q

namespace Formats

variable {c : Channel} {m rest : Message} {xs : List Talk} {q : Task Formatting}

theorem of_stands (h : Stands c m xs q) : Formats c m xs q :=
  ⟨[], m, [], xs, rfl, .nil, rfl, h⟩

theorem cons {fragment : Fragment} {part : List Talk} (first : fragment.Shows c part)
    (h : Formats c m xs q) : Formats c (fragment :: m) (part ++ xs) q := by
  obtain ⟨shown, rest, parts, last, rfl, hshown, rfl, hlast⟩ := h
  refine ⟨fragment :: shown, rest, part :: parts, last, rfl, .cons first hshown, ?_, hlast⟩
  rw [List.flatten_cons, List.append_assoc]

end Formats

section Deliver

variable {c : Channel} {rest m : Message} {xs : List Talk} {q : Task Formatting}

theorem reaches_deliver_of_stands (h : Stands c m xs q) : Reaches (Log.deliver c m) xs q := by
  cases h with
  | here => exact .nil
  | refused => exact .cons .nil
  | within reaches => exact reaches.bind_left _

theorem Fragment.Shows.reaches {fragment : Fragment} {part : List Talk}
    (first : fragment.Shows c part) (h : Reaches (Log.deliver c rest) xs q) :
    Reaches (Log.deliver c (fragment :: rest)) (part ++ xs) q := by
  cases first with
  | piece p => exact .cons h
  | effect returns => exact returns.bind h

theorem formats_of_reaches (h : Reaches (Log.deliver c m) xs q) : Formats c m xs q := by
  induction m generalizing xs with
  | nil =>
      cases h with
      | nil => exact .of_stands .here
  | cons fragment rest ih =>
      cases fragment with
      | piece p =>
          cases h with
          | nil => exact .of_stands .here
          | @cons _ _ taken xs _ after =>
              cases taken with
              | true => exact (ih after).cons (.piece p)
              | false =>
                  cases after with
                  | nil => exact .of_stands .refused
      | effect task =>
          rcases Program.reaches_bind_iff.mp h with ⟨q', hq', rfl⟩ | ⟨finish, ys, zs, rfl, hys, hzs⟩
          · exact .of_stands (.within hq')
          · cases finish with
            | returned => exact (ih hzs).cons (.effect hys)
            | unwound =>
                cases hzs with
                | nil =>
                    rw [List.append_nil]
                    exact .of_stands (.within hys)
      | fault =>
          cases h with
          | nil => exact .of_stands .here

theorem reaches_deliver_iff : Reaches (Log.deliver c m) xs q ↔ Formats c m xs q := by
  constructor
  · exact formats_of_reaches
  · rintro ⟨shown, rest, parts, last, rfl, hshown, rfl, hlast⟩
    induction hshown with
    | nil => exact reaches_deliver_of_stands hlast
    | cons first _ ih =>
        rw [List.flatten_cons, List.append_assoc]
        exact first.reaches ih

end Deliver

/-! ## The beginning -/

/-- How far a print has come to take the channel it goes to.  An urgent print that finds the writer
of the file in use takes standard error in its place. -/
inductive ChannelTaking (urgency : Urgency) (c : Channel) : List Talk → Task Channel → Prop where
  | before : ChannelTaking urgency c [] (Log.takeChannel urgency c)
  | waited (waits : urgency.passesBy c = false) :
      ChannelTaking urgency c [(Request.takeChannel c).talk ()] (.done c)
  | tried (passes : urgency.passesBy c = true) :
      ChannelTaking urgency c [(Request.tryTakeChannel c).talk true] (.done c)
  | refused (passes : urgency.passesBy c = true) :
      ChannelTaking urgency c [(Request.tryTakeChannel c).talk false]
        (.ask (Request.takeChannel .standardError).demand fun _ => .done .standardError)
  | diverted (passes : urgency.passesBy c = true) :
      ChannelTaking urgency c
        [(Request.tryTakeChannel c).talk false, (Request.takeChannel .standardError).talk ()]
        (.done .standardError)

/-- How far the beginning of a print has come: it has found nowhere to go, or a channel that it
takes.  An urgent print that finds no sink chosen begins once more, as a print that may wait. -/
inductive Beginning : Urgency → List Talk → Task (Option Channel) → Prop where
  | before {urgency : Urgency} : Beginning urgency [] (Log.beginPrint urgency)
  | again {xs : List Talk} {q : Task (Option Channel)} (rest : Beginning .patient xs q) :
      Beginning .urgent ((Request.beginPrint .urgent).talk (.sink .unresolved) :: xs) q
  | nowhere {urgency : Urgency} {outlet : Outlet} (missing : outlet.channel? = none) :
      Beginning urgency [(Request.beginPrint urgency).talk outlet] (.done none)
  | found {urgency : Urgency} {outlet : Outlet} {c : Channel} {ys : List Talk} {q : Task Channel}
      (leads : outlet.channel? = some c) (chosen : urgency = .urgent → outlet ≠ .sink .unresolved)
      (taking : ChannelTaking urgency c ys q) :
      Beginning urgency ((Request.beginPrint urgency).talk outlet :: ys)
        (q >>= fun c => .done (some c))

section Begin

variable {urgency : Urgency} {outlet : Outlet} {c : Channel} {xs : List Talk}
  {q : Task (Option Channel)}

theorem reaches_takeChannel_iff {q : Task Channel} :
    Reaches (Log.takeChannel urgency c) xs q ↔ ChannelTaking urgency c xs q := by
  constructor
  · intro h
    cases hpasses : urgency.passesBy c with
    | true =>
        have htask : Log.takeChannel urgency c = .ask (Request.tryTakeChannel c).demand fun taken =>
            if taken then .done c
            else .ask (Request.takeChannel .standardError).demand fun _ => .done .standardError :=
          if_pos hpasses
        rw [htask] at h
        cases h with
        | nil =>
            rw [← htask]
            exact .before
        | @cons _ _ taken _ _ after =>
            cases taken with
            | true =>
                cases after with
                | nil => exact .tried hpasses
            | false =>
                cases after with
                | nil => exact .refused hpasses
                | cons after =>
                    cases after with
                    | nil => exact .diverted hpasses
    | false =>
        have htask : Log.takeChannel urgency c =
            .ask (Request.takeChannel c).demand fun _ => .done c := if_neg (by simp [hpasses])
        rw [htask] at h
        cases h with
        | nil =>
            rw [← htask]
            exact .before
        | cons after =>
            cases after with
            | nil => exact .waited hpasses
  · intro h
    cases h with
    | before => exact .nil
    | waited waits =>
        rw [Log.takeChannel, if_neg (by simp [waits])]
        exact .cons .nil
    | tried passes | refused passes =>
        rw [Log.takeChannel, if_pos passes]
        exact .cons .nil
    | diverted passes =>
        rw [Log.takeChannel, if_pos passes]
        exact .cons (.cons .nil)

theorem beginning_of_takeOutlet (chosen : urgency = .urgent → outlet ≠ .sink .unresolved)
    (h : Reaches (Log.takeOutlet urgency outlet) xs q) :
    Beginning urgency ((Request.beginPrint urgency).talk outlet :: xs) q := by
  unfold Log.takeOutlet at h
  cases hleads : outlet.channel? with
  | none =>
      rw [hleads] at h
      cases h with
      | nil => exact .nowhere hleads
  | some c =>
      rw [hleads] at h
      rcases Program.reaches_bind_iff.mp h with ⟨q', hq', rfl⟩ | ⟨c', ys, zs, rfl, hys, hzs⟩
      · exact .found hleads chosen (reaches_takeChannel_iff.mp hq')
      · cases hzs with
        | nil =>
            rw [List.append_nil]
            exact .found hleads chosen (reaches_takeChannel_iff.mp hys)

theorem beginning_of_reaches (h : Reaches (Log.beginPrint urgency) xs q) :
    Beginning urgency xs q := by
  have hpatient {xs : List Talk} {q : Task (Option Channel)}
      (h : Reaches (Log.beginPrint .patient) xs q) : Beginning .patient xs q := by
    cases h with
    | nil => exact .before
    | cons after => exact beginning_of_takeOutlet nofun after
  cases urgency with
  | patient => exact hpatient h
  | urgent =>
      cases h with
      | nil => exact .before
      | @cons _ _ outlet xs _ after =>
          have hafter : Reaches (if outlet = .sink .unresolved then Log.beginPatient
              else Log.takeOutlet .urgent outlet) xs q := after
          split at hafter
          · rename_i hunset
            rw [hunset]
            exact .again (hpatient hafter)
          · exact beginning_of_takeOutlet (fun _ => ‹_›) hafter

theorem reaches_beginPrint_of_takeOutlet (chosen : urgency = .urgent → outlet ≠ .sink .unresolved)
    (h : Reaches (Log.takeOutlet urgency outlet) xs q) :
    Reaches (Log.beginPrint urgency) ((Request.beginPrint urgency).talk outlet :: xs) q := by
  cases urgency with
  | patient => exact .cons h
  | urgent =>
      refine .cons ?_
      show Reaches (if outlet = .sink .unresolved then _ else _) xs q
      rwa [if_neg (chosen rfl)]

theorem reaches_beginPrint_iff :
    Reaches (Log.beginPrint urgency) xs q ↔ Beginning urgency xs q := by
  refine ⟨beginning_of_reaches, fun h => ?_⟩
  induction h with
  | before => exact .nil
  | again rest ih => exact .cons ih
  | @nowhere urgency outlet missing =>
      refine reaches_beginPrint_of_takeOutlet ?_ ?_
      · rintro - rfl
        cases missing
      · rw [Log.takeOutlet, missing]
        exact .nil
  | found leads chosen taking =>
      refine reaches_beginPrint_of_takeOutlet chosen ?_
      rw [Log.takeOutlet, leads]
      exact (reaches_takeChannel_iff.mpr taking).bind_left _

end Begin

/-! ## Prints -/

/-- How far a print has come: it is beginning, its message is being formatted into the channel it
has taken, or it has ended. -/
inductive Printing (urgency : Urgency) (m : Message) : List Talk → Task Finish → Prop where
  | before {xs : List Talk} {q : Task (Option Channel)} (beginning : Beginning urgency xs q) :
      Printing urgency m xs (q >>= Log.printTo m)
  | within {c : Channel} {xs ys : List Talk} {q : Task Formatting}
      (begun : Beginning urgency xs (.done (some c))) (formats : Formats c m ys q) :
      Printing urgency m (xs ++ ys) (q >>= fun formatting => Request.make (.endPrint c formatting))
  | after {c : Channel} {xs ys : List Talk} {formatting : Formatting} {finish : Finish}
      (begun : Beginning urgency xs (.done (some c)))
      (formats : Formats c m ys (.done formatting)) :
      Printing urgency m (xs ++ (ys ++ [(Request.endPrint c formatting).talk finish]))
        (.done finish)

/-- A print comes to where `Printing` has it, and nowhere else. -/
theorem reaches_printWith_iff {urgency : Urgency} {m : Message} {xs : List Talk}
    {q : Task Finish} : Reaches (Log.printWith urgency m) xs q ↔ Printing urgency m xs q := by
  constructor
  · intro h
    rcases Program.reaches_bind_iff.mp h with
      ⟨q', hq', rfl⟩ | ⟨destination, xs, zs, rfl, hbegun, hprint⟩
    · exact .before (beginning_of_reaches hq')
    · have begun := beginning_of_reaches hbegun
      cases destination with
      | none =>
          cases hprint with
          | nil =>
              rw [List.append_nil]
              exact .before begun
      | some c =>
          rcases Program.reaches_bind_iff.mp hprint with
            ⟨q', hq', rfl⟩ | ⟨formatting, ys, zs, rfl, hys, hzs⟩
          · exact .within begun (formats_of_reaches hq')
          · cases hzs with
            | nil =>
                rw [List.append_nil]
                exact .within begun (formats_of_reaches hys)
            | @cons _ _ finish _ _ last =>
                cases last with
                | nil => exact .after begun (formats_of_reaches hys)
  · intro h
    cases h with
    | before beginning => exact (reaches_beginPrint_iff.mpr beginning).bind_left _
    | within begun formats =>
        have hformats := reaches_deliver_iff.mpr formats
        exact (reaches_beginPrint_iff.mpr begun).bind (hformats.bind_left _)
    | after begun formats =>
        exact (reaches_beginPrint_iff.mpr begun).bind
          ((reaches_deliver_iff.mpr formats).bind (.cons .nil))

/-! ## Requests of a print -/

/-- After these exchanges the beginning of a print may make the request. -/
inductive Request.OfBeginning : Urgency → List Talk → Request → Prop where
  | first {urgency : Urgency} : OfBeginning urgency [] (.beginPrint urgency)
  | again {xs : List Talk} {r : Request} (rest : OfBeginning .patient xs r) :
      OfBeginning .urgent ((Request.beginPrint .urgent).talk (.sink .unresolved) :: xs) r
  | take {urgency : Urgency} {outlet : Outlet} {c : Channel}
      (waits : urgency.passesBy c = false) :
      OfBeginning urgency [(Request.beginPrint urgency).talk outlet] (.takeChannel c)
  | attempt {urgency : Urgency} {outlet : Outlet} {c : Channel} :
      OfBeginning urgency [(Request.beginPrint urgency).talk outlet] (.tryTakeChannel c)
  | divert {urgency : Urgency} {outlet : Outlet} {c : Channel} :
      OfBeginning urgency
        [(Request.beginPrint urgency).talk outlet, (Request.tryTakeChannel c).talk false]
        (.takeChannel .standardError)

inductive Request.OfPrint (urgency : Urgency) (xs : List Talk) : Request → Prop where
  | first {r : Request} (asks : r.OfBeginning urgency xs) : OfPrint urgency xs r
  | put (c : Channel) (piece : Piece) : OfPrint urgency xs (.put c piece)
  | last (c : Channel) (formatting : Formatting) : OfPrint urgency xs (.endPrint c formatting)

/-- After these exchanges the task is in the middle of the message, and a task that the message
runs is about to make a request. -/
def Message.Inside (m : Message) (task : Task α) (xs : List Talk) (d : Demand) : Prop :=
  ∃ effect ys zs next, ∃ f : Finish → Task α, Fragment.effect effect ∈ m ∧ xs = ys ++ zs ∧
    Reaches task ys (effect >>= f) ∧ Reaches effect zs (.ask d next)

namespace Message.Inside

variable {m m' : Message} {p q : Task α} {xs ys : List Talk} {d : Demand}

theorem later (h : m.Inside q ys d) (reaches : Reaches p xs q) : m.Inside p (xs ++ ys) d := by
  obtain ⟨effect, ys, zs, next, f, hmem, rfl, hys, hzs⟩ := h
  exact ⟨effect, xs ++ ys, zs, next, f, hmem, (List.append_assoc ..).symm, reaches.append hys, hzs⟩

theorem bind (h : m.Inside p xs d) (f : α → Task β) : m.Inside (p >>= f) xs d := by
  obtain ⟨effect, ys, zs, next, g, hmem, hxs, hys, hzs⟩ := h
  have hbind := hys.bind_left f
  rw [Program.bind_assoc] at hbind
  exact ⟨effect, ys, zs, next, _, hmem, hxs, hbind, hzs⟩

theorem cons (h : m.Inside p xs d) (fragment : Fragment) : Inside (fragment :: m) p xs d := by
  obtain ⟨effect, ys, zs, next, f, hmem, hrest⟩ := h
  exact ⟨effect, ys, zs, next, f, List.mem_cons_of_mem _ hmem, hrest⟩

end Message.Inside

section Prints

variable {m : Message} {xs : List Talk} {c : Channel} {urgency : Urgency}

theorem reaches_deliver_ask {d : Demand} {next : d.Reply → Task Formatting}
    (h : Reaches (Log.deliver c m) xs (.ask d next)) :
    (∃ piece, d = (Request.put c piece).demand) ∨ m.Inside (Log.deliver c m) xs d := by
  induction m generalizing xs with
  | nil => cases h
  | cons fragment rest ih =>
      cases fragment with
      | piece p =>
          cases h with
          | nil => exact .inl ⟨p, rfl⟩
          | @cons _ _ taken xs _ after =>
              cases taken with
              | true =>
                  refine (ih after).imp_right fun inside => ?_
                  have hput : Reaches (Log.deliver c (.piece p :: rest))
                      [(Request.put c p).talk true] (Log.deliver c rest) := .cons .nil
                  exact (inside.later hput).cons _
              | false => cases after
      | effect task =>
          rcases Program.reaches_bind_ask h with ⟨next', hask⟩ | ⟨finish, ys, zs, rfl, hys, hzs⟩
          · exact .inr ⟨task, [], xs, next', _, List.mem_cons_self .., rfl, .nil, hask⟩
          · cases finish with
            | returned =>
                refine (ih hzs).imp_right fun inside => ?_
                have htask : Reaches (Log.deliver c (.effect task :: rest)) ys
                    (Log.deliver c rest) := hys.bind_right _
                exact (inside.later htask).cons _
            | unwound => cases hzs
      | fault => cases h

theorem Beginning.asks {d : Demand} {next : d.Reply → Task (Option Channel)}
    {q : Task (Option Channel)} (h : Beginning urgency xs q) (hq : q = .ask d next) :
    ∃ r : Request, r.OfBeginning urgency xs ∧ d = r.demand := by
  induction h with
  | @before urgency =>
      cases urgency <;> cases hq <;> exact ⟨_, .first, rfl⟩
  | again rest ih =>
      obtain ⟨r, asks, hd⟩ := ih hq
      exact ⟨r, .again asks, hd⟩
  | nowhere => cases hq
  | @found urgency outlet c ys q leads chosen taking =>
      cases taking with
      | before =>
          cases hpasses : urgency.passesBy c with
          | true =>
              rw [Log.takeChannel, if_pos hpasses] at hq
              cases hq
              exact ⟨_, .attempt, rfl⟩
          | false =>
              rw [Log.takeChannel, if_neg (by simp [hpasses])] at hq
              cases hq
              exact ⟨_, .take hpasses, rfl⟩
      | refused =>
          cases hq
          exact ⟨_, .divert, rfl⟩
      | _ => cases hq

theorem reaches_printWith_ask {d : Demand} {next : d.Reply → Task Finish}
    (h : Reaches (Log.printWith urgency m) xs (.ask d next)) :
    (∃ r : Request, r.OfPrint urgency xs ∧ d = r.demand) ∨
      m.Inside (Log.printWith urgency m) xs d := by
  rcases Program.reaches_bind_ask h with ⟨next', hask⟩ | ⟨destination, xs, zs, rfl, hxs, hzs⟩
  · obtain ⟨r, asks, hd⟩ := (beginning_of_reaches hask).asks rfl
    exact .inl ⟨r, .first asks, hd⟩
  · cases destination with
    | none => cases hzs
    | some c =>
        have hbegun : Reaches (Log.printWith urgency m) xs
            (Log.deliver c m >>= fun formatting => Request.make (.endPrint c formatting)) :=
          hxs.bind_right _
        rcases Program.reaches_bind_ask hzs with
          ⟨next', hdeliver⟩ | ⟨formatting, ys, zs, rfl, hys, hend⟩
        · rcases reaches_deliver_ask hdeliver with ⟨piece, hd⟩ | inside
          · exact .inl ⟨_, .put c piece, hd⟩
          · exact .inr ((inside.bind _).later hbegun)
        · cases hend with
          | nil => exact .inl ⟨_, .last c formatting, rfl⟩
          | cons after => cases after

theorem reaches_printWith_done {finish : Finish}
    (h : Reaches (Log.printWith urgency m) xs (.done finish)) :
    (Beginning urgency xs (.done none) ∧ finish = .returned) ∨
      ∃ c formatting ws ys, Beginning urgency ws (.done (some c)) ∧
        Reaches (Log.deliver c m) ys (.done formatting) ∧
        xs = ws ++ (ys ++ [(Request.endPrint c formatting).talk finish]) := by
  obtain ⟨destination, ws, zs, rfl, hws, hzs⟩ := Program.reaches_bind_done h
  have begun := beginning_of_reaches hws
  cases destination with
  | none =>
      cases hzs
      rw [List.append_nil]
      exact .inl ⟨begun, rfl⟩
  | some c =>
      obtain ⟨formatting, ys, zs, rfl, hys, hend⟩ := Program.reaches_bind_done hzs
      cases hend with
      | cons after =>
          cases after
          exact .inr ⟨c, formatting, ws, ys, begun, hys, rfl⟩

end Prints

end DiagnosticLog
