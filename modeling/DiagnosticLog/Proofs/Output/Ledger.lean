import DiagnosticLog.Proofs.Output.Nesting
import DiagnosticLog.Proofs.Session.Contents

/-!
# A ledger of what is printed

The ledger is kept from the requests and their answers alone.  It enters where a print goes when the
print begins, however long it waits there, and every piece under the innermost print of its thread,
whatever channel the piece names.  `Balances.move` shows that a process keeps to its ledger.
-/

namespace DiagnosticLog

def Request.opensSink : (r : Request) → r.Reply → Bool
  | .openSink _, .ok () => true
  | _, _ => false

/-- An account of what has been printed. -/
structure Ledger where
  /-- The sink in use. -/
  sink : Sink
  /-- The prints of each thread that have begun and not ended, the innermost first. -/
  prints : ThreadId → List Begun
  /-- What each destination was told. -/
  texts : Channel → Bytes
  /-- Whether a sink has been opened although one had been chosen, by a thread that had looked
  before it was. -/
  disputed : Bool

namespace Ledger

def blank : Ledger :=
  ⟨.unresolved, fun _ => [], fun _ => [], false⟩

/-- What a request of thread `t` tells a destination; a piece goes to that of the thread's innermost
print. -/
def told (spell : Piece → Bytes) (l : Ledger) (t : ThreadId) (c : Channel) : Request → Bytes
  | .put _ piece => if (l.prints t).head?.map Begun.channel = some c then spell piece else []
  | .complain text => if c = .standardError then text else []
  | _ => []

def sinkAfter (l : Ledger) : (r : Request) → r.Reply → Sink
  | .publishSink, some sink => sink
  | _, _ => l.sink

def enter (spell : Piece → Bytes) (l : Ledger) (t : ThreadId) (r : Request) (answer : r.Reply) :
    Ledger where
  sink := l.sinkAfter r answer
  prints := update l.prints t (r.opens answer (l.prints t))
  texts c := l.texts c ++ l.told spell t c r
  disputed := l.disputed || (r.opensSink answer && l.sink.isResolved)

theorem prints_enter_of_ne {spell : Piece → Bytes} {l : Ledger} {t u : ThreadId} {r : Request}
    {answer : r.Reply} (h : u ≠ t) : (l.enter spell t r answer).prints u = l.prints u :=
  update_of_ne h

@[simp] theorem prints_enter_self {spell : Piece → Bytes} {l : Ledger} {t : ThreadId} {r : Request}
    {answer : r.Reply} :
    (l.enter spell t r answer).prints t = r.opens answer (l.prints t) :=
  update_self ..

theorem sinkAfter_of_ne {l : Ledger} {r : Request} (h : r ≠ .publishSink) (answer : r.Reply) :
    l.sinkAfter r answer = l.sink := by
  cases r <;> first | rfl | exact absurd rfl h

theorem told_eq_written {spell : Piece → Bytes} {l : Ledger} {t : ThreadId} {r : Request}
    {s : Session} (fits : r.Fits (l.prints t)) (hspell : s.spell = spell) (c : Channel) :
    l.told spell t c r = s.written c r := by
  cases r with
  | put d piece =>
      have hhead : (l.prints t).head? = some ⟨d, true⟩ := fits
      simp [told, Session.written, hhead, hspell]
  | _ => rfl

end Ledger

/-! ## Where the channels of a process lead -/

namespace Hosted

def Leads (h : Hosted) : Channel → Prop
  | .standardOut => True
  | .standardError => True
  | .file => ∃ path w, h.stream = some (.file path w)
  | .console _ => False

def Accepts (h : Hosted) : Prop :=
  ∀ path w, h.stream = some (.file path w) → w.target.accepts = true

variable {h h' : Hosted} {t : ThreadId} {s : Session} {r : Request} {answer : r.Reply}

theorem Leads.takes {c : Channel} (leads : h.Leads c) (accepts : h.Accepts) : h.Takes c := by
  cases c with
  | file =>
      obtain ⟨path, w, hstream⟩ := leads
      exact ⟨path, w, hstream, accepts path w hstream⟩
  | console id => exact leads.elim
  | _ => trivial

theorem leads_channel (h : Hosted) : h.Leads h.channel := by
  unfold channel sink
  cases hstream : h.stream with
  | none => trivial
  | some stream =>
      cases stream with
      | file path w => exact ⟨path, w, hstream⟩
      | _ => trivial

theorem stream_of_move (move : Move t s r answer h h') {path : Bytes} {w : Writer}
    (hstream : h.stream = some (.file path w)) :
    ∃ kept, h'.stream = some (.file path { w with kept }) := by
  have hsame : ∃ kept, h.stream = some (.file path { w with kept }) := ⟨w.kept, hstream⟩
  cases move with
  | @put _ c piece =>
      cases c with
      | file =>
          simp only [put, hstream]
          exact ⟨_, rfl⟩
      | _ => exact hsame
  | @flush _ _ c free =>
      cases c with
      | file =>
          simp only [push, hstream]
          exact ⟨_, rfl⟩
      | _ => exact hsame
  | openSink opening =>
      rw [opening.rest]
      exact hsame
  | publishSink publication =>
      cases publication with
      | first unset opened =>
          rw [unset] at hstream
          cases hstream
      | late unable => exact hsame
  | _ => exact hsame

theorem Leads.move {c : Channel} (leads : h.Leads c) (move : Move t s r answer h h') :
    h'.Leads c := by
  cases c with
  | file =>
      obtain ⟨path, w, hstream⟩ := leads
      obtain ⟨kept, hstream'⟩ := stream_of_move move hstream
      exact ⟨path, _, hstream'⟩
  | _ => exact leads

theorem Accepts.of_move (accepts : h'.Accepts) (move : Move t s r answer h h') : h.Accepts := by
  intro path w hstream
  obtain ⟨kept, hstream'⟩ := stream_of_move move hstream
  exact accepts path { w with kept } hstream'

end Hosted

theorem Users.of_modify {u : Users} {c : Channel} (hc : ∀ id, c ≠ .console id) (d : Channel)
    (f : List ThreadId → List ThreadId) :
    (u.modify c f).of d = if d = c then f (u.of d) else u.of d := by
  cases c with
  | console id => exact absurd rfl (hc id)
  | _ => cases d <;> rfl

/-! ## The books balance -/

/-- A process holds what its ledger says. -/
structure Balances (spell : Piece → Bytes) (l : Ledger) (h : Hosted) : Prop where
  sink : h.sink = l.sink
  inUse : ∀ t c, (h.users.of c).count t = (l.prints t).count ⟨c, true⟩
  leads : ∀ t, ∀ print ∈ l.prints t, h.Leads print.channel
  fresh : h.Fresh
  told : h.Accepts → ∀ c, (c = .file → l.disputed = false) → h.HasText c (l.texts c)

namespace Balances

variable {spell : Piece → Bytes} {l : Ledger} {h h' : Hosted} {t : ThreadId} {s : Session}
  {r : Request} {answer : r.Reply}

theorem leads_of_head (b : Balances spell l h) {print : Begun}
    (head : (l.prints t).head? = some print) : h.Leads print.channel :=
  b.leads t print (List.mem_of_head? head)

theorem ne_console_of_head (b : Balances spell l h) {print : Begun}
    (head : (l.prints t).head? = some print) (id : ConsoleId) : print.channel ≠ .console id := by
  intro hconsole
  have leads := b.leads_of_head head
  rw [hconsole] at leads
  exact leads

theorem busy_file (b : Balances spell l h) (t : ThreadId) :
    h.busy t .file = false ↔ ∀ u, ⟨.file, true⟩ ∉ l.prints u := by
  have hcount (u : ThreadId) : u ∈ h.users.file ↔ ⟨.file, true⟩ ∈ l.prints u := by
    rw [← List.count_pos_iff, ← List.count_pos_iff, ← b.inUse u .file]
    rfl
  simp [Hosted.busy, List.eq_nil_iff_forall_not_mem, hcount]

theorem sink_enter (b : Balances spell l h) (move : Hosted.Move t s r answer h h') :
    h'.sink = (l.enter spell t r answer).sink := by
  by_cases hr : r = .publishSink
  · subst hr
    cases move with
    | publishSink publication =>
        cases publication with
        | first unset opened => rfl
        | late unable => exact b.sink
    | other hr => cases hr
  · rw [Hosted.sink_of_move move hr, b.sink]
    exact (l.sinkAfter_of_ne hr answer).symm

theorem inUse_take (b : Balances spell l h) {c : Channel}
    (head : (l.prints t).head? = some ⟨c, false⟩) (u : ThreadId) (d : Channel) :
    ((h.users.modify c (t :: ·)).of d).count u =
      (update l.prints t ((l.prints t).modifyHead Begun.taken) u).count ⟨d, true⟩ := by
  rw [Users.of_modify (b.ne_console_of_head head)]
  by_cases hu : u = t
  · subst hu
    obtain ⟨rest, hprints⟩ := List.head?_eq_some_iff.mp head
    have hcount := b.inUse u d
    rw [hprints] at hcount
    rw [update_self, hprints, List.modifyHead_cons]
    by_cases hd : d = c
    · subst hd
      simpa [Begun.taken, List.count_cons] using hcount
    · simpa [Begun.taken, List.count_cons, hd, Ne.symm hd] using hcount
  · rw [update_of_ne hu, ← b.inUse u d]
    split
    · exact List.count_cons_of_ne (Ne.symm hu)
    · rfl

theorem inUse_end (b : Balances spell l h) {c : Channel}
    (head : (l.prints t).head? = some ⟨c, true⟩) (u : ThreadId) (d : Channel) :
    ((h.users.modify c (List.erase · t)).of d).count u =
      (update l.prints t (l.prints t).tail u).count ⟨d, true⟩ := by
  rw [Users.of_modify (b.ne_console_of_head head)]
  by_cases hu : u = t
  · subst hu
    obtain ⟨rest, hprints⟩ := List.head?_eq_some_iff.mp head
    have hcount := b.inUse u d
    rw [hprints] at hcount
    rw [update_self, hprints, List.tail_cons]
    by_cases hd : d = c
    · subst hd
      simp [hcount]
    · simpa [List.count_cons, hd, Ne.symm hd] using hcount
  · rw [update_of_ne hu, ← b.inUse u d]
    split
    · exact List.count_erase_of_ne hu
    · rfl

theorem inUse_enter (b : Balances spell l h) (fits : r.Fits (l.prints t))
    (move : Hosted.Move t s r answer h h') (u : ThreadId) (c : Channel) :
    (h'.users.of c).count u = ((l.enter spell t r answer).prints u).count ⟨c, true⟩ := by
  have hsame (hopens : (r.opens answer (l.prints t)).count ⟨c, true⟩ =
      (l.prints t).count ⟨c, true⟩) :
      (h.users.of c).count u = ((l.enter spell t r answer).prints u).count ⟨c, true⟩ := by
    rw [b.inUse]
    by_cases hu : u = t
    · subst hu
      rw [Ledger.prints_enter_self, hopens]
    · rw [Ledger.prints_enter_of_ne hu]
  cases move with
  | @beginPrint _ urgency =>
      apply hsame
      show (((Outlet.sink h.sink).begun urgency).toList ++ l.prints t).count _ = _
      unfold Outlet.begun
      split <;> simp [Outlet.channel?]
  | takeChannel free => exact b.inUse_take fits u c
  | tryTakeChannel free => exact b.inUse_take fits.2 u c
  | refuse busy =>
      apply hsame
      obtain ⟨rest, hprints⟩ := List.head?_eq_some_iff.mp fits.2
      simp [Request.opens, hprints, Begun.diverted]
  | endPrint => exact b.inUse_end fits u c
  | put =>
      rw [Hosted.put_users]
      exact hsame rfl
  | flush free =>
      rw [Hosted.users_push]
      exact hsame rfl
  | openSink opening =>
      rw [opening.rest]
      exact hsame rfl
  | publishSink publication =>
      cases publication <;> exact hsame rfl
  | other hr =>
      apply hsame
      cases r <;> first | rfl | simp [Request.reachesPlatform] at hr
  | _ => exact hsame rfl

/-- A print that begins is sent where the sink in use leads, and one that is turned away to standard
error. -/
theorem leads_opens (b : Balances spell l h) (move : Hosted.Move t s r answer h h') :
    ∀ print ∈ r.opens answer (l.prints t), h.Leads print.channel := by
  have hold := b.leads t
  cases move with
  | @beginPrint _ urgency =>
      intro print hprint
      rcases List.mem_append.mp hprint with hnew | hprint
      · have hbegun := Option.mem_toList.mp hnew
        unfold Outlet.begun at hbegun
        split at hbegun
        · cases hbegun
        · cases hbegun
          exact h.leads_channel
      · exact hold print hprint
  | takeChannel free | tryTakeChannel free =>
      exact Begun.forall_mem_modifyHead (f := Begun.taken) (fun _ => id) hold
  | refuse busy => exact Begun.forall_mem_modifyHead (f := Begun.diverted) (fun _ _ => trivial) hold
  | endPrint => exact fun print hprint => hold print (List.mem_of_mem_tail hprint)
  | other hr => cases r <;> first | exact hold | simp [Request.reachesPlatform] at hr
  | _ => exact hold

theorem told_enter (b : Balances spell l h) (fits : r.Fits (l.prints t)) (hspell : s.spell = spell)
    (move : Hosted.Move t s r answer h h') (accepts : h'.Accepts) (c : Channel)
    (undisputed : c = .file → (l.enter spell t r answer).disputed = false) :
    h'.HasText c ((l.enter spell t r answer).texts c) := by
  have accepted := accepts.of_move move
  have hdisputed (hc : c = .file) :
      l.disputed = false ∧ (r.opensSink answer && l.sink.isResolved) = false := by
    simpa [Ledger.enter] using undisputed hc
  have htext := b.told accepted c fun hc => (hdisputed hc).1
  have htakes (d : Channel) (piece : Piece) (hr : r = .put d piece) : h.Takes d := by
    subst hr
    exact (b.leads_of_head fits).takes accepted
  show h'.HasText c (l.texts c ++ l.told spell t c r)
  rw [Ledger.told_eq_written fits hspell]
  by_cases hopens : ∃ path, r = .openSink path
  · obtain ⟨path, rfl⟩ := hopens
    rw [show s.written c (.openSink path) = [] from rfl, List.append_nil]
    cases move with
    | openSink opening =>
        refine htext.opening opening fun hc hreply => ?_
        subst hreply
        have hunresolved : l.sink.isResolved = false := by
          simpa [Request.opensSink] using (hdisputed hc).2
        rw [b.sink, Sink.eq_unresolved hunresolved]
    | other hr => cases hr
  · have undisturbed : h.Undisturbed r := by
      cases r with
      | openSink path => exact absurd ⟨path, rfl⟩ hopens
      | publishSink => exact b.fresh
      | _ => trivial
    exact Session.hasText_of_move move undisturbed htakes htext

/-- A request of a thread that fits its open prints is entered rightly. -/
theorem move (b : Balances spell l h) (fits : r.Fits (l.prints t))
    (hspell : s.spell = spell) (move : Hosted.Move t s r answer h h') :
    Balances spell (l.enter spell t r answer) h' where
  sink := b.sink_enter move
  inUse := b.inUse_enter fits move
  leads := by
    intro u print hprint
    by_cases hu : u = t
    · subst hu
      rw [Ledger.prints_enter_self] at hprint
      exact (b.leads_opens move print hprint).move move
    · rw [Ledger.prints_enter_of_ne hu] at hprint
      exact (b.leads u print hprint).move move
  fresh := b.fresh.move move
  told := b.told_enter fits hspell move

end Balances

end DiagnosticLog
