import DiagnosticLog.Proofs.FatalCalls
import DiagnosticLog.Proofs.Output.Routing

/-!
# Last words amid other prints

A thread that ends the run says its last words in three parts: a message, the end of the line, and a
flush.  Each of them finds out for itself whether the writer of the log file is in use, and other
threads make their requests in between.  So a misuse of the log lock in the middle of somebody
else's line may be told on standard error while the end of its line goes to the file, or may stand
in the file within that line.  `last_words_in_parts` says where each part goes and that none of them
is torn, and `last_words_miss_file` that all of them miss a file to which somebody is printing all
the while.
-/

namespace DiagnosticLog

open Program (Reaches)

namespace Ledger

/-- The log goes to a file whose writer is in use. -/
def FileInUse (l : Ledger) : Prop :=
  l.sink.channel = .file ∧ ∃ u, ⟨.file, true⟩ ∈ l.prints u

/-- No two threads print to one channel. -/
def Exclusive (l : Ledger) : Prop :=
  ∀ c t u, ⟨c, true⟩ ∈ l.prints t → ⟨c, true⟩ ∈ l.prints u → t = u

end Ledger

/-! ## One print at a time -/

namespace Balances

variable {spell : Piece → Bytes} {l : Ledger} {h h' : Hosted} {t u : ThreadId} {s : Session}
  {r : Request} {answer : r.Reply} {c : Channel}

theorem not_mem_of_free (b : Balances spell l h) (free : h.busy t c = false) (other : u ≠ t) :
    ⟨c, true⟩ ∉ l.prints u := by
  intro hmem
  have hcount : 0 < (h.users.of c).count u := by
    rw [b.inUse]
    exact List.count_pos_iff.mpr hmem
  have huser := List.count_pos_iff.mp hcount
  have leads : h.Leads c := b.leads u _ hmem
  cases c with
  | console id => exact leads
  | file =>
      have hnobody : h.users.file = [] := by simpa [Hosted.busy] using free
      have huser' : u ∈ h.users.file := huser
      rw [hnobody] at huser'
      cases huser'
  | standardOut | standardError =>
      exact List.any_eq_false.mp free u huser (decide_eq_true other)

/-- A print of thread `t` that is under way after a request was so before, or has found its channel
free. -/
theorem mem_opens (fits : r.Fits (l.prints t)) (move : Hosted.Move t s r answer h h')
    (hmem : ⟨c, true⟩ ∈ r.opens answer (l.prints t)) :
    ⟨c, true⟩ ∈ l.prints t ∨ h.busy t c = false := by
  have htaken {d : Channel} (head : (l.prints t).head? = some ⟨d, false⟩)
      (free : h.busy t d = false) (hmem : ⟨c, true⟩ ∈ (l.prints t).modifyHead Begun.taken) :
      ⟨c, true⟩ ∈ l.prints t ∨ h.busy t c = false := by
    obtain ⟨rest, hprints⟩ := List.head?_eq_some_iff.mp head
    rw [hprints] at hmem ⊢
    rcases List.mem_cons.mp hmem with hfirst | hrest
    · cases hfirst
      exact .inr free
    · exact .inl (List.mem_cons_of_mem _ hrest)
  cases move with
  | @beginPrint _ urgency =>
      rcases List.mem_append.mp hmem with hnew | hold
      · have hbegun := Option.mem_toList.mp hnew
        unfold Outlet.begun at hbegun
        split at hbegun
        · cases hbegun
        · cases hbegun
      · exact .inl hold
  | takeChannel free => exact htaken fits free hmem
  | tryTakeChannel free => exact htaken fits.2 free hmem
  | refuse busy =>
      obtain ⟨rest, hprints⟩ := List.head?_eq_some_iff.mp fits.2
      rw [hprints] at hmem ⊢
      rcases List.mem_cons.mp hmem with hfirst | hrest
      · cases hfirst
      · exact .inl (List.mem_cons_of_mem _ hrest)
  | endPrint => exact .inl (List.mem_of_mem_tail hmem)
  | other hr => cases r <;> first | exact .inl hmem | simp [Request.reachesPlatform] at hr
  | _ => exact .inl hmem

theorem exclusive (b : Balances spell l h) (only : l.Exclusive) (fits : r.Fits (l.prints t))
    (move : Hosted.Move t s r answer h h') : (l.enter spell t r answer).Exclusive := by
  -- another thread that prints there has done so before
  have hother {c : Channel} {v : ThreadId} (hv : v ≠ t)
      (ht : ⟨c, true⟩ ∈ (l.enter spell t r answer).prints t)
      (hmem : ⟨c, true⟩ ∈ (l.enter spell t r answer).prints v) : False := by
    rw [Ledger.prints_enter_self] at ht
    rw [Ledger.prints_enter_of_ne hv] at hmem
    rcases mem_opens fits move ht with hbefore | free
    · exact hv (only c v t hmem hbefore)
    · exact b.not_mem_of_free free hv hmem
  intro c v w hv hw
  by_cases hvt : v = t
  · subst hvt
    by_cases hwt : w = v
    · exact hwt.symm
    · exact (hother hwt hv hw).elim
  · by_cases hwt : w = t
    · subst hwt
      exact (hother hvt hw hv).elim
    · rw [Ledger.prints_enter_of_ne hvt] at hv
      rw [Ledger.prints_enter_of_ne hwt] at hw
      exact only c v w hv hw

theorem told_of_other (b : Balances spell l h) (only : l.Exclusive) (fits : r.Fits (l.prints t))
    (move : Hosted.Move t s r answer h h') (uses : ⟨c, true⟩ ∈ l.prints u) (other : t ≠ u) :
    l.told spell t c r = [] := by
  cases r with
  | put d piece =>
      have hhead : (l.prints t).head? = some ⟨d, true⟩ := fits
      have hdc : d ≠ c := by
        rintro rfl
        exact other (only d t u (List.mem_of_head? hhead) uses)
      simp [Ledger.told, hhead, hdc]
  | complain text =>
      have hc : c ≠ .standardError := by
        rintro rfl
        cases move with
        | complain free => exact b.not_mem_of_free free (Ne.symm other) uses
        | other hr => cases hr
      exact if_neg hc
  | _ => rfl

end Balances

/-! ## What an urgent print asks -/

theorem ChannelTaking.of_done {c d : Channel} {xs : List Talk}
    (taking : ChannelTaking .urgent c xs (.done d)) :
    (c ≠ .file ∧ d = c ∧ xs = [(Request.takeChannel c).talk ()]) ∨
      (c = .file ∧ d = c ∧ xs = [(Request.tryTakeChannel c).talk true]) ∨
      (c = .file ∧ d = .standardError ∧
        xs = [(Request.tryTakeChannel c).talk false,
          (Request.takeChannel .standardError).talk ()]) := by
  have hfile (passes : Urgency.urgent.passesBy c = true) : c = .file :=
    (of_decide_eq_true passes).2
  generalize hq : (.done d : Task Channel) = q at taking
  cases taking with
  | before =>
      unfold Log.takeChannel at hq
      split at hq <;> cases hq
  | waited waits =>
      cases hq
      refine .inl ⟨?_, rfl, rfl⟩
      rintro rfl
      cases waits
  | tried passes =>
      cases hq
      exact .inr (.inl ⟨hfile passes, rfl, rfl⟩)
  | refused => cases hq
  | diverted passes =>
      cases hq
      exact .inr (.inr ⟨hfile passes, rfl, rfl⟩)

theorem Beginning.of_done {destination : Option Channel} {xs : List Talk}
    (begun : Beginning .urgent xs (.done destination)) :
    ∃ outlet ys, xs = (Request.beginPrint .urgent).talk outlet :: ys ∧
      (outlet = .sink .unresolved ∨ outlet.channel? = none ∨
        ∃ c d, destination = some d ∧ outlet.channel? = some c ∧
          ChannelTaking .urgent c ys (.done d)) := by
  generalize hq : (.done destination : Task (Option Channel)) = q at begun
  cases begun with
  | before => cases hq
  | again rest => exact ⟨_, _, rfl, .inl rfl⟩
  | nowhere missing => exact ⟨_, _, rfl, .inr (.inl missing)⟩
  | @found _ outlet c ys q leads chosen taking =>
      cases q with
      | ask => cases hq
      | done d =>
          cases hq
          exact ⟨outlet, ys, rfl, .inr (.inr ⟨c, d, rfl, leads, taking⟩)⟩

def Talk.put? : Talk → Option (Channel × Piece)
  | ⟨⟨_, .put c piece⟩, _⟩ => some (c, piece)
  | _ => none

theorem Beginning.puts_nothing {urgency : Urgency} {xs : List Talk} {q : Task (Option Channel)}
    (begun : Beginning urgency xs q) : xs.filterMap Talk.put? = [] := by
  induction begun with
  | before => rfl
  | again _ ih => exact ih
  | nowhere => rfl
  | found _ _ taking => cases taking <;> rfl

theorem puts_of_pieces (c : Channel) (ps : List Piece) :
    (ps.map fun p => (Request.put c p).talk true).filterMap Talk.put? = ps.map (c, ·) := by
  induction ps with
  | nil => rfl
  | cons p rest ih => exact congrArg ((c, p) :: ·) ih

theorem puts_of_deliver {c : Channel} {ps : List Piece} {xs : List Talk} {formatting : Formatting}
    (h : Reaches (Log.deliver c (Message.ofPieces ps)) xs (.done formatting))
    (taken : ∀ talk ∈ xs, Talk.isRefusal talk = false) :
    xs = (ps.map fun p => (Request.put c p).talk true) ∧ formatting = .complete := by
  induction ps generalizing xs with
  | nil =>
      cases h
      exact ⟨rfl, rfl⟩
  | cons p rest ih =>
      cases h with
      | @cons _ _ answer xs _ after =>
          obtain ⟨hfirst, hrest⟩ := List.forall_mem_cons.mp taken
          cases answer with
          | false => cases hfirst
          | true =>
              obtain ⟨rfl, rfl⟩ := ih after hrest
              exact ⟨rfl, rfl⟩

/-- An urgent print of pieces that has ended found a channel or none, put its pieces there, and told
the channel of its end. -/
theorem asked_of_printUrgent {ps : List Piece} {xs : List Talk} {finish : Finish}
    (printed : Reaches (Log.printUrgent (Message.ofPieces ps)) xs (.done finish)) :
    ∃ destination formatting ys zs, xs = ys ++ zs ∧ Beginning .urgent ys (.done destination) ∧
      ∀ c, destination = some c → ∃ ws,
        zs = ws ++ [(Request.endPrint c formatting).talk finish] ∧
          Reaches (Log.deliver c (Message.ofPieces ps)) ws (.done formatting) := by
  rcases reaches_printWith_done printed with ⟨begun, -⟩ | ⟨c, formatting, ys, ws, begun, hws, rfl⟩
  · exact ⟨none, .complete, xs, [], (List.append_nil _).symm, begun, nofun⟩
  · refine ⟨some c, formatting, ys, _, rfl, begun, ?_⟩
    rintro _ ⟨⟩
    exact ⟨ws, rfl, hws⟩

theorem not_reaches_printUrgent_stop {p : List Piece} {xs : List Talk} {d : Demand}
    {next : d.Reply → Task Finish} (stop : d.request.isStop) :
    ¬ Reaches (Log.printUrgent (Message.ofPieces p)) xs (.ask d next) := by
  intro asks
  rcases reaches_printWith_ask asks with ⟨r, own, rfl⟩ | inside
  · have hstop := own.not_isStop
    rw [stop] at hstop
    cases hstop
  · exact (Message.isPlain_ofPieces p).not_inside inside

/-! ## Last lines -/

theorem Message.IsPlain.exists_ofPieces {m : Message} (plain : m.IsPlain) :
    ∃ ps, m = Message.ofPieces ps := by
  induction m with
  | nil => exact ⟨[], rfl⟩
  | cons fragment rest ih =>
      obtain ⟨⟨p, rfl⟩, hrest⟩ := List.forall_mem_cons.mp plain
      obtain ⟨ps, rfl⟩ := ih hrest
      exact ⟨p :: ps, rfl⟩

/-- The task prints this line as its last words and then ends the run. -/
inductive EndsWithLine {α : Type} (ps : List Piece) : Task α → Prop where
  | intro {k : Finish → Task α} {code : Int32} (ends : k .returned = Log.endLineAndExit code) :
      EndsWithLine ps (Log.printUrgent (Message.ofPieces ps) >>= k)

section

variable {α β : Type}

theorem endLineAndExit_bind (code : Int32) (f : α → Task β) :
    (Log.endLineAndExit code >>= f) = Log.endLineAndExit code := by
  unfold Log.endLineAndExit Log.exit
  simp only [Program.bind_assoc, FinalCall.stop_bind]

theorem endsWithLine_exitWith (code : Int32) (ps : List Piece) (f : Finish → Task α) :
    EndsWithLine ps (Log.exitWith code (Message.ofPieces ps) >>= f) := by
  unfold Log.exitWith
  rw [Program.bind_assoc]
  exact .intro (endLineAndExit_bind code f)

/-- A thread that has misused the log lock, and knows its token and the address of the lock, ends
the run with a line that tells so. -/
theorem endsWithLine_misuse (token address : UInt64) (operation : String) (e : MutexError)
    (f : α → Task β) :
    ∃ ps, Log.mutexFailureMessage token address operation e = Message.ofPieces ps ∧
      EndsWithLine ps
        (Log.printUrgent (Log.mutexFailureMessage token address operation e) >>= fun _ =>
          Log.endLineAndExit Config.mutexFailureCode >>= f) := by
  obtain ⟨ps, hps⟩ :=
    (Log.isPlain_mutexFailureMessage token address operation e).exists_ofPieces
  rw [hps]
  exact ⟨ps, rfl, .intro (endLineAndExit_bind _ f)⟩

end

theorem flush_of_reaches_exit {α : Type} {code : Int32} {xs : List Talk} {d : Demand}
    {next : d.Reply → Task α} (h : Reaches (Log.exit code) xs (.ask d next))
    (stop : d.request.isStop) :
    ∃ sink rest, xs = Request.currentSink.talk sink :: rest ∧
      ∀ s : Sink, sink = some s → s.isResolved → ∃ console,
        rest =
          [(Request.flush .urgent s.channel).talk (), Request.currentConsole.talk console] := by
  cases h with
  | nil => cases stop
  | @cons _ _ sink rest _ after =>
      refine ⟨sink, rest, rfl, ?_⟩
      rintro s rfl resolved
      have hflush : Reaches ((Request.make (.flush .urgent s.channel)) >>= fun _ => Log.stop code)
          rest (.ask d next) := by
        have hafter : Reaches
            ((if s.isResolved then Request.make (.flush .urgent s.channel) else Log.flush) >>=
              fun _ => Log.stop code) rest (.ask d next) := after
        rwa [if_pos resolved] at hafter
      cases hflush with
      | nil => cases stop
      | cons hstop =>
          cases hstop with
          | nil => cases stop
          | @cons _ _ console _ _ hlast =>
              cases hlast with
              | nil => exact ⟨console, rfl⟩
              | @cons _ _ never _ _ _ => exact nomatch never

namespace Routing

/-- At this point of a run the channel is found that last words go to. -/
def Found (spell : Piece → Bytes) (c : Channel) (es : List Event) : Prop :=
  ((account spell es).FileInUse → c = .standardError) ∧
    (¬ (account spell es).FileInUse → c = (account spell es).sink.channel)

/-- Between these points of a run last words of a thread come to a channel, and nothing else comes
there in the middle of them. -/
def Spoken (spell : Piece → Bytes) (c : Channel) (ps : List Piece) (es es' : List Event) : Prop :=
  ∃ found taken, es <+: found ∧ found <+: taken ∧ taken <+: es' ∧ Found spell c found ∧
    (account spell es').texts c = (account spell taken).texts c ++ ps.flatMap spell

abbrev Continues : Crowd → List Event → Crowd → Prop :=
  Crew.Run (fun t => Session.perform t) fun _ job => job.1.task

variable {lineEnd : LineEnd} {tele : Bool} {environment : String → Option Bytes} {tree : FileTree}
  {es fs : List Event} {e : Event} {x y z : Crowd} {t : ThreadId} {c : Channel} {ps : List Piece}

theorem Spoken.later {spell : Piece → Bytes} {gs es' : List Event} (h : Spoken spell c ps gs es')
    (first : es <+: gs) : Spoken spell c ps es es' := by
  obtain ⟨found, taken, hfound, hrest⟩ := h
  exact ⟨found, taken, first.trans hfound, hrest⟩

section

variable (before : Run (Session.start ⟨.hosted, lineEnd, tele⟩ environment tree) es x)
include before

theorem exclusive_of_run : (account lineEnd.spell es).Exclusive := by
  induction before with
  | nil =>
      intro c t u ht
      cases ht
  | @snoc es e y z before happens ih =>
      obtain ⟨h, settled⟩ := settled_of_run before
      rw [account_snoc]
      cases e with
      | began => exact ih
      | made t job d answer s s' result =>
          obtain ⟨fits, h', -, -, move⟩ := settled.move happens
          exact settled.balances.exclusive ih fits move

theorem account_of_silent (happens : Happens x e z) (silent : e.exchange? t = none) :
    (account lineEnd.spell (es ++ [e])).prints t = (account lineEnd.spell es).prints t ∧
      ∀ c, ⟨c, true⟩ ∈ (account lineEnd.spell es).prints t →
        (account lineEnd.spell (es ++ [e])).texts c = (account lineEnd.spell es).texts c := by
  rw [account_snoc]
  cases e with
  | began => exact ⟨rfl, fun _ _ => rfl⟩
  | made u job d answer s s' result =>
      have other : u ≠ t := by
        rintro rfl
        simp [Crew.Event.exchange?] at silent
      obtain ⟨h, settled⟩ := settled_of_run before
      obtain ⟨fits, h', -, -, move⟩ := settled.move happens
      refine ⟨Ledger.prints_enter_of_ne (Ne.symm other), fun c uses => ?_⟩
      have htold := settled.balances.told_of_other (exclusive_of_run before) fits move uses other
      show (account lineEnd.spell es).texts c ++ _ = _
      rw [htold, List.append_nil]

theorem account_of_silent_run (after : Continues x fs y) (silent : Crew.asked t fs = []) :
    (account lineEnd.spell (es ++ fs)).prints t = (account lineEnd.spell es).prints t ∧
      ∀ c, ⟨c, true⟩ ∈ (account lineEnd.spell es).prints t →
        (account lineEnd.spell (es ++ fs)).texts c = (account lineEnd.spell es).texts c := by
  induction after with
  | nil =>
      rw [List.append_nil]
      exact ⟨rfl, fun _ _ => rfl⟩
  | @snoc fs e y z middle happens ih =>
      rw [Crew.asked_snoc] at silent
      obtain ⟨hfs, he⟩ := List.append_eq_nil_iff.mp silent
      obtain ⟨hprints, htexts⟩ := ih hfs
      obtain ⟨hprints', htexts'⟩ :=
        account_of_silent (before.trans middle) happens (Option.toList_eq_nil_iff.mp he)
      rw [← List.append_assoc]
      refine ⟨hprints'.trans hprints, fun c uses => ?_⟩
      rw [htexts' c (hprints.symm ▸ uses), htexts c uses]

/-- What a channel is told while a thread prints to it is what this thread puts there. -/
theorem texts_of_puts
    (head : ((account lineEnd.spell es).prints t).head? = some ⟨c, true⟩) (after : Continues x fs y)
    (puts : Crew.asked t fs = ps.map fun p => (Request.put c p).talk true) :
    ((account lineEnd.spell (es ++ fs)).prints t).head? = some ⟨c, true⟩ ∧
      (account lineEnd.spell (es ++ fs)).texts c =
        (account lineEnd.spell es).texts c ++ ps.flatMap lineEnd.spell := by
  induction after generalizing ps with
  | nil =>
      obtain rfl : ps = [] := List.map_eq_nil_iff.mp puts.symm
      simp [head]
  | @snoc fs e y z middle happens ih =>
      rw [Crew.asked_snoc] at puts
      cases he : e.exchange? t with
      | none =>
          rw [he, Option.toList_none, List.append_nil] at puts
          obtain ⟨hhead, htexts⟩ := ih puts
          obtain ⟨hprints', htexts'⟩ := account_of_silent (before.trans middle) happens he
          rw [← List.append_assoc, hprints', htexts' c (List.mem_of_head? hhead)]
          exact ⟨hhead, htexts⟩
      | some talk =>
          rw [he, Option.toList_some] at puts
          obtain ⟨qs, last, rfl, hqs, hlast⟩ := List.map_eq_append_iff.mp puts.symm
          obtain ⟨p, rfl, rfl⟩ := List.map_eq_singleton_iff.mp hlast
          obtain ⟨hhead, htexts⟩ := ih hqs.symm
          obtain ⟨job, s, s', result, rfl⟩ := Crew.exists_made_of_exchange? he
          rw [← List.append_assoc, account_snoc]
          refine ⟨?_, ?_⟩
          · rw [enter, Ledger.prints_enter_self]
            exact hhead
          · show (account lineEnd.spell (es ++ fs)).texts c ++ Ledger.told _ _ _ _ _ = _
            rw [htexts, List.flatMap_append, List.append_assoc]
            simp [Ledger.told, Request.talk, hhead]

theorem sink_of_resolved (resolved : (account lineEnd.spell es).sink.isResolved)
    (after : Continues x fs y) :
    (account lineEnd.spell (es ++ fs)).sink = (account lineEnd.spell es).sink := by
  induction after with
  | nil => rw [List.append_nil]
  | @snoc fs e y z middle happens ih =>
      rw [← List.append_assoc, account_snoc, ← ih]
      cases e with
      | began => rfl
      | made t job d answer s s' result =>
          obtain ⟨h, settled⟩ := settled_of_run (before.trans middle)
          obtain ⟨-, h', -, -, move⟩ := settled.move happens
          show Ledger.sinkAfter _ _ _ = _
          by_cases hr : d.request = .publishSink
          · obtain ⟨caller, r⟩ := d
            obtain rfl : r = .publishSink := hr
            cases move with
            | publishSink publication =>
                cases publication with
                | first unset opened =>
                    have hresolved := h.isResolved_sink
                    rw [settled.balances.sink, ih, resolved, unset] at hresolved
                    cases hresolved
                | late unable => rfl
            | other hr => cases hr
          · exact Ledger.sinkAfter_of_ne hr answer

/-! ## Urgent prints -/

theorem head_of_take (happens : Happens x e z) {talk : Talk} (he : e.exchange? t = some talk)
    (takes : talk = (Request.takeChannel c).talk () ∨ talk = (Request.tryTakeChannel c).talk true) :
    ((account lineEnd.spell (es ++ [e])).prints t).head? = some ⟨c, true⟩ := by
  have htaken {o : List Begun} (head : o.head? = some ⟨c, false⟩) :
      (o.modifyHead Begun.taken).head? = some ⟨c, true⟩ := by
    obtain ⟨rest, rfl⟩ := List.head?_eq_some_iff.mp head
    rfl
  obtain ⟨h, settled⟩ := settled_of_run before
  obtain ⟨job, s, s', result, rfl⟩ := Crew.exists_made_of_exchange? he
  have fits := (settled.move happens).1
  rw [account_snoc, enter, Ledger.prints_enter_self]
  rcases takes with rfl | rfl
  · exact htaken fits
  · exact htaken fits.2

theorem found_of_try {taken : Bool} (happens : Happens x e z)
    (he : e.exchange? t = some ((Request.tryTakeChannel .file).talk taken))
    (file : (account lineEnd.spell es).sink.channel = .file) :
    Found lineEnd.spell (if taken then .file else .standardError) es := by
  obtain ⟨h, settled⟩ := settled_of_run before
  obtain ⟨job, s, s', result, rfl⟩ := Crew.exists_made_of_exchange? he
  have htried : taken = true ↔ ∀ u, ⟨.file, true⟩ ∉ (account lineEnd.spell es).prints u :=
    settled.answers happens
  cases taken with
  | true =>
      refine ⟨?_, fun _ => file.symm⟩
      rintro ⟨-, u, hu⟩
      exact absurd hu (htried.mp rfl u)
  | false =>
      refine ⟨fun _ => rfl, fun unused => ?_⟩
      have hunused := htried.mpr fun u hu => unused ⟨file, u, hu⟩
      cases hunused

theorem found_of_taking {d : Channel} {ys : List Talk}
    (resolved : (account lineEnd.spell es).sink.isResolved)
    (hd : d = (account lineEnd.spell es).sink.channel)
    (taking : ChannelTaking .urgent d ys (.done c)) (after : Continues x fs y)
    (asked : Crew.asked t fs = ys) :
    ∃ fs₁ fs₂ fs₃ x', fs = fs₁ ++ (fs₂ ++ fs₃) ∧ Crew.asked t fs₁ = [] ∧ Crew.asked t fs₃ = [] ∧
      Continues x (fs₁ ++ fs₂) x' ∧ Continues x' fs₃ y ∧
      Found lineEnd.spell c (es ++ fs₁) ∧
      ((account lineEnd.spell (es ++ (fs₁ ++ fs₂))).prints t).head? = some ⟨c, true⟩ := by
  rcases taking.of_done with ⟨hfile, rfl, rfl⟩ | ⟨rfl, rfl, rfl⟩ | ⟨rfl, rfl, rfl⟩
  · obtain ⟨fs₁, e, fs₃, y₁, y₂, rfl, hfs₁, he, hfs₃, first, happens, last⟩ :=
      after.first_asked asked
    have hsink := sink_of_resolved before resolved first
    refine ⟨fs₁, [e], fs₃, y₂, rfl, hfs₁, hfs₃, first.snoc happens, last, ?_, ?_⟩
    · refine ⟨fun inUse => absurd ?_ hfile, fun _ => ?_⟩
      · rw [hd, ← hsink]
        exact inUse.1
      · rw [hd, hsink]
    · rw [← List.append_assoc]
      exact head_of_take (before.trans first) happens he (.inl rfl)
  · obtain ⟨fs₁, e, fs₃, y₁, y₂, rfl, hfs₁, he, hfs₃, first, happens, last⟩ :=
      after.first_asked asked
    have hsink := sink_of_resolved before resolved first
    refine ⟨fs₁, [e], fs₃, y₂, rfl, hfs₁, hfs₃, first.snoc happens, last, ?_, ?_⟩
    · exact found_of_try (before.trans first) happens he (by rw [hsink, ← hd])
    · rw [← List.append_assoc]
      exact head_of_take (before.trans first) happens he (.inr rfl)
  · obtain ⟨fs₁, e, fs', y₁, y₂, rfl, hfs₁, he, hfs', first, happens, later⟩ :=
      after.first_asked asked
    obtain ⟨fs₂, e', fs₃, y₃, y₄, rfl, hfs₂, he', hfs₃, second, happens', last⟩ :=
      later.first_asked hfs'
    have middle : Continues x (fs₁ ++ e :: fs₂) y₃ := by
      rw [List.append_cons]
      exact (first.snoc happens).trans second
    have hsink := sink_of_resolved before resolved first
    refine ⟨fs₁, e :: (fs₂ ++ [e']), fs₃, y₄, by simp, hfs₁, hfs₃, ?_, last, ?_, ?_⟩
    · have hlast := middle.snoc happens'
      rwa [List.append_assoc] at hlast
    · exact found_of_try (before.trans first) happens he (by rw [hsink, ← hd])
    · have hhead := head_of_take (before.trans middle) happens' he' (.inl rfl)
      rwa [List.append_assoc, List.append_assoc] at hhead

/-- An urgent print finds its channel by the sink in use when it begins, and by whether the writer
of a file is in use when it is tried. -/
theorem finds_channel {destination : Option Channel}
    (resolved : (account lineEnd.spell es).sink.isResolved) (after : Continues x fs y)
    (begun : Beginning .urgent (Crew.asked t fs) (.done destination)) :
    ∃ c fs₁ fs₂ fs₃ x', destination = some c ∧ fs = fs₁ ++ (fs₂ ++ fs₃) ∧ Crew.asked t fs₃ = [] ∧
      Continues x (fs₁ ++ fs₂) x' ∧ Continues x' fs₃ y ∧ Found lineEnd.spell c (es ++ fs₁) ∧
      ((account lineEnd.spell (es ++ (fs₁ ++ fs₂))).prints t).head? = some ⟨c, true⟩ := by
  obtain ⟨outlet, ys, hasked, houtlet⟩ := begun.of_done
  obtain ⟨gs, e, fs', x₁, x₂, rfl, hgs, he, hfs', first, happens, later⟩ := after.first_asked hasked
  obtain ⟨h, settled⟩ := settled_of_run (before.trans first)
  have looked := first.snoc happens
  have hlooked := sink_of_resolved before resolved looked
  have hfinds : outlet = .sink (account lineEnd.spell es).sink := by
    obtain ⟨job, s, s', result, rfl⟩ := Crew.exists_made_of_exchange? he
    have hanswer : outlet = .sink (account lineEnd.spell (es ++ gs)).sink := settled.answers happens
    rw [hanswer, sink_of_resolved before resolved first]
  rcases houtlet with hunset | hmissing | ⟨d, c, rfl, leads, taking⟩
  · rw [hunset] at hfinds
    rw [← Outlet.sink.inj hfinds] at resolved
    cases resolved
  · rw [hfinds] at hmissing
    cases hmissing
  · have hd : d = (account lineEnd.spell (es ++ (gs ++ [e]))).sink.channel := by
      rw [hfinds] at leads
      rw [hlooked]
      exact (Option.some.inj leads).symm
    obtain ⟨fs₁, fs₂, fs₃, x', rfl, hfs₁, hfs₃, middle, last, hfound, hhead⟩ :=
      found_of_taking (before.trans looked) (hlooked ▸ resolved) hd taking later hfs'
    refine ⟨c, gs ++ e :: fs₁, fs₂, fs₃, x', rfl, by simp, hfs₃, ?_, last, ?_, ?_⟩
    · have hmiddle := looked.trans middle
      simpa using hmiddle
    · simpa using hfound
    · simpa using hhead

theorem spoken_of_print {finish : Finish} (resolved : (account lineEnd.spell es).sink.isResolved)
    (after : Continues x fs y)
    (printed : Reaches (Log.printUrgent (Message.ofPieces ps)) (Crew.asked t fs) (.done finish))
    (taken : ∀ talk ∈ Crew.asked t fs, Talk.isRefusal talk = false) :
    ∃ c fs₁ fs₂, fs = fs₁ ++ fs₂ ∧ Spoken lineEnd.spell c ps es (es ++ fs₁) ∧
      finish = .returned ∧ (Crew.asked t fs).filterMap Talk.put? = ps.map (c, ·) := by
  obtain ⟨destination, formatting, xs, zs, hasked, begun, hrest⟩ := asked_of_printUrgent printed
  obtain ⟨gs, gs', x₁, rfl, hgs, hgs', first, later⟩ := after.split_asked hasked
  obtain ⟨c, fs₁, fs₂, fs₃, x₂, rfl, rfl, hfs₃, middle, last, hfound, hhead⟩ :=
    finds_channel before resolved first (hgs ▸ begun)
  obtain ⟨ys, rfl, hys⟩ := hrest c rfl
  obtain ⟨hs, hs', x₃, rfl, hhs, hhs', second, third⟩ := later.split_asked hgs'
  obtain ⟨is, e, js, x₄, x₅, rfl, his, he, hjs, fourth, happens, -⟩ := third.first_asked hhs'
  have hys_taken : ∀ talk ∈ ys, Talk.isRefusal talk = false := fun talk htalk =>
    taken talk (hasked.symm ▸ List.mem_append_right _ (List.mem_append_left _ htalk))
  obtain ⟨hputs, rfl⟩ := puts_of_deliver hys hys_taken
  -- from the moment the channel is taken until the print ends, the thread only puts its pieces
  have speaking : Continues x₂ (fs₃ ++ (hs ++ is)) x₄ := last.trans (second.trans fourth)
  have hspeaking :
      Crew.asked t (fs₃ ++ (hs ++ is)) = ps.map fun p => (Request.put c p).talk true := by
    rw [Crew.asked_append, Crew.asked_append, hfs₃, hhs, his, List.nil_append, List.append_nil,
      hputs]
  obtain ⟨-, htexts⟩ := texts_of_puts (before.trans middle) hhead speaking hspeaking
  have hend : (account lineEnd.spell (es ++ (fs₁ ++ fs₂) ++ (fs₃ ++ (hs ++ is)) ++ [e])).texts c =
      (account lineEnd.spell (es ++ (fs₁ ++ fs₂) ++ (fs₃ ++ (hs ++ is)))).texts c ∧
        finish = .returned := by
    obtain ⟨h, settled⟩ := settled_of_run ((before.trans middle).trans speaking)
    obtain ⟨job, s, s', result, rfl⟩ := Crew.exists_made_of_exchange? he
    obtain ⟨-, h', -, -, move⟩ := settled.move happens
    rw [account_snoc]
    refine ⟨List.append_nil _, ?_⟩
    cases move with
    | endPrint => rfl
    | other hr => cases hr
  refine ⟨c, fs₁ ++ (fs₂ ++ (fs₃ ++ (hs ++ (is ++ [e])))), js, by simp, ?_, hend.2, ?_⟩
  · refine ⟨es ++ fs₁, es ++ (fs₁ ++ fs₂), List.prefix_append .., ?_, ?_, hfound, ?_⟩
    · rw [← List.append_assoc]
      exact List.prefix_append ..
    · exact ⟨fs₃ ++ (hs ++ is) ++ [e], by simp⟩
    · rw [← htexts, ← hend.1]
      simp
  · rw [hasked, hputs, List.filterMap_append, begun.puts_nothing, List.filterMap_append,
      puts_of_pieces]
    exact List.append_nil _

/-! ## The flush -/

theorem accepts_of_later (after : Continues x fs y) {h h' : Hosted}
    (hx : x.state.platform = .hosted h) (hy : y.state.platform = .hosted h')
    (accepts : h'.Accepts) : h.Accepts := by
  induction after generalizing h' with
  | nil =>
      rw [hx] at hy
      cases hy
      exact accepts
  | snoc middle happens ih =>
      obtain ⟨h₁, settled⟩ := settled_of_run (before.trans middle)
      refine ih settled.platform ?_
      cases happens with
      | began =>
          rw [settled.platform] at hy
          cases hy
          exact accepts
      | made busy reply =>
          obtain ⟨h₂, hplatform, move⟩ := Session.move_of_reply settled.platform reply
          rw [hplatform] at hy
          cases hy
          exact accepts.of_move move

theorem kept_of_urgent_flush (happens : Happens x e z)
    (he : e.exchange? t =
      some ((Request.flush .urgent (account lineEnd.spell es).sink.channel).talk ()))
    {h : Hosted} (hplatform : z.state.platform = .hosted h) (accepts : h.Accepts)
    (unused : ¬ (account lineEnd.spell es).FileInUse) :
    h.kept (account lineEnd.spell es).sink.channel = [] := by
  obtain ⟨h₀, settled⟩ := settled_of_run before
  obtain ⟨job, s, s', result, rfl⟩ := Crew.exists_made_of_exchange? he
  obtain ⟨-, h₁, hplatform', -, move⟩ := settled.move happens
  obtain rfl : h₁ = h := Platform.hosted.inj (hplatform'.symm.trans hplatform)
  have accepted := accepts.of_move move
  cases move with
  | flush free => exact kept_push_of_accepts accepted _
  | passBy passes busy =>
      have hfile : (account lineEnd.spell es).sink.channel = .file := (of_decide_eq_true passes).2
      rw [hfile] at busy ⊢
      have hunused : h₀.busy t .file = false :=
        (settled.balances.busy_file t).mpr fun u hu => unused ⟨hfile, u, hu⟩
      rw [hunused] at busy
      cases busy
  | other hr => cases hr

/-- The flush of last words empties the buffer of the sink, unless the sink is a file whose writer
is in use. -/
theorem flushed_of_exit {α : Type} {code : Int32} {d : Demand} {next : d.Reply → Task α}
    (resolved : (account lineEnd.spell es).sink.isResolved) (after : Continues x fs y)
    (exits : Reaches (Log.exit code) (Crew.asked t fs) (.ask d next)) (stop : d.request.isStop)
    {h : Hosted} (hplatform : y.state.platform = .hosted h) (accepts : h.Accepts) :
    ∃ fs₁ e fs₂ z h', fs = fs₁ ++ e :: fs₂ ∧ (Crew.asked t fs).filterMap Talk.put? = [] ∧
      Run (Session.start ⟨.hosted, lineEnd, tele⟩ environment tree) (es ++ fs₁ ++ [e]) z ∧
      z.state.platform = .hosted h' ∧
      (¬ (account lineEnd.spell (es ++ fs₁)).FileInUse →
        h'.kept (account lineEnd.spell (es ++ fs₁)).sink.channel = []) := by
  obtain ⟨sink, rest, hasked, hsink⟩ := flush_of_reaches_exit exits stop
  obtain ⟨gs, e, fs', x₁, x₂, rfl, hgs, he, hfs', first, happens, later⟩ := after.first_asked hasked
  have hfound : sink = some (account lineEnd.spell es).sink := by
    obtain ⟨h₁, settled⟩ := settled_of_run (before.trans first)
    obtain ⟨job, s, s', result, rfl⟩ := Crew.exists_made_of_exchange? he
    have hanswer : sink = some (account lineEnd.spell (es ++ gs)).sink := settled.answers happens
    rw [hanswer, sink_of_resolved before resolved first]
  obtain ⟨console, rfl⟩ := hsink _ hfound resolved
  obtain ⟨gs', e', fs₂, x₃, x₄, rfl, hgs', he', hfs₂, second, happens', last⟩ :=
    later.first_asked hfs'
  have middle : Continues x (gs ++ e :: gs') x₃ := by
    rw [List.append_cons]
    exact (first.snoc happens).trans second
  have now := (before.trans middle).snoc happens'
  obtain ⟨h', settled⟩ := settled_of_run now
  have accepted : h'.Accepts := accepts_of_later now last settled.platform hplatform accepts
  refine ⟨gs ++ e :: gs', e', fs₂, x₄, h', by simp, ?_, now, settled.platform, fun unused => ?_⟩
  · rw [hasked]
    rfl
  · rw [← sink_of_resolved before resolved middle] at he'
    exact kept_of_urgent_flush (before.trans middle) happens' he' settled.platform accepted unused

/-! ## The three parts -/

section

variable {job job' : Job} {p : Task (Option Answer)} {d : Demand}
  {next : d.Reply → Task (Option Answer)} {h : Hosted}
  (resolved : (account lineEnd.spell es).sink.isResolved) (begins : x.doing t = some (job, p))
  (line : EndsWithLine ps p) (after : Continues x fs y)
  (stays : ∀ other result, .began t other result ∉ fs)
  (last : y.doing t = some (job', .ask d next)) (stop : d.request.isStop)
  (hplatform : y.state.platform = .hosted h) (accepts : h.Accepts)
include resolved begins line after stays last stop hplatform accepts

/-- A thread that is about to print a line as its last words and then to end the run does so in
three parts, whatever other threads do in between:

* the pieces of the line come to a channel one after another;
* so does the end of the line, and it finds its channel for itself;
* at a third point, where nothing is kept back any more unless the writer of the file is in use, the
  line is flushed.

The thread puts nothing else. -/
theorem last_words_in_parts :
    ∃ c₁ c₂ es₁ es₂ es₃ e z h',
      Spoken lineEnd.spell c₁ ps es es₁ ∧ Spoken lineEnd.spell c₂ [.lineEnd] es₁ es₂ ∧
      (Crew.asked t fs).filterMap Talk.put? = ps.map (c₁, ·) ++ [(c₂, .lineEnd)] ∧
      es₂ <+: es₃ ∧ es₃ ++ [e] <+: es ++ fs ∧
      Run (Session.start ⟨.hosted, lineEnd, tele⟩ environment tree) (es₃ ++ [e]) z ∧
      z.state.platform = .hosted h' ∧
      (¬ (account lineEnd.spell es₃).FileInUse →
        h'.kept (account lineEnd.spell es₃).sink.channel = []) := by
  obtain @⟨k, code, ends⟩ := line
  obtain ⟨hexchanges, hgoes⟩ := after.goes_on begins stays
  obtain ⟨-, hreaches⟩ := hgoes job' _ last
  have taken : ∀ talk ∈ Crew.asked t fs, Talk.isRefusal talk = false := by
    obtain ⟨h₁, settled⟩ := settled_of_run (before.trans after)
    obtain rfl : h₁ = h := Platform.hosted.inj (settled.platform.symm.trans hplatform)
    intro talk htalk
    refine settled.taken accepts t talk ?_
    rw [hexchanges]
    exact List.mem_append_right _ htalk
  rcases Program.reaches_bind_ask hreaches with ⟨next', hask⟩ | ⟨finish, xs, zs, hasked, hxs, hzs⟩
  · exact absurd hask (not_reaches_printUrgent_stop stop)
  obtain ⟨gs, gs', x₁, rfl, hgs, hgs', first, later⟩ := after.split_asked hasked
  obtain ⟨c₁, gs₁, gs₂, rfl, hspoken₁, rfl, hputs₁⟩ := spoken_of_print before resolved first
    (hgs ▸ hxs) fun talk htalk => taken talk (by rw [hasked, ← hgs]; simp [htalk])
  rw [ends] at hzs
  rcases Program.reaches_bind_ask hzs with ⟨next', hask⟩ | ⟨finish, ys, ws, hasked', hys, hws⟩
  · exact (not_reaches_printUrgent_stop (p := [.lineEnd]) stop hask).elim
  have before₁ := before.trans first
  have hsink₁ := sink_of_resolved before resolved first
  obtain ⟨hs, hs', x₂, rfl, hhs, hhs', second, third⟩ := later.split_asked (hgs'.trans hasked')
  have hline : Reaches (Log.printUrgent (Message.ofPieces [.lineEnd])) (Crew.asked t hs)
      (.done _) := hhs ▸ hys
  obtain ⟨c₂, hs₁, hs₂, rfl, hspoken₂, -, hputs₂⟩ := spoken_of_print before₁
    (hsink₁ ▸ resolved) second hline
    fun talk htalk => taken talk (by rw [hasked, hasked', ← hhs]; simp [htalk])
  have before₂ := before₁.trans second
  have hsink₂ := sink_of_resolved before₁ (hsink₁ ▸ resolved) second
  obtain ⟨is, e, is', z, h', rfl, hputs₃, run, hz, hkept⟩ := flushed_of_exit before₂
    (hsink₂ ▸ hsink₁ ▸ resolved) third (hhs' ▸ hws) stop hplatform accepts
  refine ⟨c₁, c₂, es ++ gs₁, es ++ (gs₁ ++ gs₂) ++ hs₁, es ++ (gs₁ ++ gs₂) ++ (hs₁ ++ hs₂) ++ is, e,
    z, h', hspoken₁, hspoken₂.later ?_, ?_, ?_, ?_, run, hz, hkept⟩
  · exact ⟨gs₂, by simp⟩
  · rw [hasked, hasked', List.filterMap_append, List.filterMap_append, ← hgs, ← hhs, ← hhs', hputs₁,
      hputs₂, hputs₃, List.append_nil]
    rfl
  · exact ⟨hs₂ ++ is, by simp⟩
  · exact ⟨is', by simp⟩

/-- As long as somebody is in the middle of a print to the file, last words of others go to standard
error, their message and the end of their line, and the file is left as it is. -/
theorem last_words_miss_file {u : ThreadId} (file : (account lineEnd.spell es).sink.channel = .file)
    (uses : ⟨.file, true⟩ ∈ (account lineEnd.spell es).prints u) (rests : Crew.asked u fs = []) :
    (Crew.asked t fs).filterMap Talk.put? = (ps ++ [Piece.lineEnd]).map (Channel.standardError, ·) ∧
      (account lineEnd.spell (es ++ fs)).texts .file = (account lineEnd.spell es).texts .file := by
  have hmissed {c : Channel} {found : List Event} (first : es <+: found) (last : found <+: es ++ fs)
      (hfound : Found lineEnd.spell c found) : c = .standardError := by
    obtain ⟨gs, rfl⟩ := first
    obtain ⟨gs', rfl⟩ := (List.prefix_append_right_inj es).mp last
    rw [Crew.asked_append] at rests
    obtain ⟨z, middle, -⟩ := after.split
    have hprints := (account_of_silent_run before middle (List.append_eq_nil_iff.mp rests).1).1
    refine hfound.1 ⟨?_, u, ?_⟩
    · rw [sink_of_resolved before resolved middle, file]
    · rw [hprints]
      exact uses
  obtain ⟨c₁, c₂, es₁, es₂, es₃, e, -, -, ⟨found₁, taken₁, h₁, h₂, h₃, hfound₁, -⟩,
    ⟨found₂, taken₂, h₄, h₅, h₆, hfound₂, -⟩, hputs, h₇, h₈, -⟩ :=
    last_words_in_parts before resolved begins line after stays last stop hplatform accepts
  have hes₂ : es₂ <+: es ++ fs := (h₇.trans (List.prefix_append ..)).trans h₈
  have hes₁ : es₁ <+: es₂ := h₄.trans (h₅.trans h₆)
  obtain rfl := hmissed h₁ (h₂.trans (h₃.trans (hes₁.trans hes₂))) hfound₁
  obtain rfl := hmissed (h₁.trans (h₂.trans (h₃.trans h₄))) (h₅.trans (h₆.trans hes₂)) hfound₂
  refine ⟨?_, (account_of_silent_run before after rests).2 .file uses⟩
  rw [hputs, List.map_append]
  rfl

end

end

def openedFile : Job :=
  ⟨.call (.tryOpenStream (some (Bytes.ofString "vm.log"))), rfl⟩

def interruptedLine : Job :=
  ⟨.println [.text (Bytes.ofString "a")], rfl⟩

def misuse : Job :=
  ⟨.call .unlock, rfl⟩

/-- A misuse of the log lock is told on standard error in the middle of somebody else's print to the
file.  The end of its line comes to the file, for the print has ended before the line. -/
theorem line_end_apart : ∃ (es : List Event) (x : Crowd) (job : Job) (console : Option ConsoleId)
    (next : Empty → Task (Option Answer)),
    Run (Session.start ⟨.hosted, .lf, false⟩ (fun _ => none) .empty) es x ∧
      x.doing (.lasting 1) =
        some (job, .ask (Request.stop console Config.mutexFailureCode).demand next) ∧
      (account LineEnd.lf.spell es).texts .file = Bytes.ofString "a" ++ LineEnd.lf.bytes ∧
      (account LineEnd.lf.spell es).texts .standardError =
        Bytes.ofString ("Thread 0x700000000010 could not unlock mutex 0x500000001000: " ++
          "operation not permitted") :=
  ⟨_, _, _, _, _, Crew.run_of_follow
    ((.lasting 0, some openedFile) :: List.replicate 3 (.lasting 0, none) ++
      (.lasting 0, some interruptedLine) :: List.replicate 6 (.lasting 0, none) ++
      (.lasting 1, some misuse) :: List.replicate 19 (.lasting 1, none) ++
      List.replicate 2 (.lasting 0, none) ++ List.replicate 7 (.lasting 1, none)) rfl, rfl, rfl,
    rfl⟩

end Routing

end DiagnosticLog
