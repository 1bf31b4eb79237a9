import DiagnosticLog.Log.Record
import DiagnosticLog.Proofs.Mutex.Stage
import DiagnosticLog.Proofs.Session.Printers

/-!
# Statements

A statement is a number of prints under the log lock.  The lock is taken and released by hand, by a
guard, or by the operations that log a whole line.  A thread that has got the lock comes through the
rest of its statement without waiting, says the text of the statement, and leaves everything else as
it was before it took the lock (`speaks_claimed`).
-/

namespace DiagnosticLog

inductive Statement where
  | locked (body : List Primitive)
  | guarded (body : List Primitive)
  | line (message : List Piece)
  | emptyLine
  | record (level : Level) (message : List Piece)

namespace Statement

def bodyTask : List Primitive → Task Unit
  | [] => return ()
  | print :: rest => do
      print.task
      bodyTask rest

def task : Statement → Task Unit
  | locked body => do
      Log.lock
      bodyTask body
      Log.unlock
  | guarded body => do
      Log.acquireGuard
      bodyTask body
      Log.dropGuard
  | line message => do
      let _ ← Log.println (Message.ofPieces message)
  | emptyLine => do
      let _ ← Log.printlnEmpty
  | record level message => do
      let _ ← Log.record level (Message.ofPieces message)

def text (s : Session) : Statement → Bytes
  | locked body => body.flatMap (Primitive.text s)
  | guarded body => body.flatMap (Primitive.text s)
  | line message => message.flatMap s.spell ++ s.lineEnd.bytes
  | emptyLine => s.lineEnd.bytes
  | record level message =>
      Bytes.ofString "[" ++ Bytes.ofString level.name ++ Bytes.ofString "] " ++
        message.flatMap s.spell ++ s.lineEnd.bytes

/-! ## Stages before the lock is held -/

def inner : Statement → Task Unit
  | locked body => do
      bodyTask body
      Log.unlock
  | guarded body => do
      Request.make .pushGuard
      bodyTask body
      Log.dropGuard
  | line message => do
      let _ ← Log.line (Message.ofPieces message)
      Log.unlock
  | emptyLine => do
      let _ ← Log.print Message.lineEnd
      Log.unlock
  | record level message => do
      let _ ← Log.line (Log.levelHeader level ++ Message.ofPieces message)
      Log.unlock

/-- What is left when the raw lock has been taken by the thread with token `me`. -/
def claiming (me : Token) (stmt : Statement) : Task Unit :=
  .ask (Request.access .log (.storeOwner me)).demand fun _ => stmt.inner

/-- What is left when the thread with token `me` has found that it does not own the lock. -/
def taking (me : Token) (stmt : Statement) : Task Unit :=
  .ask (Request.access .log .lockRaw).demand fun _ => claiming me stmt

/-- What is left when the thread knows its token.  It would be fatal to find that it owns the lock
already. -/
def checking (me : Token) (stmt : Statement) : Task Unit :=
  .ask (Request.access .log .loadOwner).demand fun owner =>
    if owner = me then (do Log.mutexFailure "lock" .deadlock; stmt.inner) else taking me stmt

theorem task_eq_lock_inner (stmt : Statement) : stmt.task = (do Log.lock; stmt.inner) := by
  cases stmt with
  | locked body => rfl
  | guarded body =>
      simp only [task, inner, Log.acquireGuard, bind_assoc]
  | line message =>
      simp only [task, inner, Log.println, Log.bracketed, bind_assoc, pure_bind, bind_pure_unit]
  | emptyLine =>
      simp only [task, inner, Log.printlnEmpty, Log.bracketed, bind_assoc, pure_bind,
        bind_pure_unit]
  | record level message =>
      simp only [task, inner, Log.record, Log.bracketed, bind_assoc, pure_bind, bind_pure_unit]

theorem onLock_enterAs {me : Token} (known : me ≠ Token.anonymous) :
    Log.onLock .log (CheckedMutex.enterAs me) =
      .ask (Request.access .log .loadOwner).demand fun owner =>
        if owner = me then .done (.error .deadlock)
        else
          .ask (Request.access .log .lockRaw).demand fun _ =>
            .ask (Request.access .log (.storeOwner me)).demand fun _ => .done (.ok ()) := by
  unfold Log.onLock CheckedMutex.enterAs
  rw [if_neg known, Access.make_bind, Program.relay_ask, Request.make_bind]
  congr 1
  funext owner
  split <;> rfl

theorem task_eq_ask (stmt : Statement) :
    ∃ next : Token → Task Unit, stmt.task = .ask Request.self.demand next ∧
      ∀ me, me ≠ Token.anonymous → next me = checking me stmt := by
  rw [task_eq_lock_inner]
  refine ⟨_, rfl, fun me known => ?_⟩
  show Log.onLock .log (CheckedMutex.enterAs me) >>= _ >>= _ = _
  rw [onLock_enterAs known]
  show Program.ask _ _ = Program.ask _ _
  congr 1
  funext owner
  by_cases own : owner = me
  · simp only [if_pos own]
    rfl
  · simp only [if_neg own]
    rfl

end Statement

namespace Session

/-- No print is under way that could be in the way of others, the log lock is as given, and nothing
that a statement depends on has changed since the session `s₀`. -/
structure Settled (s₀ : Session) (c : Channel) (m : CheckedMutex SpinLock) (s : Session) :
    Prop where
  lock : s.locks .log = m
  prints : ∀ t, s₀.Prints t .patient c → s.Prints t .patient c
  tokenOf : s.tokenOf = s₀.tokenOf
  lineEnd : s.lineEnd = s₀.lineEnd
  formatsReals : s.formatsReals = s₀.formatsReals

/-- The raw log lock is taken, and nobody but the thread with token `me` owns it. -/
structure Inside (s₀ : Session) (me : Token) (s : Session) : Prop where
  taken : (s.locks .log).raw.flag = true
  owner : (s.locks .log).owner = Token.noOwner ∨ (s.locks .log).owner = me
  tokenOf : s.tokenOf = s₀.tokenOf

def lockOf (me : Token) : CheckedMutex SpinLock :=
  ⟨⟨true⟩, me⟩

def setLock (s : Session) (m : CheckedMutex SpinLock) : Session :=
  { s with locks := update s.locks .log m }

def setGuards (s : Session) (t : ThreadId) (n : Nat) : Session :=
  { s with guards := update s.guards t n }

variable {s₀ s s' : Session} {t : ThreadId} {c : Channel} {me : Token}
  {m : CheckedMutex SpinLock}

namespace Settled

theorem spell (h : Settled s₀ c m s) : s.spell = s₀.spell := by
  rw [spell_eq, h.lineEnd, spell_eq]

theorem putAll (h : Settled s₀ c m s) (ps : List Piece) : Settled s₀ c m (s.putAll c ps) := by
  have halike := alike_putAll s c ps
  constructor
  · rw [halike.locks, h.lock]
  · intro t prints
    exact (h.prints t prints).putAll c ps
  · rw [halike.tokenOf, h.tokenOf]
  · rw [halike.lineEnd, h.lineEnd]
  · rw [halike.formatsReals, h.formatsReals]

theorem setLock (h : Settled s₀ c m s) (m' : CheckedMutex SpinLock) :
    Settled s₀ c m' (s.setLock m') :=
  ⟨update_self s.locks .log m', h.prints, h.tokenOf, h.lineEnd, h.formatsReals⟩

theorem setGuards (h : Settled s₀ c m s) (t : ThreadId) (n : Nat) :
    Settled s₀ c m (s.setGuards t n) :=
  ⟨h.lock, h.prints, h.tokenOf, h.lineEnd, h.formatsReals⟩

theorem inside (h : Settled s₀ c m s) (taken : m.raw.flag = true)
    (owner : m.owner = Token.noOwner ∨ m.owner = me) : Inside s₀ me s := by
  constructor
  · rw [h.lock]
    exact taken
  · rw [h.lock]
    exact owner
  · exact h.tokenOf

theorem mine (h : Settled s₀ c (lockOf me) s) : Inside s₀ me s :=
  h.inside rfl (.inr rfl)

end Settled

theorem Inside.of_alike (h : Inside s₀ me s) (halike : Alike s s') : Inside s₀ me s' := by
  constructor
  · rw [halike.locks]
    exact h.taken
  · rw [halike.locks]
    exact h.owner
  · rw [halike.tokenOf, h.tokenOf]

/-! ## Giving the lock back -/

theorem reply_access {a : Access} {answer : a.Reply}
    (hm : CheckedMutex.perform a (s.locks .log) = .reply answer m) :
    perform t (Request.access .log a).demand s = .reply answer (s.setLock m) := by
  simp only [perform_demand, performAs, hm]
  rfl

theorem setLock_setLock (s : Session) (m m' : CheckedMutex SpinLock) :
    (s.setLock m).setLock m' = s.setLock m' := by
  simp only [setLock, Session.mk.injEq, true_and, and_true]
  funext name
  unfold update
  split <;> rfl

theorem locks_setLock (s : Session) (m : CheckedMutex SpinLock) :
    (s.setLock m).locks .log = m :=
  update_self s.locks .log m

theorem reply_storeOwner {raw : SpinLock} {owner : Token} (hm : s.locks .log = ⟨raw, owner⟩)
    (me : Token) :
    perform t (Request.access .log (.storeOwner me)).demand s = .reply () (s.setLock ⟨raw, me⟩) :=
  reply_access (by rw [hm]; rfl)

theorem reply_unlockRaw {raw : SpinLock} {owner : Token} (hm : s.locks .log = ⟨raw, owner⟩) :
    perform t (Request.access .log .unlockRaw).demand s =
      .reply () (s.setLock ⟨⟨false⟩, owner⟩) :=
  reply_access (by rw [hm]; rfl)

theorem onLock_exitAs (me : Token) :
    Log.onLock .log (CheckedMutex.exitAs me) =
      .ask (Request.access .log .isLocked).demand fun locked =>
        if locked then
          .ask (Request.access .log .loadOwner).demand fun owner =>
            if CheckedMutex.Stage.Foreign me owner then .done (.error .notOwner)
            else
              .ask (Request.access .log (.storeOwner Token.noOwner)).demand fun _ =>
                .ask (Request.access .log .unlockRaw).demand fun _ => .done (.ok ())
        else .done (.error .notOwner) := by
  unfold Log.onLock CheckedMutex.exitAs
  rw [Access.make_bind, Program.relay_ask, Request.make_bind]
  congr 1
  funext locked
  cases locked with
  | false => rfl
  | true =>
      simp only [if_true]
      rw [Access.make_bind, Program.relay_ask, Request.make_bind]
      congr 1
      funext owner
      by_cases foreign : CheckedMutex.Stage.Foreign me owner
      · rw [if_pos foreign, if_pos (show _ ∧ _ ∧ _ from foreign)]
        rfl
      · rw [if_neg foreign, if_neg (show ¬ (_ ∧ _ ∧ _) from foreign)]
        rfl

theorem reply_popGuard {n : Nat} (h : s.guards t = n + 1) :
    performAs t .popGuard s = .reply true (s.setGuards t n) := by
  simp only [performAs, h]
  rfl

theorem speaks_exitAs (h : Settled s₀ c (lockOf me) s) (takes : s.Takes c) :
    Speaks t c (Inside s₀ me) (Log.onLock .log (CheckedMutex.exitAs me)) s [] (.ok ())
      (s.setLock CheckedMutex.unowned) := by
  have hlocked : perform t (Request.access .log .isLocked).demand s = .reply true s := by
    rw [reply_isLocked, h.lock]
    rfl
  have howner : perform t (Request.access .log .loadOwner).demand s = .reply me s := by
    rw [reply_loadOwner, h.lock]
    rfl
  have hmine : ¬ CheckedMutex.Stage.Foreign me me := fun foreign => foreign.2.2 rfl
  have hdisown := reply_storeOwner (t := t) h.lock Token.noOwner
  have hnobody := h.setLock (lockOf Token.noOwner)
  have hfree := reply_unlockRaw (t := t) hnobody.lock
  rw [setLock_setLock] at hfree
  rw [onLock_exitAs]
  refine .ask (b := []) h.mine takes hlocked trivial (.ask (b := []) h.mine takes howner trivial ?_)
  rw [if_neg hmine]
  exact .ask (b := []) h.mine takes hdisown trivial
    (.ask (b := []) (hnobody.inside rfl (.inl rfl)) takes hfree trivial .done)

theorem speaks_unlock (h : Settled s₀ c (lockOf me) s) (takes : s.Takes c)
    (hme : s₀.tokenOf t = me) :
    Speaks t c (Inside s₀ me) Log.unlock s [] () (s.setLock CheckedMutex.unowned) := by
  have hself : perform t Request.self.demand s = .reply me s := by
    rw [reply_self, h.tokenOf, hme]
  have hleave : Speaks t c (Inside s₀ me) (Log.leave .log) s [] (.ok ())
      (s.setLock CheckedMutex.unowned) :=
    .ask (b := []) h.mine takes hself trivial (speaks_exitAs h takes)
  exact hleave.bind .done

/-! ## The prints of a statement -/

section Body

variable (prints : s₀.Prints t .patient c)

include prints

theorem speaks_settled (h : Settled s₀ c (lockOf me) s) (print : Primitive) :
    ∃ ps, Speaks t c (Inside s₀ me) print.task s (print.text s₀) () (s.putAll c ps) := by
  rw [← Primitive.text_congr h.lineEnd h.formatsReals]
  exact speaks_primitive (h.prints t prints) (fun s' => h.mine.of_alike) print

theorem speaks_body (h : Settled s₀ c (lockOf me) s) (body : List Primitive) :
    ∃ ps, Speaks t c (Inside s₀ me) (Statement.bodyTask body) s
      (body.flatMap (Primitive.text s₀)) () (s.putAll c ps) := by
  induction body generalizing s with
  | nil => exact ⟨[], .done⟩
  | cons print rest ih =>
      obtain ⟨ps, hprint⟩ := speaks_settled prints h print
      obtain ⟨qs, hrest⟩ := ih (h.putAll ps)
      refine ⟨ps ++ qs, ?_⟩
      rw [putAll_append]
      exact hprint.bind hrest

theorem speaks_print (h : Settled s₀ c (lockOf me) s) (ps : List Piece) :
    Speaks t c (Inside s₀ me) (Log.print (Message.ofPieces ps)) s (ps.flatMap s₀.spell)
      .returned (s.putAll c ps) := by
  rw [← h.spell]
  exact speaks_printWith (h.prints t prints) (fun s' => h.mine.of_alike) ps

def headerPieces (level : Level) : List Piece :=
  [.text (Bytes.ofString "["), .text (Bytes.ofString level.name), .text (Bytes.ofString "] ")]

theorem speaks_line (h : Settled s₀ c (lockOf me) s) (ps : List Piece) :
    ∃ qs, Speaks t c (Inside s₀ me) (Log.line (Message.ofPieces ps)) s
      (ps.flatMap s₀.spell ++ s₀.lineEnd.bytes) .returned (s.putAll c qs) := by
  have hmessage := speaks_print prints h ps
  have hend := speaks_print prints (h.putAll ps) [.lineEnd]
  refine ⟨ps ++ [.lineEnd], ?_⟩
  rw [putAll_append]
  have htext : [Piece.lineEnd].flatMap s₀.spell = s₀.lineEnd.bytes := List.append_nil _
  rw [htext] at hend
  exact hmessage.bind hend

theorem speaks_then_unlock {α : Type} {said : Task α} {a : α} {b : Bytes}
    (h : Settled s₀ c (lockOf me) s) (hme : s₀.tokenOf t = me)
    (hsaid : ∃ ps, Speaks t c (Inside s₀ me) said s b a (s.putAll c ps)) :
    ∃ s', Speaks t c (Inside s₀ me) (said >>= fun _ => Log.unlock) s b () s' ∧
      Settled s₀ c CheckedMutex.unowned s' := by
  obtain ⟨ps, hsaid⟩ := hsaid
  have hafter := h.putAll ps
  have hunlock := speaks_unlock hafter (hafter.prints t prints).takes hme
  have hall := hsaid.bind (f := fun _ => Log.unlock) hunlock
  rw [List.append_nil] at hall
  exact ⟨_, hall, hafter.setLock CheckedMutex.unowned⟩

theorem speaks_guarded (h : Settled s₀ c (lockOf me) s) (hme : s₀.tokenOf t = me)
    (body : List Primitive) :
    ∃ s', Speaks t c (Inside s₀ me) (Statement.guarded body).inner s
      (body.flatMap (Primitive.text s₀)) () s' ∧ Settled s₀ c CheckedMutex.unowned s' := by
  have hpush : performAs t .pushGuard s = .reply () (s.setGuards t (s.guards t + 1)) := rfl
  have hkept := h.setGuards t (s.guards t + 1)
  obtain ⟨ps, hbody⟩ := speaks_body prints hkept body
  have hsaid := hkept.putAll ps
  have hguards : ((s.setGuards t (s.guards t + 1)).putAll c ps).guards t = s.guards t + 1 := by
    rw [(alike_putAll _ c ps).guards]
    exact update_self s.guards t (s.guards t + 1)
  have hpop := reply_popGuard hguards
  have hleft := hsaid.setGuards t (s.guards t)
  have hdrop : Speaks t c (Inside s₀ me) Log.dropGuard _ [] () _ :=
    (Speaks.request hsaid.mine (hsaid.prints t prints).takes hpop trivial rfl).bind
      (speaks_unlock hleft (hleft.prints t prints).takes hme)
  have hpushed : Speaks t c (Inside s₀ me) (Request.make .pushGuard) s [] () _ :=
    .request h.mine (h.prints t prints).takes hpush trivial rfl
  have hrest := hbody.bind (f := fun _ => Log.dropGuard) hdrop
  have hall := hpushed.bind (f := fun _ => do Statement.bodyTask body; Log.dropGuard) hrest
  rw [List.nil_append, List.append_nil] at hall
  exact ⟨_, hall, hleft.setLock CheckedMutex.unowned⟩

/-- Whoever has taken the raw lock comes through the statement. -/
theorem speaks_claiming (h : Settled s₀ c (lockOf Token.noOwner) s) (hme : s₀.tokenOf t = me)
    (stmt : Statement) :
    ∃ s', Speaks t c (Inside s₀ me) (stmt.claiming me) s (stmt.text s₀) () s' ∧
      Settled s₀ c CheckedMutex.unowned s' := by
  have hclaim := reply_storeOwner (t := t) h.lock me
  have hmine := h.setLock (lockOf me)
  have takes : (s.setLock (lockOf me)).Takes c := (hmine.prints t prints).takes
  suffices hinner : ∃ s', Speaks t c (Inside s₀ me) stmt.inner (s.setLock (lockOf me))
      (stmt.text s₀) () s' ∧ Settled s₀ c CheckedMutex.unowned s' by
    obtain ⟨s', hspeaks, hsettled⟩ := hinner
    exact ⟨s', .ask (h.inside rfl (.inl rfl)) (h.prints t prints).takes hclaim trivial hspeaks,
      hsettled⟩
  cases stmt with
  | locked body => exact speaks_then_unlock prints hmine hme (speaks_body prints hmine body)
  | guarded body => exact speaks_guarded prints hmine hme body
  | line message => exact speaks_then_unlock prints hmine hme (speaks_line prints hmine message)
  | emptyLine =>
      have hend := speaks_print prints hmine [.lineEnd]
      have htext : [Piece.lineEnd].flatMap s₀.spell = s₀.lineEnd.bytes := List.append_nil _
      rw [htext] at hend
      exact speaks_then_unlock prints hmine hme ⟨_, hend⟩
  | record level message =>
      have hmessage : Log.levelHeader level ++ Message.ofPieces message =
          Message.ofPieces (headerPieces level ++ message) := by
        simp [Log.levelHeader, headerPieces, Message.text, Message.ofPieces]
      have htext : (Statement.record level message).text s₀ =
          (headerPieces level ++ message).flatMap s₀.spell ++ s₀.lineEnd.bytes := by
        simp [Statement.text, headerPieces, spell]
      have hline := speaks_line prints hmine (headerPieces level ++ message)
      rw [← hmessage, ← htext] at hline
      exact speaks_then_unlock prints hmine hme hline

end Body

end Session

end DiagnosticLog
