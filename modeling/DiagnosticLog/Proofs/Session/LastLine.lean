import DiagnosticLog.Proofs.Survival.Idle

/-!
# The last line of a run

Where an urgent print goes to its channel at once, a thread that makes a fatal call comes to the end
of the run, whatever other prints are under way, and the words of the call are the last text that
the channel is given (`endsWith_words`).
-/

namespace DiagnosticLog.Session

variable {s : Session} {t : ThreadId} {c : Channel} {way : WayOut} {α : Type}

def EndsWith (s : Session) (t : ThreadId) (c : Channel) (task : Task Unit) (ending : Ending)
    (b : Bytes) : Prop :=
  ∃ s', task.run (perform t) s = .ended ending s' ∧
    ∀ before, s.HasText c before → s'.HasText c (before ++ b)

theorem run_exit_of_prints (prints : s.Prints t .urgent c) (out : s.wayOut = some way)
    (code : Int32) :
    ∃ s', (Log.exit code : Task α).run (perform t) s = .ended (way.ending code) s' ∧
      ∀ text, s.HasText c text → s'.HasText c text := by
  cases hs : s.platform with
  | hosted h =>
      simp only [wayOut, hs, Option.some.injEq] at out
      subst out
      refine ⟨_, run_exit hs (free_of_prints hs prints) code, fun text ht => ?_⟩
      exact ((hasText_hosted hs).mp ht).finish t
  | guest g =>
      simp only [wayOut, hs] at out
      obtain ⟨id, hid, rfl⟩ := Option.map_eq_some_iff.mp out
      exact ⟨s, run_exit_guest hs hid t code, fun _ ht => ht⟩

theorem run_lastLine (prints : s.Prints t .urgent c) (out : s.wayOut = some way) (ps : List Piece)
    {code : Int32} {k : Finish → Task α} (hk : k .returned = Log.endLineAndExit code) :
    ∃ s', (Log.printUrgent (Message.ofPieces ps) >>= k).run (perform t) s =
        .ended (way.ending code) s' ∧
      ∀ before, s.HasText c before →
        s'.HasText c (before ++ (ps.flatMap s.spell ++ s.lineEnd.bytes)) := by
  have hmessage := speaks_printWith (P := fun _ => True) prints (fun _ _ => trivial) ps
  have prints₁ := prints.putAll c ps
  have hline := speaks_printWith (P := fun _ => True) prints₁ (fun _ _ => trivial) [.lineEnd]
  have prints₂ := prints₁.putAll c [.lineEnd]
  have out₂ : ((s.putAll c ps).putAll c [.lineEnd]).wayOut = some way := by
    rw [wayOut_putAll, wayOut_putAll, out]
  obtain ⟨s', hexit, hkept⟩ := run_exit_of_prints (α := α) prints₂ out₂ code
  refine ⟨s', ?_, fun before ht => ?_⟩
  · have hlast : (k .returned).run (perform t) (s.putAll c ps) = .ended (way.ending code) s' := by
      rw [hk]
      exact (Program.run_bind_of_finished hline.run_eq _).trans hexit
    exact (Program.run_bind_of_finished hmessage.run_eq k).trans hlast
  · have hsaid := hkept _ (hline.hasText (hmessage.hasText ht))
    have hend : [Piece.lineEnd].flatMap (s.putAll c ps).spell = s.lineEnd.bytes := by
      rw [(alike_putAll s c ps).spell]
      exact List.append_nil _
    rwa [hend, List.append_assoc] at hsaid

/-- A fatal call that comes to its end says its words last. -/
theorem endsWith_words {call : FatalCall} (prints : s.Prints t .urgent c)
    (out : s.wayOut = some way) (misused : call.Misused s t) {ps : List Piece}
    (hps : call.pieces? s t = some ps) :
    s.EndsWith t c call.task (way.ending call.code) (call.words s t) := by
  obtain ⟨α, k, f, hk, hrun⟩ := call.run_task misused hps
  obtain ⟨s', hlast, hsaid⟩ := run_lastLine prints out ps hk
  refine ⟨s', ?_, fun before ht => ?_⟩
  · rw [hrun, Program.run_bind_of_ended hlast]
  · rw [FatalCall.words_eq hps]
    exact hsaid before ht

end DiagnosticLog.Session
