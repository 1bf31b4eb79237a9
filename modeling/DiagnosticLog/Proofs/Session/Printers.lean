import DiagnosticLog.Log.Foreign
import DiagnosticLog.Proofs.Session.Printing

/-!
# The printers of values

What each printer prints, as a text of the value it is given, and that it says this text wherever a
print goes to a channel at once (`speaks_primitive`).
-/

namespace DiagnosticLog

inductive Primitive where
  | message (ps : List Piece)
  | int (n : Int32)
  | char (n : Int32)
  | long (n : Int64)
  | word (w : UInt64)
  | bool (b : Bool)
  | newline
  | buffer (b : Bytes)
  | bytes (b : Bytes)
  | float (bits : UInt32)
  | double (bits : UInt64)

namespace Primitive

def task : Primitive → Task Unit
  | message ps => Log.printPieces ps
  | int n => Log.printInt n
  | char n => Log.printChar n
  | long n => Log.printLong n
  | word w => Log.printWord w
  | bool b => Log.printBool b
  | newline => Log.printNewline
  | buffer b => Log.printBuffer b
  | bytes b => Log.printBytes b
  | float bits => Log.printFloat bits
  | double bits => Log.printDouble bits

def realText (s : Session) (bits : UInt64) : Bytes :=
  if s.formatsReals then Bytes.ofChars (SixPlaces.text bits) else Config.floatPlaceholder

def text (s : Session) : Primitive → Bytes
  | message ps => ps.flatMap s.spell
  | int n => Bytes.ofChars (Numeral.integer n.toInt)
  | char n => Bytes.ofChar (Log.scalarOf n)
  | long n => Bytes.ofChars (Numeral.integer n.toInt)
  | word w => Bytes.ofChars (Numeral.word w)
  | bool b => Bytes.ofString (if b then "true" else "false")
  | newline => s.lineEnd.bytes
  | buffer b => b
  | bytes b => Lossy.text b
  | float bits => realText s (SixPlaces.widen bits)
  | double bits => realText s bits

theorem text_congr {s s' : Session} (lineEnd : s'.lineEnd = s.lineEnd)
    (formatsReals : s'.formatsReals = s.formatsReals) (print : Primitive) :
    print.text s' = print.text s := by
  have hspell : s'.spell = s.spell := by rw [Session.spell_eq, lineEnd, Session.spell_eq]
  have hreal (bits : UInt64) : realText s' bits = realText s bits := by
    unfold realText
    rw [formatsReals]
  cases print with
  | message ps => rw [text, text, hspell]
  | newline => rw [text, text, lineEnd]
  | float bits => exact hreal _
  | double bits => exact hreal bits
  | _ => rfl

end Primitive

namespace Session

variable {s s' : Session} {t : ThreadId} {c : Channel} {P : Session → Prop}

section Printers

variable (prints : s.Prints t .patient c) (hP : ∀ s', Alike s s' → P s')

include prints hP

theorem speaks_pieces {ps : List Piece} {b : Bytes} (hb : ps.flatMap s.spell = b) :
    ∃ ps', Speaks t c P (Log.printPieces ps) s b () (s.putAll c ps') := by
  rw [← hb]
  exact ⟨ps, speaks_printPieces prints hP ps⟩

theorem speaks_printDouble (bits : UInt64) :
    ∃ ps, Speaks t c P (Log.printDouble bits) s (Primitive.realText s bits) () (s.putAll c ps) := by
  have hasks : Speaks t c P (Request.make .formatsReals) s [] s.formatsReals s :=
    .request (hP s (Alike.refl s)) prints.takes (reply_formatsReals t) trivial rfl
  unfold Primitive.realText
  cases hreals : s.formatsReals with
  | true =>
      rw [hreals] at hasks
      have htext : (Piece.ofGroups (SixPlaces.groups bits)).flatMap s.spell =
          Bytes.ofChars (SixPlaces.text bits) := by
        rw [spell_ofGroups, SixPlaces.flatten_groups]
      obtain ⟨ps, hps⟩ := speaks_pieces prints hP htext
      exact ⟨ps, hasks.bind hps⟩
  | false =>
      rw [hreals] at hasks
      have htext : [Piece.text Config.floatPlaceholder].flatMap s.spell =
          Config.floatPlaceholder := List.append_nil _
      obtain ⟨ps, hps⟩ := speaks_pieces prints hP htext
      exact ⟨ps, hasks.bind hps⟩

theorem speaks_primitive (print : Primitive) :
    ∃ ps, Speaks t c P print.task s (print.text s) () (s.putAll c ps) := by
  cases print with
  | message ps => exact speaks_pieces prints hP rfl
  | int n =>
      apply speaks_pieces prints hP
      rw [Piece.integer, spell_ofGroups, Numeral.flatten_integerGroups]
      rfl
  | char n =>
      apply speaks_pieces prints hP
      simp [spell, Piece.ofChars, Primitive.text]
  | long n =>
      apply speaks_pieces prints hP
      rw [Piece.integer, spell_ofGroups, Numeral.flatten_integerGroups]
      rfl
  | word w =>
      apply speaks_pieces prints hP
      rw [spell_ofGroups, Numeral.flatten_wordGroups]
      rfl
  | bool b =>
      apply speaks_pieces prints hP
      cases b <;> simp [spell, Piece.ofChars, Primitive.text, Bytes.ofString]
  | newline => exact speaks_pieces prints hP (List.append_nil _)
  | buffer b => exact speaks_pieces prints hP (List.append_nil _)
  | bytes b => exact speaks_pieces prints hP (spell_shown s b)
  | float bits => exact speaks_printDouble prints hP (SixPlaces.widen bits)
  | double bits => exact speaks_printDouble prints hP bits

end Printers

/-- Thread `t` comes through a task that adds this text to a channel, to which it can go on
printing. -/
def Adds (s : Session) (t : ThreadId) (c : Channel) (task : Task Unit) (b : Bytes) : Prop :=
  ∃ s', task.run (perform t) s = .finished () s' ∧ s'.Prints t .patient c ∧
    ∀ before, s.HasText c before → s'.HasText c (before ++ b)

theorem adds_primitive (prints : s.Prints t .patient c) (print : Primitive) :
    s.Adds t c print.task (print.text s) := by
  obtain ⟨ps, speaks⟩ := speaks_primitive (P := fun _ => True) prints (fun _ _ => trivial) print
  exact ⟨_, speaks.run_eq, prints.putAll c ps, fun before ht => speaks.hasText ht⟩

theorem Adds.andThen {task task' : Task Unit} {b b' : Bytes} (first : s.Adds t c task b)
    (second : ∀ s', Prints s' t .patient c → s'.Adds t c task' b') :
    s.Adds t c (task >>= fun _ => task') (b ++ b') := by
  obtain ⟨s₁, hrun, prints, hsaid⟩ := first
  obtain ⟨s₂, hrun', prints', hsaid'⟩ := second s₁ prints
  refine ⟨s₂, (Program.run_bind_of_finished hrun _).trans hrun', prints', fun before ht => ?_⟩
  rw [← List.append_assoc]
  exact hsaid' _ (hsaid before ht)

theorem adds_forM {α : Type} {task : α → Task Unit} {text : α → Bytes}
    (each : ∀ s, Prints s t .patient c → ∀ a, s.Adds t c (task a) (text a)) (as : List α)
    (prints : s.Prints t .patient c) : s.Adds t c (as.forM task) (as.flatMap text) := by
  induction as generalizing s with
  | nil => exact ⟨s, rfl, prints, fun before ht => by rwa [List.flatMap_nil, List.append_nil]⟩
  | cons a as ih =>
      rw [List.flatMap_cons]
      exact (each s prints a).andThen fun s' prints' => ih prints'

end Session

end DiagnosticLog
