import DiagnosticLog.Proofs.Session.Printers
import DiagnosticLog.Script.Step

/-!
# The C entry points agree with the operations of the log

`ForeignCall.Counterpart` says which step a C caller could as well have run, by what the C values
stand for: a pointer for nothing or for the bytes before a zero byte, a character for a truth value.
The entry point makes the requests of that step, one by one (`foreign_calls_agree`), so that in any
session and beside any other threads the one cannot be told from the other.
-/

namespace DiagnosticLog

namespace Log.Foreign

/-! ## C strings -/

/-- What a C string stands for: nothing if its pointer is null, and else the bytes before the first
zero byte.  If no zero byte is listed among the bytes at its address, it comes right after them. -/
inductive Reads : CString → Option Bytes → Prop where
  | null : Reads none none
  | terminated {b rest : Bytes} (text : 0 ∉ b) : Reads (some (b ++ 0 :: rest)) (some b)
  | whole {b : Bytes} (text : 0 ∉ b) : Reads (some b) (some b)

inductive Shows : CString → Bytes → Prop where
  | null : Shows none (Bytes.ofString "(null)")
  | read {s : CString} {b : Bytes} (reads : Reads s (some b)) : Shows s b

theorem beforeZero_append {b : Bytes} (text : 0 ∉ b) (rest : Bytes) :
    Bytes.beforeZero (b ++ rest) = b ++ rest.beforeZero := by
  apply List.takeWhile_append_of_pos
  intro x hx
  have hne : x ≠ 0 := fun hzero => text (hzero ▸ hx)
  simpa using hne

theorem beforeZero_of_not_mem {b : Bytes} (text : 0 ∉ b) : b.beforeZero = b := by
  have hall := beforeZero_append text []
  rwa [List.append_nil, show Bytes.beforeZero [] = [] from rfl, List.append_nil] at hall

theorem beforeZero_append_zero {b : Bytes} (text : 0 ∉ b) (rest : Bytes) :
    Bytes.beforeZero (b ++ 0 :: rest) = b :=
  (beforeZero_append text (0 :: rest)).trans (List.append_nil b)

theorem reads_iff {s : CString} {read : Option Bytes} :
    Reads s read ↔ read = s.map Bytes.beforeZero := by
  constructor
  · intro reads
    cases reads with
    | null => rfl
    | terminated text => rw [Option.map_some, beforeZero_append_zero text]
    | whole text => rw [Option.map_some, beforeZero_of_not_mem text]
  · rintro rfl
    cases s with
    | none => exact .null
    | some b =>
        rw [Option.map_some]
        by_cases hzero : (0 : UInt8) ∈ b
        · obtain ⟨pre, rest, rfl, text⟩ := List.eq_append_cons_of_mem hzero
          rw [beforeZero_append_zero text]
          exact .terminated text
        · rw [beforeZero_of_not_mem hzero]
          exact .whole hzero

theorem shows_iff {s : CString} {b : Bytes} : Shows s b ↔ b = shownBytes s := by
  constructor
  · intro shows
    cases shows with
    | null => rfl
    | read reads =>
        have hread := reads_iff.mp reads
        cases s with
        | none => cases hread
        | some bytes => exact Option.some.inj hread
  · rintro rfl
    cases s with
    | none => exact .null
    | some bytes => exact .read (reads_iff.mpr rfl)

end Log.Foreign

namespace ForeignCall

open Log.Foreign (Reads Shows reads_iff shows_iff)

def shownParts (b : Bytes) : List Part :=
  (Lossy.pieces b).map .text

/-- The step that does what a C entry point does. -/
inductive Counterpart : ForeignCall → Step → Prop where
  | openStream {path : Log.Foreign.CString} {read : Option Bytes} (reads : Reads path read) :
      Counterpart (openStream path) (.call (.openStream read))
  | lock : Counterpart lock (.call .lock)
  | unlock : Counterpart unlock (.call .unlock)
  | flush : Counterpart flush (.call .flush)
  | int (n : Int32) : Counterpart (int n) (.call (.int n))
  | no : Counterpart (boolean 0) (.call (.bool false))
  | yes {c : Int8} (nonzero : c ≠ 0) : Counterpart (boolean c) (.call (.bool true))
  | char (n : Int32) : Counterpart (char n) (.call (.char n))
  | long (n : Int64) : Counterpart (long n) (.call (.long n))
  | buffer {s : Log.Foreign.CString} {b : Bytes} (shows : Shows s b) :
      Counterpart (buffer s) (.call (.bytes b))
  | word (w : UInt64) : Counterpart (word w) (.call (.word w))
  | newline : Counterpart newline (.call .newline)
  | float (bits : UInt32) : Counterpart (float bits) (.call (.float bits))
  | double (bits : UInt64) : Counterpart (double bits) (.call (.double bits))
  | assertion {c : Int8} {text file : Log.Foreign.CString} {b f : Bytes} {line : Int32}
      (showsText : Shows text b) (showsFile : Shows file f) :
      Counterpart (assertion c text file line)
        (.assertion (c ≠ 0) (shownParts b) (shownParts f) line)

theorem message_shownParts (b : Bytes) :
    Part.message (shownParts b) = Message.ofPieces (Piece.shown b) := by
  unfold shownParts Piece.shown
  induction Lossy.pieces b with
  | nil => rfl
  | cons x rest ih =>
      show Part.message (.text x :: rest.map .text) = _
      rw [Part.message, ih, Part.fragments]
      rfl

theorem exists_counterpart (call : ForeignCall) : ∃ step, call.Counterpart step := by
  cases call with
  | openStream path => exact ⟨_, .openStream (reads_iff.mpr rfl)⟩
  | lock => exact ⟨_, .lock⟩
  | unlock => exact ⟨_, .unlock⟩
  | flush => exact ⟨_, .flush⟩
  | int n => exact ⟨_, .int n⟩
  | boolean c =>
      by_cases hc : c = 0
      · subst hc
        exact ⟨_, .no⟩
      · exact ⟨_, .yes hc⟩
  | char n => exact ⟨_, .char n⟩
  | long n => exact ⟨_, .long n⟩
  | buffer s => exact ⟨_, .buffer (shows_iff.mpr rfl)⟩
  | word w => exact ⟨_, .word w⟩
  | newline => exact ⟨_, .newline⟩
  | float bits => exact ⟨_, .float bits⟩
  | double bits => exact ⟨_, .double bits⟩
  | assertion c text file line =>
      exact ⟨_, .assertion (shows_iff.mpr rfl) (shows_iff.mpr rfl)⟩

theorem truth_eq (c : Int8) : Log.Foreign.truth c = decide (c ≠ 0) := by
  by_cases hc : c = 0 <;> simp [Log.Foreign.truth, hc]

theorem Counterpart.task_eq {call : ForeignCall} {step : Step} (h : call.Counterpart step) :
    step.task = call.task := by
  cases h with
  | openStream reads =>
      rw [reads_iff.mp reads]
      rfl
  | yes nonzero =>
      have htruth : Log.Foreign.truth _ = true := (truth_eq _).trans (decide_eq_true nonzero)
      show silent (Log.printBool true) = silent (Log.printBool (Log.Foreign.truth _))
      rw [htruth]
  | buffer shows =>
      rw [shows_iff.mp shows]
      rfl
  | @assertion c text file b f line showsText showsFile =>
      show _ = (do return Answer.ofFinish (← Log.Foreign.assertCondition c text file line))
      rw [Step.task, message_shownParts, message_shownParts, shows_iff.mp showsText,
        shows_iff.mp showsFile, Log.Foreign.assertCondition, truth_eq]
      by_cases hc : c = 0
      · simp [hc]
      · simp [hc, Log.assertCondition]
  | _ => rfl

/-- What a C printer prints for the values it is given. -/
inductive Says (s : Session) : ForeignCall → Bytes → Prop where
  | int (n : Int32) : Says s (int n) (Bytes.ofChars (Numeral.integer n.toInt))
  | no : Says s (boolean 0) (Bytes.ofString "false")
  | yes {c : Int8} (nonzero : c ≠ 0) : Says s (boolean c) (Bytes.ofString "true")
  | char (n : Int32) : Says s (char n) (Bytes.ofChar (Log.scalarOf n))
  | long (n : Int64) : Says s (long n) (Bytes.ofChars (Numeral.integer n.toInt))
  | buffer {p : Log.Foreign.CString} {b : Bytes} (shows : Shows p b) :
      Says s (buffer p) (Lossy.text b)
  | word (w : UInt64) : Says s (word w) (Bytes.ofChars (Numeral.word w))
  | newline : Says s newline s.lineEnd.bytes
  | float (bits : UInt32) : Says s (float bits) (Primitive.realText s (SixPlaces.widen bits))
  | double (bits : UInt64) : Says s (double bits) (Primitive.realText s bits)

theorem Says.primitive {call : ForeignCall} {s : Session} {text : Bytes} (told : call.Says s text) :
    ∃ print : Primitive, call.task = silent print.task ∧ print.text s = text := by
  cases told with
  | int n => exact ⟨.int n, rfl, rfl⟩
  | no => exact ⟨.bool false, rfl, rfl⟩
  | yes nonzero => exact ⟨.bool true, (Counterpart.yes nonzero).task_eq.symm, rfl⟩
  | char n => exact ⟨.char n, rfl, rfl⟩
  | long n => exact ⟨.long n, rfl, rfl⟩
  | @buffer p b shows => exact ⟨.bytes b, (Counterpart.buffer shows).task_eq.symm, rfl⟩
  | word w => exact ⟨.word w, rfl, rfl⟩
  | newline => exact ⟨.newline, rfl, rfl⟩
  | float bits => exact ⟨.float bits, rfl, rfl⟩
  | double bits => exact ⟨.double bits, rfl, rfl⟩

theorem Says.run {call : ForeignCall} {s : Session} {said : Bytes} (told : call.Says s said)
    {t : ThreadId} {c : Channel} (prints : s.Prints t .patient c) :
    ∃ s', call.task.run (Session.perform t) s = .finished none s' ∧ s.Alike s' ∧
      ∀ text, s.HasText c text → s'.HasText c (text ++ said) := by
  obtain ⟨print, htask, rfl⟩ := told.primitive
  obtain ⟨ps, hspeaks⟩ :=
    Session.speaks_primitive (P := fun _ => True) prints (fun _ _ => trivial) print
  refine ⟨s.putAll c ps, ?_, Session.alike_putAll s c ps, fun text ht => hspeaks.hasText ht⟩
  rw [htask, silent, Program.run_bind, hspeaks.run_eq]
  rfl

/-- Whatever it is called with, a C entry point has a counterpart, and is the same program as every
counterpart it has.  Where a print goes to a channel at once its printers print what they should;
in a guest there is nothing to open; and an assertion that holds asks for nothing. -/
theorem foreign_calls_agree :
    (∀ call : ForeignCall, ∃ step, call.Counterpart step) ∧
      (∀ (call : ForeignCall) step, call.Counterpart step → step.task = call.task) ∧
      (∀ (call : ForeignCall) (s : Session) t c said, call.Says s said → s.Prints t .patient c →
        ∃ s', call.task.run (Session.perform t) s = .finished none s' ∧ s.Alike s' ∧
          ∀ text, s.HasText c text → s'.HasText c (text ++ said)) ∧
      (∀ path (s : Session) t g, s.platform = .guest g →
        (openStream path).task.run (Session.perform t) s = .finished none s) ∧
      ∀ c text file line, c ≠ 0 → (assertion c text file line).task = .done none := by
  refine ⟨exists_counterpart, fun call step h => h.task_eq, ?_, ?_, ?_⟩
  · intro call s t c said told prints
    exact told.run prints
  · intro path s t g hs
    have hsink : Session.performAs t .currentSink s = .reply none s := by
      simp only [Session.performAs, hs]
    exact (Program.run_ask_of_reply hsink _).trans rfl
  · intro c text file line nonzero
    have htruth : Log.Foreign.truth c = true := (truth_eq c).trans (decide_eq_true nonzero)
    show (do return Answer.ofFinish (← Log.Foreign.assertCondition c text file line)) = _
    rw [Log.Foreign.assertCondition, if_pos htruth]
    rfl

def newProcess : Session :=
  .start ⟨.hosted, .lf, false⟩ (fun _ => none) .empty

/-- Bytes that are not text, with a zero byte and more behind it; and a path that is empty. -/
theorem foreign_calls_agree_on_cut_strings :
    (∃ s', (buffer (some [97, 0xFF, 98, 0, 99])).task.run (Session.perform (.lasting 0))
        newProcess = .finished none s' ∧ s'.HasText .standardOut (Bytes.ofString "a\uFFFDb")) ∧
    (Step.call (.openStream (some []))).task = (openStream (some [0, 97])).task := by
  constructor
  · have cut : Reads (some ([97, 0xFF, 98] ++ 0 :: [99])) (some [97, 0xFF, 98]) :=
      .terminated (by decide)
    have shows : Shows (some [97, 0xFF, 98, 0, 99]) [97, 0xFF, 98] := .read cut
    have prints : newProcess.Prints (.lasting 0) .patient .standardOut := ⟨rfl, rfl, trivial⟩
    have hstart : newProcess.HasText .standardOut [] := ⟨[], rfl, rfl⟩
    have hshown : Lossy.text [97, 0xFF, 98] = Bytes.ofString "a\uFFFDb" := by decide +kernel
    obtain ⟨-, -, hprints, -⟩ := foreign_calls_agree
    obtain ⟨s', hrun, -, htext⟩ := hprints _ _ _ _ _ (.buffer shows) prints
    rw [← hshown]
    exact ⟨s', hrun, htext [] hstart⟩
  · have reads : Reads (some [0, 97]) (some []) := .terminated (b := []) (by decide)
    exact foreign_calls_agree.2.1 _ _ (.openStream reads)

end ForeignCall

end DiagnosticLog
