import DiagnosticLog.Bytes

/-!
# Transcripts

A transcript is a text that grows at its end.  It is held last byte first, so that adding to it
costs no more than what is added.  A transcript is determined by its text.
-/

namespace DiagnosticLog

@[ext] structure Transcript where
  reversed : Bytes
  deriving DecidableEq, Repr

namespace Transcript

def text (t : Transcript) : Bytes :=
  t.reversed.reverse

def ofText (b : Bytes) : Transcript :=
  ⟨b.reverse⟩

def empty : Transcript :=
  ⟨[]⟩

def add (t : Transcript) (b : Bytes) : Transcript :=
  ⟨b.reverse ++ t.reversed⟩

@[simp] theorem text_ofText (b : Bytes) : (ofText b).text = b := by
  simp [text, ofText]

@[simp] theorem ofText_text (t : Transcript) : ofText t.text = t := by
  simp [text, ofText]

@[simp] theorem text_empty : empty.text = [] := rfl

@[simp] theorem text_add (t : Transcript) (b : Bytes) : (t.add b).text = t.text ++ b := by
  simp [text, add]

theorem text_injective {t u : Transcript} (h : t.text = u.text) : t = u := by
  rw [← ofText_text t, h, ofText_text]

@[simp] theorem add_nil (t : Transcript) : t.add [] = t := rfl

theorem add_add (t : Transcript) (a b : Bytes) : (t.add a).add b = t.add (a ++ b) :=
  text_injective (by simp)

end Transcript

end DiagnosticLog
