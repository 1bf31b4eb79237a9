/-!
# Byte strings

Everything the log takes and delivers is a string of bytes; text is its UTF-8 encoding.
-/

namespace DiagnosticLog

abbrev Bytes : Type := List UInt8

namespace Bytes

def lineFeed : UInt8 := 10

def ofChar (c : Char) : Bytes :=
  String.utf8EncodeChar c

def ofChars (cs : List Char) : Bytes :=
  cs.flatMap ofChar

def ofString (s : String) : Bytes :=
  ofChars s.toList

@[simp] theorem ofChars_nil : ofChars [] = [] := rfl

@[simp] theorem ofChars_cons (c : Char) (cs : List Char) :
    ofChars (c :: cs) = ofChar c ++ ofChars cs := rfl

theorem ofChars_append (cs ds : List Char) :
    ofChars (cs ++ ds) = ofChars cs ++ ofChars ds := by
  simp [ofChars]

/-- The bytes before the first zero byte: what a zero-terminated string holds. -/
def beforeZero (b : Bytes) : Bytes :=
  b.takeWhile (· ≠ 0)

theorem zero_not_mem_beforeZero (b : Bytes) : 0 ∉ beforeZero b := by
  intro h
  have hz := List.all_eq_true.mp List.all_takeWhile 0 h
  simp at hz

end Bytes

end DiagnosticLog
