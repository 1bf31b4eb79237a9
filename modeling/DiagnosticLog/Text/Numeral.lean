import DiagnosticLog.Bytes

/-!
# Numerals

Integers are written in decimal with a minus sign for negative values and no superfluous zero;
words in hexadecimal with lower-case digits, either as they come or padded to their full width.

A numeral is handed on in groups of characters: its sign or base, every zero it is padded with by
itself, and its digits.  The groups joined are the numeral.
-/

namespace DiagnosticLog.Numeral

def decimal (n : Nat) : List Char :=
  Nat.toDigits 10 n

def hexadecimal (n : Nat) : List Char :=
  Nat.toDigits 16 n

def padded (width : Nat) (digits : List Char) : List Char :=
  List.leftpad width '0' digits

/-- The sign of an integer: nothing unless it is negative. -/
def sign (n : Int) : List Char :=
  if n < 0 then ['-'] else []

def integer (n : Int) : List Char :=
  sign n ++ decimal n.natAbs

def word (w : UInt64) : List Char :=
  '0' :: 'x' :: padded 16 (hexadecimal w.toNat)

/-- A word in hexadecimal without leading zeros, after `0x`. -/
def shortWord (w : UInt64) : List Char :=
  '0' :: 'x' :: hexadecimal w.toNat

/-! ## Groups -/

/-- The group of some characters, if there are any. -/
def group (cs : List Char) : List (List Char) :=
  if cs.isEmpty then [] else [cs]

def integerGroups (n : Int) : List (List Char) :=
  group (sign n) ++ [decimal n.natAbs]

def wordGroups (w : UInt64) : List (List Char) :=
  let digits := hexadecimal w.toNat
  [['0', 'x']] ++ List.replicate (16 - digits.length) ['0'] ++ [digits]

def shortWordGroups (w : UInt64) : List (List Char) :=
  [['0', 'x'], hexadecimal w.toNat]

@[simp] theorem flatten_group (cs : List Char) : (group cs).flatten = cs := by
  cases cs <;> simp [group]

theorem flatten_integerGroups (n : Int) : (integerGroups n).flatten = integer n := by
  simp [integerGroups, integer]

theorem flatten_wordGroups (w : UInt64) : (wordGroups w).flatten = word w := by
  simp [wordGroups, word, padded, List.leftpad]

theorem flatten_shortWordGroups (w : UInt64) : (shortWordGroups w).flatten = shortWord w := by
  simp [shortWordGroups, shortWord]

/-! ## Sign and length -/

theorem integer_of_nonneg {n : Int} (h : 0 ≤ n) : integer n = decimal n.natAbs := by
  simp [integer, sign, Int.not_lt.mpr h]

theorem integer_of_neg {n : Int} (h : n < 0) : integer n = '-' :: decimal n.natAbs := by
  simp [integer, sign, h]

theorem length_word (w : UInt64) : (word w).length = 18 := by
  have hw : (hexadecimal w.toNat).length ≤ 16 :=
    (Nat.length_toDigits_le_iff (by decide) (by decide)).mpr w.toNat_lt
  simp only [word, padded, List.leftpad, List.length_cons, List.length_append,
    List.length_replicate]
  omega

end DiagnosticLog.Numeral
