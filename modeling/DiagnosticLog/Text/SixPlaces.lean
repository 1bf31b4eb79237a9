import DiagnosticLog.Text.Numeral

/-!
# Binary floating point with six decimal places

A binary64 bit pattern is taken apart into a sign and an exact magnitude, and the magnitude is
rounded once, in exact arithmetic, to a whole number of millionths; a half goes to the even
neighbour.  A binary32 pattern is first widened to the binary64 pattern of the same value.

The text is handed on in groups of characters, at whose borders the sign, the point and zeros stand
that no digit had to be worked out for (`flatten_groups`).
-/

namespace DiagnosticLog.SixPlaces

def twoTo (n : Nat) : Nat :=
  Nat.pow 2 n

/-- The quotient rounded to the nearest integer, a half to the even one. -/
def roundHalfEven (num den : Nat) : Nat :=
  let quotient := num / den
  let remainder := num % den
  if 2 * remainder < den ∨ (2 * remainder = den ∧ quotient % 2 = 0) then quotient
  else quotient + 1

/-- What a bit pattern stands for apart from its sign. -/
inductive Magnitude where
  /-- The number `significand * 2 ^ exponent`. -/
  | finite (significand : Nat) (exponent : Int)
  | infinite
  | notANumber
  deriving DecidableEq, Repr

def magnitude (bits : UInt64) : Magnitude :=
  let exponent : Nat := bits.toNat / twoTo 52 % twoTo 11
  let fraction : Nat := bits.toNat % twoTo 52
  if exponent = 2047 then
    if fraction = 0 then .infinite else .notANumber
  else if exponent = 0 then .finite fraction (-1074)
  else .finite (twoTo 52 + fraction) (exponent - 1075)

def isNegative (bits : UInt64) : Bool :=
  twoTo 63 ≤ bits.toNat

/-- The number of millionths nearest to `significand * 2 ^ exponent`. -/
def millionths (significand : Nat) (exponent : Int) : Nat :=
  roundHalfEven (significand * 1000000 * twoTo exponent.toNat) (twoTo (-exponent).toNat)

def decimalPoint (count : Nat) : List Char :=
  Numeral.decimal (count / 1000000) ++ '.' :: Numeral.padded 6 (Numeral.decimal (count % 1000000))

/-- The sign that is shown: zero keeps its sign, and so does what rounds to zero; a value that is
not a number has none. -/
def shownSign (bits : UInt64) : List Char :=
  if isNegative bits ∧ magnitude bits ≠ .notANumber then ['-'] else []

def magnitudeText : Magnitude → List Char
  | .finite significand exponent => decimalPoint (millionths significand exponent)
  | .infinite => ['i', 'n', 'f']
  | .notANumber => ['N', 'a', 'N']

def text (bits : UInt64) : List Char :=
  shownSign bits ++ magnitudeText (magnitude bits)

/-! ## Groups -/

/--
How many digits of a number are worked out at the most.

The bound is taken from the grid that holds the midpoints to the number's neighbours: one binary
place finer than the number itself, and two at a power of two.  As `log 2 < 5/16` and
`log 5 < 12/16` to the base ten, all digits that are not zero are among these.
-/
def digitBound (significand : Nat) (exponent : Int) : Nat :=
  let fine := if significand = twoTo 52 then exponent - 2 else exponent - 1
  21 + (if fine < 0 then 12 * fine.natAbs else 5 * fine.natAbs) / 16

/-- The groups of a number of millionths of which at most `bound` digits were worked out. -/
def decimalPointGroups (bound count : Nat) : List (List Char) :=
  if count = 0 then
    [['0', '.'], List.replicate 6 '0']
  else if count < 1000000 then
    let digits := Numeral.decimal count
    [['0', '.']] ++ Numeral.group (List.replicate (6 - digits.length) '0') ++ [digits]
  else
    let whole := Numeral.decimal (count / 1000000)
    let places := Numeral.padded 6 (Numeral.decimal (count % 1000000))
    let worked := bound - whole.length
    [whole, ['.']] ++ Numeral.group (places.take worked) ++ Numeral.group (places.drop worked)

def magnitudeGroups : Magnitude → List (List Char)
  | .finite significand exponent =>
      decimalPointGroups (digitBound significand exponent) (millionths significand exponent)
  | .infinite => [['i', 'n', 'f']]
  | .notANumber => [['N', 'a', 'N']]

def groups (bits : UInt64) : List (List Char) :=
  Numeral.group (shownSign bits) ++ magnitudeGroups (magnitude bits)

theorem flatten_decimalPointGroups (bound count : Nat) :
    (decimalPointGroups bound count).flatten = decimalPoint count := by
  unfold decimalPointGroups
  split
  · rename_i hzero
    subst hzero
    decide
  · split
    · rename_i hcount
      have hdiv : count / 1000000 = 0 := Nat.div_eq_of_lt hcount
      have hmod : count % 1000000 = count := Nat.mod_eq_of_lt hcount
      have hwhole : Numeral.decimal 0 = ['0'] := by decide
      rw [decimalPoint, hdiv, hmod, hwhole]
      simp [Numeral.padded, List.leftpad]
    · simp [decimalPoint]

theorem flatten_magnitudeGroups (m : Magnitude) :
    (magnitudeGroups m).flatten = magnitudeText m := by
  cases m with
  | finite significand exponent => exact flatten_decimalPointGroups _ _
  | infinite => rfl
  | notANumber => rfl

theorem flatten_groups (bits : UInt64) : (groups bits).flatten = text bits := by
  simp [groups, text, flatten_magnitudeGroups]

/-! ## Binary32 -/

/--
The binary64 bit pattern with the value of a binary32 one.

The fraction is moved to the upper end and the exponent to the new bias.  A subnormal value is
normal in the wider format: its leading one becomes the implicit one.
-/
def widen (bits : UInt32) : UInt64 :=
  let sign : Nat := bits.toNat / twoTo 31
  let exponent : Nat := bits.toNat / twoTo 23 % twoTo 8
  let fraction : Nat := bits.toNat % twoTo 23
  let wide (exponent fraction : Nat) : UInt64 :=
    UInt64.ofNat (sign * twoTo 63 + exponent * twoTo 52 + fraction)
  if exponent = 255 then wide 2047 (fraction * twoTo 29)
  else if exponent ≠ 0 then wide (exponent + 896) (fraction * twoTo 29)
  else if fraction = 0 then wide 0 0
  else
    let lead := Nat.log2 fraction
    wide (lead + 874) ((fraction - twoTo lead) * twoTo (52 - lead))

/-! ## Rounding -/

theorem roundHalfEven_near {num den : Nat} (h : 0 < den) :
    2 * num ≤ (2 * roundHalfEven num den + 1) * den ∧
      2 * roundHalfEven num den * den ≤ 2 * num + den := by
  have hdiv := Nat.div_add_mod num den
  have hmod := Nat.mod_lt num h
  simp only [roundHalfEven]
  generalize num / den = q at *
  generalize num % den = r at *
  rw [Nat.mul_comm] at hdiv
  have h2 : 2 * q * den = 2 * (q * den) := Nat.mul_assoc 2 q den
  split
  · rw [Nat.add_mul, h2]
    omega
  · have h3 : 2 * (q + 1) * den = 2 * (q * den) + 2 * den := by
      rw [Nat.mul_assoc, Nat.add_mul, Nat.one_mul, Nat.mul_add]
    rw [Nat.add_mul, h3]
    omega

end DiagnosticLog.SixPlaces
