import DiagnosticLog.Text.SixPlaces
import Mathlib.Algebra.Order.Field.Power
import Mathlib.Algebra.Order.Field.Rat
import Mathlib.Tactic.FieldSimp
import Mathlib.Tactic.NormNum
import Mathlib.Tactic.Positivity
import Mathlib.Tactic.Ring

/-!
# What bit patterns stand for

The binary interchange formats by the widths of their fields, and the rational number that a bit
pattern of such a format stands for.  The magnitude that is rounded is that number
(`read_binary64`), and widening a pattern keeps what it stands for (`read_widen`).
-/

namespace DiagnosticLog

structure BinaryFormat where
  exponentBits : Nat
  fractionBits : Nat

inductive Reading where
  | finite (x : ℚ)
  | infinite
  | notANumber

def signed (negative : Bool) (x : ℚ) : ℚ :=
  if negative then -x else x

namespace BinaryFormat

def binary32 : BinaryFormat := ⟨8, 23⟩

def binary64 : BinaryFormat := ⟨11, 52⟩

section

variable (f : BinaryFormat)

/-- What an exponent field is larger by than the exponent. -/
def bias : ℤ :=
  2 ^ (f.exponentBits - 1) - 1

def negative (pattern : Nat) : Bool :=
  pattern.testBit (f.exponentBits + f.fractionBits)

def exponent (pattern : Nat) : Nat :=
  pattern / 2 ^ f.fractionBits % 2 ^ f.exponentBits

def fraction (pattern : Nat) : Nat :=
  pattern % 2 ^ f.fractionBits

/-- The magnitude of a finite number.  The least exponent field is that of the subnormal numbers,
which have no implicit one. -/
def magnitude (exponent fraction : Nat) : ℚ :=
  if exponent = 0 then 2 ^ (1 - f.bias) * (fraction / 2 ^ f.fractionBits)
  else 2 ^ (exponent - f.bias) * (1 + fraction / 2 ^ f.fractionBits)

/-- What the fields stand for.  The last exponent field is that of what is not finite. -/
def decode (negative : Bool) (exponent fraction : Nat) : Reading :=
  if exponent = 2 ^ f.exponentBits - 1 then
    if fraction = 0 then .infinite else .notANumber
  else .finite (signed negative (f.magnitude exponent fraction))

def read (pattern : Nat) : Reading :=
  f.decode (f.negative pattern) (f.exponent pattern) (f.fraction pattern)

end

/-! ## Fields -/

variable {f : BinaryFormat}

theorem negative_eq (pattern : Nat) :
    f.negative pattern = decide (pattern / 2 ^ (f.exponentBits + f.fractionBits) % 2 = 1) :=
  Nat.testBit_eq_decide_div_mod_eq

theorem fields_of_pack {sign exponent fraction : Nat} (hsign : sign ≤ 1)
    (hexponent : exponent < 2 ^ f.exponentBits) (hfraction : fraction < 2 ^ f.fractionBits) :
    let pattern := sign * 2 ^ (f.exponentBits + f.fractionBits) + exponent * 2 ^ f.fractionBits +
      fraction
    f.negative pattern = decide (sign = 1) ∧ f.exponent pattern = exponent ∧
      f.fraction pattern = fraction := by
  intro pattern
  have hpattern : pattern =
      fraction + (exponent + sign * 2 ^ f.exponentBits) * 2 ^ f.fractionBits := by
    simp only [pattern, Nat.pow_add]
    ring
  have hupper : pattern / 2 ^ f.fractionBits = exponent + sign * 2 ^ f.exponentBits := by
    rw [hpattern, Nat.add_mul_div_right _ _ (by positivity), Nat.div_eq_of_lt hfraction,
      Nat.zero_add]
  refine ⟨?_, ?_, ?_⟩
  · have htop : pattern / 2 ^ (f.exponentBits + f.fractionBits) = sign := by
      rw [Nat.add_comm, Nat.pow_add, ← Nat.div_div_eq_div_mul, hupper,
        Nat.add_mul_div_right _ _ (by positivity), Nat.div_eq_of_lt hexponent, Nat.zero_add]
    rw [negative_eq, htop, Nat.mod_eq_of_lt (by omega)]
  · rw [BinaryFormat.exponent, hupper, Nat.add_mul_mod_self_right, Nat.mod_eq_of_lt hexponent]
  · rw [BinaryFormat.fraction, hpattern, Nat.add_mul_mod_self_right, Nat.mod_eq_of_lt hfraction]

theorem magnitude_nonneg (exponent fraction : Nat) : 0 ≤ f.magnitude exponent fraction := by
  unfold magnitude
  split <;> positivity

theorem bias_binary32 : binary32.bias = 127 := by decide

theorem bias_binary64 : binary64.bias = 1023 := by decide

end BinaryFormat

namespace SixPlaces

open BinaryFormat (binary32 binary64 bias_binary32 bias_binary64)

theorem twoTo_eq (n : Nat) : twoTo n = 2 ^ n := rfl

/-! ## The magnitude that is rounded -/

theorem isNegative_eq (bits : UInt64) : isNegative bits = binary64.negative bits.toNat := by
  have hbits := bits.toNat_lt
  have htop : 2 ^ 63 ≤ bits.toNat ↔ bits.toNat / 2 ^ 63 % 2 = 1 := by omega
  rw [BinaryFormat.negative_eq]
  exact decide_eq_decide.mpr htop

def Magnitude.reading (negative : Bool) : Magnitude → Reading
  | .finite significand exponent => .finite (signed negative (significand * 2 ^ exponent))
  | .infinite => .infinite
  | .notANumber => .notANumber

theorem magnitude_subnormal (fraction : Nat) :
    binary64.magnitude 0 fraction = (fraction : ℚ) * 2 ^ (-1074 : ℤ) := by
  have hsplit : (2 : ℚ) ^ (-1074 : ℤ) = 2 ^ (1 - 1023 : ℤ) * (2 ^ (52 : ℕ))⁻¹ := by
    rw [← zpow_natCast, ← zpow_neg, ← zpow_add₀ two_ne_zero]
    norm_num only
  rw [BinaryFormat.magnitude, if_pos rfl, bias_binary64, hsplit]
  simp only [binary64]
  ring

theorem magnitude_normal {exponent : Nat} (h : exponent ≠ 0) (fraction : Nat) :
    binary64.magnitude exponent fraction =
      ((2 ^ 52 + fraction : Nat) : ℚ) * 2 ^ ((exponent : ℤ) - 1075) := by
  have hsplit : (2 : ℚ) ^ ((exponent : ℤ) - 1075) =
      2 ^ ((exponent : ℤ) - 1023) * (2 ^ (52 : ℕ))⁻¹ := by
    rw [← zpow_natCast, ← zpow_neg, ← zpow_add₀ two_ne_zero]
    congr 1
    omega
  rw [BinaryFormat.magnitude, if_neg h, bias_binary64, hsplit]
  simp only [binary64]
  push_cast
  field_simp
  norm_num only

theorem read_binary64 (bits : UInt64) :
    binary64.read bits.toNat = (magnitude bits).reading (isNegative bits) := by
  have hexponent : bits.toNat / twoTo 52 % twoTo 11 = binary64.exponent bits.toNat := rfl
  have hfraction : bits.toNat % twoTo 52 = binary64.fraction bits.toNat := rfl
  rw [BinaryFormat.read, BinaryFormat.decode, magnitude, isNegative_eq, hexponent, hfraction]
  generalize binary64.exponent bits.toNat = exponent
  generalize binary64.fraction bits.toNat = fraction
  have hlast : 2 ^ binary64.exponentBits - 1 = 2047 := rfl
  rw [hlast]
  split
  · split <;> rfl
  split
  · rename_i hleast
    rw [hleast, magnitude_subnormal]
    rfl
  · rename_i hleast
    rw [magnitude_normal hleast]
    rfl

/-! ## Widening -/

/-- The exponent and the fraction of the wider pattern. -/
inductive Widened : (exponent fraction wideExponent wideFraction : Nat) → Prop where
  | notFinite {fraction : Nat} (bound : fraction < 2 ^ 23) :
      Widened 255 fraction 2047 (fraction * 2 ^ 29)
  | normal {exponent fraction : Nat} (nonzero : exponent ≠ 0) (finite : exponent < 255)
      (bound : fraction < 2 ^ 23) :
      Widened exponent fraction (exponent + 896) (fraction * 2 ^ 29)
  | zero : Widened 0 0 0 0
  /-- The leading one of a subnormal number becomes the implicit one. -/
  | subnormal {lead rest : Nat} (short : lead < 23) (bound : rest < 2 ^ lead) :
      Widened 0 (2 ^ lead + rest) (lead + 874) (rest * 2 ^ (52 - lead))

theorem widen_eq (bits : UInt32) :
    ∃ exponent fraction, Widened (binary32.exponent bits.toNat) (binary32.fraction bits.toNat)
        exponent fraction ∧
      widen bits = UInt64.ofNat (bits.toNat / 2 ^ 31 * 2 ^ 63 + exponent * 2 ^ 52 + fraction) := by
  have hbound : binary32.exponent bits.toNat < 2 ^ 8 := Nat.mod_lt _ (by decide)
  have hfraction : binary32.fraction bits.toNat < 2 ^ 23 := Nat.mod_lt _ (by decide)
  have hexponentField : bits.toNat / twoTo 23 % twoTo 8 = binary32.exponent bits.toNat := rfl
  have hfractionField : bits.toNat % twoTo 23 = binary32.fraction bits.toNat := rfl
  simp only [widen, hexponentField, hfractionField]
  generalize binary32.exponent bits.toNat = exponent at hbound
  generalize binary32.fraction bits.toNat = fraction at hfraction
  split
  · rename_i hlast
    subst hlast
    exact ⟨_, _, .notFinite hfraction, rfl⟩
  split
  · rename_i hlast hleast
    exact ⟨_, _, .normal hleast (by omega) hfraction, rfl⟩
  rename_i hleast
  obtain rfl : exponent = 0 := not_not.mp hleast
  split
  · rename_i hzero
    subst hzero
    exact ⟨_, _, .zero, rfl⟩
  · rename_i hnonzero
    have hlead : fraction.log2 < 23 := (Nat.log2_lt hnonzero).mpr hfraction
    have hhigh : fraction < 2 ^ (fraction.log2 + 1) := Nat.lt_log2_self
    obtain ⟨rest, hrest⟩ := Nat.exists_eq_add_of_le (Nat.log2_self_le hnonzero)
    have hwidened : Widened 0 (2 ^ fraction.log2 + rest) _ _ := .subnormal hlead (by omega)
    rw [← hrest] at hwidened
    refine ⟨_, _, hwidened, ?_⟩
    rw [← Nat.sub_eq_of_eq_add' hrest]
    rfl

variable {exponent fraction wideExponent wideFraction : Nat}

theorem Widened.bounds (h : Widened exponent fraction wideExponent wideFraction) :
    wideExponent < 2 ^ 11 ∧ wideFraction < 2 ^ 52 := by
  cases h with
  | notFinite bound => omega
  | normal nonzero finite bound => omega
  | zero => decide
  | @subnormal lead rest short bound =>
      have hunits : 2 ^ lead * 2 ^ (52 - lead) = 2 ^ 52 := by
        rw [← Nat.pow_add, Nat.add_sub_cancel' (by omega)]
      refine ⟨by omega, ?_⟩
      rw [← hunits]
      exact Nat.mul_lt_mul_of_pos_right bound (by positivity)

/-- The exponent moves by the difference of the biases, the fraction to the upper end. -/
theorem magnitude_of_normal (nonzero : exponent ≠ 0) (fraction : Nat) :
    binary64.magnitude (exponent + 896) (fraction * 2 ^ 29) =
      binary32.magnitude exponent fraction := by
  have hexponent : ((exponent + 896 : Nat) : ℤ) - 1023 = exponent - 127 := by omega
  have hfraction : ((fraction * 2 ^ 29 : Nat) : ℚ) / 2 ^ 52 = fraction / 2 ^ 23 := by
    have hunits : (2 : ℚ) ^ 52 = 2 ^ 23 * 2 ^ 29 := by rw [← pow_add]
    rw [hunits, Nat.cast_mul, Nat.cast_pow, Nat.cast_ofNat, mul_div_mul_right _ _ (by positivity)]
  rw [BinaryFormat.magnitude, BinaryFormat.magnitude, if_neg (by omega), if_neg nonzero,
    bias_binary64, bias_binary32, hexponent]
  simp only [binary64, binary32, hfraction]

theorem magnitude_of_subnormal {lead rest : Nat} (short : lead ≤ 52) :
    binary64.magnitude (lead + 874) (rest * 2 ^ (52 - lead)) =
      binary32.magnitude 0 (2 ^ lead + rest) := by
  have hfraction : ((rest * 2 ^ (52 - lead) : Nat) : ℚ) / 2 ^ 52 = rest / 2 ^ lead := by
    have hunits : (2 : ℚ) ^ 52 = 2 ^ lead * 2 ^ (52 - lead) := by
      rw [← pow_add, Nat.add_sub_cancel' short]
    rw [hunits, Nat.cast_mul, Nat.cast_pow, Nat.cast_ofNat, mul_div_mul_right _ _ (by positivity)]
  have hexponent : (2 : ℚ) ^ (((lead + 874 : Nat) : ℤ) - 1023) = 2 ^ lead * 2 ^ (-149 : ℤ) := by
    have hsum : ((lead + 874 : Nat) : ℤ) - 1023 = lead + -149 := by omega
    rw [hsum, zpow_add₀ two_ne_zero, zpow_natCast]
  have hleast : (2 : ℚ) ^ (1 - 127 : ℤ) / 2 ^ 23 = 2 ^ (-149 : ℤ) := by
    rw [← zpow_natCast, ← zpow_sub₀ two_ne_zero]
    norm_num only
  rw [BinaryFormat.magnitude, BinaryFormat.magnitude, if_neg (by omega), if_pos rfl, bias_binary64,
    bias_binary32]
  simp only [binary64, binary32]
  rw [hfraction, hexponent, mul_div_left_comm, hleast]
  push_cast
  field_simp

theorem Widened.decode_eq (h : Widened exponent fraction wideExponent wideFraction)
    (negative : Bool) :
    binary64.decode negative wideExponent wideFraction =
      binary32.decode negative exponent fraction := by
  have hwide : 2 ^ binary64.exponentBits - 1 = 2047 := rfl
  have hnarrow : 2 ^ binary32.exponentBits - 1 = 255 := rfl
  rw [BinaryFormat.decode, BinaryFormat.decode, hwide, hnarrow]
  cases h with
  | @notFinite fraction bound =>
      have hzero : fraction * 2 ^ 29 = 0 ↔ fraction = 0 := by omega
      simp only [if_true, hzero]
  | normal nonzero finite bound =>
      rw [if_neg (by omega), if_neg (by omega), magnitude_of_normal nonzero]
  | zero =>
      rw [if_neg (by decide), if_neg (by decide)]
      simp [BinaryFormat.magnitude]
  | subnormal short bound =>
      rw [if_neg (by omega), if_neg (by decide), magnitude_of_subnormal (by omega)]

theorem read_widen (bits : UInt32) :
    binary64.negative (widen bits).toNat = binary32.negative bits.toNat ∧
      binary64.read (widen bits).toNat = binary32.read bits.toNat := by
  obtain ⟨exponent, fraction, hwidened, hwiden⟩ := widen_eq bits
  obtain ⟨hexponent, hfraction⟩ := hwidened.bounds
  have hsign : bits.toNat / 2 ^ 31 ≤ 1 := by
    have hbits := bits.toNat_lt
    omega
  have hnegative : binary32.negative bits.toNat = decide (bits.toNat / 2 ^ 31 = 1) := by
    have htop : bits.toNat / 2 ^ 31 % 2 = bits.toNat / 2 ^ 31 := Nat.mod_eq_of_lt (by omega)
    rw [BinaryFormat.negative_eq, show binary32.exponentBits + binary32.fractionBits = 31 from rfl,
      htop]
  have hpattern : (widen bits).toNat =
      bits.toNat / 2 ^ 31 * 2 ^ 63 + exponent * 2 ^ 52 + fraction := by
    rw [hwiden, UInt64.toNat_ofNat']
    exact Nat.mod_eq_of_lt (by omega)
  obtain ⟨hn, he, hf⟩ := BinaryFormat.fields_of_pack (f := binary64) hsign hexponent hfraction
  have hsame : binary64.negative (widen bits).toNat = binary32.negative bits.toNat := by
    rw [hpattern, hnegative]
    exact hn
  refine ⟨hsame, ?_⟩
  rw [BinaryFormat.read, hsame, BinaryFormat.read, ← hwidened.decode_eq, hpattern]
  congr 1

end SixPlaces

end DiagnosticLog
