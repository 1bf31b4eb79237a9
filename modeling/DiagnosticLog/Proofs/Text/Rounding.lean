import DiagnosticLog.Proofs.Session.Printers
import DiagnosticLog.Proofs.Text.BitPatterns
import Mathlib.Algebra.Order.Ring.Abs
import Mathlib.Tactic.Linarith
import Mathlib.Tactic.LinearCombination

/-!
# How reals are rounded

A finite real is shown as a decimal number with six places, that of the millionths which are
nearest to the exact value of its bit pattern, or of the even one of two.  So the numbers that are
shown are ordered as the reals are (`reals_are_rounded_correctly`).
-/

namespace DiagnosticLog

/-! ## Nearest millionths -/

/-- No number of millionths is nearer to the value, and of two that are equally near this is the
even one. -/
structure Nearest (x : ℚ) (n : ℤ) : Prop where
  least : ∀ m : ℤ, |x - n / 10 ^ 6| ≤ |x - m / 10 ^ 6|
  even_of_tie : ∀ m : ℤ, m ≠ n → |x - m / 10 ^ 6| = |x - n / 10 ^ 6| → Even n

namespace Nearest

variable {x y : ℚ} {m n : ℤ}

theorem abs_sub_millionths (x : ℚ) (n : ℤ) :
    |x - n / 10 ^ 6| = |x * 10 ^ 6 - n| / 10 ^ 6 := by
  have hscale : x - n / 10 ^ 6 = (x * 10 ^ 6 - n) / 10 ^ 6 := by
    field_simp
  rw [hscale, abs_div, abs_of_pos (by positivity : (0 : ℚ) < 10 ^ 6)]

theorem one_le_abs_sub (x : ℚ) (h : m ≠ n) : 1 ≤ |x - m| + |x - n| := by
  have hapart : (1 : ℚ) ≤ |(m : ℚ) - n| := by
    have hapart := Int.one_le_abs (sub_ne_zero.mpr h)
    exact_mod_cast hapart
  have htriangle := abs_sub_le (m : ℚ) x n
  rw [abs_sub_comm (m : ℚ) x] at htriangle
  linarith

/-- Half a millionth suffices, if a half goes to the even one. -/
theorem of_half (near : 2 * |x * 10 ^ 6 - n| ≤ 1) (even : 2 * |x * 10 ^ 6 - n| = 1 → Even n) :
    Nearest x n := by
  have hother : ∀ m : ℤ, m ≠ n → 1 ≤ |x * 10 ^ 6 - m| + |x * 10 ^ 6 - n| :=
    fun m hm => one_le_abs_sub _ hm
  constructor
  · intro m
    rw [abs_sub_millionths, abs_sub_millionths]
    rcases eq_or_ne m n with rfl | hm
    · exact le_rfl
    · have hfar := hother m hm
      exact div_le_div_of_nonneg_right (by linarith) (by positivity)
  · intro m hm htie
    rw [abs_sub_millionths, abs_sub_millionths, div_left_inj' (by positivity)] at htie
    have hfar := hother m hm
    exact even (le_antisymm near (by linarith))

theorem neg (h : Nearest x n) : Nearest (-x) (-n) := by
  have hflip (m : ℤ) : |(-x) - m / 10 ^ 6| = |x - (-m : ℤ) / 10 ^ 6| := by
    rw [← abs_neg]
    push_cast
    ring_nf
  constructor
  · intro m
    rw [hflip, hflip, neg_neg]
    exact h.least (-m)
  · intro m hm htie
    rw [hflip, hflip, neg_neg] at htie
    exact (h.even_of_tie (-m) (fun hn => hm (by omega)) htie).neg

theorem le_midpoint (h : Nearest x n) (hm : n < m) : 2 * (x * 10 ^ 6) ≤ n + m := by
  have hle := h.least m
  rw [abs_sub_millionths, abs_sub_millionths, div_le_div_iff_of_pos_right (by positivity)] at hle
  have hm' : (n : ℚ) < m := by exact_mod_cast hm
  by_contra habove
  rw [not_le] at habove
  rw [abs_of_pos (by linarith : (0 : ℚ) < x * 10 ^ 6 - n)] at hle
  have hless : |x * 10 ^ 6 - m| < x * 10 ^ 6 - n := by
    rw [abs_lt]
    constructor <;> linarith
  linarith

theorem mono (hx : Nearest x n) (hy : Nearest y m) (h : x ≤ y) : n ≤ m := by
  by_contra hlt
  rw [not_le] at hlt
  have hy_le := hy.le_midpoint hlt
  have hx_ge := hx.neg.le_midpoint (neg_lt_neg hlt)
  push_cast at hx_ge
  -- Both values are the midpoint.
  have hx_eq : 2 * (x * 10 ^ 6) = m + n := by linarith
  have hy_eq : x = y := by linarith
  subst hy_eq
  have htie : |x - m / 10 ^ 6| = |x - n / 10 ^ 6| :=
    le_antisymm (hy.least n) (hx.least m)
  have hn := hx.even_of_tie m hlt.ne htie
  have hm := hy.even_of_tie n hlt.ne' htie.symm
  -- Between two even numbers there is a nearer one.
  have hbetween : m + 1 < n := by
    rcases hn with ⟨k, hk⟩
    rcases hm with ⟨l, hl⟩
    omega
  have hnear := hx.le_midpoint (n := n) (m := n + 1) (by omega)
  have hless : ((m + 1 : ℤ) : ℚ) < n := by exact_mod_cast hbetween
  have hcloser := hx.neg.le_midpoint (m := -(m + 1)) (by omega)
  push_cast at hcloser hless
  linarith

end Nearest

namespace SixPlaces

/-! ## What is rounded is nearest -/

theorem even_of_tie {num den : Nat} (h : 0 < den)
    (tie : 2 * num = (2 * roundHalfEven num den + 1) * den ∨
      2 * roundHalfEven num den * den = 2 * num + den) : Even (roundHalfEven num den) := by
  have hdiv := Nat.div_add_mod num den
  have hmod := Nat.mod_lt num h
  rw [Nat.even_iff]
  simp only [roundHalfEven] at tie ⊢
  generalize num / den = q at *
  generalize num % den = r at *
  subst hdiv
  split at tie
  · rename_i hdown
    rw [if_pos hdown]
    rcases hdown with hless | ⟨-, heven⟩
    · exfalso
      rcases tie with tie | tie <;> nlinarith
    · exact heven
  · rename_i hup
    rw [if_neg hup]
    have hhalf : 2 * r = den := by
      rcases tie with tie | tie <;> nlinarith
    omega

theorem abs_sub_roundHalfEven (num : Nat) {den : Nat} (h : 0 < den) :
    2 * |(num : ℚ) / den - roundHalfEven num den| ≤ 1 ∧
      (2 * |(num : ℚ) / den - roundHalfEven num den| = 1 → Even (roundHalfEven num den)) := by
  obtain ⟨hupper, hlower⟩ := @roundHalfEven_near num den h
  have heven := @even_of_tie num den h
  generalize roundHalfEven num den = n at *
  have hden : (0 : ℚ) < den := by exact_mod_cast h
  have hnum : (num : ℚ) = num / den * den := (div_mul_cancel₀ _ hden.ne').symm
  have hupper' : 2 * (num : ℚ) ≤ (2 * n + 1) * den := by exact_mod_cast hupper
  have hlower' : 2 * n * (den : ℚ) ≤ 2 * num + den := by exact_mod_cast hlower
  generalize hx : (num : ℚ) / den = x at *
  have habove : x - n ≤ 1 / 2 := by
    by_contra hfar
    nlinarith
  have hbelow : -(1 / 2) ≤ x - n := by
    by_contra hfar
    nlinarith
  have hnear : |x - n| ≤ 1 / 2 := abs_le.mpr ⟨hbelow, habove⟩
  refine ⟨by linarith, fun htie => heven ?_⟩
  have htie' : |x - n| = 1 / 2 := by linarith
  rcases (abs_eq (by norm_num)).mp htie' with hx | hx
  · refine .inl ?_
    have hnum' : 2 * (num : ℚ) = (2 * n + 1) * den := by
      rw [hnum]
      linear_combination 2 * (den : ℚ) * hx
    exact_mod_cast hnum'
  · refine .inr ?_
    have hnum' : 2 * n * (den : ℚ) = 2 * num + den := by
      rw [hnum]
      linear_combination -2 * (den : ℚ) * hx
    exact_mod_cast hnum'

theorem magnitude_eq_div (significand : Nat) (exponent : Int) :
    (significand : ℚ) * 2 ^ exponent * 10 ^ 6 =
      ((significand * 1000000 * twoTo exponent.toNat : Nat) : ℚ) /
        (twoTo (-exponent).toNat : Nat) := by
  have hpower : (2 : ℚ) ^ exponent = 2 ^ exponent.toNat / 2 ^ (-exponent).toNat := by
    rw [← zpow_natCast, ← zpow_natCast, ← zpow_sub₀ two_ne_zero]
    congr 1
    omega
  rw [hpower, twoTo_eq, twoTo_eq]
  push_cast
  ring

theorem nearest_millionths (negative : Bool) (significand : Nat) (exponent : Int) :
    Nearest (signed negative (significand * 2 ^ exponent))
      (if negative then -(millionths significand exponent : ℤ)
        else millionths significand exponent) := by
  have hpos : 0 < twoTo (-exponent).toNat := Nat.two_pow_pos _
  obtain ⟨hnear, heven⟩ :=
    abs_sub_roundHalfEven (significand * 1000000 * twoTo exponent.toNat) hpos
  rw [← magnitude_eq_div, ← millionths, ← Int.cast_natCast] at hnear heven
  have hnearest : Nearest (significand * 2 ^ exponent) (millionths significand exponent) :=
    .of_half hnear fun htie => (Int.even_coe_nat _).mpr (heven htie)
  cases negative with
  | false =>
      rw [signed, if_neg Bool.false_ne_true, if_neg Bool.false_ne_true]
      exact hnearest
  | true =>
      rw [signed, if_pos rfl, if_pos rfl]
      exact hnearest.neg

end SixPlaces

/-! ## Decimal numbers -/

/-- A decimal number with six places. -/
structure Decimal where
  negative : Bool
  whole : List Char
  places : List Char
  whole_ne_nil : whole ≠ []
  whole_digits : ∀ c ∈ whole, c.isDigit = true
  /-- No zero stands before other digits. -/
  whole_lead : whole.head? = some '0' → whole = ['0']
  places_digits : ∀ c ∈ places, c.isDigit = true
  length_places : places.length = 6

namespace Decimal

def text (d : Decimal) : List Char :=
  (if d.negative then ['-'] else []) ++ d.whole ++ '.' :: d.places

def millionths (d : Decimal) : ℤ :=
  if d.negative then -(Nat.ofDigitChars 10 (d.whole ++ d.places) 0 : ℤ)
  else Nat.ofDigitChars 10 (d.whole ++ d.places) 0

def value (d : Decimal) : ℚ :=
  d.millionths / 10 ^ 6

theorem head_whole (d : Decimal) : d.whole.head? ≠ some '-' := by
  intro h
  have hdigit := d.whole_digits '-' (List.mem_of_head? h)
  exact absurd hdigit (by decide)

theorem text_injective {d e : Decimal} (h : d.text = e.text) : d = e := by
  obtain ⟨hfront, hplaces⟩ := List.append_inj' h (by simp [d.length_places, e.length_places])
  have hplaces : d.places = e.places := (List.cons.inj hplaces).2
  have hd := d.head_whole
  have he := e.head_whole
  have hwhole : d.negative = e.negative ∧ d.whole = e.whole := by
    cases hdn : d.negative <;> cases hen : e.negative <;>
      simp only [hdn, hen, if_true, Bool.false_eq_true, if_false, List.nil_append,
        List.singleton_append] at hfront
    · exact ⟨rfl, hfront⟩
    · rw [hfront] at hd
      exact absurd rfl hd
    · rw [← hfront] at he
      exact absurd rfl he
    · exact ⟨rfl, (List.cons.inj hfront).2⟩
  cases d
  cases e
  simp only at hplaces hwhole
  simp only [hwhole, hplaces]

theorem eq_zero_of_head {n : Nat} (h : (Numeral.decimal n).head? = some '0') : n = 0 := by
  induction n using Nat.strong_induction_on with
  | _ n ih =>
      unfold Numeral.decimal at h ih
      rcases Nat.lt_or_ge n 10 with hn | hn
      · rw [Nat.toDigits_of_lt_base hn] at h
        exact Nat.digitChar_eq_zero.mp (Option.some.inj h)
      · rw [Nat.toDigits_of_base_le (by decide) hn,
          List.head?_append_of_ne_nil _ Nat.toDigits_ne_nil] at h
        have hzero := ih (n / 10) (by omega) h
        omega

theorem isDigit_of_mem_decimal {n : Nat} : ∀ c ∈ Numeral.decimal n, c.isDigit = true :=
  fun _ hc => Nat.isDigit_of_mem_toDigits (by decide) (by decide) hc

theorem isDigit_of_mem_padded {n width : Nat} :
    ∀ c ∈ Numeral.padded width (Numeral.decimal n), c.isDigit = true := by
  intro c hc
  rcases List.mem_append.mp hc with hzero | hdigit
  · rw [List.eq_of_mem_replicate hzero]
    rfl
  · exact isDigit_of_mem_decimal c hdigit

theorem decimal_of_head {n : Nat} (h : (Numeral.decimal n).head? = some '0') :
    Numeral.decimal n = ['0'] := by
  rw [eq_zero_of_head h]
  rfl

theorem length_padded (count : Nat) :
    (Numeral.padded 6 (Numeral.decimal (count % 1000000))).length = 6 := by
  have hshort : (Numeral.decimal (count % 1000000)).length ≤ 6 :=
    (Nat.length_toDigits_le_iff (by decide) (by decide)).mpr (Nat.mod_lt _ (by decide))
  simp only [Numeral.padded, List.leftpad, List.length_append, List.length_replicate]
  omega

def ofCount (negative : Bool) (count : Nat) : Decimal where
  negative
  whole := Numeral.decimal (count / 1000000)
  places := Numeral.padded 6 (Numeral.decimal (count % 1000000))
  whole_ne_nil := Nat.toDigits_ne_nil
  whole_digits := isDigit_of_mem_decimal
  whole_lead := decimal_of_head
  places_digits := isDigit_of_mem_padded
  length_places := length_padded count

theorem text_ofCount (negative : Bool) (count : Nat) :
    (ofCount negative count).text =
      (if negative then ['-'] else []) ++ SixPlaces.decimalPoint count :=
  List.append_assoc _ _ _

theorem ofDigitChars_ofCount (negative : Bool) (count : Nat) :
    Nat.ofDigitChars 10 ((ofCount negative count).whole ++ (ofCount negative count).places) 0 =
      count := by
  have hlength := (ofCount negative count).length_places
  have hplaces : Nat.ofDigitChars 10 (ofCount negative count).places 0 = count % 1000000 := by
    simp only [ofCount, Numeral.padded, List.leftpad, Nat.ofDigitChars_append,
      Nat.ofDigitChars_replicate_zero, Nat.mul_zero, Numeral.decimal,
      Nat.ofDigitChars_ten_toDigits]
  have hwhole : Nat.ofDigitChars 10 (ofCount negative count).whole 0 = count / 1000000 :=
    Nat.ofDigitChars_ten_toDigits
  rw [Nat.ofDigitChars_append, Nat.ofDigitChars_eq_ofDigitChars_zero, hwhole, hplaces, hlength]
  omega

theorem millionths_ofCount (negative : Bool) (count : Nat) :
    (ofCount negative count).millionths = if negative then -(count : ℤ) else count := by
  rw [millionths, ofDigitChars_ofCount]
  rfl

end Decimal

/-! ## Reals -/

inductive RealBits where
  | single (bits : UInt32)
  | double (bits : UInt64)

namespace RealBits

open BinaryFormat (binary32 binary64)
open SixPlaces (widen)

def negative : RealBits → Bool
  | single bits => binary32.negative bits.toNat
  | double bits => binary64.negative bits.toNat

def read : RealBits → Reading
  | single bits => binary32.read bits.toNat
  | double bits => binary64.read bits.toNat

def text : RealBits → List Char
  | single bits => SixPlaces.text (widen bits)
  | double bits => SixPlaces.text bits

def print : RealBits → Task Unit
  | single bits => Log.printFloat bits
  | double bits => Log.printDouble bits

/-- How a real is to be shown. -/
inductive Shows (r : RealBits) : List Char → Prop where
  | finite {x : ℚ} (value : r.read = .finite x) {d : Decimal} (sign : d.negative = r.negative)
      (nearest : Nearest x d.millionths) : Shows r d.text
  | infinite (value : r.read = .infinite) :
      Shows r ((if r.negative then ['-'] else []) ++ ['i', 'n', 'f'])
  | notANumber (value : r.read = .notANumber) : Shows r ['N', 'a', 'N']

theorem shows_double (bits : UInt64) : (double bits).Shows (SixPlaces.text bits) := by
  have hread : (double bits).read = _ := SixPlaces.read_binary64 bits
  have hsign : SixPlaces.isNegative bits = (double bits).negative := SixPlaces.isNegative_eq bits
  have hshown : SixPlaces.magnitude bits ≠ .notANumber →
      SixPlaces.shownSign bits = if (double bits).negative then ['-'] else [] := by
    intro h
    simp only [SixPlaces.shownSign, hsign, ne_eq, h, not_false_eq_true, and_true]
  rw [SixPlaces.text]
  cases hm : SixPlaces.magnitude bits with
  | finite significand exponent =>
      rw [hm, hsign] at hread
      rw [hshown (by simp [hm])]
      have hnearest := SixPlaces.nearest_millionths (double bits).negative significand exponent
      rw [← Decimal.millionths_ofCount] at hnearest
      have hshows := Shows.finite hread rfl hnearest
      rw [Decimal.text_ofCount] at hshows
      exact hshows
  | infinite =>
      rw [hm] at hread
      rw [hshown (by simp [hm])]
      exact .infinite hread
  | notANumber =>
      rw [hm] at hread
      rw [SixPlaces.shownSign, if_neg (by simp [hm])]
      exact .notANumber hread

theorem Shows.congr {r r' : RealBits} {cs : List Char} (h : Shows r cs)
    (negative : r.negative = r'.negative) (read : r.read = r'.read) : Shows r' cs := by
  cases h with
  | finite value sign nearest =>
      exact .finite (read.symm.trans value) (sign.trans negative) nearest
  | infinite value =>
      rw [negative]
      exact .infinite (read.symm.trans value)
  | notANumber value => exact .notANumber (read.symm.trans value)

theorem shows_text : ∀ r : RealBits, r.Shows r.text
  | double bits => shows_double bits
  | single bits =>
      let widened := SixPlaces.read_widen bits
      (shows_double (widen bits)).congr widened.1 widened.2

theorem nearest_of_text {r : RealBits} {x : ℚ} {d : Decimal} (value : r.read = .finite x)
    (text : r.text = d.text) : Nearest x d.millionths := by
  have hshows := shows_text r
  generalize hcs : r.text = cs at hshows
  cases hshows with
  | @finite y value' e sign nearest =>
      have hsame : d = e := Decimal.text_injective (text.symm.trans hcs)
      rw [value] at value'
      cases value'
      rw [hsame]
      exact nearest
  | infinite value' =>
      rw [value] at value'
      cases value'
  | notANumber value' =>
      rw [value] at value'
      cases value'

theorem run_print {s : Session} {t : ThreadId} {c : Channel} {h : Hosted}
    (hosted : s.platform = .hosted h) (prints : s.Prints t .patient c) (r : RealBits) :
    ∃ s', r.print.run (Session.perform t) s = .finished () s' ∧
      ∀ before, s.HasText c before → s'.HasText c (before ++ Bytes.ofChars r.text) := by
  have hreal (bits : UInt64) :
      Primitive.realText s bits = Bytes.ofChars (SixPlaces.text bits) := by
    rw [Primitive.realText, Session.formatsReals, hosted]
    rfl
  cases r with
  | single bits =>
      obtain ⟨s', hrun, -, hsaid⟩ := Session.adds_primitive prints (.float bits)
      rw [Primitive.text, hreal] at hsaid
      exact ⟨s', hrun, hsaid⟩
  | double bits =>
      obtain ⟨s', hrun, -, hsaid⟩ := Session.adds_primitive prints (.double bits)
      rw [Primitive.text, hreal] at hsaid
      exact ⟨s', hrun, hsaid⟩

/-- A binary32 pattern is widened without loss; a finite real is shown, with its sign, as the
millionths nearest to its exact value, or the even ones of two; what is not finite is shown by its
name.  So the numbers that are shown are ordered as the reals are.  This is what a print adds to the
sink in a process. -/
theorem reals_are_rounded_correctly :
    (∀ bits : UInt32, (double (widen bits)).negative = (single bits).negative ∧
        (double (widen bits)).read = (single bits).read) ∧
      (∀ r : RealBits, r.Shows r.text) ∧
      (∀ (r r' : RealBits) x y (d e : Decimal), r.read = .finite x → r'.read = .finite y →
        r.text = d.text → r'.text = e.text → x ≤ y → d.value ≤ e.value) ∧
      ∀ (r : RealBits) s t c h, s.platform = .hosted h → Session.Prints s t .patient c →
        ∃ s', r.print.run (Session.perform t) s = .finished () s' ∧
          ∀ before, s.HasText c before → s'.HasText c (before ++ Bytes.ofChars r.text) := by
  refine ⟨SixPlaces.read_widen, shows_text, ?_, ?_⟩
  · intro r r' x y d e hx hy hd he hle
    have hnearest := nearest_of_text hx hd
    have hmillionths : (d.millionths : ℚ) ≤ e.millionths := by
      exact_mod_cast hnearest.mono (nearest_of_text hy he) hle
    exact div_le_div_of_nonneg_right hmillionths (by positivity)
  · intro r s t c h hosted prints
    exact run_print hosted prints r

/-- A negative tie, which is shown as an even number of millionths, and the least subnormal
number. -/
theorem rounded_at_a_tie :
    (double 0xBF80000000000000).text = "-0.007812".toList ∧ (single 1).text = "0.000000".toList ∧
      (Decimal.ofCount true 7812).value ≤ (Decimal.ofCount false 0).value ∧
      ∃ s', (double 0xBF80000000000000).print.run (Session.perform (.lasting 0))
          (.start ⟨.hosted, .lf, false⟩ (fun _ => none) .empty) = .finished () s' ∧
        s'.HasText .standardOut (Bytes.ofString "-0.007812") := by
  have htie : (double 0xBF80000000000000).text = "-0.007812".toList := by decide +kernel
  have hleast : (single 1).text = "0.000000".toList := by decide +kernel
  have htie_read : (double 0xBF80000000000000).read = .finite (-binary64.magnitude 1016 0) := rfl
  have hleast_read : (single 1).read = .finite (binary32.magnitude 0 1) := rfl
  obtain ⟨-, -, hmono, hprint⟩ := reals_are_rounded_correctly
  have hle : -binary64.magnitude 1016 0 ≤ binary32.magnitude 0 1 :=
    (neg_nonpos.mpr (BinaryFormat.magnitude_nonneg _ _)).trans (BinaryFormat.magnitude_nonneg _ _)
  refine ⟨htie, hleast, ?_, ?_⟩
  · exact hmono _ _ _ _ _ _ htie_read hleast_read htie hleast hle
  · obtain ⟨s', hrun, hsaid⟩ := hprint (double 0xBF80000000000000)
      (.start ⟨.hosted, .lf, false⟩ (fun _ => none) .empty) (.lasting 0) .standardOut _ rfl
      ⟨rfl, rfl, trivial⟩
    have htext := hsaid [] ⟨[], rfl, rfl⟩
    rw [htie] at htext
    exact ⟨s', hrun, htext⟩

end RealBits

end DiagnosticLog
