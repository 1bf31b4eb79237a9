import DiagnosticLog.Text.Utf8
import Mathlib.Data.List.Forall2

/-!
# Well-formed sequences

The sequences that the table of lead bytes describes are the encodings of the scalar values: each
encoding fits the table (`ofChar_fits`), and whatever fits the table is an encoding
(`exists_ofChar`).  From the table it can be read that no encoding begins another one
(`ofChar_inj_of_isPrefix`).
-/

namespace DiagnosticLog.Utf8

abbrev Fits (rs : List ByteRange) (x : Bytes) : Prop :=
  List.Forall₂ (fun r b => r.holds b = true) rs x

theorem holds_iff {r : ByteRange} {b : UInt8} :
    r.holds b = true ↔ r.low.toNat ≤ b.toNat ∧ b.toNat ≤ r.high.toNat := by
  simp [ByteRange.holds, UInt8.le_iff_toNat_le]

theorem toNat_ofNat {n : Nat} (h : n < 256) : (UInt8.ofNat n).toNat = n := by
  rw [UInt8.toNat_ofNat']
  exact Nat.mod_eq_of_lt h

theorem ofNat_eq {n : Nat} {b : UInt8} (h : n = b.toNat) : UInt8.ofNat n = b := by
  rw [h, UInt8.ofNat_toNat]

/-! ## The table by numbers -/

theorem followers_eq (b : UInt8) :
    followers b =
      if b.toNat ≤ 0x7F then some []
      else if b.toNat ≤ 0xC1 then none
      else if b.toNat ≤ 0xDF then some [continuation]
      else if b.toNat = 0xE0 then some [⟨0xA0, 0xBF⟩, continuation]
      else if b.toNat = 0xED then some [⟨0x80, 0x9F⟩, continuation]
      else if b.toNat ≤ 0xEF then some [continuation, continuation]
      else if b.toNat = 0xF0 then some [⟨0x90, 0xBF⟩, continuation, continuation]
      else if b.toNat ≤ 0xF3 then some [continuation, continuation, continuation]
      else if b.toNat = 0xF4 then some [⟨0x80, 0x8F⟩, continuation, continuation]
      else none := by
  simp only [followers, UInt8.le_iff_toNat_le, ← UInt8.toNat_inj]
  rfl

variable {lead b : UInt8} {rs : List ByteRange}

theorem continuation_holds :
    continuation.holds b = true ↔ 0x80 ≤ b.toNat ∧ b.toNat ≤ 0xBF :=
  holds_iff

theorem followers_one (h : lead.toNat ≤ 0x7F) : followers lead = some [] := by
  rw [followers_eq, if_pos h]

theorem followers_two (low : 0xC2 ≤ lead.toNat) (high : lead.toNat ≤ 0xDF) :
    followers lead = some [continuation] := by
  rw [followers_eq, if_neg (by omega), if_neg (by omega), if_pos high]

/-- After `E0` an overlong form is kept out, and after `ED` a surrogate. -/
theorem followers_three (low : 0xE0 ≤ lead.toNat) (high : lead.toNat ≤ 0xEF) :
    ∃ r, followers lead = some [r, continuation] ∧
      ∀ b : UInt8, r.holds b = true ↔ (0x80 ≤ b.toNat ∧ b.toNat ≤ 0xBF) ∧
        (lead.toNat = 0xE0 → 0xA0 ≤ b.toNat) ∧ (lead.toNat = 0xED → b.toNat ≤ 0x9F) := by
  rw [followers_eq, if_neg (by omega), if_neg (by omega), if_neg (by omega)]
  split
  · refine ⟨_, rfl, fun b => ?_⟩
    rw [holds_iff]
    simp only [UInt8.reduceToNat]
    omega
  split
  · refine ⟨_, rfl, fun b => ?_⟩
    rw [holds_iff]
    simp only [UInt8.reduceToNat]
    omega
  · refine ⟨continuation, rfl, fun b => ?_⟩
    rw [continuation_holds]
    omega

/-- After `F0` an overlong form is kept out, and after `F4` what lies above all scalar values. -/
theorem followers_four (low : 0xF0 ≤ lead.toNat) (high : lead.toNat ≤ 0xF4) :
    ∃ r, followers lead = some [r, continuation, continuation] ∧
      ∀ b : UInt8, r.holds b = true ↔ (0x80 ≤ b.toNat ∧ b.toNat ≤ 0xBF) ∧
        (lead.toNat = 0xF0 → 0x90 ≤ b.toNat) ∧ (lead.toNat = 0xF4 → b.toNat ≤ 0x8F) := by
  rw [followers_eq, if_neg (by omega), if_neg (by omega), if_neg (by omega), if_neg (by omega),
    if_neg (by omega), if_neg (by omega)]
  split
  · refine ⟨_, rfl, fun b => ?_⟩
    rw [holds_iff]
    simp only [UInt8.reduceToNat]
    omega
  split
  · refine ⟨continuation, rfl, fun b => ?_⟩
    rw [continuation_holds]
    omega
  · rw [if_pos (by omega)]
    refine ⟨_, rfl, fun b => ?_⟩
    rw [holds_iff]
    simp only [UInt8.reduceToNat]
    omega

theorem lead_of_followers (h : followers lead = some rs) :
    lead.toNat ≤ 0x7F ∨ (0xC2 ≤ lead.toNat ∧ lead.toNat ≤ 0xDF) ∨
      (0xE0 ≤ lead.toNat ∧ lead.toNat ≤ 0xEF) ∨ (0xF0 ≤ lead.toNat ∧ lead.toNat ≤ 0xF4) := by
  rw [followers_eq] at h
  by_contra houtside
  rw [if_neg (by omega)] at h
  split at h
  · cases h
  · simp only [show ¬ lead.toNat ≤ 0xDF by omega, show lead.toNat ≠ 0xE0 by omega,
      show lead.toNat ≠ 0xED by omega, show ¬ lead.toNat ≤ 0xEF by omega,
      show lead.toNat ≠ 0xF0 by omega, show ¬ lead.toNat ≤ 0xF3 by omega,
      show lead.toNat ≠ 0xF4 by omega, if_false, reduceCtorEq] at h

/-! ## Encodings fit the table -/

theorem continuation_ofNat (n : Nat) : continuation.holds (UInt8.ofNat (n % 64 + 0x80)) = true := by
  rw [continuation_holds, toNat_ofNat (by omega)]
  omega

theorem ofChar_fits (c : Char) :
    ∃ lead tail rs, Bytes.ofChar c = lead :: tail ∧ followers lead = some rs ∧ Fits rs tail := by
  have hvalid : c.val.toNat < 0xD800 ∨ 0xDFFF < c.val.toNat ∧ c.val.toNat < 0x110000 := c.valid
  unfold Bytes.ofChar String.utf8EncodeChar
  generalize c.val.toNat = v at hvalid
  dsimp only
  split
  · have hlead : (UInt8.ofNat v).toNat = v := toNat_ofNat (by omega)
    exact ⟨_, _, [], rfl, followers_one (by omega), .nil⟩
  split
  · have hlead : (UInt8.ofNat (v / 64 % 32 + 0xC0)).toNat = v / 64 % 32 + 0xC0 :=
      toNat_ofNat (by omega)
    exact ⟨_, _, [continuation], rfl, followers_two (by omega) (by omega),
      .cons (continuation_ofNat v) .nil⟩
  split
  · have hlead : (UInt8.ofNat (v / 4096 % 16 + 0xE0)).toNat = v / 4096 % 16 + 0xE0 :=
      toNat_ofNat (by omega)
    have hsecond : (UInt8.ofNat (v / 64 % 64 + 0x80)).toNat = v / 64 % 64 + 0x80 :=
      toNat_ofNat (by omega)
    obtain ⟨r, hfollowers, hr⟩ := @followers_three (UInt8.ofNat (v / 4096 % 16 + 0xE0))
      (by omega) (by omega)
    have hb : r.holds (UInt8.ofNat (v / 64 % 64 + 0x80)) = true := by
      rw [hr]
      omega
    exact ⟨_, _, _, rfl, hfollowers, .cons hb (.cons (continuation_ofNat v) .nil)⟩
  · have hlead : (UInt8.ofNat (v / 262144 % 8 + 0xF0)).toNat = v / 262144 % 8 + 0xF0 :=
      toNat_ofNat (by omega)
    have hsecond : (UInt8.ofNat (v / 4096 % 64 + 0x80)).toNat = v / 4096 % 64 + 0x80 :=
      toNat_ofNat (by omega)
    obtain ⟨r, hfollowers, hr⟩ := @followers_four (UInt8.ofNat (v / 262144 % 8 + 0xF0))
      (by omega) (by omega)
    have hb : r.holds (UInt8.ofNat (v / 4096 % 64 + 0x80)) = true := by
      rw [hr]
      omega
    exact ⟨_, _, _, rfl, hfollowers,
      .cons hb (.cons (continuation_ofNat _) (.cons (continuation_ofNat v) .nil))⟩

/-! ## What fits the table is an encoding -/

theorem exists_char {v : Nat} (valid : v.isValidChar) : ∃ c : Char, c.val.toNat = v :=
  ⟨Char.ofNatAux v valid, rfl⟩

theorem exists_one {a : UInt8} (ha : a.toNat ≤ 0x7F) : ∃ c, Bytes.ofChar c = [a] := by
  obtain ⟨c, hval⟩ := exists_char (v := a.toNat) (.inl (by omega))
  refine ⟨c, ?_⟩
  simp only [Bytes.ofChar, String.utf8EncodeChar, hval, if_pos ha, UInt8.ofNat_toNat]

theorem exists_two {a b : UInt8} (ha : 0xC2 ≤ a.toNat ∧ a.toNat ≤ 0xDF)
    (hb : 0x80 ≤ b.toNat ∧ b.toNat ≤ 0xBF) : ∃ c, Bytes.ofChar c = [a, b] := by
  generalize hv : (a.toNat - 0xC0) * 64 + (b.toNat - 0x80) = v
  obtain ⟨ch, hval⟩ := exists_char (v := v) (.inl (by omega))
  refine ⟨ch, ?_⟩
  simp only [Bytes.ofChar, String.utf8EncodeChar, hval]
  rw [if_neg (by omega), if_pos (by omega), ofNat_eq (b := a) (by omega),
    ofNat_eq (b := b) (by omega)]

theorem exists_three {a b c : UInt8} (ha : 0xE0 ≤ a.toNat ∧ a.toNat ≤ 0xEF)
    (hb : 0x80 ≤ b.toNat ∧ b.toNat ≤ 0xBF) (hc : 0x80 ≤ c.toNat ∧ c.toNat ≤ 0xBF)
    (long : a.toNat = 0xE0 → 0xA0 ≤ b.toNat) (surrogate : a.toNat = 0xED → b.toNat ≤ 0x9F) :
    ∃ ch, Bytes.ofChar ch = [a, b, c] := by
  generalize hv : (a.toNat - 0xE0) * 4096 + (b.toNat - 0x80) * 64 + (c.toNat - 0x80) = v
  have hvalid : v < 0xD800 ∨ 0xDFFF < v ∧ v < 0x110000 := by omega
  obtain ⟨ch, hval⟩ := exists_char hvalid
  refine ⟨ch, ?_⟩
  simp only [Bytes.ofChar, String.utf8EncodeChar, hval]
  rw [if_neg (by omega), if_neg (by omega), if_pos (by omega), ofNat_eq (b := a) (by omega),
    ofNat_eq (b := b) (by omega), ofNat_eq (b := c) (by omega)]

theorem exists_four {a b c d : UInt8} (ha : 0xF0 ≤ a.toNat ∧ a.toNat ≤ 0xF4)
    (hb : 0x80 ≤ b.toNat ∧ b.toNat ≤ 0xBF) (hc : 0x80 ≤ c.toNat ∧ c.toNat ≤ 0xBF)
    (hd : 0x80 ≤ d.toNat ∧ d.toNat ≤ 0xBF) (long : a.toNat = 0xF0 → 0x90 ≤ b.toNat)
    (last : a.toNat = 0xF4 → b.toNat ≤ 0x8F) : ∃ ch, Bytes.ofChar ch = [a, b, c, d] := by
  generalize hv : (a.toNat - 0xF0) * 262144 + (b.toNat - 0x80) * 4096 + (c.toNat - 0x80) * 64 +
    (d.toNat - 0x80) = v
  have hvalid : v < 0xD800 ∨ 0xDFFF < v ∧ v < 0x110000 := by omega
  obtain ⟨ch, hval⟩ := exists_char hvalid
  refine ⟨ch, ?_⟩
  simp only [Bytes.ofChar, String.utf8EncodeChar, hval]
  rw [if_neg (by omega), if_neg (by omega), if_neg (by omega), ofNat_eq (b := a) (by omega),
    ofNat_eq (b := b) (by omega), ofNat_eq (b := c) (by omega), ofNat_eq (b := d) (by omega)]

theorem Fits.cons_inv {r : ByteRange} {x : Bytes} (fits : Fits (r :: rs) x) :
    ∃ b y, x = b :: y ∧ r.holds b = true ∧ Fits rs y := by
  cases fits with
  | @cons _ b _ y hb rest => exact ⟨b, y, rfl, hb, rest⟩

theorem Fits.nil_inv {x : Bytes} (fits : Fits [] x) : x = [] := by
  cases fits
  rfl

theorem exists_ofChar {tail : Bytes} (hfollowers : followers lead = some rs)
    (fits : Fits rs tail) : ∃ c, Bytes.ofChar c = lead :: tail := by
  rcases lead_of_followers hfollowers with hlead | ⟨low, high⟩ | ⟨low, high⟩ | ⟨low, high⟩
  · rw [followers_one hlead] at hfollowers
    cases hfollowers
    rw [fits.nil_inv]
    exact exists_one hlead
  · rw [followers_two low high] at hfollowers
    cases hfollowers
    obtain ⟨b, y, rfl, hb, hrest⟩ := fits.cons_inv
    rw [hrest.nil_inv]
    exact exists_two ⟨low, high⟩ (continuation_holds.mp hb)
  · obtain ⟨r, hthree, hr⟩ := followers_three low high
    rw [hthree] at hfollowers
    cases hfollowers
    obtain ⟨b, y, rfl, hb, hrest⟩ := fits.cons_inv
    obtain ⟨c, y, rfl, hc, hrest⟩ := hrest.cons_inv
    obtain ⟨hb, long, surrogate⟩ := (hr b).mp hb
    rw [hrest.nil_inv]
    exact exists_three ⟨low, high⟩ hb (continuation_holds.mp hc) long surrogate
  · obtain ⟨r, hfour, hr⟩ := followers_four low high
    rw [hfour] at hfollowers
    cases hfollowers
    obtain ⟨b, y, rfl, hb, hrest⟩ := fits.cons_inv
    obtain ⟨c, y, rfl, hc, hrest⟩ := hrest.cons_inv
    obtain ⟨d, y, rfl, hd, hrest⟩ := hrest.cons_inv
    obtain ⟨hb, long, last⟩ := (hr b).mp hb
    rw [hrest.nil_inv]
    exact exists_four ⟨low, high⟩ hb (continuation_holds.mp hc) (continuation_holds.mp hd) long last

/-! ## What the table tells of encodings -/

variable {c d : Char} {x y : Bytes}

theorem ofChar_ne_nil (c : Char) : Bytes.ofChar c ≠ [] := by
  obtain ⟨lead, tail, rs, hc, -⟩ := ofChar_fits c
  simp [hc]

theorem fits_of_ofChar {tail : Bytes} (hc : Bytes.ofChar c = lead :: tail) :
    ∃ rs, followers lead = some rs ∧ Fits rs tail := by
  obtain ⟨lead', tail', rs, hc', hfollowers, fits⟩ := ofChar_fits c
  rw [hc] at hc'
  cases hc'
  exact ⟨rs, hfollowers, fits⟩

theorem ofChar_inj_of_isPrefix (hc : Bytes.ofChar c <+: x) (hd : Bytes.ofChar d <+: x) : c = d := by
  obtain ⟨y, rfl⟩ := hc
  obtain ⟨z, hz⟩ := hd
  have hbytes := congrArg List.toByteArray hz
  rw [List.toByteArray_append, List.toByteArray_append] at hbytes
  have hdecoded := congrArg (ByteArray.utf8DecodeChar? · 0) hbytes
  simp only [Bytes.ofChar, ByteArray.utf8DecodeChar?_utf8EncodeChar_append] at hdecoded
  exact (Option.some.inj hdecoded).symm

end DiagnosticLog.Utf8
