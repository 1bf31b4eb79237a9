import DiagnosticLog.Proofs.Text.Cutting

/-!
# Characters

What printing a character writes, and what printing bytes makes of it.  `Utf8.Encodes` says by the
bits of its bytes which sequence stands for a scalar value; the printer writes these sequences
(`Utf8.encodes_iff`), and since none of them begins another, the characters printed one after
another are cut out of the bytes again just as they were (`printed_characters_are_decoded`).
-/

namespace DiagnosticLog

namespace Utf8

/-- The byte goes on with a sequence: `10xxxxxx`. -/
def Continues (b : UInt8) : Prop :=
  b.toNat / 64 = 0b10

/-- The bytes are the well-formed sequence of a scalar value.  The bits of the value stand in the
bytes behind marks that tell how long the sequence is, and no shorter sequence has room for them. -/
inductive Encodes : Nat → Bytes → Prop where
  | one {a : UInt8} (lead : a.toNat / 128 = 0) : Encodes a.toNat [a]
  | two {v : Nat} {a b : UInt8} (lead : a.toNat / 32 = 0b110) (second : Continues b)
      (value : v = a.toNat % 32 * 64 + b.toNat % 64) (long : 0x80 ≤ v) : Encodes v [a, b]
  | three {v : Nat} {a b c : UInt8} (lead : a.toNat / 16 = 0b1110) (second : Continues b)
      (third : Continues c) (value : v = a.toNat % 16 * 4096 + b.toNat % 64 * 64 + c.toNat % 64)
      (long : 0x800 ≤ v) (scalar : v ≤ 0xD7FF ∨ 0xE000 ≤ v) : Encodes v [a, b, c]
  | four {v : Nat} {a b c d : UInt8} (lead : a.toNat / 8 = 0b11110) (second : Continues b)
      (third : Continues c) (fourth : Continues d)
      (value : v = a.toNat % 8 * 262144 + b.toNat % 64 * 4096 + c.toNat % 64 * 64 + d.toNat % 64)
      (long : 0x10000 ≤ v) (scalar : v ≤ 0x10FFFF) : Encodes v [a, b, c, d]

theorem Encodes.isValidChar {v : Nat} {x : Bytes} (encodes : Encodes v x) : v.isValidChar := by
  unfold Nat.isValidChar
  cases encodes with
  | one lead => omega
  | two lead second value long => omega
  | three lead second third value long scalar => omega
  | four lead second third fourth value long scalar => omega

theorem ofChar_of_encodes {ch : Char} {x : Bytes} (encodes : Encodes ch.val.toNat x) :
    Bytes.ofChar ch = x := by
  unfold Bytes.ofChar String.utf8EncodeChar
  generalize ch.val.toNat = v at encodes
  dsimp only
  cases encodes with
  | one lead => rw [if_pos (by omega), UInt8.ofNat_toNat]
  | @two v a b lead second value long =>
      unfold Continues at second
      rw [if_neg (by omega), if_pos (by omega), ofNat_eq (b := a) (by omega),
        ofNat_eq (b := b) (by omega)]
  | @three v a b c lead second third value long scalar =>
      unfold Continues at second third
      rw [if_neg (by omega), if_neg (by omega), if_pos (by omega), ofNat_eq (b := a) (by omega),
        ofNat_eq (b := b) (by omega), ofNat_eq (b := c) (by omega)]
  | @four v a b c d lead second third fourth value long scalar =>
      unfold Continues at second third fourth
      rw [if_neg (by omega), if_neg (by omega), if_neg (by omega), ofNat_eq (b := a) (by omega),
        ofNat_eq (b := b) (by omega), ofNat_eq (b := c) (by omega), ofNat_eq (b := d) (by omega)]

theorem encodes_ofChar (ch : Char) : Encodes ch.val.toNat (Bytes.ofChar ch) := by
  have hvalid : ch.val.toNat < 0xD800 ∨ 0xDFFF < ch.val.toNat ∧ ch.val.toNat < 0x110000 := ch.valid
  unfold Bytes.ofChar String.utf8EncodeChar
  generalize ch.val.toNat = v at hvalid
  dsimp only
  split
  · have h := toNat_ofNat (n := v) (by omega)
    have hone := Encodes.one (a := UInt8.ofNat v) (by omega)
    rwa [h] at hone
  split
  · have h := toNat_ofNat (n := v / 64 % 32 + 0xC0) (by omega)
    have h' := toNat_ofNat (n := v % 64 + 0x80) (by omega)
    exact .two (by omega) (by unfold Continues; omega) (by omega) (by omega)
  split
  · have h := toNat_ofNat (n := v / 4096 % 16 + 0xE0) (by omega)
    have h' := toNat_ofNat (n := v / 64 % 64 + 0x80) (by omega)
    have h'' := toNat_ofNat (n := v % 64 + 0x80) (by omega)
    exact .three (by omega) (by unfold Continues; omega) (by unfold Continues; omega) (by omega)
      (by omega) (by omega)
  · have h := toNat_ofNat (n := v / 262144 % 8 + 0xF0) (by omega)
    have h' := toNat_ofNat (n := v / 4096 % 64 + 0x80) (by omega)
    have h'' := toNat_ofNat (n := v / 64 % 64 + 0x80) (by omega)
    have h''' := toNat_ofNat (n := v % 64 + 0x80) (by omega)
    exact .four (by omega) (by unfold Continues; omega) (by unfold Continues; omega)
      (by unfold Continues; omega) (by omega) (by omega) (by omega)

theorem encodes_iff {v : Nat} {x : Bytes} :
    Encodes v x ↔ ∃ ch : Char, ch.val.toNat = v ∧ Bytes.ofChar ch = x := by
  constructor
  · intro encodes
    obtain ⟨ch, rfl⟩ := exists_char encodes.isValidChar
    exact ⟨ch, rfl, ofChar_of_encodes encodes⟩
  · rintro ⟨ch, rfl, rfl⟩
    exact encodes_ofChar ch

end Utf8

namespace Characters

open Utf8 (Cuts Encodes Item)

def IsScalar (v : Int) : Prop :=
  (0 ≤ v ∧ v ≤ 0xD7FF) ∨ (0xE000 ≤ v ∧ v ≤ 0x10FFFF)

instance (v : Int) : Decidable (IsScalar v) :=
  inferInstanceAs (Decidable (_ ∨ _))

/-- The scalar value that is printed for a number: its own one, or else U+FFFD. -/
def scalar (n : Int32) : Nat :=
  if IsScalar n.toInt then n.toInt.toNat else 0xFFFD

theorem val_scalarOf (n : Int32) : (Log.scalarOf n).val.toNat = scalar n := by
  have hscalar : (0 ≤ n.toInt ∧ n.toInt.toNat.isValidChar) ↔ IsScalar n.toInt := by
    unfold IsScalar Nat.isValidChar
    omega
  by_cases h : IsScalar n.toInt
  · rw [scalar, if_pos h, Log.scalarOf, dif_pos (hscalar.mpr h)]
    rfl
  · rw [scalar, if_neg h, Log.scalarOf, dif_neg fun h' => h (hscalar.mp h')]
    rfl

def text (ns : List Int32) : Bytes :=
  ns.flatMap fun n => Bytes.ofChar (Log.scalarOf n)

theorem text_eq (ns : List Int32) : text ns = Bytes.ofChars (ns.map Log.scalarOf) :=
  (List.flatMap_map _ _ _).symm

/-- The characters are the items the text is cut into, and the text is cut in no other way. -/
theorem cuts_text (ns : List Int32) (items : List Item) :
    Cuts (text ns) items ↔ items = ns.map fun n => .scalar (Log.scalarOf n) := by
  have hcuts : Cuts (text ns) (ns.map fun n => .scalar (Log.scalarOf n)) := by
    rw [text_eq, ← Function.comp_def, ← List.map_map]
    exact Utf8.cuts_ofChars _
  exact ⟨fun h => h.unique hcuts, fun h => h ▸ hcuts⟩

theorem segments_text (ns : List Int32) :
    Utf8.segments (text ns) = ns.map fun n => .wellFormed (Bytes.ofChar (Log.scalarOf n)) := by
  obtain ⟨items, hcuts, hsegments⟩ := Utf8.exists_cuts (text ns)
  rw [← hsegments, (cuts_text ns items).mp hcuts, List.map_map]
  rfl

theorem scalar_inj {m n : Int32} (hm : IsScalar m.toInt) (hn : IsScalar n.toInt)
    (h : Bytes.ofChar (Log.scalarOf m) = Bytes.ofChar (Log.scalarOf n)) : m = n := by
  have hchar : Log.scalarOf m = Log.scalarOf n :=
    Utf8.ofChar_inj_of_isPrefix (List.prefix_rfl) (h ▸ List.prefix_rfl)
  have hvalue : scalar m = scalar n := by rw [← val_scalarOf, ← val_scalarOf, hchar]
  rw [scalar, scalar, if_pos hm, if_pos hn] at hvalue
  apply Int32.toInt_inj.mp
  unfold IsScalar at hm hn
  omega

/-- A printed character is the well-formed sequence of one scalar value, that of its number if there
is one; and characters printed one after another, with nothing between them, are decoded to their
scalar values and nothing else, so that printing them as bytes prints them again. -/
theorem printed_characters_are_decoded :
    (∀ n, (Log.scalarOf n).val.toNat = scalar n ∧
      ∀ x, Encodes (scalar n) x ↔ x = Bytes.ofChar (Log.scalarOf n)) ∧
    (∀ m n : Int32, IsScalar m.toInt → IsScalar n.toInt → m ≠ n →
      Bytes.ofChar (Log.scalarOf m) ≠ Bytes.ofChar (Log.scalarOf n)) ∧
    (∀ ns, (∀ items, Cuts (text ns) items ↔ items = ns.map fun n => .scalar (Log.scalarOf n)) ∧
      Utf8.segments (text ns) = ns.map (fun n => .wellFormed (Bytes.ofChar (Log.scalarOf n))) ∧
      Lossy.text (text ns) = text ns) ∧
    ∀ s t c, Session.Prints s t .patient c →
      (∀ n, s.Adds t c (Log.printChar n) (Bytes.ofChar (Log.scalarOf n))) ∧
      ∀ ns, s.Adds t c (ns.forM Log.printChar) (text ns) ∧
        s.Adds t c (Log.printBytes (text ns)) (text ns) := by
  have hdecoded (ns : List Int32) : Lossy.text (text ns) = text ns := by
    rw [text_eq, Utf8.text_ofChars]
  refine ⟨fun n => ⟨val_scalarOf n, fun x => ?_⟩, fun m n hm hn hne h => hne (scalar_inj hm hn h),
    fun ns => ⟨cuts_text ns, segments_text ns, hdecoded ns⟩,
    fun s t c prints => ⟨?_, fun ns => ⟨?_, ?_⟩⟩⟩
  · rw [Utf8.encodes_iff]
    constructor
    · rintro ⟨ch, hval, rfl⟩
      have hch : ch = Log.scalarOf n :=
        Char.ext (UInt32.toNat_inj.mp (hval.trans (val_scalarOf n).symm))
      rw [hch]
    · rintro rfl
      exact ⟨_, val_scalarOf n, rfl⟩
  · exact fun n => Session.adds_primitive prints (.char n)
  · exact Session.adds_forM (fun s prints n => Session.adds_primitive prints (.char n)) ns prints
  · have hprint := Session.adds_primitive prints (.bytes (text ns))
    rwa [Primitive.text, hdecoded] at hprint

/-- A letter, a sequence of each length, and what is no scalar value: a surrogate, a negative
number, and a number above all scalar values. -/
theorem surrogate_between_characters :
    (∃ s', (List.forM [0x61, 0xE9, 0xD83D, 0x20AC, -1, 0x1F600, 0x110000] Log.printChar).run
        (Session.perform (.lasting 0)) (.start ⟨.hosted, .lf, false⟩ (fun _ => none) .empty) =
          .finished () s' ∧
      s'.HasText .standardOut (Bytes.ofString "aé\uFFFD€\uFFFD😀\uFFFD")) ∧
    Bytes.ofChar (Log.scalarOf 0x7FF) ≠ Bytes.ofChar (Log.scalarOf 0x800) := by
  obtain ⟨-, hdistinct, -, hprints⟩ := printed_characters_are_decoded
  obtain ⟨-, hprints⟩ := hprints (.start ⟨.hosted, .lf, false⟩ (fun _ => none) .empty)
    (.lasting 0) .standardOut ⟨rfl, rfl, trivial⟩
  obtain ⟨s', hrun, -, hsaid⟩ := (hprints [0x61, 0xE9, 0xD83D, 0x20AC, -1, 0x1F600, 0x110000]).1
  have htext : text [0x61, 0xE9, 0xD83D, 0x20AC, -1, 0x1F600, 0x110000] =
      Bytes.ofString "aé\uFFFD€\uFFFD😀\uFFFD" := by decide +kernel
  refine ⟨⟨s', hrun, htext ▸ hsaid [] ⟨[], rfl, rfl⟩⟩, ?_⟩
  exact hdistinct 0x7FF 0x800 (by decide) (by decide) (by decide)

end Characters

end DiagnosticLog
