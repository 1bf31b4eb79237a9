import DiagnosticLog.Proofs.Session.LastLine
import DiagnosticLog.Proofs.Session.Printers
import DiagnosticLog.Proofs.Text.Sequences

/-!
# Numerals can be read back

A numeral is read byte by byte, from its greatest digit on.  The text of an integer is the only
canonical numeral that is read as the integer (`canonical_and_integer?_iff`), and among the numerals
of words, which all have the same length, the order of the texts is that of the words
(`WordNumeral.lt_iff`).  The token in the line that a misuse of the log lock leaves is the numeral
of the word without the zeros before it.  All this is `numerals_can_be_read_back`.
-/

namespace DiagnosticLog.Numeral

/-! ## Reading -/

/-- The digit a byte stands for, if it is one of the base: the decimal digits, and after them the
lower-case letters. -/
def digit? (base : Nat) (b : UInt8) : Option Nat :=
  if 0x30 ≤ b.toNat ∧ b.toNat ≤ 0x39 ∧ b.toNat - 0x30 < base then some (b.toNat - 0x30)
  else if 0x61 ≤ b.toNat ∧ b.toNat ≤ 0x66 ∧ b.toNat - 0x57 < base then some (b.toNat - 0x57)
  else none

def readOn (base : Nat) : Nat → Bytes → Option Nat
  | n, [] => some n
  | n, b :: rest => (digit? base b).bind fun d => readOn base (base * n + d) rest

/-- Read a numeral without a sign, which has one digit at least. -/
def natural? (base : Nat) (b : Bytes) : Option Nat :=
  if b.isEmpty then none else readOn base 0 b

def minus : UInt8 := 0x2D

def integer? : Bytes → Option Int
  | [] => none
  | first :: rest =>
      if first = minus then (natural? 10 rest).map fun n : Nat => -(n : Int)
      else (natural? 10 (first :: rest)).map fun n : Nat => (n : Int)

/-- Digits without a superfluous zero: a zero alone, or digits that do not begin with one. -/
inductive Plain (base : Nat) : Bytes → Prop where
  | zero : Plain base [0x30]
  | digits {lead : UInt8} {rest : Bytes} {d : Nat} (first : digit? base lead = some d)
      (nonzero : d ≠ 0) (others : ∀ b ∈ rest, (digit? base b).isSome) : Plain base (lead :: rest)

/-- A decimal numeral in the one form that it has: without a superfluous zero, and with a sign only
if it is negative. -/
inductive Canonical : Bytes → Prop where
  | plain {b : Bytes} (plain : Plain 10 b) : Canonical b
  | negative {b : Bytes} (plain : Plain 10 b) (nonzero : b ≠ [0x30]) : Canonical (minus :: b)

/-! ## Digits -/

variable {base n m d : Nat} {b rest : Bytes} {byte : UInt8}

def digitByte (d : Nat) : UInt8 :=
  UInt8.ofNat (if d < 10 then 0x30 + d else 0x57 + d)

theorem ofChar_digitChar (h : d < 16) : Bytes.ofChar d.digitChar = [digitByte d] := by
  revert d
  decide

theorem toNat_digitByte (h : d < 16) :
    (digitByte d).toNat = if d < 10 then 0x30 + d else 0x57 + d := by
  unfold digitByte
  rw [UInt8.toNat_ofNat']
  apply Nat.mod_eq_of_lt
  split <;> omega

theorem digit?_eq_some_iff (hbase : base ≤ 16) :
    digit? base byte = some d ↔ d < base ∧ byte = digitByte d := by
  unfold digit?
  constructor
  · intro h
    have hd : d < base ∧ byte.toNat = if d < 10 then 0x30 + d else 0x57 + d := by
      split at h
      · cases h
        rw [if_pos (by omega)]
        omega
      · split at h
        · cases h
          rw [if_neg (by omega)]
          omega
        · cases h
    refine ⟨hd.1, UInt8.toNat_inj.mp ?_⟩
    rw [hd.2, toNat_digitByte (by omega)]
  · rintro ⟨hd, rfl⟩
    have hbyte := toNat_digitByte (d := d) (by omega)
    by_cases hten : d < 10
    · rw [if_pos hten] at hbyte
      rw [if_pos (by omega), hbyte]
      congr 1
      omega
    · rw [if_neg hten] at hbyte
      rw [if_neg (by omega), if_pos (by omega), hbyte]
      congr 1
      omega

theorem lt_iff_of_digit? {byte' : UInt8} {d' : Nat} (hbase : base ≤ 16)
    (h : digit? base byte = some d) (h' : digit? base byte' = some d') :
    byte < byte' ↔ d < d' := by
  obtain ⟨hd, rfl⟩ := (digit?_eq_some_iff hbase).mp h
  obtain ⟨hd', rfl⟩ := (digit?_eq_some_iff hbase).mp h'
  rw [UInt8.lt_iff_toNat_lt, toNat_digitByte (by omega), toNat_digitByte (by omega)]
  split <;> split <;> omega

/-! ## What is read -/

theorem readOn_append (n : Nat) (b rest : Bytes) :
    readOn base n (b ++ rest) = (readOn base n b).bind fun m => readOn base m rest := by
  induction b generalizing n with
  | nil => rfl
  | cons byte b ih =>
      simp only [List.cons_append, readOn, Option.bind_assoc]
      congr
      funext d
      exact ih (base * n + d)

theorem readOn_ofChar (hbase : base ≤ 16) (h : d < base) (n : Nat) :
    readOn base n (Bytes.ofChar d.digitChar) = some (base * n + d) := by
  rw [ofChar_digitChar (by omega), readOn, (digit?_eq_some_iff hbase).mpr ⟨h, rfl⟩]
  rfl

theorem readOn_toDigits (low : 1 < base) (hbase : base ≤ 16) (n : Nat) :
    readOn base 0 (Bytes.ofChars (Nat.toDigits base n)) = some n := by
  induction n using Nat.strongRecOn with
  | ind n ih =>
      by_cases hn : n < base
      · rw [Nat.toDigits_of_lt_base hn, Bytes.ofChars_cons, Bytes.ofChars_nil, List.append_nil,
          readOn_ofChar hbase hn, Nat.mul_zero, Nat.zero_add]
      · have hquotient : n / base < n := Nat.div_lt_self (by omega) low
        rw [Nat.toDigits_of_base_le low (Nat.le_of_not_lt hn), Bytes.ofChars_append,
          readOn_append, ih (n / base) hquotient, Option.bind_some, Bytes.ofChars_cons,
          Bytes.ofChars_nil, List.append_nil, readOn_ofChar hbase (Nat.mod_lt n (by omega)),
          Nat.div_add_mod]

theorem ofChars_toDigits_append (low : 1 < base) (hbase : base ≤ 16) (hm : 0 < m)
    (h : readOn base m b = some n) :
    Bytes.ofChars (Nat.toDigits base m) ++ b = Bytes.ofChars (Nat.toDigits base n) := by
  induction b generalizing m with
  | nil =>
      cases h
      exact List.append_nil _
  | cons byte rest ih =>
      obtain ⟨d, hdigit, hrest⟩ := Option.bind_eq_some_iff.mp h
      obtain ⟨hd, rfl⟩ := (digit?_eq_some_iff hbase).mp hdigit
      have hpos : 0 < base * m + d := Nat.add_pos_left (Nat.mul_pos (by omega) hm) d
      have hdigits := Nat.toDigits_append_toDigits low hm hd
      rw [Nat.toDigits_of_lt_base hd] at hdigits
      rw [← ih hpos hrest, ← hdigits, Bytes.ofChars_append, Bytes.ofChars_cons,
        Bytes.ofChars_nil, List.append_nil, ofChar_digitChar (by omega), List.append_assoc]
      rfl

theorem natural?_eq (h : b ≠ []) : natural? base b = readOn base 0 b := by
  cases b with
  | nil => exact absurd rfl h
  | cons byte rest => rfl

theorem ofChars_toDigits_ne_nil (base n : Nat) :
    Bytes.ofChars (Nat.toDigits base n) ≠ [] := by
  intro h
  obtain ⟨c, cs, hcs⟩ := List.exists_cons_of_ne_nil (Nat.toDigits_ne_nil (b := base) (n := n))
  rw [hcs, Bytes.ofChars_cons] at h
  exact Utf8.ofChar_ne_nil c (List.append_eq_nil_iff.mp h).1

theorem isSome_of_readOn (h : readOn base m b = some n) :
    ∀ byte ∈ b, (digit? base byte).isSome := by
  induction b generalizing m with
  | nil => exact fun byte hbyte => nomatch hbyte
  | cons first rest ih =>
      obtain ⟨d, hdigit, hrest⟩ := Option.bind_eq_some_iff.mp h
      intro byte hbyte
      rcases List.mem_cons.mp hbyte with rfl | hmem
      · rw [hdigit]
        rfl
      · exact ih hrest byte hmem

theorem lead_toDigits (low : 1 < base) (hn : 0 < n) :
    ∃ d cs, d ≠ 0 ∧ d < base ∧ Nat.toDigits base n = d.digitChar :: cs := by
  induction n using Nat.strongRecOn with
  | ind n ih =>
      by_cases hsmall : n < base
      · exact ⟨n, [], Nat.ne_of_gt hn, hsmall, Nat.toDigits_of_lt_base hsmall⟩
      · have hquotient : 0 < n / base := Nat.div_pos (Nat.le_of_not_lt hsmall) (by omega)
        obtain ⟨d, cs, nonzero, hd, hlead⟩ := ih (n / base) (Nat.div_lt_self hn low) hquotient
        refine ⟨d, cs ++ [(n % base).digitChar], nonzero, hd, ?_⟩
        rw [Nat.toDigits_of_base_le low (Nat.le_of_not_lt hsmall), hlead, List.cons_append]

theorem plain_toDigits (low : 1 < base) (hbase : base ≤ 16) (n : Nat) :
    Plain base (Bytes.ofChars (Nat.toDigits base n)) := by
  rcases Nat.eq_zero_or_pos n with rfl | hn
  · rw [Nat.toDigits_zero]
    exact .zero
  · obtain ⟨d, cs, nonzero, hd, hlead⟩ := lead_toDigits low hn
    have hdigits := isSome_of_readOn (readOn_toDigits low hbase n)
    rw [hlead, Bytes.ofChars_cons, ofChar_digitChar (by omega)] at hdigits ⊢
    exact .digits ((digit?_eq_some_iff hbase).mpr ⟨hd, rfl⟩) nonzero
      fun byte hbyte => hdigits byte (List.mem_cons_of_mem _ hbyte)

/-- The digits of a number are the only ones without a superfluous zero that are read as it. -/
theorem plain_and_natural?_iff (low : 1 < base) (hbase : base ≤ 16) :
    Plain base b ∧ natural? base b = some n ↔ b = Bytes.ofChars (Nat.toDigits base n) := by
  constructor
  · rintro ⟨plain, hread⟩
    cases plain with
    | zero =>
        have hzero : natural? base [0x30] = some 0 := by
          show readOn base 0 (Bytes.ofChar (Nat.digitChar 0)) = _
          rw [readOn_ofChar hbase (by omega), Nat.mul_zero]
        rw [hzero] at hread
        cases hread
        rw [Nat.toDigits_zero]
        rfl
    | @digits lead rest d first nonzero others =>
        obtain ⟨hd, rfl⟩ := (digit?_eq_some_iff hbase).mp first
        rw [natural?_eq (List.cons_ne_nil _ _), readOn, first, Option.bind_some, Nat.mul_zero,
          Nat.zero_add] at hread
        have hdigits := ofChars_toDigits_append low hbase (Nat.pos_of_ne_zero nonzero) hread
        rw [Nat.toDigits_of_lt_base hd, Bytes.ofChars_cons, ofChar_digitChar (by omega)] at hdigits
        exact hdigits
  · rintro rfl
    exact ⟨plain_toDigits low hbase n,
      (natural?_eq (ofChars_toDigits_ne_nil base n)).trans (readOn_toDigits low hbase n)⟩

/-! ## Integers -/

theorem head?_ne_minus (plain : Plain 10 b) : b.head? ≠ some minus := by
  cases plain with
  | zero => decide
  | digits first =>
      intro h
      obtain rfl := Option.some.inj h
      cases first

theorem integer?_of_ne_minus (h : b.head? ≠ some minus) :
    integer? b = (natural? 10 b).map fun n : Nat => (n : Int) := by
  cases b with
  | nil => rfl
  | cons first rest => exact if_neg fun hminus => h (congrArg some hminus)

theorem integer?_minus (rest : Bytes) :
    integer? (minus :: rest) = (natural? 10 rest).map fun n : Nat => -(n : Int) := rfl

/-- The text of an integer is the only canonical numeral that is read as it. -/
theorem canonical_and_integer?_iff {n : Int} :
    Canonical b ∧ integer? b = some n ↔ b = Bytes.ofChars (integer n) := by
  have hdecimal (b : Bytes) (m : Nat) :
      Plain 10 b ∧ natural? 10 b = some m ↔ b = Bytes.ofChars (decimal m) :=
    plain_and_natural?_iff (by decide) (by decide)
  have hminus : Bytes.ofChar '-' = [minus] := rfl
  constructor
  · rintro ⟨canonical, hread⟩
    cases canonical with
    | plain plain =>
        rw [integer?_of_ne_minus (head?_ne_minus plain)] at hread
        obtain ⟨m, hm, rfl⟩ := Option.map_eq_some_iff.mp hread
        rw [integer_of_nonneg (Int.natCast_nonneg m), Int.natAbs_natCast]
        exact (hdecimal _ _).mp ⟨plain, hm⟩
    | @negative b plain nonzero =>
        rw [integer?_minus] at hread
        obtain ⟨m, hm, rfl⟩ := Option.map_eq_some_iff.mp hread
        have hb := (hdecimal _ _).mp ⟨plain, hm⟩
        have hpos : m ≠ 0 := by
          rintro rfl
          exact nonzero hb
        rw [integer_of_neg (by omega), Int.natAbs_neg, Int.natAbs_natCast, Bytes.ofChars_cons,
          hminus, ← hb]
        rfl
  · rintro rfl
    obtain ⟨plain, hread⟩ := (hdecimal _ n.natAbs).mpr rfl
    rcases Int.lt_or_le n 0 with hneg | hnonneg
    · rw [integer_of_neg hneg, Bytes.ofChars_cons, hminus, List.singleton_append]
      refine ⟨.negative plain fun hzero => ?_, ?_⟩
      · rw [hzero] at hread
        have hnatAbs : n.natAbs = 0 := (Option.some.inj hread).symm
        omega
      · rw [integer?_minus, hread, Option.map_some]
        congr 1
        omega
    · rw [integer_of_nonneg hnonneg]
      refine ⟨.plain plain, ?_⟩
      rw [integer?_of_ne_minus (head?_ne_minus plain), hread, Option.map_some]
      congr 1
      omega

theorem head?_integer (n : Int) :
    (Bytes.ofChars (integer n)).head? = some minus ↔ n < 0 := by
  have plain : Plain 10 (Bytes.ofChars (Nat.toDigits 10 n.natAbs)) :=
    plain_toDigits (by decide) (by decide) n.natAbs
  constructor
  · intro h
    by_contra hneg
    rw [integer_of_nonneg (by omega)] at h
    exact head?_ne_minus plain h
  · intro hneg
    rw [integer_of_neg hneg]
    rfl

/-! ## Words -/

theorem length_ofChars_toDigits (low : 1 < base) (hbase : base ≤ 16) (n : Nat) :
    (Bytes.ofChars (Nat.toDigits base n)).length = (Nat.toDigits base n).length := by
  induction n using Nat.strongRecOn with
  | ind n ih =>
      by_cases hn : n < base
      · rw [Nat.toDigits_of_lt_base hn, Bytes.ofChars_cons, ofChar_digitChar (by omega)]
        rfl
      · have hmod : n % base < 16 := Nat.lt_of_lt_of_le (Nat.mod_lt n (by omega)) hbase
        rw [Nat.toDigits_of_base_le low (Nat.le_of_not_lt hn), Bytes.ofChars_append,
          Bytes.ofChars_cons, ofChar_digitChar hmod]
        simp only [List.length_append, ih (n / base) (Nat.div_lt_self (by omega) low)]
        rfl

theorem readOn_zeros (low : 1 < base) (hbase : base ≤ 16) (count : Nat) (b : Bytes) :
    readOn base 0 (List.replicate count 0x30 ++ b) = readOn base 0 b := by
  induction count with
  | zero => rfl
  | succ count ih =>
      have hzero : digit? base 0x30 = some 0 := (digit?_eq_some_iff hbase).mpr ⟨by omega, rfl⟩
      rw [List.replicate_succ, List.cons_append, readOn, hzero, Option.bind_some, Nat.mul_zero,
        Nat.add_zero, ih]

theorem lt_of_readOn {m' n' : Nat} {b' : Bytes} (hbase : base ≤ 16) (length : b.length = b'.length)
    (hm : m < m') (h : readOn base m b = some n) (h' : readOn base m' b' = some n') : n < n' := by
  induction b generalizing m m' b' with
  | nil =>
      obtain rfl := List.eq_nil_of_length_eq_zero length.symm
      cases h
      cases h'
      exact hm
  | cons byte b ih =>
      obtain ⟨byte', b', rfl⟩ := List.exists_cons_of_length_eq_add_one length.symm
      obtain ⟨d, hdigit, hrest⟩ := Option.bind_eq_some_iff.mp h
      obtain ⟨d', hdigit', hrest'⟩ := Option.bind_eq_some_iff.mp h'
      refine ih (Nat.succ.inj length) ?_ hrest hrest'
      have hd := ((digit?_eq_some_iff hbase).mp hdigit).1
      calc base * m + d < base * m + base := Nat.add_lt_add_left hd _
        _ = base * (m + 1) := (Nat.mul_succ base m).symm
        _ ≤ base * m' := Nat.mul_le_mul_left base hm
        _ ≤ base * m' + d' := Nat.le_add_right _ _

theorem lt_iff_of_readOn {n' : Nat} {b' : Bytes} (hbase : base ≤ 16)
    (length : b.length = b'.length) (h : readOn base m b = some n)
    (h' : readOn base m b' = some n') : b < b' ↔ n < n' := by
  induction b generalizing m b' with
  | nil =>
      obtain rfl := List.eq_nil_of_length_eq_zero length.symm
      cases h
      cases h'
      simp
  | cons byte b ih =>
      obtain ⟨byte', b', rfl⟩ := List.exists_cons_of_length_eq_add_one length.symm
      have hlength : b.length = b'.length := Nat.succ.inj length
      obtain ⟨d, hdigit, hrest⟩ := Option.bind_eq_some_iff.mp h
      obtain ⟨d', hdigit', hrest'⟩ := Option.bind_eq_some_iff.mp h'
      rw [List.cons_lt_cons_iff, lt_iff_of_digit? hbase hdigit hdigit']
      rcases Nat.lt_trichotomy d d' with hlt | rfl | hgt
      · have hnumbers := lt_of_readOn hbase hlength (Nat.add_lt_add_left hlt _) hrest hrest'
        exact iff_of_true (.inl hlt) hnumbers
      · have hsame : byte = byte' := by
          rw [((digit?_eq_some_iff hbase).mp hdigit).2, ((digit?_eq_some_iff hbase).mp hdigit').2]
        rw [← ih hlength hrest hrest']
        simp [hsame]
      · have hnumbers := lt_of_readOn hbase hlength.symm (Nat.add_lt_add_left hgt _) hrest' hrest
        refine iff_of_false ?_ (by omega)
        rintro (hlt | ⟨rfl, -⟩)
        · omega
        · rw [hdigit] at hdigit'
          cases hdigit'
          omega

theorem eq_of_readOn {b' : Bytes} (hbase : base ≤ 16) (length : b.length = b'.length)
    (h : readOn base m b = some n) (h' : readOn base m b' = some n) : b = b' := by
  have hlt := lt_iff_of_readOn hbase length h h'
  have hgt := lt_iff_of_readOn hbase length.symm h' h
  exact List.le_antisymm (fun hb => Nat.lt_irrefl n (hgt.mp hb))
    fun hb => Nat.lt_irrefl n (hlt.mp hb)

theorem ofChars_word (w : UInt64) :
    Bytes.ofChars (word w) = Bytes.ofString "0x" ++
      (List.replicate (16 - (hexadecimal w.toNat).length) 0x30 ++
        Bytes.ofChars (hexadecimal w.toNat)) := by
  have hzeros (count : Nat) :
      Bytes.ofChars (List.replicate count '0') = List.replicate count 0x30 := by
    induction count with
    | zero => rfl
    | succ count ih =>
        rw [List.replicate_succ, List.replicate_succ, Bytes.ofChars_cons, ih]
        rfl
  rw [word, padded, List.leftpad, Bytes.ofChars_cons, Bytes.ofChars_cons, Bytes.ofChars_append,
    hzeros]
  rfl

theorem length_hexadecimal (w : UInt64) : (hexadecimal w.toNat).length ≤ 16 :=
  (Nat.length_toDigits_le_iff (by decide) (by decide)).mpr w.toNat_lt

/-- A word in the form in which words are printed. -/
structure WordNumeral (w : UInt64) (b : Bytes) : Prop where
  length : b.length = 18
  reads : ∃ digits, b = Bytes.ofString "0x" ++ digits ∧ natural? 16 digits = some w.toNat

theorem wordNumeral_word (w : UInt64) : WordNumeral w (Bytes.ofChars (word w)) := by
  have hlength : (Bytes.ofChars (hexadecimal w.toNat)).length = (hexadecimal w.toNat).length :=
    length_ofChars_toDigits (by decide) (by decide) w.toNat
  have hread : readOn 16 0 (Bytes.ofChars (hexadecimal w.toNat)) = some w.toNat :=
    readOn_toDigits (by decide) (by decide) w.toNat
  rw [ofChars_word]
  constructor
  · have hle := length_hexadecimal w
    have hbase : (Bytes.ofString "0x").length = 2 := rfl
    simp only [List.length_append, List.length_replicate, hlength, hbase]
    omega
  · refine ⟨_, rfl, ?_⟩
    rw [natural?_eq, readOn_zeros (by decide) (by decide), hread]
    exact fun h => ofChars_toDigits_ne_nil 16 w.toNat (List.append_eq_nil_iff.mp h).2

/-- The digits of a word numeral, which are compared where the numerals are. -/
theorem WordNumeral.digits {w : UInt64} (h : WordNumeral w b) :
    ∃ digits, b = Bytes.ofString "0x" ++ digits ∧ digits.length = 16 ∧
      readOn 16 0 digits = some w.toNat := by
  obtain ⟨digits, rfl, hread⟩ := h.reads
  have hlength : digits.length = 16 := by
    have hall := h.length
    rw [List.length_append] at hall
    exact Nat.add_left_cancel hall
  refine ⟨digits, rfl, hlength, ?_⟩
  rw [← natural?_eq, hread]
  rintro rfl
  cases hlength

theorem WordNumeral.lt_iff {v w : UInt64} {b' : Bytes} (h : WordNumeral v b)
    (h' : WordNumeral w b') : b < b' ↔ v < w := by
  obtain ⟨digits, rfl, hlength, hread⟩ := h.digits
  obtain ⟨digits', rfl, hlength', hread'⟩ := h'.digits
  have hlt := lt_iff_of_readOn (by decide) (hlength.trans hlength'.symm) hread hread'
  rw [UInt64.lt_iff_toNat_lt, ← hlt]
  have hbase : Bytes.ofString "0x" = [0x30, 0x78] := rfl
  simp [hbase]

theorem WordNumeral.eq_iff {v w : UInt64} {b' : Bytes} (h : WordNumeral v b)
    (h' : WordNumeral w b') : b = b' ↔ v = w := by
  obtain ⟨digits, rfl, hlength, hread⟩ := h.digits
  obtain ⟨digits', rfl, hlength', hread'⟩ := h'.digits
  constructor
  · intro heq
    rw [List.append_cancel_left heq, hread'] at hread
    exact UInt64.toNat_inj.mp (Option.some.inj hread).symm
  · rintro rfl
    rw [eq_of_readOn (by decide) (hlength.trans hlength'.symm) hread hread']

theorem wordNumeral_iff {w : UInt64} : WordNumeral w b ↔ b = Bytes.ofChars (word w) := by
  constructor
  · exact fun h => (h.eq_iff (wordNumeral_word w)).mpr rfl
  · rintro rfl
    exact wordNumeral_word w

/-! ## What is printed -/

/-- An integer in the form in which integers are printed. -/
structure IntegerNumeral (n : Int) (b : Bytes) : Prop where
  canonical : Canonical b
  reads : integer? b = some n
  signed : b.head? = some minus ↔ n < 0

theorem integerNumeral_iff {n : Int} : IntegerNumeral n b ↔ b = Bytes.ofChars (integer n) := by
  constructor
  · exact fun h => canonical_and_integer?_iff.mp ⟨h.canonical, h.reads⟩
  · rintro rfl
    obtain ⟨canonical, reads⟩ :=
      canonical_and_integer?_iff.mpr (rfl : Bytes.ofChars (integer n) = _)
    exact ⟨canonical, reads, head?_integer n⟩

/-- A word in the form in which a misuse of the log lock shows it: the digits of its numeral, less
the zeros before them. -/
structure TokenNumeral (w : UInt64) (b : Bytes) : Prop where
  plain : Plain 16 b
  reads : natural? 16 b = some w.toNat
  same : ∃ zeros, WordNumeral w (Bytes.ofString "0x" ++ (List.replicate zeros 0x30 ++ b))

theorem tokenNumeral_hexadecimal (w : UInt64) :
    TokenNumeral w (Bytes.ofChars (hexadecimal w.toNat)) := by
  obtain ⟨plain, reads⟩ := (plain_and_natural?_iff (n := w.toNat) (by decide) (by decide)).mpr
    (rfl : Bytes.ofChars (Nat.toDigits 16 w.toNat) = _)
  exact ⟨plain, reads, _, wordNumeral_iff.mpr (ofChars_word w).symm⟩

def assertionWords (s : Session) (text file : List Piece) (number : Bytes) : Bytes :=
  Bytes.ofString "log_assert " ++ file.flatMap s.spell ++ Bytes.ofString "[" ++ number ++
    Bytes.ofString "]: " ++ text.flatMap s.spell ++ s.lineEnd.bytes

theorem endsWith_token {s : Session} {t : ThreadId} {g : Guest} {id : ConsoleId}
    (hs : s.platform = .guest g) (installed : g.installed = some id) {call : FatalCall}
    (hcall : call = .lock ∨ call = .unlock) (misused : call.Misused s t) :
    ∃ b rest, TokenNumeral (s.tokens t) b ∧
      s.EndsWith t (.console id) call.task (.halt id (-1))
        (Bytes.ofString "Thread 0x" ++ b ++ Bytes.ofString " could not " ++ rest) := by
  have prints : s.Prints t .urgent (.console id) := by
    simp only [Session.Prints, hs]
    exact ⟨id, installed, rfl⟩
  have out : s.wayOut = some (.console id) := by
    simp only [Session.wayOut, hs, installed, Option.map_some]
  have htoken : s.tokenOf t = s.tokens t := by
    simp only [Session.tokenOf, hs, installed, Option.isSome_some, if_true]
  have hwords (operation : String) (e : MutexError) :
      ∃ rest, FatalCall.misuseText s t operation e ++ s.lineEnd.bytes =
        Bytes.ofString "Thread 0x" ++ Bytes.ofChars (hexadecimal (s.tokens t).toNat) ++
          Bytes.ofString " could not " ++ rest := by
    rw [FatalCall.misuseText, htoken]
    simp only [List.append_assoc]
    exact ⟨_, rfl⟩
  have hnumeral := tokenNumeral_hexadecimal (s.tokens t)
  rcases hcall with rfl | rfl
  · obtain ⟨rest, hrest⟩ := hwords "lock" .deadlock
    exact ⟨_, rest, hnumeral, hrest ▸ Session.endsWith_words prints out misused rfl⟩
  · obtain ⟨rest, hrest⟩ := hwords "unlock" .notOwner
    exact ⟨_, rest, hnumeral, hrest ▸ Session.endsWith_words prints out misused rfl⟩

/-- The numeral of an integer is canonical and read as the integer, and no other text is; so it is
with words, whose numerals have one length and the order of the words.  These numerals are what the
printers add to the sink and what stands in the line of a failed assertion.  In a guest the line
that a misuse of the log lock leaves shows the token without leading zeros. -/
theorem numerals_can_be_read_back :
    (∀ n b, IntegerNumeral n b ↔ b = Bytes.ofChars (integer n)) ∧
      (∀ w b, WordNumeral w b ↔ b = Bytes.ofChars (word w)) ∧
      (∀ v w a b, WordNumeral v a → WordNumeral w b → (a = b ↔ v = w) ∧ (a < b ↔ v < w)) ∧
      (∀ s t c, Session.Prints s t .patient c →
        (∀ n : Int32, ∃ b, IntegerNumeral n.toInt b ∧ s.Adds t c (Log.printInt n) b) ∧
        (∀ n : Int64, ∃ b, IntegerNumeral n.toInt b ∧ s.Adds t c (Log.printLong n) b) ∧
        ∀ w, ∃ b, WordNumeral w b ∧ s.Adds t c (Log.printWord w) b) ∧
      (∀ s t c way, Session.Prints s t .urgent c → s.wayOut = some way →
        ∀ text file (line : Int32), ∃ b, IntegerNumeral line.toInt b ∧
          s.EndsWith t c (FatalCall.assertion text file line).task (way.ending 1)
            (assertionWords s text file b)) ∧
      ∀ (s : Session) t g id, s.platform = .guest g → g.installed = some id →
        ∀ call, call = .lock ∨ call = .unlock → FatalCall.Misused s t call →
          ∃ b rest, TokenNumeral (s.tokens t) b ∧
            s.EndsWith t (.console id) call.task (.halt id (-1))
              (Bytes.ofString "Thread 0x" ++ b ++ Bytes.ofString " could not " ++ rest) := by
  refine ⟨fun _ _ => integerNumeral_iff, fun _ _ => wordNumeral_iff, ?_, ?_, ?_, ?_⟩
  · exact fun v w a b h h' => ⟨h.eq_iff h', h.lt_iff h'⟩
  · intro s t c prints
    exact ⟨fun n => ⟨_, integerNumeral_iff.mpr rfl, Session.adds_primitive prints (.int n)⟩,
      fun n => ⟨_, integerNumeral_iff.mpr rfl, Session.adds_primitive prints (.long n)⟩,
      fun w => ⟨_, wordNumeral_word w, Session.adds_primitive prints (.word w)⟩⟩
  · intro s t c way prints out text file line
    have misused : (FatalCall.assertion text file line).Misused s t := trivial
    exact ⟨_, integerNumeral_iff.mpr rfl, Session.endsWith_words prints out misused rfl⟩
  · intro s t g id hs installed call hcall misused
    exact endsWith_token hs installed hcall misused

def lockedGuest (id : ConsoleId) : Session :=
  (Session.start ⟨.guest, .lf, false⟩ (fun _ => none) .empty).after (.lasting 0) do
    let _ ← Log.installConsole id
    Log.lock

/-- The least integer, a line of an assertion, two words, and a thread that takes the log lock
again. -/
theorem least_integer_is_read_back :
    (∃ s', (Log.printInt Int32.minValue).run (Session.perform (.lasting 0)) Session.fresh =
        .finished () s' ∧ s'.HasText .standardOut (Bytes.ofString "-2147483648")) ∧
      Bytes.ofString "0x00000000000000ff" < Bytes.ofString "0x0000000000000a00" ∧
      (∃ b, IntegerNumeral (-4) b ∧
        Session.fresh.EndsWith (.lasting 0) .standardOut (FatalCall.assertion [] [] (-4)).task
          (.exit 1) (assertionWords Session.fresh [] [] b)) ∧
      ∃ b rest, TokenNumeral 1 b ∧
        (lockedGuest 1).EndsWith (.lasting 0) (.console 1) FatalCall.lock.task (.halt 1 (-1))
          (Bytes.ofString "Thread 0x" ++ b ++ Bytes.ofString " could not " ++ rest) := by
  obtain ⟨hinteger, hword, horder, hprints, hassertion, htoken⟩ := numerals_can_be_read_back
  have hprint := (hprints Session.fresh (.lasting 0) .standardOut ⟨rfl, rfl, trivial⟩).1
  have hless := horder 0xff 0xa00 (Bytes.ofString "0x00000000000000ff")
    (Bytes.ofString "0x0000000000000a00") ((hword _ _).mpr (by decide +kernel))
    ((hword _ _).mpr (by decide +kernel))
  refine ⟨?_, hless.2.mpr (by decide), ?_, ?_⟩
  · obtain ⟨b, hb, s', hrun, -, hsaid⟩ := hprint Int32.minValue
    have htext : b = Bytes.ofString "-2147483648" :=
      ((hinteger _ b).mp hb).trans (by decide +kernel)
    exact ⟨s', hrun, htext ▸ hsaid [] ⟨[], rfl, rfl⟩⟩
  · exact hassertion Session.fresh (.lasting 0) .standardOut .process ⟨rfl, rfl, trivial⟩ rfl [] []
      (-4)
  · exact htoken (lockedGuest 1) (.lasting 0) _ 1 rfl rfl .lock (.inl rfl)
      ⟨by decide +kernel, by decide +kernel⟩

end DiagnosticLog.Numeral
