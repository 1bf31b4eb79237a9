import DiagnosticLog.Proofs.Session.Printers
import DiagnosticLog.Proofs.Text.Sequences

/-!
# How bytes are shown as text

The bytes are cut by a rule that mentions nothing but encodings: at each place stands either the
encoding of a scalar value or, where none stands, a maximal ill-formed subpart.  There is one such
cut of all bytes, it is the one the log makes, and the text is read off it
(`text_is_read_off_the_cut`).  A cut is not disturbed by what comes after it, unless that goes on
with an encoding that was cut off (`text_may_be_split`).
-/

namespace DiagnosticLog

namespace Utf8

/-! ## The rule -/

/-- What stands at one place of a cut. -/
inductive Item where
  | scalar (c : Char)
  | illFormed (bytes : Bytes)

namespace Item

def segment : Item → Segment
  | scalar c => .wellFormed (Bytes.ofChar c)
  | illFormed b => .illFormed b

def shown : Item → Char
  | scalar c => c
  | illFormed _ => '\uFFFD'

end Item

/-- The bytes are a proper beginning of some encoding. -/
def Begins (x : Bytes) : Prop :=
  ∃ c y, Bytes.ofChar c = x ++ y ∧ y ≠ []

/-- The maximal ill-formed subpart of some bytes that do not begin with an encoding: their longest
non-empty beginning that is a proper beginning of some encoding, or else one byte that begins
none. -/
inductive Subpart (b : Bytes) : Bytes → Prop where
  | cutOff {x : Bytes} (nonempty : x ≠ []) (isPrefix : x <+: b) (begins : Begins x)
      (longest : ∀ y, y <+: b → Begins y → y.length ≤ x.length) : Subpart b x
  | stray {lead : UInt8} (isPrefix : [lead] <+: b) (alone : ∀ c y, Bytes.ofChar c ≠ lead :: y) :
      Subpart b [lead]

/-- The bytes are cut, from left to right, into these items. -/
inductive Cuts : Bytes → List Item → Prop where
  | nil : Cuts [] []
  | scalar (c : Char) {rest : Bytes} {items : List Item} (after : Cuts rest items) :
      Cuts (Bytes.ofChar c ++ rest) (.scalar c :: items)
  | illFormed {x rest : Bytes} {items : List Item}
      (unconvertible : ∀ c, ¬ Bytes.ofChar c <+: x ++ rest) (subpart : Subpart (x ++ rest) x)
      (after : Cuts rest items) : Cuts (x ++ rest) (.illFormed x :: items)

variable {b x y : Bytes} {items items' : List Item}

/-! ## There is one cut at most -/

theorem Subpart.isPrefix (h : Subpart b x) : x <+: b := by
  cases h with
  | cutOff _ isPrefix => exact isPrefix
  | stray isPrefix => exact isPrefix

theorem Subpart.ne_nil (h : Subpart b x) : x ≠ [] := by
  cases h with
  | cutOff nonempty => exact nonempty
  | stray => exact List.cons_ne_nil _ _

theorem not_begins_of_stray {lead : UInt8} (alone : ∀ c y, Bytes.ofChar c ≠ lead :: y)
    (stray : [lead] <+: b) (hx : x <+: b) (nonempty : x ≠ []) : ¬ Begins x := by
  rintro ⟨c, y, hc, -⟩
  obtain ⟨first, tail, rfl⟩ := List.exists_cons_of_ne_nil nonempty
  obtain ⟨rest, rfl⟩ := stray
  obtain rfl : first = lead := (List.cons_prefix_cons.mp hx).1
  exact alone c (tail ++ y) hc

theorem Subpart.unique (hx : Subpart b x) (hy : Subpart b y) : x = y := by
  cases hx with
  | cutOff nonempty isPrefix begins longest =>
      cases hy with
      | cutOff nonempty' isPrefix' begins' longest' =>
          have hle := longest' x isPrefix begins
          have hge := longest y isPrefix' begins'
          exact (List.prefix_of_prefix_length_le isPrefix isPrefix' hle).eq_of_length
            (Nat.le_antisymm hle hge)
      | stray isPrefix' alone =>
          exact absurd begins (not_begins_of_stray alone isPrefix' isPrefix nonempty)
  | stray isPrefix alone =>
      cases hy with
      | cutOff nonempty' isPrefix' begins' =>
          exact absurd begins' (not_begins_of_stray alone isPrefix isPrefix' nonempty')
      | stray isPrefix' =>
          have hprefix := List.prefix_of_prefix_length_le isPrefix isPrefix' (Nat.le_refl 1)
          exact hprefix.eq_of_length rfl

theorem Cuts.unique (h : Cuts b items) (h' : Cuts b items') : items = items' := by
  induction h generalizing items' with
  | nil =>
      generalize hb : ([] : Bytes) = b at h'
      cases h' with
      | nil => rfl
      | scalar d => exact absurd (List.append_eq_nil_iff.mp hb.symm).1 (ofChar_ne_nil d)
      | illFormed _ subpart => exact absurd (List.append_eq_nil_iff.mp hb.symm).1 subpart.ne_nil
  | @scalar c rest items after ih =>
      generalize hb : Bytes.ofChar c ++ rest = b at h'
      cases h' with
      | nil => exact absurd (List.append_eq_nil_iff.mp hb).1 (ofChar_ne_nil c)
      | scalar d after' =>
          obtain rfl : c = d := ofChar_inj_of_isPrefix ⟨_, hb⟩ ⟨_, rfl⟩
          rw [List.append_cancel_left hb] at ih
          rw [ih after']
      | illFormed unconvertible => exact absurd ⟨_, hb⟩ (unconvertible c)
  | @illFormed x rest items unconvertible subpart after ih =>
      generalize hb : x ++ rest = b at h' unconvertible subpart
      cases h' with
      | nil => exact absurd (List.append_eq_nil_iff.mp hb).1 subpart.ne_nil
      | scalar d => exact absurd ⟨_, rfl⟩ (unconvertible d)
      | illFormed _ subpart' after' =>
          obtain rfl := subpart.unique subpart'
          rw [List.append_cancel_left hb] at ih
          rw [ih after']

/-- A beginning of an encoding ends with `b` where no encoding goes on with what comes after. -/
theorem isPrefix_of_stops {c : Char} {z : Bytes}
    (stops : ∀ first rest w, y = first :: rest → Bytes.ofChar c ≠ b ++ first :: w)
    (hz : z <+: b ++ y) (hc : z <+: Bytes.ofChar c) : z <+: b := by
  rcases List.prefix_or_prefix_of_prefix hz (List.prefix_append b y) with h | ⟨w, rfl⟩
  · exact h
  · cases w with
    | nil =>
        exact ⟨[], by rw [List.append_nil, List.append_nil]⟩
    | cons first w =>
        obtain ⟨rest, rfl⟩ := (List.prefix_append_right_inj b).mp hz
        obtain ⟨w', hw'⟩ := hc
        refine absurd ?_ (stops first _ (w ++ w') rfl)
        rw [← hw', List.append_assoc, List.cons_append]

/-! ## The log makes that cut -/

theorem Fits.append {rs qs : List ByteRange} (hx : Fits rs x) (hy : Fits qs y) :
    Fits (rs ++ qs) (x ++ y) :=
  List.rel_append hx hy

theorem Fits.drop {rs qs : List ByteRange} (hx : Fits rs x) (h : Fits (rs ++ qs) (x ++ y)) :
    Fits qs y := by
  have hrest := List.forall₂_drop_append _ _ _ h
  rwa [← hx.length_eq, List.drop_left] at hrest

theorem holds_low {lead : UInt8} {rs : List ByteRange} (h : followers lead = some rs) :
    ∀ r ∈ rs, r.holds r.low = true := by
  have hcontinuation : continuation.holds continuation.low = true := rfl
  unfold followers at h
  split_ifs at h <;> cases h <;> simp [hcontinuation] <;> rfl

theorem fits_low {rs : List ByteRange} (h : ∀ r ∈ rs, r.holds r.low = true) :
    Fits rs (rs.map ByteRange.low) :=
  List.forall₂_map_right_iff.mpr (List.forall₂_same.mpr h)

/-- A segment that has begun has done so by the table. -/
def Progress.Valid : Progress → Prop
  | boundary => True
  | within seen next later =>
      ∃ lead y rs, seen = lead :: y ∧ followers lead = some (rs ++ next :: later) ∧ Fits rs y

section Within

variable {seen : Bytes} {next : ByteRange} {later : List ByteRange}
  (valid : (Progress.within seen next later).Valid)

include valid

theorem begins_of_within : Begins seen := by
  obtain ⟨lead, y, rs, rfl, hfollowers, fits⟩ := valid
  have hrest := fits_low fun r hr => holds_low hfollowers r (List.mem_append_right rs hr)
  obtain ⟨c, hc⟩ := exists_ofChar hfollowers (fits.append hrest)
  exact ⟨c, _, hc, List.cons_ne_nil _ _⟩

theorem ofChar_of_within {b : UInt8} (holds : next.holds b = true) (last : later = []) :
    ∃ c, Bytes.ofChar c = seen ++ [b] := by
  obtain ⟨lead, y, rs, rfl, hfollowers, fits⟩ := valid
  subst last
  exact exists_ofChar hfollowers (fits.append (.cons holds .nil))

theorem valid_of_within {b : UInt8} (holds : next.holds b = true) {r : ByteRange}
    {rs : List ByteRange} (hlater : later = r :: rs) :
    (Progress.within (seen ++ [b]) r rs).Valid := by
  obtain ⟨lead, y, qs, rfl, hfollowers, fits⟩ := valid
  subst hlater
  refine ⟨lead, y ++ [b], qs ++ [next], rfl, ?_, fits.append (.cons holds .nil)⟩
  rw [List.append_assoc]
  exact hfollowers

theorem holds_of_ofChar {c : Char} {b : UInt8} (hc : Bytes.ofChar c = seen ++ b :: y) :
    next.holds b = true := by
  obtain ⟨lead, z, rs, rfl, hfollowers, fits⟩ := valid
  obtain ⟨rs', hfollowers', fits'⟩ := fits_of_ofChar hc
  rw [hfollowers] at hfollowers'
  cases hfollowers'
  cases fits.drop fits' with
  | cons holds => exact holds

theorem not_isPrefix_of_within (c : Char) : ¬ Bytes.ofChar c <+: seen := by
  intro h
  obtain ⟨lead, z, rs, rfl, hfollowers, fits⟩ := valid
  obtain ⟨lead', tail, hc⟩ := List.exists_cons_of_ne_nil (ofChar_ne_nil c)
  rw [hc] at h
  obtain ⟨rfl, htail⟩ := List.cons_prefix_cons.mp h
  obtain ⟨rs', hfollowers', fits'⟩ := fits_of_ofChar hc
  rw [hfollowers] at hfollowers'
  cases hfollowers'
  have hlong := fits'.length_eq
  have hshort := fits.length_eq
  have hle := htail.length_le
  simp only [List.length_append, List.length_cons] at hlong
  omega

theorem subpart_of_within {rest : Bytes}
    (stops : ∀ b rest', rest = b :: rest' → next.holds b = false) :
    (∀ c, ¬ Bytes.ofChar c <+: seen ++ rest) ∧ Subpart (seen ++ rest) seen := by
  have hshort : ∀ y c, y <+: seen ++ rest → y <+: Bytes.ofChar c → y <+: seen := by
    intro y c
    refine isPrefix_of_stops fun b rest' w hrest hc => ?_
    have holds := holds_of_ofChar valid hc
    rw [stops b rest' hrest] at holds
    cases holds
  have hseen : seen ≠ [] := by
    obtain ⟨lead, y, rs, rfl, -⟩ := valid
    exact List.cons_ne_nil _ _
  constructor
  · intro c hc
    exact not_isPrefix_of_within valid c (hshort _ c hc List.prefix_rfl)
  · refine .cutOff hseen (List.prefix_append _ _) (begins_of_within valid) ?_
    rintro y hy ⟨c, z, hc, -⟩
    exact (hshort y c hy ⟨z, hc.symm⟩).length_le

end Within

/-- The cut is one of the rule, from every progress on. -/
def CutFrom (p : Progress) (b : Bytes) : Prop :=
  ∃ items, Cuts (p.seen ++ b) items ∧ items.map Item.segment = segmentsFrom p b

theorem CutFrom.illFormed {seen rest : Bytes} {next : ByteRange} {later : List ByteRange}
    (valid : (Progress.within seen next later).Valid)
    (stops : ∀ b rest', rest = b :: rest' → next.holds b = false) (h : CutFrom .boundary rest) :
    ∃ items, Cuts (seen ++ rest) items ∧
      items.map Item.segment = .illFormed seen :: segmentsFrom .boundary rest := by
  obtain ⟨items, hcuts, hsegments⟩ := h
  obtain ⟨unconvertible, subpart⟩ := subpart_of_within valid stops
  refine ⟨.illFormed seen :: items, .illFormed unconvertible subpart hcuts, ?_⟩
  rw [List.map_cons, hsegments]
  rfl

theorem cutFrom_boundary_cons {a : UInt8} (ih : ∀ p : Progress, p.Valid → CutFrom p b) :
    CutFrom .boundary (a :: b) := by
  have hrest := ih .boundary trivial
  obtain ⟨items, hcuts, hsegments⟩ := hrest
  cases hfollowers : followers a with
  | none =>
      have alone : ∀ c y, Bytes.ofChar c ≠ a :: y := by
        intro c y hc
        obtain ⟨rs, hsome, -⟩ := fits_of_ofChar hc
        rw [hfollowers] at hsome
        cases hsome
      have hstray : Subpart ([a] ++ b) [a] := .stray (List.prefix_append [a] b) alone
      refine ⟨.illFormed [a] :: items, .illFormed ?_ hstray hcuts, ?_⟩
      · rintro c ⟨y, hy⟩
        obtain ⟨lead, tail, hc⟩ := List.exists_cons_of_ne_nil (ofChar_ne_nil c)
        rw [hc] at hy
        cases hy
        exact alone c tail hc
      · simp [segmentsFrom, advance, begin, hfollowers, hsegments, Item.segment]
  | some rs =>
      cases rs with
      | nil =>
          obtain ⟨c, hc⟩ := exists_ofChar hfollowers .nil
          refine ⟨.scalar c :: items, ?_, ?_⟩
          · have hscalar := Cuts.scalar c hcuts
            rw [hc] at hscalar
            exact hscalar
          · simp [segmentsFrom, advance, begin, hfollowers, hsegments, Item.segment, hc]
      | cons r rs =>
          have hwithin := ih (.within [a] r rs) ⟨a, [], [], rfl, hfollowers, .nil⟩
          obtain ⟨items, hcuts, hsegments⟩ := hwithin
          exact ⟨items, hcuts, by simp [segmentsFrom, advance, begin, hfollowers, hsegments]⟩

theorem cutFrom_of_valid (b : Bytes) : ∀ p : Progress, p.Valid → CutFrom p b := by
  induction b with
  | nil =>
      intro p valid
      cases p with
      | boundary => exact ⟨[], .nil, rfl⟩
      | within seen next later =>
          exact CutFrom.illFormed valid (fun _ _ h => nomatch h) ⟨[], .nil, rfl⟩
  | cons a b ih =>
      intro p valid
      have hstart : CutFrom .boundary (a :: b) := cutFrom_boundary_cons ih
      cases p with
      | boundary => exact hstart
      | within seen next later =>
          cases holds : next.holds a with
          | false =>
              have hstops : ∀ b' rest', a :: b = b' :: rest' → next.holds b' = false := by
                rintro _ _ ⟨⟩
                exact holds
              obtain ⟨items, hcuts, hsegments⟩ := CutFrom.illFormed valid hstops hstart
              refine ⟨items, hcuts, ?_⟩
              simp [hsegments, segmentsFrom, advance, holds]
          | true =>
              cases hlater : later with
              | nil =>
                  obtain ⟨c, hc⟩ := ofChar_of_within valid holds hlater
                  obtain ⟨items, hcuts, hsegments⟩ := ih .boundary trivial
                  refine ⟨.scalar c :: items, ?_, ?_⟩
                  · have hscalar := Cuts.scalar c hcuts
                    rw [hc] at hscalar
                    simpa [Progress.seen] using hscalar
                  · simp [segmentsFrom, advance, holds, hsegments, Item.segment, hc]
              | cons r rs =>
                  obtain ⟨items, hcuts, hsegments⟩ := ih _ (valid_of_within valid holds hlater)
                  refine ⟨items, ?_, ?_⟩
                  · simpa [Progress.seen] using hcuts
                  · simp [segmentsFrom, advance, holds, hsegments]

theorem exists_cuts (b : Bytes) : ∃ items, Cuts b items ∧ items.map Item.segment = segments b :=
  cutFrom_of_valid b .boundary trivial

theorem text_of_cuts (h : Cuts b items) : Lossy.text b = Bytes.ofChars (items.map Item.shown) := by
  obtain ⟨items', hcuts, hsegments⟩ := exists_cuts b
  rw [Lossy.text, ← hsegments, hcuts.unique h, Bytes.ofChars, List.flatMap_map, List.flatMap_map]
  congr
  funext item
  cases item <;> rfl

theorem cuts_ofChars (cs : List Char) : Cuts (Bytes.ofChars cs) (cs.map Item.scalar) := by
  induction cs with
  | nil => exact .nil
  | cons c cs ih => exact .scalar c ih

theorem text_ofChars (cs : List Char) : Lossy.text (Bytes.ofChars cs) = Bytes.ofChars cs := by
  rw [text_of_cuts (cuts_ofChars cs), List.map_map]
  congr
  exact List.map_id cs

/-! ## Cuts of bytes that go on -/

/-- The bytes do not go on with what an encoding can go on with. -/
def StartsAnew (b : Bytes) : Prop :=
  ∀ first rest, b = first :: rest → continuation.holds first = false

theorem continuation_of_followers {lead first : UInt8} {rs : List ByteRange} {r : ByteRange}
    (h : followers lead = some rs) (hr : r ∈ rs) (holds : r.holds first = true) :
    continuation.holds first = true := by
  unfold followers at h
  split_ifs at h <;> cases h <;>
    simp only [List.mem_cons, List.not_mem_nil, or_false] at hr <;>
    rcases hr with rfl | rfl | rfl <;>
    simp only [holds_iff, continuation, UInt8.reduceToNat] at holds ⊢ <;>
    omega

theorem continuation_of_ofChar {c : Char} {first : UInt8} (hc : Bytes.ofChar c = x ++ first :: y)
    (hx : x ≠ []) : continuation.holds first = true := by
  obtain ⟨lead, x, rfl⟩ := List.exists_cons_of_ne_nil hx
  obtain ⟨rs, hfollowers, fits⟩ := fits_of_ofChar hc
  have hrest := List.forall₂_drop_append _ _ _ fits
  generalize hqs : rs.drop x.length = qs at hrest
  cases hrest with
  | @cons r _ qs _ holds _ =>
      have hr : r ∈ rs := List.mem_of_mem_drop (hqs ▸ List.mem_cons_self ..)
      exact continuation_of_followers hfollowers hr holds

/-- What does not begin with an encoding still does not, and its ill-formed subpart is the same,
if it goes on with bytes that start anew. -/
theorem Subpart.append (unconvertible : ∀ c, ¬ Bytes.ofChar c <+: b) (subpart : Subpart b x)
    (anew : StartsAnew y) : (∀ c, ¬ Bytes.ofChar c <+: b ++ y) ∧ Subpart (b ++ y) x := by
  have hb : b ≠ [] := by
    rintro rfl
    exact subpart.ne_nil (List.prefix_nil.mp subpart.isPrefix)
  have hwithin : ∀ z c, z <+: b ++ y → z <+: Bytes.ofChar c → z <+: b := by
    intro z c
    refine isPrefix_of_stops fun first rest w hrest hc => ?_
    have holds := continuation_of_ofChar hc hb
    rw [anew first rest hrest] at holds
    cases holds
  have hlonger : b <+: b ++ y := List.prefix_append b y
  constructor
  · exact fun c hc => unconvertible c (hwithin _ c hc List.prefix_rfl)
  · cases subpart with
    | cutOff nonempty isPrefix begins longest =>
        refine .cutOff nonempty (isPrefix.trans hlonger) begins ?_
        rintro z hz ⟨c, w, hc, hw⟩
        exact longest z (hwithin z c hz ⟨w, hc.symm⟩) ⟨c, w, hc, hw⟩
    | stray isPrefix alone => exact .stray (isPrefix.trans hlonger) alone

theorem Cuts.append (h : Cuts x items) (h' : Cuts y items')
    (apart : (∀ item ∈ items, ∃ c, item = .scalar c) ∨ StartsAnew y) :
    Cuts (x ++ y) (items ++ items') := by
  induction h with
  | nil => exact h'
  | @scalar c rest items after ih =>
      rw [List.append_assoc]
      refine .scalar c (ih (apart.imp_left fun hall item hitem => ?_))
      exact hall item (List.mem_cons_of_mem _ hitem)
  | @illFormed x rest items unconvertible subpart after ih =>
      have anew : StartsAnew y := by
        rcases apart with hall | anew
        · obtain ⟨c, hc⟩ := hall _ (List.mem_cons_self ..)
          cases hc
        · exact anew
      obtain ⟨hunconvertible, hsubpart⟩ := Subpart.append unconvertible subpart anew
      rw [List.append_assoc] at hunconvertible hsubpart ⊢
      exact .illFormed hunconvertible hsubpart (ih (.inr anew))

end Utf8

/-! ## Texts -/

namespace Lossy

open Utf8 (Item Cuts StartsAnew)

variable {a b : Bytes}

theorem text_append (apart : (∃ cs, a = Bytes.ofChars cs) ∨ StartsAnew b) :
    text (a ++ b) = text a ++ text b := by
  obtain ⟨items, hcuts, -⟩ := Utf8.exists_cuts a
  obtain ⟨items', hcuts', -⟩ := Utf8.exists_cuts b
  have happart : (∀ item ∈ items, ∃ c, item = .scalar c) ∨ StartsAnew b := by
    refine apart.imp_left ?_
    rintro ⟨cs, rfl⟩ item hitem
    rw [hcuts.unique (Utf8.cuts_ofChars cs)] at hitem
    obtain ⟨c, -, hc⟩ := List.mem_map.mp hitem
    exact ⟨c, hc.symm⟩
  rw [Utf8.text_of_cuts (hcuts.append hcuts' happart), Utf8.text_of_cuts hcuts,
    Utf8.text_of_cuts hcuts', List.map_append, Bytes.ofChars_append]

theorem run_printBytes {s : Session} {t : ThreadId} {c : Channel} (prints : s.Prints t .patient c)
    (b : Bytes) :
    ∃ s', (Log.printBytes b).run (Session.perform t) s = .finished () s' ∧
      s'.Prints t .patient c ∧ ∀ before, s.HasText c before → s'.HasText c (before ++ text b) :=
  Session.adds_primitive prints (.bytes b)

/-- Bytes are cut in exactly one way into encodings and maximal ill-formed subparts, and their text,
which is what printing the bytes adds to the sink, shows the scalar values of the cut and one U+FFFD
for each ill-formed subpart.  So exactly the valid bytes are shown as they are, and a text is shown
as itself. -/
theorem text_is_read_off_the_cut (b : Bytes) :
    (∃! items, Cuts b items) ∧
      (∀ items, Cuts b items → text b = Bytes.ofChars (items.map Item.shown)) ∧
      (text b = b ↔ ∃ cs, b = Bytes.ofChars cs) ∧
      text (text b) = text b ∧
      ∀ s t c, Session.Prints s t .patient c →
        ∃ s', (Log.printBytes b).run (Session.perform t) s = .finished () s' ∧
          ∀ before, s.HasText c before → s'.HasText c (before ++ text b) := by
  obtain ⟨items, hcuts, -⟩ := Utf8.exists_cuts b
  have htext := Utf8.text_of_cuts hcuts
  refine ⟨⟨items, hcuts, fun items' h => h.unique hcuts⟩, fun _ h => Utf8.text_of_cuts h, ?_, ?_,
    ?_⟩
  · constructor
    · exact fun h => ⟨_, h.symm.trans htext⟩
    · rintro ⟨cs, rfl⟩
      exact Utf8.text_ofChars cs
  · rw [htext]
    exact Utf8.text_ofChars _
  · intro s t c prints
    obtain ⟨s', hrun, -, hsaid⟩ := run_printBytes prints b
    exact ⟨s', hrun, hsaid⟩

/-- A sequence that is cut off by a letter, an encoding, and a surrogate. -/
theorem text_of_cut_off_sequence :
    ∃ s', (Log.printBytes [0xE2, 0x82, 0x61, 0xC3, 0xA9, 0xED, 0xA0, 0x80]).run
        (Session.perform (.lasting 0)) (.start ⟨.hosted, .lf, false⟩ (fun _ => none) .empty) =
          .finished () s' ∧
      s'.HasText .standardOut (Bytes.ofString "\uFFFDaé\uFFFD\uFFFD\uFFFD") := by
  obtain ⟨-, -, -, -, hprint⟩ :=
    text_is_read_off_the_cut [0xE2, 0x82, 0x61, 0xC3, 0xA9, 0xED, 0xA0, 0x80]
  obtain ⟨s', hrun, hsaid⟩ := hprint (.start ⟨.hosted, .lf, false⟩ (fun _ => none) .empty)
    (.lasting 0) .standardOut ⟨rfl, rfl, trivial⟩
  have htext : text [0xE2, 0x82, 0x61, 0xC3, 0xA9, 0xED, 0xA0, 0x80] =
      Bytes.ofString "\uFFFDaé\uFFFD\uFFFD\uFFFD" := by decide +kernel
  rw [← htext]
  exact ⟨s', hrun, hsaid [] ⟨[], rfl, rfl⟩⟩

/-- Bytes may be printed in two parts where the second part does not go on with a continuation byte,
or where the first part is valid. -/
theorem text_may_be_split (a b : Bytes)
    (apart : (∃ cs, a = Bytes.ofChars cs) ∨ b = [] ∨
      ∃ first rest, b = first :: rest ∧ ¬ (0x80 ≤ first ∧ first ≤ 0xBF)) :
    text (a ++ b) = text a ++ text b ∧
      ∀ s t c, Session.Prints s t .patient c →
        ∃ s₁ s₂ s', (Log.printBytes a).run (Session.perform t) s = .finished () s₁ ∧
          (Log.printBytes b).run (Session.perform t) s₁ = .finished () s₂ ∧
          (Log.printBytes (a ++ b)).run (Session.perform t) s = .finished () s' ∧
          ∀ before, s.HasText c before →
            s₂.HasText c (before ++ text (a ++ b)) ∧ s'.HasText c (before ++ text (a ++ b)) := by
  have hsplit : text (a ++ b) = text a ++ text b := by
    apply text_append
    refine apart.imp_right ?_
    rintro (rfl | ⟨first, rest, rfl, hfirst⟩)
    · exact fun _ _ h => nomatch h
    · rintro _ _ ⟨⟩
      refine Bool.eq_false_iff.mpr fun holds => hfirst ?_
      rw [UInt8.le_iff_toNat_le, UInt8.le_iff_toNat_le]
      exact Utf8.continuation_holds.mp holds
  refine ⟨hsplit, fun s t c prints => ?_⟩
  obtain ⟨s₁, hrun₁, prints₁, hsaid₁⟩ := run_printBytes prints a
  obtain ⟨s₂, hrun₂, -, hsaid₂⟩ := run_printBytes prints₁ b
  obtain ⟨s', hrun', -, hsaid'⟩ := run_printBytes prints (a ++ b)
  refine ⟨s₁, s₂, s', hrun₁, hrun₂, hrun', fun before ht => ⟨?_, hsaid' before ht⟩⟩
  rw [hsplit, ← List.append_assoc]
  exact hsaid₂ _ (hsaid₁ before ht)

/-- The first part ends in the middle of a sequence, and the second one begins another. -/
theorem text_split_in_a_sequence :
    ¬ ((0x80 : UInt8) ≤ 0xC3 ∧ (0xC3 : UInt8) ≤ 0xBF) ∧
      text ([0x61, 0xF0, 0x9F, 0x98] ++ [0xC3, 0xA9]) =
        text [0x61, 0xF0, 0x9F, 0x98] ++ text [0xC3, 0xA9] := by
  have hfirst : ¬ ((0x80 : UInt8) ≤ 0xC3 ∧ (0xC3 : UInt8) ≤ 0xBF) := by decide
  exact ⟨hfirst, (text_may_be_split _ _ (.inr (.inr ⟨0xC3, [0xA9], rfl, hfirst⟩))).1⟩

end Lossy

end DiagnosticLog
