import DiagnosticLog.Bytes

/-!
# Cutting bytes into UTF-8 sequences

Any string of bytes is cut, from left to right, into segments that are either the encoding of
one scalar value or a maximal ill-formed subpart: the longest non-empty beginning of what is left
that some well-formed sequence begins with, or else one byte that begins none.

A well-formed sequence is described by its lead byte: `followers` lists the ranges in which the
bytes after it have to lie.  The cutting itself is a machine with one byte of input per step, so
that what it does at a cut is visible in its `Progress`.

The main statement is `flatMap_bytes_segments`: the segments hold the bytes they were cut from,
in order and without loss.
-/

namespace DiagnosticLog.Utf8

structure ByteRange where
  low : UInt8
  high : UInt8
  deriving DecidableEq, Repr

def ByteRange.holds (r : ByteRange) (b : UInt8) : Bool :=
  r.low ≤ b && b ≤ r.high

def continuation : ByteRange :=
  ⟨0x80, 0xBF⟩

/--
The ranges, in order, of the bytes that have to follow a lead byte; `none` for a byte that begins
no well-formed sequence.

The narrow first ranges after `E0` and `F0` keep out overlong forms, the one after `ED` keeps out
surrogates, and the one after `F4` keeps out what lies above the last scalar value.
-/
def followers (lead : UInt8) : Option (List ByteRange) :=
  if lead ≤ 0x7F then some []
  else if lead ≤ 0xC1 then none
  else if lead ≤ 0xDF then some [continuation]
  else if lead = 0xE0 then some [⟨0xA0, 0xBF⟩, continuation]
  else if lead = 0xED then some [⟨0x80, 0x9F⟩, continuation]
  else if lead ≤ 0xEF then some [continuation, continuation]
  else if lead = 0xF0 then some [⟨0x90, 0xBF⟩, continuation, continuation]
  else if lead ≤ 0xF3 then some [continuation, continuation, continuation]
  else if lead = 0xF4 then some [⟨0x80, 0x8F⟩, continuation, continuation]
  else none

inductive Segment where
  /-- The encoding of one scalar value. -/
  | wellFormed (bytes : Bytes)
  /-- A maximal ill-formed subpart. -/
  | illFormed (bytes : Bytes)
  deriving DecidableEq, Repr

def Segment.bytes : Segment → Bytes
  | wellFormed b => b
  | illFormed b => b

/-- Where the cutting stands between two bytes: at the start of a segment, or inside one that has
begun with `seen` and goes on with a byte in `next` and then one in each of the ranges `later`. -/
inductive Progress where
  | boundary
  | within (seen : Bytes) (next : ByteRange) (later : List ByteRange)
  deriving DecidableEq, Repr

def Progress.seen : Progress → Bytes
  | boundary => []
  | within seen _ _ => seen

def begin (b : UInt8) : List Segment × Progress :=
  match followers b with
  | none => ([.illFormed [b]], .boundary)
  | some [] => ([.wellFormed [b]], .boundary)
  | some (r :: rs) => ([], .within [b] r rs)

/-- Take one byte.  A byte that cannot go on with the segment that has begun ends it as
ill-formed, and is then taken at the start of the next one. -/
def advance : Progress → UInt8 → List Segment × Progress
  | .boundary, b => begin b
  | .within seen next later, b =>
      if next.holds b then
        match later with
        | [] => ([.wellFormed (seen ++ [b])], .boundary)
        | r :: rs => ([], .within (seen ++ [b]) r rs)
      else
        (.illFormed seen :: (begin b).1, (begin b).2)

/-- A segment that has begun when the bytes end is ill-formed. -/
def Progress.close : Progress → List Segment
  | boundary => []
  | within seen _ _ => [.illFormed seen]

def segmentsFrom : Progress → Bytes → List Segment
  | p, [] => p.close
  | p, b :: bs => (advance p b).1 ++ segmentsFrom (advance p b).2 bs

def segments (b : Bytes) : List Segment :=
  segmentsFrom .boundary b

/-! ## No byte is lost -/

theorem begin_bytes (b : UInt8) :
    (begin b).1.flatMap Segment.bytes ++ (begin b).2.seen = [b] := by
  unfold begin
  split <;> rfl

theorem advance_bytes (p : Progress) (b : UInt8) :
    (advance p b).1.flatMap Segment.bytes ++ (advance p b).2.seen = p.seen ++ [b] := by
  cases p with
  | boundary => exact begin_bytes b
  | within seen next later =>
      by_cases h : next.holds b
      · cases later <;> simp [advance, h, Segment.bytes, Progress.seen]
      · simp [advance, h, Segment.bytes, Progress.seen, ← begin_bytes b]

theorem flatMap_bytes_segmentsFrom (p : Progress) (b : Bytes) :
    (segmentsFrom p b).flatMap Segment.bytes = p.seen ++ b := by
  induction b generalizing p with
  | nil => cases p <;> simp [segmentsFrom, Progress.close, Progress.seen, Segment.bytes]
  | cons x b ih =>
      rw [segmentsFrom, List.flatMap_append, ih, ← List.append_assoc, advance_bytes,
        List.append_assoc, List.singleton_append]

theorem flatMap_bytes_segments (b : Bytes) : (segments b).flatMap Segment.bytes = b :=
  flatMap_bytes_segmentsFrom .boundary b

end DiagnosticLog.Utf8
