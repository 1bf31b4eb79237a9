import DiagnosticLog.Bytes

/-!
# The line buffer

Standard output and log files are written through a buffer of 1024 bytes that lets completed
lines out at once and keeps the beginning of a line that is not complete yet.  A buffer holds
nothing but its bytes, so it is a string of bytes, and every operation tells what it sent to the
device, what it kept, and whether the device took what it was given.

A device that refuses writes takes nothing.  What a flush could not send stays in the buffer,
and the rest of the operation is given up.

The main statement is `write_accepting`: a device that takes everything gets, together with what
is still kept, exactly the bytes that were written.
-/

namespace DiagnosticLog.LineBuffer

/-- The number of bytes a buffer has room for. -/
def capacity : Nat := 1024

structure Delivery where
  sent : Bytes
  kept : Bytes
  ok : Bool
  deriving DecidableEq, Repr

/-- Go on with another operation, unless the device has refused. -/
def Delivery.andThen (d : Delivery) (next : Bytes → Delivery) : Delivery :=
  if d.ok then
    { next d.kept with sent := d.sent ++ (next d.kept).sent }
  else
    d

def hold (kept : Bytes) : Delivery :=
  ⟨[], kept, true⟩

def direct (accepts : Bool) (x kept : Bytes) : Delivery :=
  if accepts then ⟨x, kept, true⟩ else ⟨[], kept, false⟩

def flush (accepts : Bool) (kept : Bytes) : Delivery :=
  if accepts then ⟨kept, [], true⟩ else ⟨[], kept, kept.isEmpty⟩

/-- Put bytes into the buffer regardless of lines: the buffer goes out first if they do not fit,
and bytes that would fill it alone go straight out. -/
def put (accepts : Bool) (x kept : Bytes) : Delivery :=
  let space := capacity - kept.length
  if x.length < space then
    hold (kept ++ x)
  else
    let room := if x.length > space then flush accepts kept else hold kept
    room.andThen fun kept =>
      if x.length ≥ capacity then direct accepts x kept else hold (kept ++ x)

/-- The bytes up to the last line feed, and those after it; `none` without a line feed. -/
def splitLines : Bytes → Option (Bytes × Bytes)
  | [] => none
  | b :: rest =>
      match splitLines rest with
      | some (lines, tail) => some (b :: lines, tail)
      | none => if b = Bytes.lineFeed then some ([b], rest) else none

/-- Send the buffer if it ends in a line feed, as it does after completed lines were refused. -/
def settle (accepts : Bool) (kept : Bytes) : Delivery :=
  if kept.getLast? = some Bytes.lineFeed then flush accepts kept else hold kept

/-- Write one piece: its completed lines go out together with what was kept before them, and the
rest is kept. -/
def write (accepts : Bool) (x kept : Bytes) : Delivery :=
  match splitLines x with
  | none => (settle accepts kept).andThen (put accepts x)
  | some (lines, tail) =>
      let out :=
        if kept.isEmpty then direct accepts lines kept
        else (put accepts lines kept).andThen (flush accepts)
      out.andThen (put accepts tail)

/-! ## On a device that takes everything -/

theorem splitLines_append {x lines tail : Bytes} (h : splitLines x = some (lines, tail)) :
    lines ++ tail = x := by
  induction x generalizing lines tail with
  | nil => simp [splitLines] at h
  | cons b rest ih =>
      cases hr : splitLines rest with
      | none =>
          by_cases hb : b = Bytes.lineFeed
          · simp [splitLines, hr, hb] at h
            simp [← h, hb]
          · simp [splitLines, hr, hb] at h
      | some found =>
          obtain ⟨l, t⟩ := found
          simp [splitLines, hr] at h
          obtain ⟨rfl, rfl⟩ := h
          simp [ih hr]

def Delivery.all (d : Delivery) : Bytes :=
  d.sent ++ d.kept

@[simp] theorem hold_all (kept : Bytes) : (hold kept).all = kept := rfl

@[simp] theorem hold_ok (kept : Bytes) : (hold kept).ok = true := rfl

@[simp] theorem flush_all (kept : Bytes) : (flush true kept).all = kept := by
  simp [flush, Delivery.all]

@[simp] theorem flush_ok (kept : Bytes) : (flush true kept).ok = true := rfl

theorem all_andThen {d : Delivery} (h : d.ok = true) (next : Bytes → Delivery) :
    (d.andThen next).all = d.sent ++ (next d.kept).all := by
  simp [Delivery.andThen, h, Delivery.all]

theorem ok_andThen {d : Delivery} (h : d.ok = true) (next : Bytes → Delivery) :
    (d.andThen next).ok = (next d.kept).ok := by
  simp [Delivery.andThen, h]

theorem put_accepting (x kept : Bytes) :
    (put true x kept).ok = true ∧ (put true x kept).all = kept ++ x := by
  by_cases hspace : x.length < capacity - kept.length
  · simp [put, hspace]
  · by_cases hroom : x.length > capacity - kept.length
    · by_cases hlong : x.length ≥ capacity <;>
        simp [put, hspace, hroom, hlong, Delivery.andThen, direct, flush, hold, Delivery.all]
    · by_cases hlong : x.length ≥ capacity
      · have hempty : kept = [] := by
          apply List.eq_nil_of_length_eq_zero
          have hcapacity : capacity = 1024 := rfl
          omega
        simp [put, hlong, Nat.not_lt.mpr hlong, Delivery.andThen, direct, flush, hold,
          Delivery.all, hempty]
      · simp [put, hspace, hroom, hlong, Delivery.andThen, hold, Delivery.all]

theorem write_accepting (x kept : Bytes) :
    (write true x kept).ok = true ∧ (write true x kept).all = kept ++ x := by
  have hsettle : (settle true kept).ok = true ∧ (settle true kept).all = kept := by
    unfold settle
    split <;> simp
  cases hx : splitLines x with
  | none =>
      have hput := put_accepting x (settle true kept).kept
      simp only [write, hx]
      rw [ok_andThen hsettle.1, all_andThen hsettle.1, hput.2, ← List.append_assoc]
      exact ⟨hput.1, congrArg (· ++ x) hsettle.2⟩
  | some found =>
      obtain ⟨lines, tail⟩ := found
      have hsplit := splitLines_append hx
      have hlines := put_accepting lines kept
      have hout : ∀ out : Delivery, out.ok = true → out.all = kept ++ lines →
          (out.andThen (put true tail)).ok = true ∧
            (out.andThen (put true tail)).all = kept ++ x := by
        intro out hok hall
        have hput := put_accepting tail out.kept
        rw [ok_andThen hok, all_andThen hok, hput.2, ← List.append_assoc]
        refine ⟨hput.1, ?_⟩
        rw [← hsplit, ← List.append_assoc]
        exact congrArg (· ++ tail) hall
      simp only [write, hx]
      apply hout
      · split
        · rfl
        · rw [ok_andThen hlines.1]
          rfl
      · split
        · rename_i hkept
          simp [direct, Delivery.all, List.isEmpty_iff.mp hkept]
        · rw [all_andThen hlines.1, flush_all]
          exact hlines.2

end DiagnosticLog.LineBuffer
