import DiagnosticLog.Proofs.Session.Contents
import DiagnosticLog.Script.Report

/-!
# The two line ends

A text in the build whose lines end in a carriage return and a line feed is that of the plain build
with every line feed converted.  `Session.withCrlf` converts what a session has delivered and leaves
everything else as it is, what the buffers keep included: a buffer that is written to line by line
keeps no line feed, however much fits into it (`LineBuffer.write_spell`).
-/

namespace DiagnosticLog

namespace Bytes

/-- The text with a carriage return before every line feed. -/
def withCrlf (b : Bytes) : Bytes :=
  b.flatMap fun x => if x = lineFeed then LineEnd.crlf.bytes else [x]

@[simp] theorem withCrlf_nil : withCrlf [] = [] := rfl

@[simp] theorem withCrlf_append (a b : Bytes) : withCrlf (a ++ b) = withCrlf a ++ withCrlf b := by
  simp [withCrlf]

theorem withCrlf_of_not_mem {b : Bytes} (h : lineFeed ∉ b) : withCrlf b = b := by
  induction b with
  | nil => rfl
  | cons x rest ih =>
      rw [List.mem_cons, not_or] at h
      obtain ⟨hx, hrest⟩ := h
      show (if x = lineFeed then LineEnd.crlf.bytes else [x]) ++ withCrlf rest = x :: rest
      rw [if_neg (Ne.symm hx), ih hrest]
      rfl

theorem withCrlf_lf : withCrlf LineEnd.lf.bytes = LineEnd.crlf.bytes := rfl

theorem count_withCrlf (b : Bytes) : (withCrlf b).count lineFeed = b.count lineFeed := by
  induction b with
  | nil => rfl
  | cons x rest ih =>
      show ((if x = lineFeed then LineEnd.crlf.bytes else [x]) ++ withCrlf rest).count lineFeed = _
      rw [List.count_append, ih]
      by_cases hx : x = lineFeed
      · rw [if_pos hx, hx, List.count_cons_self]
        exact Nat.add_comm _ _
      · rw [if_neg hx, List.count_cons_of_ne hx]
        simp [hx]

end Bytes

namespace Transcript

def withCrlf (t : Transcript) : Transcript :=
  ofText t.text.withCrlf

@[simp] theorem text_withCrlf (t : Transcript) : t.withCrlf.text = t.text.withCrlf :=
  text_ofText _

@[simp] theorem withCrlf_empty : withCrlf empty = empty := rfl

theorem withCrlf_add (t : Transcript) (b : Bytes) :
    (t.add b).withCrlf = t.withCrlf.add b.withCrlf :=
  text_injective (by simp)

end Transcript

/-! ## Buffers -/

/-- The piece does not end a line by a text. -/
def Piece.staysInLine : Piece → Bool
  | .text b => !b.contains Bytes.lineFeed
  | .lineEnd => true

namespace LineBuffer

variable {accepts : Bool} {x kept : Bytes}

def Delivery.withCrlf (d : Delivery) : Delivery :=
  { d with sent := d.sent.withCrlf }

theorem splitLines_of_not_mem (h : Bytes.lineFeed ∉ x) : splitLines x = none := by
  induction x with
  | nil => rfl
  | cons b rest ih =>
      rw [List.mem_cons, not_or] at h
      simp [splitLines, ih h.2, Ne.symm h.1]

theorem splitLines_bytes (lineEnd : LineEnd) :
    splitLines lineEnd.bytes = some (lineEnd.bytes, []) := by
  cases lineEnd <;> rfl

theorem settle_of_not_mem (h : Bytes.lineFeed ∉ kept) : settle accepts kept = hold kept := by
  unfold settle
  rw [if_neg]
  exact fun hlast => h (List.mem_of_getLast? hlast)

theorem put_of_ok (ok : (put accepts x kept).ok) :
    (put accepts x kept).all = kept ++ x ∧ (accepts = false → (put accepts x kept).sent = []) := by
  cases accepts with
  | true => exact ⟨(put_accepting x kept).2, nofun⟩
  | false =>
      by_cases hspace : x.length < capacity - kept.length
      · simp [put, hspace, Delivery.all, hold]
      · by_cases hroom : x.length > capacity - kept.length
        · cases kept with
          | nil =>
              have hlong : x.length ≥ capacity := Nat.le_of_lt hroom
              simp [put, Nat.not_lt.mpr hlong, flush, hlong, Delivery.andThen, direct, hold] at ok
          | cons b rest =>
              simp only [put, if_neg hspace, if_pos hroom, flush] at ok
              simp [Delivery.andThen] at ok
        · by_cases hlong : x.length ≥ capacity
          · simp [put, hspace, hroom, hlong, Delivery.andThen, direct, hold] at ok
          · simp [put, hspace, hroom, hlong, Delivery.andThen, hold, Delivery.all]

theorem write_lineEnd (lineEnd : LineEnd) (kept : Bytes) :
    write true lineEnd.bytes kept = ⟨kept ++ lineEnd.bytes, [], true⟩ := by
  have htail (sent : Bytes) :
      (Delivery.mk sent [] true).andThen (put true []) = ⟨sent, [], true⟩ := by
    simp [Delivery.andThen, put, hold, capacity]
  simp only [write, splitLines_bytes]
  by_cases hkept : kept.isEmpty
  · rw [if_pos hkept, List.isEmpty_iff.mp hkept]
    exact htail _
  · obtain ⟨hok, hall⟩ := put_accepting lineEnd.bytes kept
    rw [if_neg hkept]
    rw [show (put true lineEnd.bytes kept).andThen (flush true) = ⟨kept ++ lineEnd.bytes, [], true⟩
      from ?_]
    · exact htail _
    · rw [← hall]
      simp [Delivery.andThen, hok, flush, Delivery.all]

theorem accepts_of_write_lineEnd {lineEnd : LineEnd}
    (ok : (write accepts lineEnd.bytes kept).ok) : accepts = true := by
  cases accepts with
  | true => rfl
  | false =>
      exfalso
      simp only [write, splitLines_bytes] at ok
      split at ok
      · simp [direct, Delivery.andThen] at ok
      · rename_i hkept
        cases hput : (put false lineEnd.bytes kept).ok with
        | false => simp [Delivery.andThen, hput] at ok
        | true =>
            obtain ⟨hall, hsent⟩ := put_of_ok hput
            simp only [Delivery.all, hsent rfl, List.nil_append] at hall
            have hnonempty : (put false lineEnd.bytes kept).kept.isEmpty = false := by
              rw [hall]
              cases kept with
              | nil => simp at hkept
              | cons b rest => rfl
            simp [Delivery.andThen, hput, flush, hnonempty] at ok

/-- A piece that is taken meets the same buffer in both builds, and leaves the same behind. -/
theorem write_spell {piece : Piece} (inLine : piece.staysInLine)
    (clear : Bytes.lineFeed ∉ kept) (ok : (write accepts (LineEnd.lf.spell piece) kept).ok) :
    Bytes.lineFeed ∉ (write accepts (LineEnd.lf.spell piece) kept).kept ∧
      write accepts (LineEnd.crlf.spell piece) kept =
        (write accepts (LineEnd.lf.spell piece) kept).withCrlf := by
  cases piece with
  | lineEnd =>
      have haccepts : accepts = true := @accepts_of_write_lineEnd _ _ .lf ok
      subst haccepts
      simp only [LineEnd.spell, write_lineEnd]
      refine ⟨List.not_mem_nil, ?_⟩
      rw [Delivery.withCrlf, Bytes.withCrlf_append, Bytes.withCrlf_of_not_mem clear,
        Bytes.withCrlf_lf]
  | text b =>
      have hb : Bytes.lineFeed ∉ b := by simpa [Piece.staysInLine] using inLine
      have hwrite : write accepts b kept = put accepts b kept := by
        simp [write, splitLines_of_not_mem hb, settle_of_not_mem clear, Delivery.andThen, hold]
      simp only [LineEnd.spell] at ok ⊢
      rw [hwrite] at ok ⊢
      have hall : Bytes.lineFeed ∉ (put accepts b kept).all := by
        rw [(put_of_ok ok).1, List.mem_append]
        exact fun h => h.elim clear hb
      simp only [Delivery.all, List.mem_append, not_or] at hall
      refine ⟨hall.2, ?_⟩
      simp only [Delivery.withCrlf, Bytes.withCrlf_of_not_mem hall.1]

end LineBuffer

namespace Buffered

def withCrlf (b : Buffered) : Buffered :=
  { b with delivered := b.delivered.withCrlf }

theorem write_spell {b : Buffered} {piece : Piece} (inLine : piece.staysInLine)
    (clear : Bytes.lineFeed ∉ b.kept) :
    Bytes.lineFeed ∉ (b.write (LineEnd.lf.spell piece)).kept ∧
      b.withCrlf.write (LineEnd.crlf.spell piece) =
        (b.write (LineEnd.lf.spell piece)).withCrlf := by
  have hok := (LineBuffer.write_accepting (LineEnd.lf.spell piece) b.kept).1
  obtain ⟨hkept, hwrite⟩ := LineBuffer.write_spell inLine clear hok
  refine ⟨hkept, ?_⟩
  simp only [write, withCrlf, hwrite, LineBuffer.Delivery.withCrlf, Transcript.withCrlf_add]

theorem withCrlf_flush {b : Buffered} (clear : Bytes.lineFeed ∉ b.kept) :
    b.withCrlf.flush = b.flush.withCrlf := by
  simp only [flush, withCrlf, Transcript.withCrlf_add, Bytes.withCrlf_of_not_mem clear]

end Buffered

/-! ## Files -/

def Target.location? : Target → Option Location
  | .regular location => some location
  | .device _ => none

namespace FileTree

variable (tree : FileTree)

def withCrlf (log : Option Location) : FileTree :=
  { tree with
    files := tree.files.map fun file =>
      if some file.1 = log then (file.1, file.2.withCrlf) else file }

@[simp] theorem withCrlf_none : tree.withCrlf none = tree := by
  simp [withCrlf]

theorem content?_withCrlf (location : Location) :
    (tree.withCrlf (some location)).content? location =
      (tree.content? location).map Transcript.withCrlf := by
  simp only [content?, withCrlf]
  induction tree.files with
  | nil => rfl
  | cons file rest ih =>
      obtain ⟨name, content⟩ := file
      by_cases hname : name = location
      · simp [hname]
      · have hhead : (location == name) = false := beq_eq_false_iff_ne.mpr (Ne.symm hname)
        simpa [hname, List.lookup_cons, hhead] using ih

theorem withCrlf_store (location : Location) (content : Transcript) :
    (tree.store location content).withCrlf (some location) =
      (tree.withCrlf (some location)).store location content.withCrlf := by
  simp only [store, content?_withCrlf, Option.isSome_map]
  split
  · simp only [withCrlf, List.map_map]
    congr 1
    apply List.map_congr_left
    intro file _
    by_cases hfile : file.1 = location <;> simp [hfile]
  · simp [withCrlf]

theorem withCrlf_deliver (target : Target) (b : Bytes) :
    (tree.deliver target b).withCrlf target.location? =
      (tree.withCrlf target.location?).deliver target b.withCrlf := by
  cases target with
  | regular location =>
      simp only [deliver, append, Target.location?, withCrlf_store, Transcript.withCrlf_add,
        content?_withCrlf]
      cases tree.content? location <;> rfl
  | device d => simp [deliver, Target.location?]

theorem withCrlf_emptied_self (target : Target) :
    (tree.emptied target).withCrlf target.location? = tree.emptied target := by
  cases target with
  | regular location =>
      have hsame : ∀ file ∈ (tree.store location Transcript.empty).files,
          (if some file.1 = some location then (file.1, file.2.withCrlf) else file) = file := by
        intro file hmem
        split
        · rename_i hfile
          have hempty := snd_of_mem_store hmem (Option.some.inj hfile)
          exact Prod.ext rfl (by rw [hempty, Transcript.withCrlf_empty])
        · rfl
      exact congrArg (fun files => { tree.store location Transcript.empty with files })
        ((List.map_congr_left hsame).trans (List.map_id' _))
  | device d => simp [emptied, Target.location?]

theorem sameShape_withCrlf (log : Option Location) : tree.SameShape (tree.withCrlf log) where
  working := rfl
  directories := rfl
  devices := rfl
  readOnly := rfl
  present := by
    intro location
    rw [Bool.eq_iff_iff, content?, content?, List.lookup_isSome_iff, List.lookup_isSome_iff]
    constructor
    · rintro ⟨file, hmem, hkey⟩
      obtain ⟨old, hold, rfl⟩ := List.mem_map.mp hmem
      refine ⟨old, hold, ?_⟩
      split at hkey <;> exact hkey
    · rintro ⟨file, hmem, hkey⟩
      refine ⟨_, List.mem_map_of_mem hmem, ?_⟩
      split <;> exact hkey

theorem withCrlf_emptied (target : Target) (log : Option Location) :
    (tree.emptied target).withCrlf log = (tree.withCrlf log).emptied target := by
  cases target with
  | device d => rfl
  | regular location =>
      have hpresent := (tree.sameShape_withCrlf log).present location
      simp only [emptied, store, hpresent]
      split
      · simp only [withCrlf, List.map_map]
        congr 1
        apply List.map_congr_left
        intro file _
        by_cases hfile : file.1 = location
        · by_cases hlog : some location = log <;> simp [hfile, hlog]
        · by_cases hlog : some file.1 = log <;> simp [hfile, hlog]
      · simp [withCrlf]

theorem openPath_withCrlf (log : Option Location) (path : Bytes) :
    (tree.withCrlf log).openPath path =
      (tree.openPath path).map fun opened => (opened.1, opened.2.withCrlf log) := by
  rw [openPath_of_sameShape (tree.sameShape_withCrlf log)]
  cases hopen : tree.openPath path with
  | error cause => rfl
  | ok opened =>
      obtain ⟨target, tree'⟩ := opened
      rw [(openPath_eq hopen).1]
      exact congrArg (fun opened => Except.ok (target, opened))
        (tree.withCrlf_emptied target log).symm

end FileTree

/-! ## Platforms and sessions -/

namespace Hosted

def logFile (h : Hosted) : Option Location :=
  match h.stream with
  | some (.file _ w) => w.target.location?
  | _ => none

def withCrlf (h : Hosted) : Hosted :=
  { h with tree := h.tree.withCrlf h.logFile, out := h.out.withCrlf, err := h.err.withCrlf }

end Hosted

namespace Guest

def withCrlf (g : Guest) : Guest :=
  { g with printed := g.printed.map Transcript.withCrlf }

theorem text_withCrlf (g : Guest) (id : ConsoleId) : g.withCrlf.text id = (g.text id).withCrlf := by
  simp [text, withCrlf]

theorem withCrlf_put (g : Guest) (c : Channel) (b : Bytes) :
    (g.put c b).withCrlf = g.withCrlf.put c b.withCrlf := by
  cases c with
  | console id => simp [put, withCrlf, Vector.map_set, Transcript.withCrlf_add]
  | _ => rfl

end Guest

def Platform.withCrlf : Platform → Platform
  | .hosted h => .hosted h.withCrlf
  | .guest g => .guest g.withCrlf

namespace Session

/-- The session in the build with carriage returns: what has been delivered is converted, and the
rest is the same. -/
def withCrlf (s : Session) : Session :=
  { s with lineEnd := .crlf, platform := s.platform.withCrlf }

def logFile (s : Session) : Option Location :=
  match s.platform with
  | .hosted h => h.logFile
  | .guest _ => none

end Session

namespace Output

def withCrlf (o : Output) (log : Option Location) : Output where
  out := o.out.withCrlf
  err := o.err.withCrlf
  files := o.files.map fun file => if some file.1 = log then (file.1, file.2.withCrlf) else file
  consoles := fun id => (o.consoles id).withCrlf

theorem ofSession_withCrlf (s : Session) :
    ofSession s.withCrlf = (ofSession s).withCrlf s.logFile := by
  unfold ofSession Session.logFile Session.withCrlf
  cases s.platform with
  | hosted h =>
      simp only [Platform.withCrlf, Hosted.withCrlf, Buffered.withCrlf, withCrlf,
        Transcript.text_withCrlf, FileTree.contents, FileTree.withCrlf, List.map_map,
        Bytes.withCrlf_nil, Output.mk.injEq, true_and, and_true]
      apply List.map_congr_left
      intro file _
      by_cases hfile : some file.1 = h.logFile <;> simp [hfile]
  | guest g =>
      simp only [Platform.withCrlf, withCrlf, Bytes.withCrlf_nil, List.map_nil, Output.mk.injEq,
        true_and]
      funext id
      exact g.text_withCrlf id

structure Lines where
  out : Nat
  err : Nat
  files : List (Location × Nat)
  consoles : ConsoleId → Nat

def completed (o : Output) : Lines where
  out := o.out.count Bytes.lineFeed
  err := o.err.count Bytes.lineFeed
  files := o.files.map fun file => (file.1, file.2.count Bytes.lineFeed)
  consoles := fun id => (o.consoles id).count Bytes.lineFeed

theorem completed_withCrlf (o : Output) (log : Option Location) :
    (o.withCrlf log).completed = o.completed := by
  simp only [completed, withCrlf, Bytes.count_withCrlf, List.map_map, Lines.mk.injEq, true_and,
    and_true]
  apply List.map_congr_left
  intro file _
  by_cases hfile : some file.1 = log <;> simp [hfile, Bytes.count_withCrlf]

end Output

end DiagnosticLog
