import DiagnosticLog.Session.Basic

/-!
# Reports

After each step of a script it is reported what the step answered and what has reached the
outside since the report before: the growth of the standard streams and the consoles, and the
files that changed.
-/

namespace DiagnosticLog

structure Output where
  out : Bytes
  err : Bytes
  files : List (Location × Bytes)
  consoles : ConsoleId → Bytes

namespace Output

def ofSession (s : Session) : Output :=
  match s.platform with
  | .hosted h => ⟨h.out.delivered.text, h.err.text, h.tree.contents, fun _ => []⟩
  | .guest g => ⟨[], [], [], g.text⟩

/-- What was appended to a file, or its new content if it is not the old one with something
appended; nothing for a file that did not change. -/
def fileChange (before : List (Location × Bytes)) (file : Location × Bytes) :
    Option (Location × Bytes) :=
  match before.lookup file.1 with
  | none => some file
  | some old =>
      if file.2 = old then none
      else if old.isPrefixOf file.2 then some (file.1, file.2.drop old.length)
      else some file

def since (now before : Output) : Output where
  out := now.out.drop before.out.length
  err := now.err.drop before.err.length
  files := now.files.filterMap (fileChange before.files)
  consoles := fun id => (now.consoles id).drop (before.consoles id).length

/-! ## Lines in order -/

/-- The lines of a text, each with its line feed; what follows the last one is a line too. -/
def lines : Bytes → List Bytes
  | [] => []
  | b :: rest =>
      if b = Bytes.lineFeed then
        [b] :: lines rest
      else
        match lines rest with
        | [] => [[b]]
        | line :: more => (b :: line) :: more

/-- The order of texts byte by byte. -/
def notAfter : Bytes → Bytes → Bool
  | [], _ => true
  | _ :: _, [] => false
  | a :: as, b :: bs => a < b || (a == b && notAfter as bs)

def sortText (b : Bytes) : Bytes :=
  ((lines b).mergeSort notAfter).flatten

/-- The output with the lines of each text in order. -/
def sortLines (o : Output) : Output where
  out := sortText o.out
  err := sortText o.err
  files := o.files.map fun file => (file.1, sortText file.2)
  consoles := fun id => sortText (o.consoles id)

theorem flatten_lines (b : Bytes) : (lines b).flatten = b := by
  induction b with
  | nil => rfl
  | cons x rest ih =>
      unfold lines
      split
      · simp [ih]
      · split
        · rename_i hnil
          rw [hnil] at ih
          simp [← ih]
        · rename_i line more hcons
          rw [hcons] at ih
          simp [← ih]

end Output

inductive Result where
  | done (answer : Option Answer) (nested : List (Option Answer))
  /-- The step waits for a lock. -/
  | blocked
  /-- The run ended in the step. -/
  | ended (e : Ending)
  /-- There is no step: the script is over. -/
  | over
  deriving DecidableEq, Repr

structure Report where
  result : Result
  /-- What the step that waited for this one came to. -/
  joined : Option Result
  output : Output

end DiagnosticLog
