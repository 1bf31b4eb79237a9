import DiagnosticLog.Text.Utf8

/-!
# Showing bytes as text

Bytes that may not be valid UTF-8 are shown as text by keeping every well-formed sequence and
putting one U+FFFD in the place of every ill-formed segment.  They are handed on in pieces: each
longest run of well-formed sequences is one piece, each replacement another; the pieces joined
are the text (`flatten_pieces`).
-/

namespace DiagnosticLog.Lossy

open Utf8 (Segment segments)

/-- The encoding of U+FFFD, which stands for what cannot be decoded. -/
def replacement : Bytes :=
  Bytes.ofChar '\uFFFD'

def shown : Segment → Bytes
  | .wellFormed b => b
  | .illFormed _ => replacement

def text (b : Bytes) : Bytes :=
  (segments b).flatMap shown

def runPiece (run : Bytes) : List Bytes :=
  if run.isEmpty then [] else [run]

def runAndPieces : List Segment → Bytes × List Bytes
  | [] => ([], [])
  | .wellFormed b :: rest =>
      let later := runAndPieces rest
      (b ++ later.1, later.2)
  | .illFormed _ :: rest =>
      let later := runAndPieces rest
      ([], replacement :: (runPiece later.1 ++ later.2))

/-- The pieces in which some segments are shown. -/
def piecesOf (segs : List Segment) : List Bytes :=
  let all := runAndPieces segs
  runPiece all.1 ++ all.2

def pieces (b : Bytes) : List Bytes :=
  piecesOf (segments b)

@[simp] theorem flatten_runPiece (run : Bytes) : (runPiece run).flatten = run := by
  cases run <;> simp [runPiece]

theorem flatten_runAndPieces (segs : List Segment) :
    (runAndPieces segs).1 ++ (runAndPieces segs).2.flatten = segs.flatMap shown := by
  induction segs with
  | nil => rfl
  | cons seg rest ih =>
      cases seg with
      | wellFormed b => simp [runAndPieces, shown, ih]
      | illFormed b => simp [runAndPieces, shown, ih]

theorem flatten_pieces (b : Bytes) : (pieces b).flatten = text b := by
  simp [pieces, piecesOf, text, flatten_runAndPieces]

end DiagnosticLog.Lossy
