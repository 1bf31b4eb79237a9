import DiagnosticLog.Request
import DiagnosticLog.Stream.Transcript

/-!
# The log in a guest

A guest has no files and no process.  All output goes to the console that was installed first, as
it comes; before that it is dropped.
-/

namespace DiagnosticLog

structure Guest where
  installed : Option ConsoleId
  /-- What was printed to each console. -/
  printed : Vector Transcript 2
  deriving DecidableEq, Repr

namespace Guest

def text (g : Guest) (id : ConsoleId) : Bytes :=
  g.printed[id].text

def outlet (g : Guest) : Outlet :=
  match g.installed with
  | none => .nowhere
  | some id => .console id

def put (g : Guest) (channel : Channel) (x : Bytes) : Guest :=
  match channel with
  | .console id => { g with printed := g.printed.set id (g.printed[id].add x) }
  | _ => g

/-- A console gets what is printed to it, and the other one does not. -/
theorem text_put (g : Guest) (id : ConsoleId) (x : Bytes) (k : ConsoleId) :
    (g.put (.console id) x).text k = if k = id then g.text k ++ x else g.text k := by
  simp only [put, text, Fin.getElem_fin, Vector.getElem_set]
  split
  · rename_i h
    simp [Fin.ext h]
  · rename_i h
    rw [if_neg fun hk => h (congrArg Fin.val hk.symm)]

def install (g : Guest) (id : ConsoleId) : Except LogError Unit × Guest :=
  match g.installed with
  | some _ => (.error .consoleInstalled, g)
  | none => (.ok (), { g with installed := some id })

end Guest

end DiagnosticLog
