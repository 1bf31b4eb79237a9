import DiagnosticLog.Request
import DiagnosticLog.Stream.LineBuffer

/-!
# The log in a process

A process has two standard streams, an environment and files.  Standard output is behind a line
buffer, and so is a log file; standard error is not.  A print takes its channel before it puts the
first piece and gives it back at its end, and meanwhile no other thread can print there.  In the
middle of a print its own thread can use a standard stream once more, but not the writer of a file.
-/

namespace DiagnosticLog

/-- A destination behind a line buffer: what has been delivered, and what is kept back. -/
structure Buffered where
  delivered : Transcript
  kept : Bytes
  deriving DecidableEq, Repr

namespace Buffered

def empty : Buffered :=
  ⟨Transcript.empty, []⟩

/-- All that was written, delivered or not. -/
def text (b : Buffered) : Bytes :=
  b.delivered.text ++ b.kept

def write (b : Buffered) (x : Bytes) : Buffered :=
  let d := LineBuffer.write true x b.kept
  ⟨b.delivered.add d.sent, d.kept⟩

def flush (b : Buffered) : Buffered :=
  ⟨b.delivered.add b.kept, []⟩

@[simp] theorem text_write (b : Buffered) (x : Bytes) : (b.write x).text = b.text ++ x := by
  have h := (LineBuffer.write_accepting x b.kept).2
  simp only [LineBuffer.Delivery.all] at h
  simp [write, text, h]

@[simp] theorem text_flush (b : Buffered) : b.flush.text = b.text := by
  simp [flush, text]

end Buffered

structure Writer where
  target : Target
  kept : Bytes
  deriving DecidableEq, Repr

inductive Stream where
  | standardOut
  | standardError
  | file (path : Bytes) (writer : Writer)
  deriving DecidableEq, Repr

def Stream.sink : Stream → Sink
  | standardOut => .standardOut
  | standardError => .standardError
  | file path _ => .file path

/-- The threads whose prints have begun and not ended, by the stream they go to; the print that
began last comes first. -/
structure Users where
  out : List ThreadId
  err : List ThreadId
  file : List ThreadId
  deriving DecidableEq, Repr

namespace Users

def nobody : Users :=
  ⟨[], [], []⟩

/-- The threads that print to a channel; those of a console are not kept. -/
def of (u : Users) : Channel → List ThreadId
  | .standardOut => u.out
  | .standardError => u.err
  | .file => u.file
  | .console _ => []

def modify (u : Users) (channel : Channel) (f : List ThreadId → List ThreadId) : Users :=
  match channel with
  | .standardOut => { u with out := f u.out }
  | .standardError => { u with err := f u.err }
  | .file => { u with file := f u.file }
  | .console _ => u

end Users

structure Hosted where
  environment : String → Option Bytes
  tree : FileTree
  out : Buffered
  err : Transcript
  /-- Nothing until the log is set up. -/
  stream : Option Stream
  /-- What each thread has opened and not yet set the log up with. -/
  opened : ThreadId → Option Stream
  users : Users

namespace Hosted

def start (environment : String → Option Bytes) (tree : FileTree) : Hosted where
  environment := environment
  tree := tree
  out := Buffered.empty
  err := Transcript.empty
  stream := none
  opened := fun _ => none
  users := Users.nobody

def sink (h : Hosted) : Sink :=
  (h.stream.map Stream.sink).getD .unresolved

/-- Whether thread `t` cannot use a channel now. -/
def busy (h : Hosted) (t : ThreadId) (channel : Channel) : Bool :=
  match channel with
  | .file => !h.users.file.isEmpty
  | _ => (h.users.of channel).any fun user => user ≠ t

/-! ## Prints -/

def takeChannel (h : Hosted) (t : ThreadId) (channel : Channel) : Option Hosted :=
  if h.busy t channel then none
  else some { h with users := h.users.modify channel (t :: ·) }

def put (h : Hosted) (channel : Channel) (x : Bytes) : Bool × Hosted :=
  match channel with
  | .standardOut => (true, { h with out := h.out.write x })
  | .standardError => (true, { h with err := h.err.add x })
  | .file =>
      match h.stream with
      | some (.file path w) =>
          let d := LineBuffer.write w.target.accepts x w.kept
          (d.ok, { h with
            tree := h.tree.deliver w.target d.sent
            stream := some (.file path { w with kept := d.kept }) })
      | _ => (true, h)
  | .console _ => (true, h)

def endPrint (h : Hosted) (t : ThreadId) (channel : Channel) : Hosted :=
  { h with users := h.users.modify channel fun users => users.erase t }

/-- Write to standard error as thread `t`, unless it has to wait. -/
def complain (h : Hosted) (t : ThreadId) (text : Bytes) : Option Hosted :=
  if h.busy t .standardError then none else some { h with err := h.err.add text }

def push (h : Hosted) (channel : Channel) : Hosted :=
  match channel with
  | .standardOut => { h with out := h.out.flush }
  | .standardError => h
  | .file =>
      match h.stream with
      | some (.file path w) =>
          let d := LineBuffer.flush w.target.accepts w.kept
          { h with
            tree := h.tree.deliver w.target d.sent
            stream := some (.file path { w with kept := d.kept }) }
      | _ => h
  | .console _ => h

/-- Flush a channel as thread `t`, unless it has to wait.  An urgent flush leaves a file alone whose
writer is in use. -/
def flush (h : Hosted) (t : ThreadId) (urgency : Urgency) (channel : Channel) : Option Hosted :=
  if h.busy t channel then
    if urgency.passesBy channel then some h else none
  else
    some (h.push channel)

/-! ## Setting up -/

def openStream (tree : FileTree) : Sink → Except OpenError (Stream × FileTree)
  | .unresolved => .ok (.standardOut, tree)
  | .standardOut => .ok (.standardOut, tree)
  | .standardError => .ok (.standardError, tree)
  | .file path =>
      match tree.openPath path with
      | .ok (target, tree) => .ok (.file path ⟨target, []⟩, tree)
      | .error cause => .error ⟨path, cause⟩

/-- Open for thread `t` the sink that is meant by a path, or by the environment.  A log file is
empty then, even if another thread has come first and set the log up with it.  What the log sends
there later is kept from the beginning of the file; the gap that a file system leaves in front of it
is not. -/
def openSink (h : Hosted) (t : ThreadId) (variableName : String) (path : Option Bytes) :
    Except OpenError Unit × Hosted :=
  match openStream h.tree (Sink.ofPath (resolvePath path (h.environment variableName))) with
  | .ok (stream, tree) => (.ok (), { h with tree, opened := update h.opened t (some stream) })
  | .error e => (.error e, h)

/-- Set the log up with what thread `t` has opened, unless it is set up. -/
def publishSink (h : Hosted) (t : ThreadId) : Option Sink × Hosted :=
  let closed := { h with opened := update h.opened t none }
  match h.stream, h.opened t with
  | none, some stream => (some stream.sink, { closed with stream := some stream })
  | _, _ => (none, closed)

/-- The end of the process, brought about by the given thread if by any, delivers what standard
output keeps, unless another thread is using it; what a file's writer keeps is lost. -/
def close (h : Hosted) (last : Option ThreadId) : Hosted :=
  if h.users.out.all fun user => some user = last then
    { h with out := h.out.flush }
  else h

end Hosted

end DiagnosticLog
