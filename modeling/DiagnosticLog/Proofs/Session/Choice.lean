import DiagnosticLog.Proofs.Session.Files
import DiagnosticLog.Session.Basic

/-!
# What a choice of the sink does

A thread that chooses the sink looks whether one has been chosen, opens the one it wants and sets
the log up with it.  `Hosted.Opening` and `Hosted.Publication` list what the second and the third of
these can come to, and `Hosted.Chooses` what the three of them come to when no other thread does
anything in between.
-/

namespace DiagnosticLog

/-! ## What a path means -/

/-- The sink that a path names. -/
inductive Sink.Named : Bytes → Sink → Prop where
  | standardOut : Named (Bytes.ofString "stdout") .standardOut
  | standardError : Named (Bytes.ofString "stderr") .standardError
  | file {path : Bytes} (notOut : path ≠ Bytes.ofString "stdout")
      (notError : path ≠ Bytes.ofString "stderr") : Named path (.file path)

/-- The sink that is meant where a path is given or not, and the environment has one or not. -/
inductive Sink.Meant : Option Bytes → Option Bytes → Sink → Prop where
  | given {path : Bytes} {environment : Option Bytes} {sink : Sink} (named : Named path sink) :
      Meant (some path) environment sink
  | environment {path : Bytes} {sink : Sink} (named : Named path sink) :
      Meant none (some path) sink
  | default : Meant none none .standardOut

theorem Sink.named_iff {path : Bytes} {sink : Sink} : Named path sink ↔ sink = ofPath path := by
  constructor
  · intro named
    cases named with
    | standardOut => rfl
    | standardError => rfl
    | file notOut notError =>
        exact ((if_neg notOut).trans (if_neg notError)).symm
  · rintro rfl
    unfold ofPath
    split
    · rename_i hout
      rw [hout]
      exact .standardOut
    · rename_i hout
      split
      · rename_i herror
        rw [herror]
        exact .standardError
      · rename_i herror
        exact .file hout herror

theorem Sink.meant_iff {given environment : Option Bytes} {sink : Sink} :
    Meant given environment sink ↔ sink = ofPath (resolvePath given environment) := by
  constructor
  · intro meant
    cases meant with
    | given named => exact named_iff.mp named
    | environment named => exact named_iff.mp named
    | default => rfl
  · intro h
    match given, environment with
    | some path, _ => exact .given (named_iff.mpr h)
    | none, some path => exact .environment (named_iff.mpr h)
    | none, none =>
        obtain rfl : sink = .standardOut := h
        exact .default

/-- The sink that a path, or none, stands for in an environment. -/
def Sink.sought (environment : String → Option Bytes) (variableName : String)
    (path : Option Bytes) : Sink :=
  ofPath (resolvePath path (environment variableName))

/-! ## What opening a file comes to -/

/-- A path has been opened in a tree: it leads to the target, before and after, and the target is
empty if it is a file; nothing else has changed. -/
structure FileTree.Opens (tree : FileTree) (path : Bytes) (target : Target) (tree' : FileTree) :
    Prop where
  leads : tree.openPath path = .ok (target, tree')
  again : tree'.openPath path = .ok (target, tree')
  contents : ∀ location, tree'.content? location =
    if target = .regular location then some Transcript.empty else tree.content? location
  directories : ∀ location, tree'.isDirectory location = tree.isDirectory location

theorem FileTree.opens_of_openPath {tree tree' : FileTree} {path : Bytes} {target : Target}
    (h : tree.openPath path = .ok (target, tree')) : tree.Opens path target tree' := by
  obtain ⟨heq, hagain⟩ := openPath_eq h
  refine ⟨h, hagain, ?_, ?_⟩
  · rw [heq]
    exact tree.content?_emptied target
  · rw [heq]
    exact tree.isDirectory_emptied target

/-! ## Choices -/

namespace Hosted

variable {h h' : Hosted} {wanted : Sink}

def channel (h : Hosted) : Channel :=
  h.sink.channel

/-- The channel that a print of thread `t` takes that begins now and need not wait.  An urgent one
takes standard error if the writer of the file is in use. -/
def destination (h : Hosted) (t : ThreadId) (urgency : Urgency) : Channel :=
  if h.busy t h.channel ∧ urgency.passesBy h.channel then .standardError else h.channel

theorem isResolved_sink (h : Hosted) : h.sink.isResolved = h.stream.isSome := by
  unfold sink
  cases h.stream with
  | none => rfl
  | some stream => cases stream <;> rfl

theorem stream_of_unresolved {h : Hosted} (unresolved : h.sink = .unresolved) :
    h.stream = none := by
  have hresolved := h.isResolved_sink
  rw [unresolved] at hresolved
  exact Option.isNone_iff_eq_none.mp (Option.isSome_eq_false_iff.mp hresolved.symm)

/-- What it can come to that thread `t` opens a sink that is meant.  The log goes on as it is set
up. -/
inductive Opening (h : Hosted) (t : ThreadId) : Sink → Except OpenError Unit → Hosted → Prop where
  | standardOut :
      Opening h t .standardOut (.ok ()) { h with opened := update h.opened t (some .standardOut) }
  | standardError :
      Opening h t .standardError (.ok ())
        { h with opened := update h.opened t (some .standardError) }
  | file {path : Bytes} {target : Target} {tree : FileTree}
      (opens : h.tree.Opens path target tree) :
      Opening h t (.file path) (.ok ())
        { h with
          tree := tree
          opened := update h.opened t (some (.file path ⟨target, []⟩)) }
  | failed {path : Bytes} {cause : OpenFailure} (refused : h.tree.openPath path = .error cause) :
      Opening h t (.file path) (.error ⟨path, cause⟩) h

theorem opening (h : Hosted) (t : ThreadId) (variableName : String) (path : Option Bytes) :
    h.Opening t (Sink.sought h.environment variableName path) (h.openSink t variableName path).1
      (h.openSink t variableName path).2 := by
  have hresolved : (Sink.sought h.environment variableName path).isResolved = true :=
    Sink.isResolved_ofPath _
  unfold openSink
  rw [show Sink.ofPath (resolvePath path (h.environment variableName)) =
    Sink.sought h.environment variableName path from rfl]
  generalize Sink.sought h.environment variableName path = sink at hresolved ⊢
  cases sink with
  | unresolved => cases hresolved
  | standardOut => exact .standardOut
  | standardError => exact .standardError
  | file path =>
      cases hopen : h.tree.openPath path with
      | ok opened =>
          simp only [openStream, hopen]
          exact .file (FileTree.opens_of_openPath hopen)
      | error cause =>
          simp only [openStream, hopen]
          exact .failed hopen

theorem Opening.rest {t : ThreadId} {reply : Except OpenError Unit}
    (opening : h.Opening t wanted reply h') :
    h' = { h with tree := h'.tree, opened := h'.opened } := by
  cases opening <;> rfl

/-- What it can come to that thread `t` sets the log up with what it has opened. -/
inductive Publication (h : Hosted) (t : ThreadId) : Option Sink → Hosted → Prop where
  | first {stream : Stream} (unset : h.stream = none) (opened : h.opened t = some stream) :
      Publication h t (some stream.sink)
        { h with stream := some stream, opened := update h.opened t none }
  | late (unable : h.stream = none → h.opened t = none) :
      Publication h t none { h with opened := update h.opened t none }

theorem publication (h : Hosted) (t : ThreadId) :
    h.Publication t (h.publishSink t).1 (h.publishSink t).2 := by
  unfold publishSink
  split
  · exact .first ‹_› ‹_›
  · rename_i hnot
    refine .late fun unset => ?_
    cases hopened : h.opened t with
    | none => rfl
    | some stream => exact absurd hopened (hnot stream unset)

/-- What a thread comes to that looks whether the log is set up, opens the sink and sets the log up
with it, while no other thread does anything. -/
def chooseSink (h : Hosted) (t : ThreadId) (variableName : String) (path : Option Bytes) :
    Except LogError Sink × Hosted :=
  if h.sink.isResolved then (.error .alreadyInitialized, h)
  else
    match h.openSink t variableName path with
    | (.error e, h) => (.error (.notOpened e), h)
    | (.ok (), h) =>
        match h.publishSink t with
        | (none, h) => (.error .alreadyInitialized, h)
        | (some sink, h) => (.ok sink, h)

/-- What a choice of thread `t` can come to where a sink is wanted.  The thread keeps nothing that
it has opened. -/
inductive Chooses (h : Hosted) (t : ThreadId) : Sink → Except LogError Sink → Hosted → Prop where
  | late {wanted : Sink} (resolved : h.sink.isResolved = true) :
      Chooses h t wanted (.error .alreadyInitialized) h
  | standardOut (unresolved : h.sink = .unresolved) :
      Chooses h t .standardOut (.ok .standardOut)
        { h with stream := some .standardOut, opened := update h.opened t none }
  | standardError (unresolved : h.sink = .unresolved) :
      Chooses h t .standardError (.ok .standardError)
        { h with stream := some .standardError, opened := update h.opened t none }
  | file {path : Bytes} {target : Target} {tree : FileTree} (unresolved : h.sink = .unresolved)
      (opens : h.tree.Opens path target tree) :
      Chooses h t (.file path) (.ok (.file path))
        { h with
          tree := tree
          stream := some (.file path ⟨target, []⟩)
          opened := update h.opened t none }
  | failed {path : Bytes} {cause : OpenFailure} (unresolved : h.sink = .unresolved)
      (refused : h.tree.openPath path = .error cause) :
      Chooses h t (.file path) (.error (.notOpened ⟨path, cause⟩)) h

theorem publishSink_of_opened {t : ThreadId} {stream : Stream} (unset : h.stream = none)
    (tree : FileTree) :
    publishSink { h with tree, opened := update h.opened t (some stream) } t =
      (some stream.sink,
        { h with tree, stream := some stream, opened := update h.opened t none }) := by
  simp only [publishSink, unset, update_self, update_update]

theorem chooses (h : Hosted) (t : ThreadId) (variableName : String) (path : Option Bytes) :
    h.Chooses t (Sink.sought h.environment variableName path)
      (h.chooseSink t variableName path).1 (h.chooseSink t variableName path).2 := by
  unfold chooseSink
  split
  · exact .late ‹_›
  · rename_i hresolved
    have unset : h.stream = none := by simpa [isResolved_sink] using hresolved
    have unresolved : h.sink = .unresolved := by rw [sink, unset]; rfl
    have hopening := h.opening t variableName path
    generalize Sink.sought h.environment variableName path = wanted at hopening ⊢
    generalize h.openSink t variableName path = opening at hopening ⊢
    obtain ⟨reply, h'⟩ := opening
    cases hopening with
    | standardOut =>
        simp only [publishSink_of_opened unset]
        exact .standardOut unresolved
    | standardError =>
        simp only [publishSink_of_opened unset]
        exact .standardError unresolved
    | file opens =>
        simp only [publishSink_of_opened unset]
        exact .file unresolved opens
    | failed refused => exact .failed unresolved refused

end Hosted

end DiagnosticLog
