import DiagnosticLog.Stream.FileTree

/-!
# Files

What storing, appending and opening do to the files of a tree.  A path that can be opened leads to
one file, which is empty then, or to a device.  Nothing else in the tree changes, and the same path
leads to the same place afterwards.
-/

namespace DiagnosticLog

namespace FileTree

def text (tree : FileTree) (location : Location) : Bytes :=
  ((tree.content? location).getD Transcript.empty).text

theorem lookup_map_replace (files : List (Location × Transcript)) (location k : Location)
    (content : Transcript) :
    (files.map fun entry => if entry.1 = location then (location, content) else entry).lookup k =
      if k = location ∧ (files.lookup location).isSome then some content else files.lookup k := by
  induction files with
  | nil => simp
  | cons entry rest ih =>
      obtain ⟨name, old⟩ := entry
      by_cases hname : name = location
      · subst hname
        by_cases hk : k = name
        · simp [hk]
        · simpa [hk, List.lookup_cons, beq_eq_false_iff_ne.mpr hk] using ih
      · by_cases hk : k = name
        · have hne : k ≠ location := fun h => hname (hk.symm.trans h)
          rw [List.map_cons, if_neg hname, hk, List.lookup_cons_self, List.lookup_cons_self,
            if_neg fun h => hname h.1]
        · have hhead : (k == name) = false := beq_eq_false_iff_ne.mpr hk
          have hlocation : (location == name) = false := beq_eq_false_iff_ne.mpr (Ne.symm hname)
          simp only [List.map_cons, if_neg hname, List.lookup_cons, hhead, hlocation]
          exact ih

theorem content?_store (tree : FileTree) (location k : Location) (content : Transcript) :
    (tree.store location content).content? k =
      if k = location then some content else tree.content? k := by
  unfold store
  split
  · rename_i hsome
    have h := lookup_map_replace tree.files location k content
    simp only [content?] at hsome ⊢
    rw [h]
    simp [hsome]
  · rename_i hnone
    have hlookup : tree.files.lookup location = none := by
      rw [Bool.not_eq_true, Option.isSome_eq_false_iff, Option.isNone_iff_eq_none] at hnone
      exact hnone
    by_cases hk : k = location
    · simp [content?, List.lookup_append, hk, hlookup]
    · simp [content?, List.lookup_append, hk, List.lookup_cons, beq_eq_false_iff_ne.mpr hk]

theorem text_store (tree : FileTree) (location k : Location) (content : Transcript) :
    (tree.store location content).text k =
      if k = location then content.text else tree.text k := by
  simp only [text, content?_store]
  split <;> rfl

theorem text_append (tree : FileTree) (location k : Location) (b : Bytes) :
    (tree.append location b).text k =
      if k = location then tree.text k ++ b else tree.text k := by
  simp only [append, text_store]
  split
  · rename_i h
    simp [text, h]
  · rfl

/-- Whether the bytes given to a target could be these; a device without a memory tells
nothing. -/
def Took (tree : FileTree) : Target → Bytes → Prop
  | .regular location, b => tree.text location = b
  | .device .null, _ => True
  | .device .full, b => b = []

theorem Took.deliver {tree : FileTree} {target : Target} {b : Bytes} (h : tree.Took target b)
    (accepts : target.accepts) (x : Bytes) : (tree.deliver target x).Took target (b ++ x) := by
  cases target with
  | regular location =>
      have hb : tree.text location = b := h
      show (tree.append location x).text location = b ++ x
      rw [text_append, if_pos rfl, hb]
  | device d =>
      cases d with
      | null => trivial
      | full => simp [Target.accepts] at accepts

theorem text_deliver_of_ne (tree : FileTree) {target : Target} {k : Location}
    (h : target ≠ .regular k) (x : Bytes) : (tree.deliver target x).text k = tree.text k := by
  cases target with
  | regular location =>
      have hk : k ≠ location := fun he => h (by rw [he])
      show (tree.append location x).text k = tree.text k
      rw [text_append, if_neg hk]
  | device d => rfl

/-! ## Opening -/

section Opening

variable {tree tree' : FileTree} {location : Location} {content : Transcript} {place : Location}
  {name path : Bytes} {slashed : Bool} {target : Target}

@[simp] theorem isDirectory_store (tree : FileTree) (location k : Location)
    (content : Transcript) : (tree.store location content).isDirectory k = tree.isDirectory k := by
  unfold store
  split <;> rfl

theorem snd_of_mem_store {entry : Location × Transcript}
    (hmem : entry ∈ (tree.store location content).files) (hfst : entry.1 = location) :
    entry.2 = content := by
  unfold store at hmem
  split at hmem
  · obtain ⟨old, _, rfl⟩ := List.mem_map.mp hmem
    split at hfst
    · rw [if_pos ‹_›]
    · contradiction
  · rename_i hnone
    rcases List.mem_append.mp hmem with hold | hnew
    · have hsome : (tree.content? location).isSome :=
        List.lookup_isSome_iff.mpr ⟨entry, hold, beq_iff_eq.mpr hfst.symm⟩
      exact absurd hsome hnone
    · rw [List.mem_singleton.mp hnew]

theorem store_store (tree : FileTree) (location : Location) (content : Transcript) :
    (tree.store location content).store location content = tree.store location content := by
  have hsome : ((tree.store location content).content? location).isSome := by
    rw [content?_store, if_pos rfl]
    rfl
  have hsame : ∀ entry ∈ (tree.store location content).files,
      (if entry.1 = location then (location, content) else entry) = entry := by
    intro entry hmem
    split
    · rename_i hfst
      rw [← snd_of_mem_store hmem hfst, ← hfst]
    · rfl
  rw [store, if_pos hsome, (List.map_congr_left hsame).trans (List.map_id' _)]

@[simp] theorem isDirectory_emptied (tree : FileTree) (target : Target) (k : Location) :
    (tree.emptied target).isDirectory k = tree.isDirectory k := by
  cases target with
  | regular location => exact isDirectory_store tree location k Transcript.empty
  | _ => rfl

theorem content?_emptied (tree : FileTree) (target : Target) (k : Location) :
    (tree.emptied target).content? k =
      if target = .regular k then some Transcript.empty else tree.content? k := by
  cases target with
  | regular location =>
      rw [emptied, content?_store]
      simp only [Target.regular.injEq, eq_comm]
  | device d => simp [emptied]

theorem took_emptied (tree : FileTree) (target : Target) :
    (tree.emptied target).Took target [] := by
  cases target with
  | regular location =>
      show (tree.store location Transcript.empty).text location = []
      rw [text_store, if_pos rfl]
      rfl
  | device d =>
      cases d with
      | null => trivial
      | full => rfl

theorem store_eq (tree : FileTree) (location : Location) (content : Transcript) :
    tree.store location content = { tree with files := (tree.store location content).files } := by
  unfold store
  by_cases hthere : (tree.content? location).isSome
  · rw [if_pos hthere]
  · rw [if_neg hthere]

theorem emptied_eq (tree : FileTree) (target : Target) :
    tree.emptied target = { tree with files := (tree.emptied target).files } := by
  cases target with
  | regular location => exact tree.store_eq location Transcript.empty
  | device d => rfl

theorem devices_emptied (tree : FileTree) (target : Target) :
    (tree.emptied target).devices = tree.devices := by
  rw [emptied_eq]

theorem working_emptied (tree : FileTree) (target : Target) :
    (tree.emptied target).working = tree.working := by
  rw [emptied_eq]

theorem isReadOnly_emptied (tree : FileTree) (target : Target) (location : Location) :
    (tree.emptied target).isReadOnly location = tree.isReadOnly location := by
  rw [emptied_eq]
  rfl

theorem emptied_emptied (tree : FileTree) (target : Target) :
    (tree.emptied target).emptied target = tree.emptied target := by
  cases target with
  | regular location => exact store_store tree location Transcript.empty
  | device d => rfl

theorem Took.emptied {other : Target} (h : tree.Took other []) (target : Target) :
    (tree.emptied target).Took other [] := by
  cases other with
  | regular location =>
      have hempty : tree.text location = [] := h
      show (((tree.emptied target).content? location).getD Transcript.empty).text = []
      rw [content?_emptied]
      split
      · rfl
      · exact hempty
  | device d => cases d <;> exact h

theorem entry_emptied_of_directory {next : Location} (h : tree.entry place name = .directory next)
    (target : Target) : (tree.emptied target).entry place name = .directory next := by
  simp only [entry, isDirectory_emptied] at h ⊢
  split at h
  · rwa [if_pos ‹_›]
  · split at h
    · cases h
    · split at h <;> cases h

theorem entry_emptied_of_file (h : tree.entry place name = .file target) (other : Target) :
    (tree.emptied other).entry place name = .file target := by
  simp only [entry, isDirectory_emptied, devices_emptied] at h ⊢
  split at h
  · cases h
  · rw [if_neg ‹_›]
    split at h
    · exact h
    · split at h
      · rename_i hcontent
        have hcontent' : ((tree.emptied other).content? (place ++ [name])).isSome := by
          rw [content?_emptied]
          split
          · rfl
          · exact hcontent
        rw [if_pos hcontent']
        exact h
      · cases h

theorem entry_emptied_of_vacant (h : tree.entry place name = .vacant location) (other : Target) :
    place ++ [name] = location ∧
      ((tree.emptied other).entry place name = .vacant location ∨
        (tree.emptied other).entry place name = .file (.regular location)) := by
  simp only [entry, isDirectory_emptied, devices_emptied] at h ⊢
  split at h
  · cases h
  · rw [if_neg ‹_›]
    split at h
    · cases h
    · split at h
      · cases h
      · obtain rfl : place ++ [name] = location := by simpa using h
        refine ⟨rfl, ?_⟩
        split
        · exact .inr rfl
        · exact .inl rfl

/-- A file that is created does not come into the way of a path. -/
theorem through_emptied {next : Location} (h : tree.through place name = .ok next)
    (target : Target) : (tree.emptied target).through place name = .ok next := by
  unfold through at h ⊢
  split at h
  · rwa [if_pos ‹_›]
  · rw [if_neg ‹_›]
    split at h
    · rwa [if_pos ‹_›]
    · rw [if_neg ‹_›]
      split at h
      · cases h
      · rw [if_neg ‹_›]
        split at h
        · rename_i hentry
          rw [entry_emptied_of_directory hentry]
          exact h
        all_goals cases h

theorem create_emptied {location : Location} {wanted : Target}
    (h : tree.create location wanted = .ok (target, tree')) :
    target = wanted ∧ tree' = tree.emptied target ∧
      ∀ other, (tree.emptied other).create location wanted =
        .ok (target, (tree.emptied other).emptied target) := by
  unfold create at h
  split at h
  · cases h
  · rename_i hwritable
    cases h
    refine ⟨rfl, rfl, fun other => ?_⟩
    rw [create, isReadOnly_emptied, if_neg hwritable]

theorem openLast_emptied (h : tree.openLast place name slashed = .ok (target, tree')) :
    tree' = tree.emptied target ∧
      ∀ other, (tree.emptied other).openLast place name slashed =
        .ok (target, (tree.emptied other).emptied target) := by
  unfold openLast at h
  split at h
  · cases h
  · rename_i hname
    split at h
    · cases h
    · rename_i hlength
      split at h
      · cases h
      · rename_i file hentry
        obtain ⟨rfl, heq, hother⟩ := create_emptied h
        refine ⟨heq, fun other => ?_⟩
        rw [openLast, if_neg hname, if_neg hlength, entry_emptied_of_file hentry]
        exact hother other
      · rename_i location hentry
        obtain ⟨rfl, heq, hother⟩ := create_emptied h
        refine ⟨heq, fun other => ?_⟩
        obtain ⟨hthere, hentry' | hentry'⟩ := entry_emptied_of_vacant hentry other
        · rw [openLast, if_neg hname, if_neg hlength, hentry']
          exact hother other
        · rw [openLast, if_neg hname, if_neg hlength, hentry', hthere]
          exact hother other

theorem openNames_emptied {names : List Bytes}
    (h : tree.openNames slashed place names = .ok (target, tree')) :
    tree' = tree.emptied target ∧
      ∀ other, (tree.emptied other).openNames slashed place names =
        .ok (target, (tree.emptied other).emptied target) := by
  induction names generalizing place with
  | nil => cases h
  | cons name more ih =>
      cases more with
      | nil => exact openLast_emptied h
      | cons next rest =>
          cases hthrough : tree.through place name with
          | error e => simp [openNames, hthrough, bind, Except.bind] at h
          | ok inner =>
              rw [openNames, hthrough] at h
              obtain ⟨heq, hother⟩ := ih h
              refine ⟨heq, fun other => ?_⟩
              rw [openNames, through_emptied hthrough]
              exact hother other

/-- A path that can be opened leads to a target, which has been emptied then, and leads there
whatever else has been opened before. -/
theorem openPath_emptied (h : tree.openPath path = .ok (target, tree')) :
    tree' = tree.emptied target ∧
      ∀ other, (tree.emptied other).openPath path =
        .ok (target, (tree.emptied other).emptied target) := by
  unfold openPath at h
  split at h
  · cases h
  · split at h
    · cases h
    · split at h
      · cases h
      · obtain ⟨heq, hother⟩ := openNames_emptied h
        refine ⟨heq, fun other => ?_⟩
        rw [openPath, if_neg ‹_›, if_neg ‹_›, if_neg ‹_›, working_emptied]
        exact hother other

theorem openPath_eq (h : tree.openPath path = .ok (target, tree')) :
    tree' = tree.emptied target ∧ tree'.openPath path = .ok (target, tree') := by
  obtain ⟨rfl, hother⟩ := openPath_emptied h
  refine ⟨rfl, ?_⟩
  have hagain := hother target
  rwa [emptied_emptied] at hagain

theorem took_openPath (h : tree.openPath path = .ok (target, tree')) : tree'.Took target [] := by
  rw [(openPath_eq h).1]
  exact took_emptied tree target

end Opening

/-! ## Trees of the same shape -/

/-- The trees differ in the contents of their files at most. -/
structure SameShape (tree tree' : FileTree) : Prop where
  working : tree'.working = tree.working
  directories : tree'.directories = tree.directories
  devices : tree'.devices = tree.devices
  readOnly : tree'.readOnly = tree.readOnly
  present : ∀ location, (tree'.content? location).isSome = (tree.content? location).isSome

section Shapes

variable {tree tree' : FileTree} (same : tree.SameShape tree')
include same

theorem entry_of_sameShape (place : Location) (name : Bytes) :
    tree'.entry place name = tree.entry place name := by
  have hdirectory (k : Location) : tree'.isDirectory k = tree.isDirectory k := by
    simp only [isDirectory, same.working, same.directories]
  unfold entry
  dsimp only
  rw [hdirectory, same.devices, same.present]

theorem through_of_sameShape (place : Location) (name : Bytes) :
    tree'.through place name = tree.through place name := by
  unfold through
  rw [entry_of_sameShape same]

theorem create_of_sameShape (location : Location) (target : Target) :
    tree'.create location target =
      (tree.create location target).map fun opened => (opened.1, tree'.emptied opened.1) := by
  have hreadOnly : tree'.isReadOnly location = tree.isReadOnly location := by
    simp only [isReadOnly, same.readOnly]
  unfold create
  rw [hreadOnly]
  cases tree.isReadOnly location <;> rfl

theorem openLast_of_sameShape (place : Location) (name : Bytes) (slashed : Bool) :
    tree'.openLast place name slashed =
      (tree.openLast place name slashed).map fun opened => (opened.1, tree'.emptied opened.1) := by
  unfold openLast
  rw [entry_of_sameShape same]
  by_cases hdots : name = itself ∨ name = above ∨ slashed
  · rw [if_pos hdots, if_pos hdots]
    rfl
  · rw [if_neg hdots, if_neg hdots]
    by_cases hlength : name.length > maxName
    · rw [if_pos hlength, if_pos hlength]
      rfl
    · rw [if_neg hlength, if_neg hlength]
      cases tree.entry place name with
      | directory location => rfl
      | file target => exact create_of_sameShape same _ _
      | vacant location => exact create_of_sameShape same _ _

theorem openNames_of_sameShape (slashed : Bool) (place : Location) (names : List Bytes) :
    tree'.openNames slashed place names =
      (tree.openNames slashed place names).map fun opened =>
        (opened.1, tree'.emptied opened.1) := by
  induction names generalizing place with
  | nil => rfl
  | cons name more ih =>
      cases more with
      | nil => exact openLast_of_sameShape same place name slashed
      | cons next rest =>
          rw [openNames, openNames, through_of_sameShape same]
          cases tree.through place name with
          | error cause => rfl
          | ok inner => exact ih inner

theorem openPath_of_sameShape (path : Bytes) :
    tree'.openPath path =
      (tree.openPath path).map fun opened => (opened.1, tree'.emptied opened.1) := by
  unfold openPath
  rw [same.working]
  by_cases hzero : 0 ∈ path
  · rw [if_pos hzero, if_pos hzero]
    rfl
  · rw [if_neg hzero, if_neg hzero]
    by_cases hempty : path.isEmpty
    · rw [if_pos hempty, if_pos hempty]
      rfl
    · rw [if_neg hempty, if_neg hempty]
      by_cases hlength : path.length > maxPath
      · rw [if_pos hlength, if_pos hlength]
        rfl
      · rw [if_neg hlength, if_neg hlength]
        exact openNames_of_sameShape same _ _ _

end Shapes

end FileTree

end DiagnosticLog
