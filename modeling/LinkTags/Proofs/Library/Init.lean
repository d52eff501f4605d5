import LinkTags.Proofs.FileSystem.There
import LinkTags.Proofs.Library.Discovery
import LinkTags.Proofs.Library.Root
import LinkTags.Proofs.Tagging.Conflict

/-!
# What comes of making a library

Making a library has an outcome for everything that the path of the marker can name
(`InitOutcome`). The marker is made first, and what is in its way is looked at only after that
failed. But a marker is in the way of another exactly if it is there
(`makeDirectory_eq_alreadyExists_iff`), so the outcome is known beforehand
(`initLibrary_outcome`).

A library stays one as long as no link is removed that a path can be looked up through. This is
what a run keeps that removes links to regular files only (`Trace.keepsWays`), whatever else
it does.
-/

namespace LinkTags

namespace Context

variable {context after : Context} {directory path : Path}

/-! ## Markers that are there -/

/-- The path of a marker ends in a step down. -/
theorem getLast?_steps_join_marker (directory : Path) :
    (directory.join marker).steps.getLast? = some (.down markerName.toComponent) :=
  Path.getLast?_steps_join directory markerName.toComponent

/-- The spot of a marker is one for the name of markers. -/
theorem eq_markerName_of_spot {above : Location} {name : Name}
    (h : context.spot (directory.join marker) = .ok (above, name)) : name = markerName := by
  obtain ⟨_, hname, _⟩ := spot_eq_ok h
  rw [← markerName_path, Path.fileName?_join] at hname
  exact (Name.toComponent_inj (Option.some.inj hname)).symm

/-- A directory is not made because of what is there, exactly if something is there. -/
theorem makeDirectory_eq_alreadyExists_iff {component : Component}
    (hlast : path.steps.getLast? = some (.down component)) :
    context.makeDirectory path = .error .alreadyExists ↔ context.IsThere path := by
  rw [makeDirectory, create]
  constructor
  · intro h
    split at h
    next e hvacancy =>
      cases h
      obtain ⟨above, name, hspot, htaken⟩ := vacancy_eq_alreadyExists hlast hvacancy
      exact (isThere_iff_of_spot hspot).2 (Option.ne_none_iff_exists'.1 htaken)
    next above name hvacancy =>
      obtain ⟨hspot, hfree⟩ := vacancy_eq_ok hvacancy
      obtain ⟨hdirectory, _⟩ := spot_eq_ok hspot
      obtain ⟨made, hmade⟩ := exists_addNode .directory hdirectory hfree
      cases hmade.symm.trans h
  · intro h
    obtain ⟨found, hfound⟩ := isThere_iff.1 h
    obtain ⟨above, name, hspot⟩ := exists_spot_of_walkFrom hlast hfound
    obtain ⟨node, hnode⟩ := (isThere_iff_of_spot hspot).1 h
    have hvacancy : context.vacancy path = .error .alreadyExists := by
      rw [vacancy, hspot]
      apply if_neg
      rw [hnode]
      exact Option.some_ne_none node
    rw [hvacancy]

/-- The marker of a library is there. -/
theorem isThere_of_isLibrary (h : context.isLibrary directory = true) :
    context.IsThere (directory.join marker) := by
  obtain ⟨place, hplace⟩ := isDirectory_iff.1 h
  exact isThere_of_lookup (getLast?_steps_join_marker directory) hplace

/-! ## Each outcome from its premises -/

/-- What comes of making a directory the root of a library. -/
inductive InitOutcome (context : Context) (directory : Path) : Except InitError Context → Prop where
  | alreadyLibrary (hlibrary : context.isLibrary directory = true) :
      InitOutcome context directory (.error (.alreadyLibrary directory))
  | fileExists (hthere : context.IsThere (directory.join marker))
      (hnone : ¬context.isLibrary directory = true) :
      InitOutcome context directory (.error (.fileExists directory))
  | noSpot {e : FileError} (hspot : context.spot (directory.join marker) = .error e) :
      InitOutcome context directory (.error (.filesystem (directory.join marker) e))
  | made {root : Location} {after : Context}
      (hspot : context.spot (directory.join marker) = .ok (root, markerName))
      (hmade : context.addNode root markerName .directory = .ok after) :
      InitOutcome context directory (.ok after)

/-- An outcome whose premises are met is that of making a library. -/
theorem InitOutcome.initLibrary_eq {result : Except InitError Context}
    (h : context.InitOutcome directory result) : context.initLibrary directory = result := by
  have hlast := getLast?_steps_join_marker directory
  cases h with
  | alreadyLibrary hlibrary =>
      rw [initLibrary, (makeDirectory_eq_alreadyExists_iff hlast).2 (isThere_of_isLibrary hlibrary)]
      exact if_pos hlibrary
  | fileExists hthere hnone =>
      rw [initLibrary, (makeDirectory_eq_alreadyExists_iff hlast).2 hthere]
      exact if_neg hnone
  | @noSpot e hspot =>
      have hmake : context.makeDirectory (directory.join marker) = .error e := by
        rw [makeDirectory, create, vacancy, hspot]
      rw [initLibrary, hmake]
      split
      next hok => cases hok
      next htaken =>
        cases htaken
        exact absurd hspot (spot_ne_alreadyExists hlast)
      next herror =>
        cases herror
        rfl
  | made hspot hmade => exact initLibrary_of_addNode hspot hmade

/-- Some outcome has its premises met. -/
theorem exists_initOutcome (context : Context) (directory : Path) :
    ∃ result, context.InitOutcome directory result := by
  by_cases hthere : context.IsThere (directory.join marker)
  · by_cases hlibrary : context.isLibrary directory = true
    · exact ⟨_, .alreadyLibrary hlibrary⟩
    · exact ⟨_, .fileExists hthere hlibrary⟩
  · cases hspot : context.spot (directory.join marker) with
    | error e => exact ⟨_, .noSpot hspot⟩
    | ok found =>
        obtain ⟨root, name⟩ := found
        obtain rfl := eq_markerName_of_spot hspot
        have hfree : context.files.node? (markerName :: root) = none := by
          rw [Option.eq_none_iff_forall_ne_some]
          intro node hnode
          exact hthere ((isThere_iff_of_spot hspot).2 ⟨node, hnode⟩)
        obtain ⟨hdirectory, _⟩ := spot_eq_ok hspot
        obtain ⟨after, hmade⟩ := exists_addNode .directory hdirectory hfree
        exact ⟨_, .made hspot hmade⟩

theorem initLibrary_eq_iff {result : Except InitError Context} :
    context.initLibrary directory = result ↔ context.InitOutcome directory result := by
  constructor
  · rintro rfl
    obtain ⟨result, hresult⟩ := exists_initOutcome context directory
    rwa [hresult.initLibrary_eq]
  · exact InitOutcome.initLibrary_eq

end Context

/-! ## Libraries that stay -/

variable {first last : Context} {changes : List Change}

/-- Every link that the change removes is one to a regular file. -/
def Change.RemovesRegular (change : Change) : Prop :=
  ∀ location name inode, change.after.LinkAdded change.before location name inode →
    inode.kind = .regular

theorem Deed.initLibrary_of_attempt {before after : Context} {directory : Path}
    (h : (Deed.init directory).attempt before = some after) :
    before.initLibrary directory = .ok after := by
  rw [attempt] at h
  split at h
  next hinit =>
    cases h
    exact hinit
  · contradiction

/-- A change that removes links to regular files only keeps all that paths are looked up
through. -/
theorem Change.keepsWays (change : Change) (h : change.RemovesRegular) :
    change.before.files.Carries change.after.files ∧ change.after.cwd = change.before.cwd := by
  obtain ⟨before, deed, after, occurs⟩ := change
  cases Deed.effect_of_attempt occurs with
  | init hinit =>
      obtain ⟨root, _, hmade⟩ :=
        Context.addNode_of_initLibrary (Deed.initLibrary_of_attempt occurs)
      have hwithin := Context.within_of_addNode hmade
      exact ⟨hwithin.carries, hwithin.cwd⟩
  | tag htag => exact ⟨htag.added.within.carries, htag.added.within.cwd⟩
  | untag huntag hremoved =>
      have hregular := h _ _ _ hremoved.removed
      exact ⟨hremoved.removed.carries_back hregular, hremoved.removed.cwd.symm⟩

namespace Trace

/-- A run that removes links to regular files only keeps all that paths are looked up
through. -/
theorem keepsWays (h : Trace first changes last)
    (hregular : ∀ change ∈ changes, change.RemovesRegular) :
    first.files.Carries last.files ∧ last.cwd = first.cwd := by
  induction h with
  | nil context => exact ⟨fun _ _ _ hnode => hnode, rfl⟩
  | cons change rest ih =>
      rw [List.forall_mem_cons] at hregular
      obtain ⟨hcarries, hcwd⟩ := change.keepsWays hregular.1
      obtain ⟨hrest, hlast⟩ := ih hregular.2
      exact ⟨hcarries.trans hrest, hlast.trans hcwd⟩

/-- Where all files are regular, no run removes a link to another file. -/
theorem removesRegular (h : Trace first changes last)
    (hregular : ∀ inode, first.IsLinked inode → inode.kind = .regular) :
    ∀ change ∈ changes, change.RemovesRegular := by
  induction h with
  | nil context => exact List.forall_mem_nil _
  | cons change rest ih =>
      rw [List.forall_mem_cons]
      constructor
      · intro location name inode hremoved
        exact hregular inode ⟨name, location, hremoved.node?_self⟩
      · apply ih
        rintro inode ⟨name, hlink⟩
        exact hregular inode ⟨name, change.hasLink_of_after hlink⟩

end Trace

namespace Context

variable {context after : Context} {directory : Path}

/-- A library is one after every run that removes links to regular files only. -/
theorem isLibrary_performAll (h : context.isLibrary directory = true)
    {operations : List Operation}
    (hregular : ∀ change ∈ context.history operations, change.RemovesRegular) :
    (context.performAll operations).isLibrary directory = true := by
  obtain ⟨hcarries, hcwd⟩ := (context.trace_history operations).keepsWays hregular
  obtain ⟨place, hplace⟩ := isDirectory_iff.1 h
  exact isDirectory_iff.2 ⟨place, walkFrom_of_carries hcwd hcarries trivial hplace⟩

/-! ## Making a library, exactly -/

/-- A marker is made as an empty directory, and nothing else is changed. -/
structure MarkerMade (context : Context) (directory : Path) (after : Context) (root : Location) :
    Prop where
  spot : context.spot (directory.join marker) = .ok (root, markerName)
  cwd : after.cwd = context.cwd
  free : context.files.node? (markerName :: root) = none
  node? : ∀ other, after.files.node? other =
    if other = markerName :: root then some .directory else context.files.node? other
  empty : ∀ name, after.files.node? (name :: markerName :: root) = none

theorem exists_markerMade (h : context.initLibrary directory = .ok after) :
    ∃ root, context.MarkerMade directory after root := by
  obtain ⟨root, hspot, hmade⟩ := addNode_of_initLibrary h
  obtain ⟨hcwd, hfree, hnode⟩ := addNode_eq_ok hmade
  refine ⟨root, hspot, hcwd, hfree, hnode, ?_⟩
  intro name
  rw [hnode, if_neg (by simp), Option.eq_none_iff_forall_ne_some]
  intro node hbelow
  have hmarker : context.files.IsDirectory (markerName :: root) :=
    FileSystem.isDirectory_of_node? hbelow
  rw [FileSystem.IsDirectory, hfree] at hmarker
  contradiction

/-- A directory is a library already exactly if it was one before. Something else is in the way
of the marker exactly if it is there and leads to no directory. Any other failure is that of
the file system at the path of the marker, and all failures leave the context as it was.
Otherwise the marker is all that is added. Then the directory is a library, which opens as what
was made, and it is one already after every run that removes links to regular files only. -/
theorem initLibrary_outcome (context : Context) (directory : Path) :
    (context.initLibrary directory = .error (.alreadyLibrary directory) ↔
      context.isLibrary directory = true) ∧
    (context.initLibrary directory = .error (.fileExists directory) ↔
      context.IsThere (directory.join marker) ∧
        ¬context.isDirectory (directory.join marker) = true) ∧
    (∀ e, context.initLibrary directory = .error e →
      (e = .alreadyLibrary directory ∨ e = .fileExists directory ∨
        ∃ cause, e = .filesystem (directory.join marker) cause) ∧
      (Operation.initLibrary directory).perform context = (.initialized (.error e), context) ∧
      (Operation.init directory).perform context = (.library (.error e), context)) ∧
    ∀ after, context.initLibrary directory = .ok after →
      (Operation.initLibrary directory).perform context = (.initialized (.ok ()), after) ∧
      (∃ root, context.MarkerMade directory after root) ∧
      after.isLibrary directory = true ∧
      (∃ library, Library.init context directory = .ok (library, after) ∧
        Library.open? after directory = some library) ∧
      ∀ operations, (∀ change ∈ after.history operations, change.RemovesRegular) →
        (after.performAll operations).initLibrary directory =
          .error (.alreadyLibrary directory) := by
  refine ⟨?_, ?_, ?_, ?_⟩
  · rw [initLibrary_eq_iff]
    constructor
    · rintro ⟨⟩
      assumption
    · exact .alreadyLibrary
  · rw [initLibrary_eq_iff]
    constructor
    · rintro ⟨⟩
      exact ⟨‹_›, ‹_›⟩
    · rintro ⟨hthere, hnone⟩
      exact .fileExists hthere hnone
  · intro e he
    refine ⟨?_, ?_, ?_⟩
    · cases initLibrary_eq_iff.1 he with
      | alreadyLibrary => exact .inl rfl
      | fileExists => exact .inr (.inl rfl)
      | noSpot => exact .inr (.inr ⟨_, rfl⟩)
    · rw [Operation.perform, he]
      rfl
    · rw [Operation.perform, Library.init, he]
      rfl
  · intro after hinit
    have hlibrary := isLibrary_of_initLibrary hinit
    refine ⟨?_, exists_markerMade hinit, hlibrary, ⟨⟨directory⟩, ?_, ?_⟩, ?_⟩
    · rw [Operation.perform, hinit]
      rfl
    · rw [Library.init, hinit]
    · exact if_pos hlibrary
    · intro operations hregular
      exact initLibrary_eq_iff.2 (.alreadyLibrary (isLibrary_performAll hlibrary hregular))

/-- A library is made in `A`. A file there is linked into the marker, and then both of its links
are removed. It is a library still. -/
theorem shelf_initLibrary_outcome :
    ∃ after, shelf.initLibrary (.ofString "B/../A") = .ok after ∧
      (after.performAll [.tag (.ofString "A/c") (.ofString "A/.hardtag"),
          .untag (.ofString "A/c") (.ofString "A"),
          .untag (.ofString "A/.hardtag/c") (.ofString "A/.hardtag")]).initLibrary
        (.ofString "B/../A") = .error (.alreadyLibrary (.ofString "B/../A")) := by
  obtain ⟨after, hafter⟩ : ∃ after, shelf.initLibrary (.ofString "B/../A") = .ok after := ⟨_, rfl⟩
  obtain ⟨_, _, _, hok⟩ := initLibrary_outcome shelf (.ofString "B/../A")
  obtain ⟨_, ⟨root, hmade⟩, _, _, hstays⟩ := hok after hafter
  have hregular : ∀ inode ∈ shelf.files.root.inodes, inode.kind = .regular := by decide
  refine ⟨after, hafter, hstays _ ((after.trace_history _).removesRegular ?_)⟩
  rintro inode ⟨name, above, hnode⟩
  rw [hmade.node?] at hnode
  split at hnode
  · cases hnode
  · exact hregular inode (Contents.mem_inodes_of_node? hnode)

end Context

end LinkTags
