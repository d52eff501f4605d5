import LinkTags.Proofs.Listing.Visits
import LinkTags.Proofs.Run.Operations
import LinkTags.Proofs.Search.Meaning
import LinkTags.Proofs.Tagging.Effect
import Mathlib.Data.List.Forall2

/-!
# What a run can do to the tree

Whatever operations are run, directories stay where they are, and the only new ones are
the markers of new libraries, one for each initialization that succeeds. No file comes to
be, and none gets a name for its links that it did not have. A file whose links are all
gone has lost the last one to an untagging that was given a path to that very link
(`performAll_safe`).

## Implementation notes

What one deed can do is said once (`Deed.Effect`), and each part of the result is a fact
about one change, carried along the changes of a run (`Trace`).
-/

namespace LinkTags

namespace Context

variable {context after : Context}

/-- A marker was made in a directory, and nothing else was changed. -/
structure Initialized (context after : Context) (root : Location) : Prop where
  free : context.files.node? (markerName :: root) = none
  node? : ∀ other, after.files.node? other =
    if other = markerName :: root then some .directory else context.files.node? other

/-- Making a library adds the marker at the spot that its path names. -/
theorem addNode_of_initLibrary {directory : Path} (h : context.initLibrary directory = .ok after) :
    ∃ root, context.spot (directory.join marker) = .ok (root, markerName) ∧
      context.addNode root markerName .directory = .ok after := by
  rw [initLibrary] at h
  split at h
  next made hmade =>
    cases h
    rw [makeDirectory, create] at hmade
    split at hmade
    · contradiction
    next root name hvacancy =>
      obtain ⟨hspot, _⟩ := vacancy_eq_ok hvacancy
      obtain ⟨_, hname, _⟩ := spot_eq_ok hspot
      -- The path that is made ends in the marker, and so does the spot it names.
      rw [← markerName_path, Path.fileName?_join] at hname
      obtain rfl : markerName = name := Name.toComponent_inj (Option.some.inj hname)
      exact ⟨root, hspot, hmade⟩
  · split at h <;> cases h
  · contradiction

theorem exists_initialized {directory : Path} (h : context.initLibrary directory = .ok after) :
    ∃ root, context.Initialized after root := by
  obtain ⟨root, _, hmade⟩ := addNode_of_initLibrary h
  obtain ⟨_, hfree, hnode⟩ := addNode_eq_ok hmade
  exact ⟨root, hfree, hnode⟩

/-- A file has a link of this name in some directory. -/
def HasLink (context : Context) (name : Name) (inode : Inode) : Prop :=
  ∃ above, context.files.node? (name :: above) = some (.file inode)

/-- A file has a link somewhere. -/
def IsLinked (context : Context) (inode : Inode) : Prop :=
  ∃ name, context.HasLink name inode

end Context

/-! ## One deed -/

/-- What a deed that succeeds does. -/
inductive Deed.Effect (before : Context) : Deed → Context → Prop where
  | init {directory : Path} {after : Context} {root : Location}
      (h : before.Initialized after root) : Effect before (.init directory) after
  | tag {file directory link : Path} {after : Context} {above location : Location}
      {name : Name} {inode : Inode}
      (h : before.Tagged file directory link after above location name inode) :
      Effect before (.tag file directory) after
  | untag {file directory link : Path} {after : Context} {above location : Location}
      {name : Name} {inode : Inode} (huntag : before.untag file directory = .ok (link, after))
      (h : before.Untagged file directory link after above location name inode) :
      Effect before (.untag file directory) after

theorem Deed.effect_of_attempt {before after : Context} {deed : Deed}
    (h : deed.attempt before = some after) : deed.Effect before after := by
  unfold attempt at h
  split at h
  next directory =>
    split at h
    next after hinit =>
      cases h
      obtain ⟨root, hroot⟩ := Context.exists_initialized hinit
      exact .init hroot
    · contradiction
  next file directory =>
    split at h
    next link after htag =>
      cases h
      obtain ⟨_, _, _, _, htagged⟩ := Context.exists_tagged htag
      exact .tag htagged
    · contradiction
  next file directory =>
    split at h
    next link after huntag =>
      cases h
      obtain ⟨_, _, _, _, huntagged⟩ := Context.exists_untagged huntag
      exact .untag huntag huntagged
    · contradiction

/-- A deed that succeeded, with the contexts before and after it. -/
structure Change where
  before : Context
  deed : Deed
  after : Context
  occurs : deed.attempt before = some after

namespace Change

variable {change : Change} {location : Location} {name : Name} {inode : Inode}

/-- The change was to initialize a library. -/
def isInit (change : Change) : Bool :=
  match change.deed with
  | .init _ => true
  | _ => false

/-- The change made the directory at a location the root of a library. -/
def Initializes (change : Change) (root : Location) : Prop :=
  change.before.Initialized change.after root

/-- A file was untagged, and its path named the very link that was removed. -/
def RemovesNamed (change : Change) (inode : Inode) : Prop :=
  ∃ file directory link above name, change.deed = .untag file directory ∧
    change.before.untag file directory = .ok (link, change.after) ∧
    change.before.lookupEntry file = .ok (.file above name inode) ∧
    change.before.lookupEntry link = .ok (.file above name inode) ∧
    change.after.LinkAdded change.before above name inode

theorem exists_initializes (h : change.isInit = true) : ∃ root, change.Initializes root := by
  obtain ⟨before, deed, after, occurs⟩ := change
  cases Deed.effect_of_attempt occurs with
  | init hinit => exact ⟨_, hinit⟩
  | tag htag => contradiction
  | untag huntag hremoved => contradiction

/-- Tagging and untagging leave all directories, and make none. -/
theorem directory_iff (h : change.isInit = false) :
    change.after.files.IsDirectory location ↔ change.before.files.IsDirectory location := by
  obtain ⟨before, deed, after, occurs⟩ := change
  cases Deed.effect_of_attempt occurs with
  | init hinit => contradiction
  | tag htag => exact htag.added.directory_iff
  | untag huntag hremoved => exact hremoved.removed.directory_iff.symm

theorem Initializes.directory_iff {root : Location} (h : change.Initializes root) :
    change.after.files.IsDirectory location ↔
      change.before.files.IsDirectory location ∨ location = markerName :: root := by
  rw [FileSystem.IsDirectory, FileSystem.IsDirectory, h.node?]
  split
  next hmarker => simp [hmarker]
  next hother => simp [hother]

/-- No name for the links of a file is new: a file is tagged under the name by which it is
found. -/
theorem hasLink_of_after (h : change.after.HasLink name inode) :
    change.before.HasLink name inode := by
  obtain ⟨above, hnode⟩ := h
  obtain ⟨before, deed, after, occurs⟩ := change
  cases Deed.effect_of_attempt occurs with
  | init hinit =>
      rw [hinit.node?] at hnode
      split at hnode
      · cases hnode
      · exact ⟨above, hnode⟩
  | tag htag =>
      rw [htag.added.node?] at hnode
      split at hnode
      next hnew =>
        cases hnode
        cases hnew
        obtain ⟨hfile, _⟩ := Context.lookupEntry_eq_file htag.names
        exact ⟨_, hfile⟩
      · exact ⟨above, hnode⟩
  | untag huntag hremoved => exact ⟨above, hremoved.removed.node?_of_less hnode⟩

/-- A file loses its last link only if it is untagged by this link: by another one, it
would still be there. -/
theorem removesNamed_of_lost (hbefore : change.before.IsLinked inode)
    (hafter : ¬change.after.IsLinked inode) : change.RemovesNamed inode := by
  have hlost : ∀ name above, change.after.files.node? (name :: above) ≠ some (.file inode) :=
    fun name above hnode => hafter ⟨name, above, hnode⟩
  obtain ⟨name, above, hnode⟩ := hbefore
  obtain ⟨before, deed, after, occurs⟩ := change
  cases Deed.effect_of_attempt occurs with
  | init hinit =>
      refine absurd ?_ (hlost name above)
      rw [hinit.node?, if_neg, hnode]
      intro hmarker
      rw [hmarker, hinit.free] at hnode
      contradiction
  | tag htag => exact absurd (htag.added.node?_of_less hnode) (hlost name above)
  | @untag file directory link _ own location entry other huntag hremoved =>
      have hstays : ∀ {name above}, before.files.node? (name :: above) = some (.file inode) →
          name :: above = entry :: location := by
        intro name above hnode
        by_contra hne
        exact hlost name above ((hremoved.removed.node?_of_ne hne).symm.trans hnode)
      obtain rfl : other = inode := by
        have hself := hremoved.removed.node?_self
        rw [← hstays hnode, hnode] at hself
        cases hself
        rfl
      obtain ⟨hfile, _⟩ := Context.lookupEntry_eq_file hremoved.names
      obtain rfl : own = location := (List.cons.inj (hstays hfile)).2
      exact ⟨file, directory, link, own, entry, rfl, huntag, hremoved.names, hremoved.linked,
        hremoved.removed⟩

end Change

/-! ## Runs of deeds -/

/-- The changes lead from one context to another, each from where the one before it ended. -/
inductive Trace : Context → List Change → Context → Prop where
  | nil (context : Context) : Trace context [] context
  | cons (change : Change) {changes : List Change} {last : Context}
      (rest : Trace change.after changes last) : Trace change.before (change :: changes) last

namespace Context

/-- The changes that deeds make, attempted one after the other. -/
def changes (context : Context) : List Deed → List Change
  | [] => []
  | deed :: rest =>
      match h : deed.attempt context with
      | none => changes context rest
      | some after => ⟨context, deed, after, h⟩ :: changes after rest

/-- The changes that operations make, performed one after the other. -/
def history (context : Context) (operations : List Operation) : List Change :=
  context.changes (context.deeds operations)

theorem trace_changes (context : Context) (deeds : List Deed) :
    Trace context (context.changes deeds) (context.doAll deeds) := by
  induction deeds generalizing context with
  | nil => exact .nil context
  | cons deed rest ih =>
      rw [changes, doAll]
      split
      next hfails =>
        rw [hfails]
        exact ih context
      next after hoccurs =>
        have hnext : (deed.attempt context).getD context = after := by rw [hoccurs, Option.getD]
        rw [hnext]
        exact .cons ⟨context, deed, after, hoccurs⟩ (ih after)

theorem trace_history (context : Context) (operations : List Operation) :
    Trace context (context.history operations) (context.performAll operations) := by
  rw [performAll_eq]
  exact trace_changes context (context.deeds operations)

end Context

namespace Trace

variable {first last : Context} {changes : List Change} {inode : Inode}

/-- The directories at the end are those at the start and one marker for each directory
that was made the root of a library. -/
theorem exists_roots (h : Trace first changes last) :
    ∃ roots : List Location,
      List.Forall₂ Change.Initializes (changes.filter Change.isInit) roots ∧
      roots.Nodup ∧ (∀ root ∈ roots, ¬first.files.IsDirectory (markerName :: root)) ∧
      ∀ location, last.files.IsDirectory location ↔
        first.files.IsDirectory location ∨ ∃ root ∈ roots, location = markerName :: root := by
  induction h with
  | nil context => exact ⟨[], .nil, .nil, by simp, by simp⟩
  | @cons change changes last rest ih =>
      obtain ⟨roots, hroots, hnodup, hfree, hdirectory⟩ := ih
      cases hinit : change.isInit with
      | false =>
          refine ⟨roots, ?_, hnodup, ?_, ?_⟩
          · rwa [List.filter_cons_of_neg (by simp [hinit])]
          · intro root hroot
            rw [← change.directory_iff hinit]
            exact hfree root hroot
          · intro location
            rw [hdirectory, change.directory_iff hinit]
      | true =>
          obtain ⟨root, hmade⟩ := change.exists_initializes hinit
          refine ⟨root :: roots, ?_, ?_, ?_, ?_⟩
          · rw [List.filter_cons_of_pos hinit]
            exact .cons hmade hroots
          · -- The marker is there after the change, so it is not made once more.
            refine List.nodup_cons.2 ⟨fun hroot => hfree root hroot ?_, hnodup⟩
            exact hmade.directory_iff.2 (.inr rfl)
          · intro other hother hthere
            rcases List.mem_cons.1 hother with rfl | hrest
            · rw [FileSystem.IsDirectory, hmade.free] at hthere
              contradiction
            · exact hfree other hrest (hmade.directory_iff.2 (.inl hthere))
          · intro location
            rw [hdirectory, hmade.directory_iff]
            simp [or_assoc]

/-- At no time does a file have a name for its links that it did not have at the start. -/
theorem hasLink_of_after (h : Trace first changes last) {change : Change}
    (hchange : change ∈ changes) {name : Name} (hlink : change.after.HasLink name inode) :
    first.HasLink name inode := by
  induction h with
  | nil context => contradiction
  | cons next rest ih =>
      rcases List.mem_cons.1 hchange with rfl | hrest
      · exact change.hasLink_of_after hlink
      · exact next.hasLink_of_after (ih hrest)

theorem isLinked_of_last (h : Trace first changes last) (hlast : last.IsLinked inode) :
    first.IsLinked inode := by
  induction h with
  | nil context => exact hlast
  | cons change rest ih =>
      obtain ⟨name, hlink⟩ := ih hlast
      exact ⟨name, change.hasLink_of_after hlink⟩

/-- A file that was linked and no longer is has lost its last link to an untagging that was
given this link. -/
theorem exists_removesNamed (h : Trace first changes last) (hfirst : first.IsLinked inode)
    (hlast : ¬last.IsLinked inode) : ∃ change ∈ changes, change.RemovesNamed inode := by
  induction h with
  | nil context => exact absurd hfirst hlast
  | cons change rest ih =>
      by_cases hafter : change.after.IsLinked inode
      · obtain ⟨later, hlater, hremoves⟩ := ih hafter hlast
        exact ⟨later, List.mem_cons_of_mem _ hlater, hremoves⟩
      · exact ⟨change, List.mem_cons_self, change.removesNamed_of_lost hfirst hafter⟩

end Trace

/-! ## Runs of operations -/

/-- Of every run: its changes lead from its start to its end. The directories at the end
are those at the start and, for each initialization that succeeded, one marker in another
directory. Every file with a link at the end had one at the start, and after no change has
it a link of a name that it did not have at the start. A file with a link at the start and
none at the end was untagged by a path to the very link that was removed. -/
theorem performAll_safe (context : Context) (operations : List Operation) :
    Trace context (context.history operations) (context.performAll operations) ∧
    (∃ roots : List Location,
      List.Forall₂ Change.Initializes ((context.history operations).filter Change.isInit) roots ∧
      roots.Nodup ∧ (∀ root ∈ roots, ¬context.files.IsDirectory (markerName :: root)) ∧
      ∀ location, (context.performAll operations).files.IsDirectory location ↔
        context.files.IsDirectory location ∨ ∃ root ∈ roots, location = markerName :: root) ∧
    (∀ inode, (context.performAll operations).IsLinked inode → context.IsLinked inode) ∧
    (∀ change ∈ context.history operations, ∀ name inode,
      change.after.HasLink name inode → context.HasLink name inode) ∧
    ∀ inode, context.IsLinked inode → ¬(context.performAll operations).IsLinked inode →
      ∃ change ∈ context.history operations, change.RemovesNamed inode := by
  have htrace := context.trace_history operations
  refine ⟨htrace, htrace.exists_roots, ?_, ?_, ?_⟩
  · intro inode hlast
    exact htrace.isLinked_of_last hlast
  · intro change hchange name inode hlink
    exact htrace.hasLink_of_after hchange hlink
  · intro inode hfirst hlast
    exact htrace.exists_removesNamed hfirst hlast

/-- The program is called to remove the one link to the file in `tray`. -/
def trayUntagging : List Operation :=
  [.call ⟨["untag", "-f", "0123456789", "--", "//"].map Path.ofString, none, none⟩]

theorem not_isLinked_of_root_eq {context : Context} {inode : Inode}
    (h : context.files.root = .directory markerName .nil .nil) : ¬context.IsLinked inode := by
  rintro ⟨name, above, hnode⟩
  rw [FileSystem.node?_eq, h] at hnode
  generalize (name :: above).reverse = names at hnode
  cases names with
  | nil => cases hnode
  | cons first rest =>
      rw [Contents.node?_cons, Contents.find?] at hnode
      split at hnode
      next inside hinside =>
        split at hinside
        · cases hinside
          cases rest <;> cases hnode
        · contradiction
      next hfile => split at hfile <;> cases hfile
      · contradiction

/-- The file is gone, because it was untagged by a path to this link. -/
theorem tray_performAll_safe :
    ∃ change ∈ Context.tray.history trayUntagging, change.RemovesNamed ⟨0, .regular⟩ := by
  have hroot : (Context.tray.performAll trayUntagging).files.root =
      .directory markerName .nil .nil := by decide +kernel
  have hlinked : Context.tray.IsLinked ⟨0, .regular⟩ := ⟨Context.digits, [], by decide⟩
  obtain ⟨_, _, _, _, hlost⟩ := performAll_safe Context.tray trayUntagging
  exact hlost ⟨0, .regular⟩ hlinked (not_isLinked_of_root_eq hroot)

end LinkTags
