import LinkTags.Proofs.FileSystem.Carry
import LinkTags.Tagging

/-!
# What tagging does

A file that is tagged gets one more entry, in the directory of the tag and under the name
that it has in the directory it is named in (`Tagged`). A file that is untagged loses the
entry of this name in the directory of the tag, which is an entry of the same file
(`Untagged`). All other entries stay as they are, and so does the working directory: of the
contexts before and after, one has a link more than the other (`LinkAdded`).
-/

namespace LinkTags

theorem tagLink?_eq_some_iff {file directory link : Path} :
    tagLink? file directory = some link ↔
      ∃ component, file.fileName? = some component ∧ link = directory.join component.path := by
  rw [tagLink?, Option.map_eq_some_iff]
  constructor
  · rintro ⟨component, hname, rfl⟩
    exact ⟨component, hname, rfl⟩
  · rintro ⟨component, hname, rfl⟩
    exact ⟨component, hname, rfl⟩

namespace Context

variable {context after : Context}

theorem isDirectory_iff {path : Path} :
    context.isDirectory path = true ↔ ∃ place, context.lookup path = .ok (.directory place) := by
  unfold isDirectory
  split
  next place h => simp [h]
  next hnot =>
    constructor
    · intro h
      contradiction
    · rintro ⟨place, hplace⟩
      exact absurd hplace (hnot place)

theorem not_isDirectory {path : Path}
    (hnone : ∀ place, context.lookup path ≠ .ok (.directory place)) :
    ¬context.isDirectory path = true := by
  rw [isDirectory_iff]
  rintro ⟨place, hplace⟩
  exact hnone place hplace

theorem identity_eq_file_iff {path : Path} {inode : Inode} :
    context.identity path = .ok (.file inode) ↔
      ∃ above name, context.lookupEntry path = .ok (.file above name inode) := by
  unfold identity
  cases context.lookupEntry path with
  | error e => simp
  | ok found => cases found <;> simp [Found.id]

/-! ## Spots that are free -/

theorem vacancy_eq_ok {path : Path} {directory : Location} {name : Name}
    (h : context.vacancy path = .ok (directory, name)) :
    context.spot path = .ok (directory, name) ∧
      context.files.node? (name :: directory) = none := by
  unfold vacancy at h
  split at h
  · contradiction
  next spot found hspot =>
    split at h
    next hfree =>
      cases h
      exact ⟨hspot, hfree⟩
    next => contradiction

theorem link_eq_ok {old new : Path} (h : context.link old new = .ok after) :
    ∃ above own inode directory name,
      context.lookupEntry old = .ok (.file above own inode) ∧
        context.spot new = .ok (directory, name) ∧
        context.addNode directory name (.file inode) = .ok after := by
  unfold link at h
  split at h
  · contradiction
  next found hfound =>
    split at h
    · contradiction
    next directory name hvacancy =>
      cases found with
      | directory place => contradiction
      | file above own inode =>
          exact ⟨above, own, inode, directory, name, hfound, (vacancy_eq_ok hvacancy).1, h⟩

theorem unlink_eq_ok {path : Path} (h : context.unlink path = .ok after) :
    ∃ above name inode, context.lookupEntry path = .ok (.file above name inode) ∧
      after = context.eraseLink (name :: above) := by
  unfold unlink at h
  split at h
  · contradiction
  · contradiction
  next above name inode hentry =>
    cases h
    exact ⟨above, name, inode, hentry, rfl⟩

/-! ## One link more -/

/-- One context has a link that the other lacks, under a name that is free there, and they
differ in nothing else. -/
structure LinkAdded (less more : Context) (location : Location) (name : Name)
    (inode : Inode) : Prop where
  cwd : more.cwd = less.cwd
  free : less.files.node? (name :: location) = none
  node? : ∀ other, more.files.node? other =
    if other = name :: location then some (.file inode) else less.files.node? other

theorem linkAdded_of_addNode {location : Location} {name : Name} {inode : Inode}
    (h : context.addNode location name (.file inode) = .ok after) :
    context.LinkAdded after location name inode := by
  obtain ⟨hcwd, hfree, hnode⟩ := addNode_eq_ok h
  exact ⟨hcwd, hfree, hnode⟩

theorem linkAdded_eraseLink {location : Location} {name : Name} {inode : Inode}
    (h : context.files.node? (name :: location) = some (.file inode)) :
    (context.eraseLink (name :: location)).LinkAdded context location name inode := by
  refine ⟨rfl, ?_, ?_⟩
  · rw [node?_eraseLink h, if_pos rfl]
  · intro other
    split
    next hsame => rw [hsame, h]
    next hother => rw [node?_eraseLink h, if_neg hother]

namespace LinkAdded

variable {less more : Context} {location : Location} {name : Name} {inode : Inode}

theorem node?_self (h : less.LinkAdded more location name inode) :
    more.files.node? (name :: location) = some (.file inode) := by
  rw [h.node?, if_pos rfl]

theorem node?_of_ne (h : less.LinkAdded more location name inode) {other : Location}
    (hother : other ≠ name :: location) : more.files.node? other = less.files.node? other := by
  rw [h.node?, if_neg hother]

/-- The link is an entry of its own, so nothing else is where it is. -/
theorem node?_of_less (h : less.LinkAdded more location name inode) {other : Location}
    {node : Node} (hnode : less.files.node? other = some node) :
    more.files.node? other = some node := by
  rw [h.node?_of_ne, hnode]
  rintro rfl
  rw [h.free] at hnode
  contradiction

theorem directory_iff (h : less.LinkAdded more location name inode) {other : Location} :
    more.files.IsDirectory other ↔ less.files.IsDirectory other := by
  constructor
  · intro hmore
    rw [FileSystem.IsDirectory, h.node?] at hmore
    split at hmore
    · cases hmore
    · exact hmore
  · exact h.node?_of_less

theorem within (h : less.LinkAdded more location name inode) : less.Within more :=
  ⟨h.cwd, fun _ _ hnode => h.node?_of_less hnode⟩

/-- A link to a regular file is nothing that a walk goes on from. -/
theorem carries_back (h : less.LinkAdded more location name inode)
    (hregular : inode.kind = .regular) : more.files.Carries less.files := by
  intro other node hpassable hnode
  rw [h.node?] at hnode
  split at hnode
  · cases hnode
    obtain ⟨target, htarget⟩ := hpassable
    rw [hregular] at htarget
    contradiction
  · exact hnode

/-- The link can be added in one way only. -/
theorem more_unique {other : Context} (h : less.LinkAdded more location name inode)
    (hother : less.LinkAdded other location name inode) : other = more := by
  apply ext_node? (hother.cwd.trans h.cwd.symm)
  intro place
  rw [h.node?, hother.node?]

/-- The link can be removed in one way only. -/
theorem less_unique {other : Context} (h : less.LinkAdded more location name inode)
    (hother : other.LinkAdded more location name inode) : other = less := by
  apply ext_node? (hother.cwd.symm.trans h.cwd)
  intro place
  by_cases hplace : place = name :: location
  · rw [hplace, h.free, hother.free]
  · rw [← h.node?_of_ne hplace, hother.node?_of_ne hplace]

end LinkAdded

/-! ## Tagging -/

/-- A file was tagged: what its path names, and the directory of the tag with a new entry. -/
structure Tagged (context : Context) (file directory link : Path) (after : Context)
    (above location : Location) (name : Name) (inode : Inode) : Prop where
  names : context.lookupEntry file = .ok (.file above name inode)
  leads : context.lookup directory = .ok (.directory (.live location))
  link_eq : link = directory.join name.path
  added : context.LinkAdded after location name inode

/-- Whether tagging succeeds is decided by linking, once there is a link to make. -/
theorem tag_cases {file directory : Path} {result : Except TaggingError (Path × Context)}
    (h : context.tag file directory = result) :
    result = .error (.noFileName file) ∨ result = .error (.noTagDirectory directory) ∨
      ∃ link, tagLink? file directory = some link ∧ context.isDirectory directory = true ∧
        ((∃ after, context.link file link = .ok after ∧ result = .ok (link, after)) ∨
          (context.link file link = .error .alreadyExists ∧
            result = .error (.alreadyTagged link)) ∨
          ∃ e, context.link file link = .error e ∧ result = .error (.filesystem e)) := by
  unfold tag at h
  split at h
  · exact .inl h.symm
  next link hjoined =>
    split at h
    next hdirectory =>
      refine .inr (.inr ⟨link, hjoined, hdirectory, ?_⟩)
      split at h
      next after hlink => exact .inl ⟨after, hlink, h.symm⟩
      next htaken => exact .inr (.inl ⟨htaken, h.symm⟩)
      next e _ hlink => exact .inr (.inr ⟨e, hlink, h.symm⟩)
    next => exact .inr (.inl h.symm)

theorem tag_eq_ok {file directory link : Path}
    (h : context.tag file directory = .ok (link, after)) :
    tagLink? file directory = some link ∧ context.isDirectory directory = true ∧
      context.link file link = .ok after := by
  rcases tag_cases h with hnone | hnone | ⟨joined, hjoined, hdirectory, hlink⟩
  · cases hnone
  · cases hnone
  · rcases hlink with ⟨changed, hlink, hresult⟩ | ⟨_, herror⟩ | ⟨_, _, herror⟩
    · cases hresult
      exact ⟨hjoined, hdirectory, hlink⟩
    · cases herror
    · cases herror

theorem not_isTooLong_of_tag {file directory link : Path}
    (h : context.tag file directory = .ok (link, after)) : ¬link.isTooLong = true := by
  obtain ⟨_, _, hlink⟩ := tag_eq_ok h
  obtain ⟨_, _, _, _, _, _, hspot, _⟩ := link_eq_ok hlink
  exact (spot_eq_ok hspot).2.2

theorem exists_tagged {file directory link : Path}
    (h : context.tag file directory = .ok (link, after)) :
    ∃ above location name inode,
      context.Tagged file directory link after above location name inode := by
  obtain ⟨hjoined, hdirectory, hlink⟩ := tag_eq_ok h
  obtain ⟨component, hname, rfl⟩ := tagLink?_eq_some_iff.1 hjoined
  obtain ⟨place, hplace⟩ := isDirectory_iff.1 hdirectory
  obtain ⟨above, own, inode, location, name, hown, hspot, hadd⟩ := link_eq_ok hlink
  obtain ⟨rfl, rfl⟩ := spot_join_eq_ok hplace hspot
  -- The path of the file ends in the name of its entry, which is that of the new one.
  obtain ⟨_, hsame⟩ := lookupEntry_eq_file hown
  obtain rfl : name = own := Name.toComponent_inj (Option.some.inj (hname.symm.trans hsame))
  exact ⟨above, location, name, inode, hown, hplace, rfl, linkAdded_of_addNode hadd⟩

/-- A file was untagged: what its path names, and the directory of the tag without the
entry of this name. -/
structure Untagged (context : Context) (file directory link : Path) (after : Context)
    (above location : Location) (name : Name) (inode : Inode) : Prop where
  names : context.lookupEntry file = .ok (.file above name inode)
  leads : context.lookup directory = .ok (.directory (.live location))
  link_eq : link = directory.join name.path
  linked : context.lookupEntry link = .ok (.file location name inode)
  removed : after.LinkAdded context location name inode

theorem untag_eq_ok {file directory link : Path}
    (h : context.untag file directory = .ok (link, after)) :
    tagLink? file directory = some link ∧ context.isDirectory directory = true ∧
      context.identity file = context.identity link ∧ context.unlink link = .ok after := by
  unfold untag at h
  split at h
  · contradiction
  next joined hjoined =>
    split at h
    next hdirectory =>
      split at h
      · contradiction
      · contradiction
      next linked hlinked =>
        split at h
        · contradiction
        next own hown =>
          split at h
          · contradiction
          next hsame =>
            split at h
            · contradiction
            next changed hunlink =>
              cases h
              obtain rfl : own = linked := Decidable.not_not.1 hsame
              exact ⟨hjoined, hdirectory, hown.trans hlinked.symm, hunlink⟩
    next => contradiction

theorem exists_untagged {file directory link : Path}
    (h : context.untag file directory = .ok (link, after)) :
    ∃ above location name inode,
      context.Untagged file directory link after above location name inode := by
  obtain ⟨hjoined, hdirectory, hsame, hunlink⟩ := untag_eq_ok h
  obtain ⟨component, hname, rfl⟩ := tagLink?_eq_some_iff.1 hjoined
  obtain ⟨place, hplace⟩ := isDirectory_iff.1 hdirectory
  obtain ⟨location, name, inode, hentry, rfl⟩ := unlink_eq_ok hunlink
  obtain ⟨rfl, rfl⟩ := lookupEntry_join_eq_file hplace hentry
  -- The path of the file names one of its entries, and ends in the name of this entry.
  obtain ⟨above, other, hfile⟩ :=
    identity_eq_file_iff.1 (hsame.trans (identity_eq_file_iff.2 ⟨location, name, hentry⟩))
  obtain ⟨_, hother⟩ := lookupEntry_eq_file hfile
  obtain rfl : name = other := Name.toComponent_inj (Option.some.inj (hname.symm.trans hother))
  obtain ⟨hheld, _⟩ := lookupEntry_eq_file hentry
  exact ⟨above, location, name, inode, hfile, hplace, rfl, hentry, linkAdded_eraseLink hheld⟩

end Context

end LinkTags
