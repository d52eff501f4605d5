import LinkTags.Proofs.Tagging.Inverse

/-!
# Tags that are there, and tags that are gone

Tagging finds the tag there already exactly if the directory of the tag has an entry under
the name of the file (`tag_eq_alreadyTagged_iff`). With more in the tree, it finds it there
too (`Occupied.mono`), and what was just tagged is found so (`Tagged.occupied`).

What can be untagged can be untagged with more in the tree (`Untagged.mono`), and what was
just untagged cannot be untagged again with less (`Untagged.untag_ne_ok`).
-/

namespace LinkTags

variable {files : FileSystem}

/-! ## Lookups never find something in the way -/

theorem Component.nameAt_ne_alreadyExists (component : Component) (lost : Nat) :
    component.nameAt lost ≠ .error .alreadyExists := by
  unfold nameAt
  split
  · simp
  · split <;> simp

theorem Position.child_ne_alreadyExists (position : Position) (component : Component) :
    position.child files component ≠ .error .alreadyExists := by
  unfold child
  split
  next e hname =>
    rintro ⟨⟩
    exact component.nameAt_ne_alreadyExists position.lost hname
  · split <;> simp

/-- A walk is not refused because something is in the way. -/
theorem walk_ne_alreadyExists {followLast : Bool} (links : Nat) (position : Position)
    (steps : List Step) :
    walk files followLast links position steps ≠ .error .alreadyExists := by
  induction links, position, steps using walk_induction files with
  | nil links position =>
      rw [walk_nil]
      simp
  | stay links position rest ih =>
      rw [walk_stay]
      exact ih
  | up links position rest ih =>
      rw [walk_up]
      exact ih
  | down links position component rest ihEnter ihJump =>
      rw [walk_down]
      split
      next e hchild =>
        rintro ⟨⟩
        exact position.child_ne_alreadyExists component hchild
      next name inside hchild => exact ihEnter name inside hchild
      next name inode hchild =>
        split
        next target hkind =>
          split
          · simp
          · cases links with
            | zero => simp [jump]
            | succ links => exact ihJump links target rfl
        · split <;> simp

namespace Context

variable {context after less more : Context} {file directory link : Path} {found : Found}
  {above location : Location} {name : Name} {inode : Inode}

theorem walkFrom_ne_alreadyExists {followLast : Bool} (path : Path) (steps : List Step) :
    context.walkFrom followLast path steps ≠ .error .alreadyExists := by
  unfold walkFrom
  split
  · simp
  · split
    · simp
    · split
      · simp
      · exact walk_ne_alreadyExists linkLimit _ steps

/-- The spot of a path whose last step goes down is not refused because something is in the
way: at most it is taken. -/
theorem spot_ne_alreadyExists {path : Path} {component : Component}
    (hlast : path.steps.getLast? = some (.down component)) :
    context.spot path ≠ .error .alreadyExists := by
  have hparent : context.lookupParent path ≠ .error .alreadyExists := by
    unfold lookupParent
    split
    next e hwalk =>
      rintro ⟨⟩
      exact walkFrom_ne_alreadyExists path _ hwalk
    · simp
    · rw [hlast]
      simp
  unfold spot
  split
  next e herror =>
    rintro ⟨⟩
    exact hparent herror
  next place own _ =>
    split
    next e hname =>
      rintro ⟨⟩
      exact own.nameAt_ne_alreadyExists place.lost hname
    · simp

/-- Only an entry is in the way. -/
theorem vacancy_eq_alreadyExists {path : Path} {component : Component}
    (hlast : path.steps.getLast? = some (.down component))
    (h : context.vacancy path = .error .alreadyExists) :
    ∃ location name, context.spot path = .ok (location, name) ∧
      context.files.node? (name :: location) ≠ none := by
  unfold vacancy at h
  split at h
  next e hspot =>
    cases h
    exact absurd hspot (spot_ne_alreadyExists hlast)
  next location name hspot =>
    split at h
    · contradiction
    next htaken => exact ⟨location, name, hspot, htaken⟩

/-- Linking finds something in the way only where the new link would be. -/
theorem link_eq_alreadyExists {old new : Path}
    (h : context.link old new = .error .alreadyExists) :
    (∃ found, context.lookupEntry old = .ok found) ∧
      context.vacancy new = .error .alreadyExists := by
  unfold link at h
  split at h
  next e hold =>
    cases h
    exact absurd hold (walkFrom_ne_alreadyExists old _)
  next found hold =>
    split at h
    next e hvacancy =>
      cases h
      exact ⟨⟨found, hold⟩, hvacancy⟩
    next location name hvacancy =>
      cases found with
      | directory place => cases h
      | file above own inode =>
          obtain ⟨hspot, hfree⟩ := vacancy_eq_ok hvacancy
          obtain ⟨hdirectory, _⟩ := spot_eq_ok hspot
          obtain ⟨made, hmade⟩ := exists_addNode (.file inode) hdirectory hfree
          cases hmade.symm.trans h

/-! ## Tags that are there -/

/-- The path of a file leads somewhere, and the directory of the tag has an entry under the
name that the path ends in. -/
structure Occupied (context : Context) (file directory link : Path) (found : Found)
    (location : Location) (name : Name) : Prop where
  names : context.lookupEntry file = .ok found
  leads : context.lookup directory = .ok (.directory (.live location))
  fileName : file.fileName? = some name.toComponent
  link_eq : link = directory.join name.path
  short : ¬link.isTooLong = true
  taken : ∃ node, context.files.node? (name :: location) = some node

theorem tag_eq_alreadyTagged (h : context.tag file directory = .error (.alreadyTagged link)) :
    tagLink? file directory = some link ∧ context.isDirectory directory = true ∧
      context.link file link = .error .alreadyExists := by
  rcases tag_cases h with hnone | hnone | ⟨joined, hjoined, hdirectory, hlink⟩
  · cases hnone
  · cases hnone
  · rcases hlink with ⟨_, _, hresult⟩ | ⟨htaken, herror⟩ | ⟨_, _, herror⟩
    · cases hresult
    · cases herror
      exact ⟨hjoined, hdirectory, htaken⟩
    · cases herror

/-- A tag is there already if there is an entry where the link would be. -/
theorem tag_eq_alreadyTagged_iff :
    context.tag file directory = .error (.alreadyTagged link) ↔
      ∃ found location name, context.Occupied file directory link found location name := by
  constructor
  · intro h
    obtain ⟨hjoined, hdirectory, hlink⟩ := tag_eq_alreadyTagged h
    obtain ⟨component, hname, rfl⟩ := tagLink?_eq_some_iff.1 hjoined
    obtain ⟨place, hplace⟩ := isDirectory_iff.1 hdirectory
    obtain ⟨⟨found, hfound⟩, hvacancy⟩ := link_eq_alreadyExists hlink
    obtain ⟨location, name, hspot, htaken⟩ :=
      vacancy_eq_alreadyExists (Path.getLast?_steps_join directory component) hvacancy
    obtain ⟨rfl, rfl⟩ := spot_join_eq_ok hplace hspot
    obtain ⟨_, _, hshort⟩ := spot_eq_ok hspot
    exact ⟨found, location, name, hfound, hplace, hname, rfl, hshort,
      Option.ne_none_iff_exists'.1 htaken⟩
  · rintro ⟨found, location, name, hfound, hleads, hname, rfl, hshort, node, htaken⟩
    have hdirectory : context.isDirectory directory = true := isDirectory_iff.2 ⟨_, hleads⟩
    have hjoined : tagLink? file directory = some (directory.join name.path) :=
      tagLink?_eq_some_iff.2 ⟨name.toComponent, hname, rfl⟩
    have hvacancy : context.vacancy (directory.join name.path) = .error .alreadyExists := by
      rw [vacancy, spot_join_name hleads hshort]
      apply if_neg
      rw [htaken]
      exact Option.some_ne_none node
    have hlink : context.link file (directory.join name.path) = .error .alreadyExists := by
      rw [link, hfound, hvacancy]
    rw [tag, hjoined]
    dsimp only
    rw [if_pos hdirectory, hlink]

/-- Of all that can be in the way of tagging, only the tag that is there is a conflict. -/
theorem alreadyTagged_of_isConflict {e : TaggingError}
    (h : context.tag file directory = .error e) (hconflict : e.isConflict = true) :
    ∃ link, e = .alreadyTagged link := by
  rcases tag_cases h with hnone | hnone | ⟨link, _, _, hlink⟩
  · cases hnone
    contradiction
  · cases hnone
    contradiction
  · rcases hlink with ⟨_, _, hresult⟩ | ⟨_, herror⟩ | ⟨_, _, herror⟩
    · cases hresult
    · cases herror
      exact ⟨link, rfl⟩
    · cases herror
      contradiction

/-- A tag that is there is there with more in the tree. -/
theorem Occupied.mono (h : less.Occupied file directory link found location name)
    (hwithin : less.Within more) : more.Occupied file directory link found location name := by
  obtain ⟨node, hnode⟩ := h.taken
  exact ⟨hwithin.walkFrom h.names, hwithin.walkFrom h.leads, h.fileName, h.link_eq, h.short,
    node, hwithin.node? _ node hnode⟩

/-- After a file was tagged, the tag is there. -/
theorem Tagged.occupied (h : context.Tagged file directory link after above location name inode)
    (hshort : ¬link.isTooLong = true) :
    after.Occupied file directory link (.file above name inode) location name := by
  have hwithin := h.added.within
  obtain ⟨_, hname⟩ := lookupEntry_eq_file h.names
  exact ⟨hwithin.walkFrom h.names, hwithin.walkFrom h.leads, hname, h.link_eq, hshort,
    .file inode, h.added.node?_self⟩

/-! ## Tags that are gone -/

/-- A file that can be untagged can be untagged with more in the tree. -/
theorem Untagged.mono (h : less.Untagged file directory link after above location name inode)
    (hwithin : less.Within more) :
    more.Untagged file directory link (more.eraseLink (name :: location)) above location name
      inode := by
  have hlinked : more.lookupEntry link = .ok (.file location name inode) :=
    hwithin.walkFrom h.linked
  obtain ⟨hnode, _⟩ := lookupEntry_eq_file hlinked
  exact ⟨hwithin.walkFrom h.names, hwithin.walkFrom h.leads, h.link_eq, hlinked,
    linkAdded_eraseLink hnode⟩

/-- After a file was untagged, it cannot be untagged again. With less in the tree, its path
and the directory still name what they named, or nothing, and the link is gone. -/
theorem Untagged.untag_ne_ok
    (h : context.Untagged file directory link after above location name inode)
    (hwithin : less.Within after) (result : Path × Context) :
    less.untag file directory ≠ .ok result := by
  intro huntag
  obtain ⟨_, _, _, _, hagain⟩ := exists_untagged huntag
  have hbefore := hagain.mono (hwithin.trans h.removed.within)
  cases h.names.symm.trans hbefore.names
  cases h.leads.symm.trans hbefore.leads
  have hgone := h.removed.free
  rw [hwithin.node? _ _ hagain.removed.node?_self] at hgone
  contradiction

end Context

end LinkTags
