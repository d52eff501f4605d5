import LinkTags.Proofs.Tagging.Effect

/-!
# Tagging and untagging undo each other

A file that was just tagged can be untagged, and one that was just untagged can be tagged
again if it has another entry by which it is named. Either way the tree is again what it
was, and the link is spelled the same (`tag_untag_inverse`).

## Implementation notes

What makes tagging succeed is the same as what it comes to (`Tagged.tag_eq_ok`), and so it
is with untagging (`Untagged.untag_eq_ok`). So it is enough that the context after the one
is the context before the other. The paths have to name the same in both: a link that is
added hides nothing, and a link to a regular file that is removed was on no way.
-/

namespace LinkTags.Context

variable {context after : Context} {file directory link : Path} {above location : Location}
  {name : Name} {inode : Inode}

theorem tagLink?_of_names (hfile : context.lookupEntry file = .ok (.file above name inode)) :
    tagLink? file directory = some (directory.join name.path) := by
  obtain ⟨_, hname⟩ := lookupEntry_eq_file hfile
  exact tagLink?_eq_some_iff.2 ⟨name.toComponent, hname, rfl⟩

/-- A link is made where there is none, of whatever file is named. -/
theorem link_eq_ok_of_added (hfile : context.lookupEntry file = .ok (.file above name inode))
    (hleads : context.lookup directory = .ok (.directory (.live location)))
    (hshort : ¬(directory.join name.path).isTooLong = true)
    (hadded : context.LinkAdded after location name inode) :
    context.link file (directory.join name.path) = .ok after := by
  have hvacancy : context.vacancy (directory.join name.path) = .ok (location, name) := by
    rw [vacancy, spot_join_name hleads hshort]
    exact if_pos hadded.free
  have hdirectory : context.files.IsDirectory location := isDirectory_of_lookup hleads
  obtain ⟨made, hmade⟩ := exists_addNode (.file inode) hdirectory hadded.free
  obtain rfl : made = after := hadded.more_unique (linkAdded_of_addNode hmade)
  rw [link, hfile, hvacancy]
  exact hmade

/-- A file is tagged if the link is all that is added, and its path is not too long. -/
theorem Tagged.tag_eq_ok
    (h : context.Tagged file directory link after above location name inode)
    (hshort : ¬link.isTooLong = true) : context.tag file directory = .ok (link, after) := by
  obtain ⟨hfile, hleads, rfl, hadded⟩ := h
  have hdirectory : context.isDirectory directory = true := isDirectory_iff.2 ⟨_, hleads⟩
  rw [tag, tagLink?_of_names hfile]
  dsimp only
  rw [if_pos hdirectory, link_eq_ok_of_added hfile hleads hshort hadded]

/-- A file is untagged if the link, which is one to this file, is all that is removed. -/
theorem Untagged.untag_eq_ok
    (h : context.Untagged file directory link after above location name inode) :
    context.untag file directory = .ok (link, after) := by
  obtain ⟨hfile, hleads, rfl, hlinked, hremoved⟩ := h
  have hdirectory : context.isDirectory directory = true := isDirectory_iff.2 ⟨_, hleads⟩
  have hown : context.identity file = .ok (.file inode) := identity_eq_file_iff.2 ⟨_, _, hfile⟩
  have hlink : context.identity (directory.join name.path) = .ok (.file inode) :=
    identity_eq_file_iff.2 ⟨_, _, hlinked⟩
  obtain ⟨hnode, _⟩ := lookupEntry_eq_file hlinked
  have hunlink : context.unlink (directory.join name.path) = .ok after := by
    rw [unlink, hlinked]
    exact congrArg Except.ok (hremoved.less_unique (linkAdded_eraseLink hnode))
  rw [untag, tagLink?_of_names hfile]
  dsimp only
  rw [if_pos hdirectory, hlink, hown]
  dsimp only
  rw [if_neg (not_not_intro rfl), hunlink]

/-- What was tagged can be untagged. -/
theorem Tagged.untagged (h : context.Tagged file directory link after above location name inode)
    (hshort : ¬link.isTooLong = true) :
    after.Untagged file directory link context above location name inode := by
  have hwithin := h.added.within
  have hleads : after.lookup directory = .ok (.directory (.live location)) :=
    hwithin.walkFrom h.leads
  refine ⟨hwithin.walkFrom h.names, hleads, h.link_eq, ?_, h.added⟩
  rw [h.link_eq] at hshort ⊢
  rw [lookupEntry_join_file hleads h.added.node?_self, if_neg hshort]

/-- What was untagged by another of its links, and is no symbolic link, can be tagged. -/
theorem Untagged.tagged
    (h : context.Untagged file directory link after above location name inode)
    (hregular : inode.kind = .regular) (hother : name :: above ≠ name :: location) :
    after.Tagged file directory link context above location name inode := by
  have hback := h.removed.carries_back hregular
  obtain ⟨hnode, _⟩ := lookupEntry_eq_file h.names
  rw [h.removed.node?_of_ne hother] at hnode
  refine ⟨?_, ?_, h.link_eq, h.removed⟩
  · exact walkFrom_of_carries h.removed.cwd.symm hback hnode h.names
  · exact walkFrom_of_carries h.removed.cwd.symm hback trivial h.leads

/-- After a file is tagged, it can be untagged from the same directory, which removes the
same link and leaves the context as it was before. After a link to a regular file is
removed by untagging, and the path of the file named another entry, the file can be tagged
with the same directory, which makes the same link and leaves the context as it was. -/
theorem tag_untag_inverse (context : Context) (file directory : Path) :
    (∀ link after, context.tag file directory = .ok (link, after) →
      after.untag file directory = .ok (link, context)) ∧
    ∀ link after above other own location name inode,
      context.untag file directory = .ok (link, after) →
      context.lookupEntry file = .ok (.file above other own) →
      context.lookupEntry link = .ok (.file location name inode) →
      inode.kind = .regular → other :: above ≠ name :: location →
      after.tag file directory = .ok (link, context) := by
  constructor
  · intro link after htag
    have hshort := not_isTooLong_of_tag htag
    obtain ⟨above, location, name, inode, htagged⟩ := exists_tagged htag
    exact (htagged.untagged hshort).untag_eq_ok
  · intro link after above other own location name inode huntag hfile hlink hregular hother
    obtain ⟨above', location', name', inode', huntagged⟩ := exists_untagged huntag
    cases hfile.symm.trans huntagged.names
    cases hlink.symm.trans huntagged.linked
    obtain ⟨⟨_, _, hshort⟩, _⟩ := walkFrom_eq_ok_iff.1 hlink
    exact (huntagged.tagged hregular hother).tag_eq_ok hshort

/-- Two directories `A` and `B` in each of which `x` is a link to the same file, and a
symbolic link `L` to `B`. -/
def desk : Context where
  files := {
    root :=
      .directory nameA (.file nameX ⟨0, .regular⟩ .nil)
      (.directory nameB (.file nameX ⟨0, .regular⟩ .nil)
      (.file nameL ⟨1, .symlink ⟨[0x42]⟩⟩ .nil))
    sorted := by
      simp [Contents.Sorted, Contents.names]
      decide }
  cwd := .root
  housed := rfl

/-- The symbolic link itself is tagged, and untagged again. The file is untagged from the
directory that the symbolic link leads to, and tagged again. -/
theorem desk_tag_untag_inverse :
    (∃ after, desk.tag (.ofString "L") (.ofString "A") = .ok (.ofString "A/L", after) ∧
      after.untag (.ofString "L") (.ofString "A") = .ok (.ofString "A/L", desk)) ∧
    ∃ after, desk.untag (.ofString "A/x") (.ofString "L") = .ok (.ofString "L/x", after) ∧
      after.tag (.ofString "A/x") (.ofString "L") = .ok (.ofString "L/x", desk) := by
  constructor
  · obtain ⟨after, hafter⟩ : ∃ after,
        desk.tag (.ofString "L") (.ofString "A") = .ok (.ofString "A/L", after) := ⟨_, rfl⟩
    obtain ⟨hinverse, _⟩ := tag_untag_inverse desk (.ofString "L") (.ofString "A")
    exact ⟨after, hafter, hinverse _ after hafter⟩
  · obtain ⟨after, hafter⟩ : ∃ after,
        desk.untag (.ofString "A/x") (.ofString "L") = .ok (.ofString "L/x", after) := ⟨_, rfl⟩
    obtain ⟨_, hinverse⟩ := tag_untag_inverse desk (.ofString "A/x") (.ofString "L")
    exact ⟨after, hafter, hinverse _ after _ _ _ _ _ _ hafter rfl rfl rfl (by decide)⟩

end LinkTags.Context
