import LinkTags.Proofs.Run.Operations
import LinkTags.Proofs.Tagging.Conflict
import LinkTags.Proofs.Search.Meaning

/-!
# What comes of tagging a file

Tagging has an outcome for everything that its paths can lead to, and the checks come in one
order (`TagOutcome`): the name of the file, the directory of the tag, the file, the path of
the link, an entry that is in its way, and last whether the file is a directory. That this is
what tagging does is said in both directions (`tag_outcome`).

## Implementation notes

Each outcome is computed from its premises (`TagOutcome.tag_eq`), and some outcome has its
premises met whatever the paths are (`exists_tagOutcome`). So the outcome is the one that
tagging comes to, and no two of them have to be compared.
-/

namespace LinkTags.Context

variable {context after : Context} {file directory link : Path} {location above : Location}
  {name : Name} {inode : Inode}

/-- Where a file is linked when it is tagged: under its own name, in a directory of the
tree. -/
structure Destination (context : Context) (file directory link : Path) (location : Location)
    (name : Name) : Prop where
  fileName : file.fileName? = some name.toComponent
  leads : context.lookup directory = .ok (.directory (.live location))
  link_eq : link = directory.join name.path

/-- What comes of tagging a file with a directory that, if it is there, is in the tree. -/
inductive TagOutcome (context : Context) (file directory : Path) :
    Except TaggingError (Path × Context) → Prop where
  | noFileName (hname : file.fileName? = none) :
      TagOutcome context file directory (.error (.noFileName file))
  | noTagDirectory {component : Component} (hname : file.fileName? = some component)
      (hnone : ∀ place, context.lookup directory ≠ .ok (.directory place)) :
      TagOutcome context file directory (.error (.noTagDirectory directory))
  | unresolved {component : Component} {location : Location} {e : FileError}
      (hname : file.fileName? = some component)
      (hleads : context.lookup directory = .ok (.directory (.live location)))
      (hfile : context.lookupEntry file = .error e) :
      TagOutcome context file directory (.error (.filesystem e))
  | tooLong {link : Path} {location : Location} {name : Name} {found : Found}
      (h : context.Destination file directory link location name)
      (hfile : context.lookupEntry file = .ok found) (hlong : link.isTooLong = true) :
      TagOutcome context file directory (.error (.filesystem .nameTooLong))
  | alreadyTagged {link : Path} {location : Location} {name : Name} {found : Found} {node : Node}
      (h : context.Destination file directory link location name)
      (hfile : context.lookupEntry file = .ok found) (hshort : ¬link.isTooLong = true)
      (htaken : context.files.node? (name :: location) = some node) :
      TagOutcome context file directory (.error (.alreadyTagged link))
  | isDirectory {link : Path} {location : Location} {name : Name} {place : Place}
      (h : context.Destination file directory link location name)
      (hfile : context.lookupEntry file = .ok (.directory place))
      (hshort : ¬link.isTooLong = true)
      (hfree : context.files.node? (name :: location) = none) :
      TagOutcome context file directory (.error (.filesystem .notPermitted))
  | tagged {link : Path} {after : Context} {above location : Location} {name : Name}
      {inode : Inode} (h : context.Destination file directory link location name)
      (hfile : context.lookupEntry file = .ok (.file above name inode))
      (hshort : ¬link.isTooLong = true)
      (hadded : context.LinkAdded after location name inode) :
      TagOutcome context file directory (.ok (link, after))

/-! ## Each outcome from its premises -/

theorem tag_of_link_error {e : FileError} (hjoined : tagLink? file directory = some link)
    (hdirectory : context.isDirectory directory = true)
    (hlink : context.link file link = .error e) (he : e ≠ .alreadyExists) :
    context.tag file directory = .error (.filesystem e) := by
  rw [tag, hjoined]
  dsimp only
  rw [if_pos hdirectory, hlink]
  split
  next hok => cases hok
  next htaken =>
    cases htaken
    contradiction
  next herror =>
    cases herror
    rfl

namespace Destination

variable (h : context.Destination file directory link location name)

include h

theorem tagLink?_eq : tagLink? file directory = some link :=
  tagLink?_eq_some_iff.2 ⟨name.toComponent, h.fileName, h.link_eq⟩

theorem isDirectory_eq : context.isDirectory directory = true :=
  isDirectory_iff.2 ⟨_, h.leads⟩

theorem vacancy_of_long (hlong : link.isTooLong = true) :
    context.vacancy link = .error .nameTooLong := by
  rw [h.link_eq] at hlong ⊢
  rw [vacancy, spot_join h.leads, if_neg name.nonzero, if_pos hlong]

theorem vacancy_of_free (hshort : ¬link.isTooLong = true)
    (hfree : context.files.node? (name :: location) = none) :
    context.vacancy link = .ok (location, name) := by
  rw [h.link_eq] at hshort ⊢
  rw [vacancy, spot_join_name h.leads hshort]
  exact if_pos hfree

end Destination

/-- An outcome whose premises are met is that of tagging. -/
theorem TagOutcome.tag_eq {result : Except TaggingError (Path × Context)}
    (h : context.TagOutcome file directory result) : context.tag file directory = result := by
  cases h with
  | noFileName hname =>
      rw [tag, tagLink?, hname]
      rfl
  | @noTagDirectory component hname hnone =>
      have hjoined : tagLink? file directory = some (directory.join component.path) :=
        tagLink?_eq_some_iff.2 ⟨component, hname, rfl⟩
      rw [tag, hjoined]
      exact if_neg (not_isDirectory hnone)
  | @unresolved component location e hname hleads hfile =>
      have hjoined : tagLink? file directory = some (directory.join component.path) :=
        tagLink?_eq_some_iff.2 ⟨component, hname, rfl⟩
      have hlink : context.link file (directory.join component.path) = .error e := by
        rw [link, hfile]
      apply tag_of_link_error hjoined (isDirectory_iff.2 ⟨_, hleads⟩) hlink
      rintro rfl
      exact walkFrom_ne_alreadyExists file _ hfile
  | @tooLong link location name found h hfile hlong =>
      have hlink : context.link file link = .error .nameTooLong := by
        rw [Context.link, hfile, h.vacancy_of_long hlong]
      exact tag_of_link_error h.tagLink?_eq h.isDirectory_eq hlink (by decide)
  | alreadyTagged h hfile hshort htaken =>
      exact tag_eq_alreadyTagged_iff.2
        ⟨_, _, _, hfile, h.leads, h.fileName, h.link_eq, hshort, _, htaken⟩
  | @isDirectory link location name place h hfile hshort hfree =>
      have hlink : context.link file link = .error .notPermitted := by
        rw [Context.link, hfile, h.vacancy_of_free hshort hfree]
      exact tag_of_link_error h.tagLink?_eq h.isDirectory_eq hlink (by decide)
  | tagged h hfile hshort hadded =>
      have htagged : context.Tagged file directory _ _ _ _ _ _ :=
        ⟨hfile, h.leads, h.link_eq, hadded⟩
      exact htagged.tag_eq_ok hshort

/-! ## There is an outcome -/

/-- Some outcome has its premises met. -/
theorem exists_tagOutcome
    (hthere : ∀ place, context.lookup directory = .ok (.directory place) → place.lost = 0) :
    ∃ result, context.TagOutcome file directory result := by
  cases hname : file.fileName? with
  | none => exact ⟨_, .noFileName hname⟩
  | some component =>
      by_cases hleads : ∃ place, context.lookup directory = .ok (.directory place)
      · obtain ⟨⟨location, lost⟩, hleads⟩ := hleads
        obtain rfl : lost = 0 := hthere _ hleads
        cases hfile : context.lookupEntry file with
        | error e => exact ⟨_, .unresolved hname hleads hfile⟩
        | ok found =>
            obtain ⟨name, rfl⟩ := exists_name_of_lookupEntry hfile hname
            have h : context.Destination file directory (directory.join name.path) location name :=
              ⟨hname, hleads, rfl⟩
            by_cases hlong : (directory.join name.path).isTooLong = true
            · exact ⟨_, .tooLong h hfile hlong⟩
            cases hnode : context.files.node? (name :: location) with
            | some node => exact ⟨_, .alreadyTagged h hfile hlong hnode⟩
            | none =>
                cases found with
                | directory place => exact ⟨_, .isDirectory h hfile hlong hnode⟩
                | file above own inode =>
                    obtain ⟨_, hown⟩ := lookupEntry_eq_file hfile
                    obtain rfl : name = own :=
                      Name.toComponent_inj (Option.some.inj (hname.symm.trans hown))
                    have hdirectory := isDirectory_of_lookup hleads
                    obtain ⟨after, hmade⟩ := exists_addNode (.file inode) hdirectory hnode
                    exact ⟨_, .tagged h hfile hlong (linkAdded_of_addNode hmade)⟩
      · exact ⟨_, .noTagDirectory hname fun place hplace => hleads ⟨place, hplace⟩⟩

/-! ## Tagging, exactly -/

/-- The outcome of tagging is the one whose premises are met, if the directory of the tag, once
it is there, is in the tree. A failure leaves the context as it was. Otherwise one link is
added, and it names the file, as does the path that named the file before. -/
theorem tag_outcome (context : Context) (file directory : Path)
    (hthere : ∀ place, context.lookup directory = .ok (.directory place) → place.lost = 0) :
    (∀ result, context.tag file directory = result ↔
      context.TagOutcome file directory result) ∧
    (∀ e, context.tag file directory = .error e →
      (Operation.tag file directory).perform context = (.changed (.error e), context)) ∧
    ∀ link after, context.tag file directory = .ok (link, after) →
      (Operation.tag file directory).perform context = (.changed (.ok link), after) ∧
      ∃ location name inode,
        context.Destination file directory link location name ∧
        context.identity file = .ok (.file inode) ∧
        context.LinkAdded after location name inode ∧
        after.identity link = context.identity file ∧
        after.identity file = context.identity file := by
  refine ⟨?_, ?_, ?_⟩
  · intro result
    constructor
    · rintro rfl
      obtain ⟨result, hresult⟩ := exists_tagOutcome hthere
      rwa [hresult.tag_eq]
    · exact TagOutcome.tag_eq
  · intro e he
    rw [Operation.perform, he]
    rfl
  · intro link after htag
    obtain ⟨above, location, name, inode, htagged⟩ := exists_tagged htag
    have hafter := htagged.untagged (not_isTooLong_of_tag htag)
    obtain ⟨_, hname⟩ := lookupEntry_eq_file htagged.names
    have hbefore : context.identity file = .ok (.file inode) :=
      identity_eq_file_iff.2 ⟨_, _, htagged.names⟩
    constructor
    · rw [Operation.perform, htag]
      rfl
    · refine ⟨location, name, inode, ⟨hname, htagged.leads, htagged.link_eq⟩, hbefore,
        htagged.added, ?_, ?_⟩
      · rw [hbefore]
        exact identity_eq_file_iff.2 ⟨_, _, hafter.linked⟩
      · rw [hbefore]
        exact identity_eq_file_iff.2 ⟨_, _, hafter.names⟩

/-- The symbolic link itself is tagged, not what it leads to. It is linked into the directory
that the path of the tag leads to. -/
theorem desk_tag_outcome :
    (∀ place, desk.lookup (.ofString "A/.") = .ok (.directory place) → place.lost = 0) ∧
    ∃ after, desk.tag (.ofString "./L") (.ofString "A/.") = .ok (.ofString "A/./L", after) ∧
      desk.TagOutcome (.ofString "./L") (.ofString "A/.") (.ok (.ofString "A/./L", after)) ∧
      after.identity (.ofString "A/./L") = .ok (.file ⟨1, .symlink ⟨[0x42]⟩⟩) := by
  have hthere : ∀ place, desk.lookup (.ofString "A/.") = .ok (.directory place) →
      place.lost = 0 := by
    intro place hplace
    have hlookup : desk.lookup (.ofString "A/.") = .ok (.directory (.live [nameA])) := by rfl
    cases hlookup.symm.trans hplace
    rfl
  obtain ⟨after, hafter⟩ : ∃ after, desk.tag (.ofString "./L") (.ofString "A/.") =
      .ok (.ofString "A/./L", after) := ⟨_, rfl⟩
  have hfile : desk.identity (.ofString "./L") = .ok (.file ⟨1, .symlink ⟨[0x42]⟩⟩) := by rfl
  obtain ⟨houtcome, _, hsuccess⟩ := tag_outcome desk (.ofString "./L") (.ofString "A/.") hthere
  obtain ⟨_, _, _, _, _, _, _, hlink, _⟩ := hsuccess _ after hafter
  exact ⟨hthere, after, hafter, (houtcome _).1 hafter, hlink.trans hfile⟩

/-- A file is not tagged, and its tag not found, if there is no room for its name in the path
of the link, although the file and the directory are there. -/
theorem tag_refuses_link_too_long :
    tray.lookupEntry (.ofString "/0123456789") = .ok (.file [] digits ⟨0, .regular⟩) ∧
    tray.Destination (.ofString "/0123456789") fullRoot (fullRoot.join digits.path) [] digits ∧
    tray.files.node? [digits] = some (.file ⟨0, .regular⟩) ∧
    tray.tag (.ofString "/0123456789") fullRoot = .error (.filesystem .nameTooLong) := by
  have hfile : tray.lookupEntry (.ofString "/0123456789") =
      .ok (.file [] digits ⟨0, .regular⟩) := by rfl
  have h : tray.Destination (.ofString "/0123456789") fullRoot (fullRoot.join digits.path) []
      digits := ⟨(lookupEntry_eq_file hfile).2, lookup_fullRoot, rfl⟩
  exact ⟨hfile, h, by decide, (TagOutcome.tooLong h hfile isTooLong_fullRoot_join).tag_eq⟩

end LinkTags.Context
