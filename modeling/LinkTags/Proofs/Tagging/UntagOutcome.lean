import LinkTags.Proofs.FileSystem.Links
import LinkTags.Proofs.Run.Operations
import LinkTags.Proofs.Tagging.Inverse

/-!
# What comes of untagging a file

Untagging has an outcome for everything that its paths can lead to, and the checks come in one
order (`UntagOutcome`): the name of the file, the directory of the tag, the link, the file,
whether they are the same, and last whether they are a directory. A link that is removed is
one of the file, which has one link less from then on (`LinkAdded.linkCount`).

That the file is named by another of its links does not by itself keep its path. The link that
is removed can be a symbolic link that this path is looked up through, and then the path names
nothing any more (`mirror_untag_loses_file`). No other path is lost (`untag_outcome`).
-/

namespace LinkTags.Context

variable {context after : Context} {file directory link : Path} {above location : Location}
  {name : Name} {inode : Inode}

/-! ## A link less -/

namespace LinkAdded

variable {less more : Context}

theorem linkCount (h : less.LinkAdded more location name inode) :
    more.files.linkCount inode = less.files.linkCount inode + 1 := by
  have hfree : name :: location ∉ less.files.linksTo inode := by
    rw [FileSystem.mem_linksTo, h.free]
    nofun
  have hperm : (more.files.linksTo inode).Perm
      ((name :: location) :: less.files.linksTo inode) := by
    rw [List.perm_ext_iff_of_nodup FileSystem.nodup_linksTo
      (List.nodup_cons.2 ⟨hfree, FileSystem.nodup_linksTo⟩)]
    intro other
    rw [List.mem_cons, FileSystem.mem_linksTo, FileSystem.mem_linksTo, h.node?]
    split <;> simp_all
  exact hperm.length_eq

theorem carriesBut (h : less.LinkAdded more location name inode) :
    more.files.CarriesBut less.files (· = name :: location) := by
  intro other node _ hother hnode
  rwa [← h.node?_of_ne hother]

/-- A walk passes a link only if it is a symbolic link. -/
theorem exists_target_of_looksThrough (h : less.LinkAdded more location name inode)
    {path : Path} (hpasses : more.LooksThrough path (· = name :: location)) :
    ∃ target, inode.kind = .symlink target := by
  by_contra hkind
  refine not_passes ?_ (FileSystem.isTrail_origin more.isTrail_here path) hpasses
  rintro other node hpassable hnode rfl
  cases h.node?_self.symm.trans hnode
  exact hkind hpassable

end LinkAdded

/-! ## Each outcome from its premises -/

/-- The link that untagging removes if it is one of the file: what has the name of the file
in a directory. -/
structure Candidate (context : Context) (file directory link : Path) : Prop where
  link_eq : ∃ component, file.fileName? = some component ∧ link = directory.join component.path
  leads : ∃ place, context.lookup directory = .ok (.directory place)

/-- What comes of untagging a file from a directory. -/
inductive UntagOutcome (context : Context) (file directory : Path) :
    Except TaggingError (Path × Context) → Prop where
  | noFileName (hname : file.fileName? = none) :
      UntagOutcome context file directory (.error (.noFileName file))
  | noTagDirectory {component : Component} (hname : file.fileName? = some component)
      (hnone : ∀ place, context.lookup directory ≠ .ok (.directory place)) :
      UntagOutcome context file directory (.error (.noTagDirectory directory))
  | notTagged {link : Path} (h : context.Candidate file directory link)
      (hlink : context.identity link = .error .notFound) :
      UntagOutcome context file directory (.error (.notTagged link))
  | unresolvedLink {link : Path} {e : FileError} (h : context.Candidate file directory link)
      (hlink : context.identity link = .error e) (he : e ≠ .notFound) :
      UntagOutcome context file directory (.error (.filesystem e))
  | unresolvedFile {link : Path} {linked : FileId} {e : FileError}
      (h : context.Candidate file directory link) (hlink : context.identity link = .ok linked)
      (hfile : context.identity file = .error e) :
      UntagOutcome context file directory (.error (.filesystem e))
  | differentFile {link : Path} {linked own : FileId}
      (h : context.Candidate file directory link) (hlink : context.identity link = .ok linked)
      (hfile : context.identity file = .ok own) (hother : own ≠ linked) :
      UntagOutcome context file directory (.error (.differentFile file link))
  | isDirectory {link : Path} {place : Place} (h : context.Candidate file directory link)
      (hlink : context.identity link = .ok (.directory place))
      (hfile : context.identity file = .ok (.directory place)) :
      UntagOutcome context file directory (.error (.filesystem .isADirectory))
  | untagged {link : Path} {after : Context} {above location : Location} {name : Name}
      {inode : Inode} (h : context.Untagged file directory link after above location name inode) :
      UntagOutcome context file directory (.ok (link, after))

theorem lookupEntry_eq_directory {path : Path} {place : Place}
    (h : context.identity path = .ok (.directory place)) :
    context.lookupEntry path = .ok (.directory place) := by
  unfold identity at h
  split at h
  next found hfound =>
    cases found with
    | directory other =>
        cases h
        exact hfound
    | file => cases h
  · cases h

namespace Candidate

variable (h : context.Candidate file directory link)

include h

/-- Past the checks of the paths, it is the link and the file that count. -/
theorem untag_eq : context.untag file directory =
    match context.identity link with
    | .error .notFound => .error (.notTagged link)
    | .error e => .error (.filesystem e)
    | .ok linked =>
        match context.identity file with
        | .error e => .error (.filesystem e)
        | .ok own =>
            if own ≠ linked then .error (.differentFile file link)
            else
              match context.unlink link with
              | .error e => .error (.filesystem e)
              | .ok after => .ok (link, after) := by
  rw [untag, tagLink?_eq_some_iff.2 h.link_eq]
  exact if_pos (isDirectory_iff.2 h.leads)

/-- A link to the file is removed. -/
theorem exists_untagged (hlink : context.identity link = .ok (.file inode))
    (hfile : context.identity file = .ok (.file inode)) :
    ∃ after above location name inode,
      context.Untagged file directory link after above location name inode := by
  obtain ⟨location, name, hentry⟩ := identity_eq_file_iff.1 hlink
  have hunlink : context.unlink link = .ok (context.eraseLink (name :: location)) := by
    rw [unlink, hentry]
  have huntag : context.untag file directory =
      .ok (link, context.eraseLink (name :: location)) := by
    rw [h.untag_eq, hlink, hfile]
    dsimp only
    rw [if_neg (not_not_intro rfl), hunlink]
  exact ⟨_, Context.exists_untagged huntag⟩

end Candidate

/-- An outcome whose premises are met is that of untagging. -/
theorem UntagOutcome.untag_eq {result : Except TaggingError (Path × Context)}
    (h : context.UntagOutcome file directory result) : context.untag file directory = result := by
  cases h with
  | noFileName hname =>
      rw [untag, tagLink?, hname]
      rfl
  | @noTagDirectory component hname hnone =>
      rw [untag, tagLink?_eq_some_iff.2 ⟨component, hname, rfl⟩]
      exact if_neg (not_isDirectory hnone)
  | notTagged h hlink => rw [h.untag_eq, hlink]
  | unresolvedLink h hlink he =>
      rw [h.untag_eq, hlink]
      split
      next hnot =>
        cases hnot
        contradiction
      next herror =>
        cases herror
        rfl
      next hok => cases hok
  | unresolvedFile h hlink hfile => rw [h.untag_eq, hlink, hfile]
  | differentFile h hlink hfile hother =>
      rw [h.untag_eq, hlink, hfile]
      exact if_pos hother
  | @isDirectory link place h hlink hfile =>
      have hunlink : context.unlink link = .error .isADirectory := by
        rw [unlink, lookupEntry_eq_directory hlink]
      rw [h.untag_eq, hlink, hfile]
      dsimp only
      rw [if_neg (not_not_intro rfl), hunlink]
  | untagged h => exact h.untag_eq_ok

/-- Some outcome has its premises met. -/
theorem exists_untagOutcome (context : Context) (file directory : Path) :
    ∃ result, context.UntagOutcome file directory result := by
  cases hname : file.fileName? with
  | none => exact ⟨_, .noFileName hname⟩
  | some component =>
      by_cases hleads : ∃ place, context.lookup directory = .ok (.directory place)
      · have h : context.Candidate file directory (directory.join component.path) :=
          ⟨⟨component, hname, rfl⟩, hleads⟩
        cases hlink : context.identity (directory.join component.path) with
        | error e =>
            by_cases he : e = .notFound
            · subst he
              exact ⟨_, .notTagged h hlink⟩
            · exact ⟨_, .unresolvedLink h hlink he⟩
        | ok linked =>
            cases hfile : context.identity file with
            | error e => exact ⟨_, .unresolvedFile h hlink hfile⟩
            | ok own =>
                by_cases hother : own = linked
                · subst hother
                  cases own with
                  | directory place => exact ⟨_, .isDirectory h hlink hfile⟩
                  | file inode =>
                      obtain ⟨after, above, location, name, inode, huntagged⟩ :=
                        h.exists_untagged hlink hfile
                      exact ⟨_, .untagged huntagged⟩
                · exact ⟨_, .differentFile h hlink hfile hother⟩
      · exact ⟨_, .noTagDirectory hname fun place hplace => hleads ⟨place, hplace⟩⟩

/-! ## What becomes of the path of the file -/

namespace Untagged

variable (h : context.Untagged file directory link after above location name inode)

include h

theorem identity_link : context.identity link = .ok (.file inode) :=
  identity_eq_file_iff.2 ⟨_, _, h.linked⟩

theorem identity_file : context.identity file = .ok (.file inode) :=
  identity_eq_file_iff.2 ⟨_, _, h.names⟩

/-- A path that names another link keeps to it, if it is not looked up through the one
removed. -/
theorem identity_after (hother : above ≠ location)
    (hpasses : ¬context.LooksThrough file (· = name :: location)) :
    after.identity file = .ok (.file inode) := by
  obtain ⟨hnode, _⟩ := lookupEntry_eq_file h.names
  have hne : name :: above ≠ name :: location := by simpa using hother
  rw [h.removed.node?_of_ne hne] at hnode
  exact identity_eq_file_iff.2 ⟨above, name,
    lookupEntry_of_carriesBut h.removed.cwd.symm h.removed.carriesBut hnode hpasses h.names⟩

theorem identity_lost (hpasses : context.LooksThrough file (· = name :: location)) :
    after.identity file = .error .notFound := by
  have hgone : ∀ other, other = name :: location → after.files.node? other = none := by
    rintro other rfl
    exact h.removed.free
  rw [identity, lookupEntry_of_looksThrough h.removed.cwd.symm h.removed.carriesBut hgone hpasses
    h.names]

end Untagged

/-! ## Untagging, exactly -/

/-- The outcome of untagging is the one whose premises are met. A failure leaves the context
as it was. Otherwise one link is removed, which is one of the file, and the file has one link
less. If the path of the file named another, it still names the file, but for one that is
looked up through the link removed, which is then a symbolic link. -/
theorem untag_outcome (context : Context) (file directory : Path) :
    (∀ result, context.untag file directory = result ↔
      context.UntagOutcome file directory result) ∧
    (∀ e, context.untag file directory = .error e →
      (Operation.untag file directory).perform context = (.changed (.error e), context)) ∧
    ∀ link after, context.untag file directory = .ok (link, after) →
      (Operation.untag file directory).perform context = (.changed (.ok link), after) ∧
      ∃ above location name inode,
        context.Untagged file directory link after above location name inode ∧
        context.identity link = .ok (.file inode) ∧
        context.identity file = .ok (.file inode) ∧
        context.files.linkCount inode = after.files.linkCount inode + 1 ∧
        (above ≠ location → ¬context.LooksThrough file (· = name :: location) →
          after.identity file = .ok (.file inode)) ∧
        (context.LooksThrough file (· = name :: location) →
          (∃ target, inode.kind = .symlink target) ∧
          after.identity file = .error .notFound) := by
  refine ⟨?_, ?_, ?_⟩
  · intro result
    constructor
    · rintro rfl
      obtain ⟨result, hresult⟩ := exists_untagOutcome context file directory
      rwa [hresult.untag_eq]
    · exact UntagOutcome.untag_eq
  · intro e he
    rw [Operation.perform, he]
    rfl
  · intro link after huntag
    obtain ⟨above, location, name, inode, h⟩ := exists_untagged huntag
    constructor
    · rw [Operation.perform, huntag]
      rfl
    · refine ⟨above, location, name, inode, h, h.identity_link, h.identity_file,
        h.removed.linkCount, h.identity_after, ?_⟩
      intro hpasses
      exact ⟨h.removed.exists_target_of_looksThrough hpasses, h.identity_lost hpasses⟩

/-- The file is untagged from the directory that the symbolic link leads to. Of its two links
one is left, by which it is still named. -/
theorem desk_untag_outcome :
    ∃ after, desk.untag (.ofString "A/x") (.ofString "L") = .ok (.ofString "L/x", after) ∧
      desk.UntagOutcome (.ofString "A/x") (.ofString "L") (.ok (.ofString "L/x", after)) ∧
      after.files.linkCount ⟨0, .regular⟩ = 1 ∧
      after.identity (.ofString "A/x") = .ok (.file ⟨0, .regular⟩) := by
  obtain ⟨after, hafter⟩ : ∃ after, desk.untag (.ofString "A/x") (.ofString "L") =
      .ok (.ofString "L/x", after) := ⟨_, rfl⟩
  have hfile : desk.lookupEntry (.ofString "A/x") =
      .ok (.file [nameA] nameX ⟨0, .regular⟩) := by rfl
  have hlink : desk.lookupEntry (.ofString "L/x") =
      .ok (.file [nameB] nameX ⟨0, .regular⟩) := by rfl
  obtain ⟨houtcome, _, hsuccess⟩ := untag_outcome desk (.ofString "A/x") (.ofString "L")
  obtain ⟨_, _, _, _, _, h, _, _, hcount, hkept, hlost⟩ := hsuccess _ after hafter
  cases hfile.symm.trans h.names
  cases hlink.symm.trans h.linked
  refine ⟨after, hafter, (houtcome _).1 hafter, ?_, ?_⟩
  · have htwo : desk.files.linkCount ⟨0, .regular⟩ = 2 := by decide
    omega
  · apply hkept (by decide)
    intro hpasses
    obtain ⟨⟨_, htarget⟩, _⟩ := hlost hpasses
    contradiction

/-- Two directories `A` and `B` in each of which `s` is the same symbolic link, to the
directory that it is in. -/
def mirror : Context where
  files := {
    root :=
      .directory nameA (.file nameS ⟨0, .symlink ⟨[0x2e]⟩⟩ .nil)
      (.directory nameB (.file nameS ⟨0, .symlink ⟨[0x2e]⟩⟩ .nil) .nil)
    sorted := by
      simp [Contents.Sorted, Contents.names]
      decide }
  cwd := .root
  housed := rfl

/-- The path names the link in `B`, and by way of the one in `A`. After the link in `A` is
removed, it names nothing, although the link that it named is still there. -/
theorem mirror_untag_loses_file :
    ∃ after, mirror.untag (.ofString "/A/s/../B/s") (.ofString "/A") =
        .ok (.ofString "/A/s", after) ∧
      mirror.lookupEntry (.ofString "/A/s") =
        .ok (.file [nameA] nameS ⟨0, .symlink ⟨[0x2e]⟩⟩) ∧
      mirror.lookupEntry (.ofString "/A/s/../B/s") =
        .ok (.file [nameB] nameS ⟨0, .symlink ⟨[0x2e]⟩⟩) ∧
      after.files.node? [nameS, nameB] = some (.file ⟨0, .symlink ⟨[0x2e]⟩⟩) ∧
      after.identity (.ofString "/A/s/../B/s") = .error .notFound :=
  ⟨_, rfl, rfl, rfl, rfl, rfl⟩

end LinkTags.Context
