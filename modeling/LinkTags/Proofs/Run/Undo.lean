import LinkTags.Proofs.Run.Batch
import LinkTags.Proofs.Run.Call
import LinkTags.Proofs.Search.Meaning
import LinkTags.Proofs.Tagging.Commute

/-!
# Batches that are undone

A batch of tagging that made a link for every pair is undone by untagging the same pairs,
in the same order, if regular files were named (`call_untag_undoes`). For then the links lie
on no way, so each of them is the one that its pair makes in the tree from before the batch
(`Places.of_within`), and they can be removed in any order.
-/

namespace LinkTags

namespace Context

variable {less more context last : Context} {file directory path : Path}

/-- The path names a regular file. -/
def NamesRegular (context : Context) (file : Path) : Prop :=
  ∃ inode, inode.kind = .regular ∧ context.identity file = .ok (.file inode)

/-- A file that is named with less in the tree, where all ways are the same, gets the same
link there. -/
theorem Places.of_within {link : NewLink} (h : more.Places file directory path link)
    (hwithin : less.Within more) (hback : more.files.Carries less.files)
    (hfile : less.NamesRegular file) :
    less.Places file directory path link ∧ link.inode.kind = .regular := by
  obtain ⟨location, name, inode⟩ := link
  obtain ⟨own, hregular, hidentity⟩ := hfile
  obtain ⟨above, entry, hless⟩ := identity_eq_file_iff.1 hidentity
  obtain ⟨_, hmore⟩ := h.names
  cases hmore.symm.trans (hwithin.walkFrom hless)
  have hleads : less.lookup directory = .ok (.directory (.live location)) :=
    walkFrom_of_carries hwithin.cwd.symm hback trivial h.leads
  exact ⟨⟨⟨above, hless⟩, hleads, h.path_eq, h.short⟩, hregular⟩

/-- Where all ways are the same, the same library is found. -/
theorem findsLibrary_iff (hwithin : less.Within more) (hback : more.files.Carries less.files)
    {root : Option Path} {library : Library} :
    more.FindsLibrary root library ↔ less.FindsLibrary root library := by
  have hdirectory (path : Path) : more.isDirectory path = less.isDirectory path := by
    rw [Bool.eq_iff_iff, isDirectory_iff, isDirectory_iff]
    simp only [lookup_directory_iff hwithin.cwd hwithin.carries hback]
  have hlibrary : more.isLibrary = less.isLibrary := by
    funext directory
    exact hdirectory (directory.join marker)
  have hopen : Library.open? more = Library.open? less := by
    funext directory
    rw [Library.open?, Library.open?, hlibrary]
  have habsolute (path : Path) : more.absolute path = less.absolute path := by
    rw [absolute, absolute, hwithin.cwd]
  rw [FindsLibrary, FindsLibrary, Library.find, Library.find, findLibrary, findLibrary,
    habsolute, hlibrary, hopen]

end Context

/-- Something was changed. -/
def Attempt.Succeeds (attempt : Attempt) : Prop :=
  ∃ link, attempt.result = .ok link

/-- The attempt to tag makes the link, in a context that need not be the present one. -/
def Context.Makes (context : Context) (library : Library) (attempt : Attempt) (link : NewLink) :
    Prop :=
  ∃ path, attempt.result = .ok path ∧
    context.Places attempt.file (library.resolveAsPath attempt.name) path link

namespace Action

variable {library : Library} {start context last : Context} {pairs : List (Path × String)}
  {attempts : List Attempt} {links : List NewLink}

/-- A batch of tagging regular files that are named from the start makes the links that
each pair would make then. -/
theorem Batch.exists_linksAdded (h : Action.tag.Batch library context pairs attempts last)
    (hwithin : start.Within context) (hback : context.files.Carries start.files)
    (hregular : ∀ pair ∈ pairs, start.NamesRegular pair.1)
    (hall : ∀ attempt ∈ attempts, attempt.Succeeds) :
    ∃ links, List.Forall₂ (start.Makes library) attempts links ∧
      context.LinksAdded links last ∧ ∀ link ∈ links, link.inode.kind = .regular := by
  induction h with
  | done context => exact ⟨[], .nil, .nil context, List.forall_mem_nil _⟩
  | @changes context after last file path name rest attempts hattempt hrest ih =>
      rw [List.forall_mem_cons] at hregular hall
      obtain ⟨link, hplaces, hadded⟩ := Context.exists_places hattempt
      obtain ⟨hstart, hkind⟩ := hplaces.of_within hwithin hback hregular.1
      have hafter := (hadded.carries_back hkind).trans hback
      obtain ⟨links, hlinks, hlast, hkinds⟩ :=
        ih (hwithin.trans hadded.within) hafter hregular.2 hall.2
      exact ⟨link :: links, .cons ⟨path, rfl, hstart⟩ hlinks, .cons hadded hlast,
        List.forall_mem_cons.2 ⟨hkind, hkinds⟩⟩
  | fails hattempt _ _ =>
      rw [List.forall_mem_cons] at hall
      obtain ⟨⟨link, hlink⟩, _⟩ := hall
      contradiction

/-- Links that the pairs make from the start are removed by untagging the pairs in turn,
which leaves what was there at the start. -/
theorem attemptAll_untag (h : List.Forall₂ (start.Makes library) attempts links)
    (hadded : start.LinksAdded links context) :
    Action.untag.attemptAll library context (attempts.map Attempt.pair) = (attempts, start) := by
  induction h generalizing context with
  | nil =>
      cases hadded
      rfl
  | @cons attempt link attempts links hmakes _ ih =>
      obtain ⟨file, name, result⟩ := attempt
      obtain ⟨path, rfl, hplaces⟩ := hmakes
      -- The first link is taken away, as if it had been the last to be added.
      obtain ⟨less, hless, hlast⟩ := hadded.exists_without
      have huntag : Action.untag.attempt library context file name = .ok (path, less) :=
        (hplaces.mono hadded.within).untag_eq_ok hlast
      rw [List.map_cons, Attempt.pair, attemptAll, huntag]
      dsimp only
      rw [ih hless]

end Action

namespace Context

variable {context : Context} {library : Library} {root : Option Path} {files : List Path}
  {tags : List String} {tagging untagging : Call}

/-- A batch whose attempts all succeed ends well. -/
theorem exists_answer_runChange {action : Action}
    (hall : ∀ attempt ∈ (action.attemptAll library context (allPairs files tags)).1,
      attempt.Succeeds) (filter : Filter) :
    ∃ errors, (context.runChange library action files tags).answer filter =
      .finished 0 "" errors := by
  have hnone : (context.runChange library action files tags).failure = none := by
    rw [runChange_failure_eq_none_iff]
    intro attempt hattempt
    obtain ⟨link, hlink⟩ := hall attempt hattempt
    rw [Attempt.failed, hlink]
  refine ⟨(context.runChange library action files tags).errors filter, ?_⟩
  rw [Report.answer, Report.status, hnone]
  rfl

theorem exists_call_change {action : Action} {given : Call}
    (hasks : given.Asks root (.change action files tags))
    (hfinds : context.FindsLibrary root library)
    (hall : ∀ attempt ∈ (action.attemptAll library context (allPairs files tags)).1,
      attempt.Succeeds) :
    ∃ errors, context.call given = (.finished 0 "" errors,
      (action.attemptAll library context (allPairs files tags)).2) := by
  obtain ⟨verbosity, filter, hcall⟩ := exists_call hasks
  rw [run_change hfinds] at hcall
  obtain ⟨errors, hanswer⟩ := exists_answer_runChange hall filter
  exact ⟨errors, by rw [hcall, hanswer]; rfl⟩

/-- A call tags regular files, and a link is made for every pair of a file and a tag. Then a
call that untags the same files from the same tags finds the same library, removes the link
of every pair, ends well, and leaves the context as it was before the first call. -/
theorem call_untag_undoes (htagging : tagging.Asks root (.change .tag files tags))
    (huntagging : untagging.Asks root (.change .untag files tags))
    (hregular : ∀ file ∈ files, context.NamesRegular file)
    (hfinds : context.FindsLibrary root library)
    (hall : ∀ attempt ∈ (Action.tag.attemptAll library context (allPairs files tags)).1,
      attempt.Succeeds) :
    ∃ after errors, context.call tagging = (.finished 0 "" errors, after) ∧
      after.FindsLibrary root library ∧
      (Action.untag.attemptAll library after (allPairs files tags)).1 =
        (Action.tag.attemptAll library context (allPairs files tags)).1 ∧
      ∃ errors', after.call untagging = (.finished 0 "" errors', context) := by
  have hpairs : ∀ pair ∈ allPairs files tags, context.NamesRegular pair.1 := by
    simp only [allPairs, List.mem_flatMap, List.mem_map]
    rintro _ ⟨file, hfile, tag, _, rfl⟩
    exact hregular file hfile
  have hbatch := Action.tag.batch_attemptAll library context (allPairs files tags)
  obtain ⟨links, hlinks, hadded, hkinds⟩ :=
    hbatch.exists_linksAdded (.refl context) (fun _ _ _ hnode => hnode) hpairs hall
  have huntag := Action.attemptAll_untag hlinks hadded
  rw [hbatch.map_pair] at huntag
  have hfinds' := (findsLibrary_iff hadded.within (hadded.carries_back hkinds)).2 hfinds
  obtain ⟨errors, hcall⟩ := exists_call_change htagging hfinds hall
  obtain ⟨errors', hcall'⟩ := exists_call_change huntagging hfinds' (by rw [huntag]; exact hall)
  rw [huntag] at hcall'
  exact ⟨_, errors, hcall, hfinds', by rw [huntag], errors', hcall'⟩

/-- The files of a batch on the shelf. -/
def shelfFiles : List Path := [.ofString "A/c", .ofString "A/a"]

/-- The tags of the batch. -/
def shelfTags : List String := ["//B", "//"]

/-- A call for the batch, the root being what is above a directory in it. -/
def shelfCall (action : Action) : Call where
  words := [action.verb, "--root", "A/..", "-f", "A/c", "A/a", "--", "//B", "//"].map Path.ofString
  root := none
  filter := none

/-- Two files of `A` get links in `B` and in the root, and lose them again. -/
theorem shelf_call_untag_undoes :
    ∃ after errors, shelf.call (shelfCall .tag) = (.finished 0 "" errors, after) ∧
      (Action.untag.attemptAll ⟨.ofString "/"⟩ after (allPairs shelfFiles shelfTags)).1.map
          Attempt.result =
        [.ok (.ofString "/B/c"), .ok (.ofString "/c"), .ok (.ofString "/B/a"),
          .ok (.ofString "/a")] ∧
      ∃ errors', after.call (shelfCall .untag) = (.finished 0 "" errors', shelf) := by
  have hasks (action : Action) :
      (shelfCall action).Asks (some (.ofString "A/..")) (.change action shelfFiles shelfTags) := by
    refine ⟨0, ?_⟩
    cases action <;> rfl
  have hregular : ∀ file ∈ shelfFiles, shelf.NamesRegular file := by
    simp only [shelfFiles, List.forall_mem_cons]
    exact ⟨⟨_, rfl, rfl⟩, ⟨_, rfl, rfl⟩, List.forall_mem_nil _⟩
  have hfinds : shelf.FindsLibrary (some (.ofString "A/..")) ⟨.ofString "/"⟩ := by rfl
  have hresults : (Action.tag.attemptAll ⟨.ofString "/"⟩ shelf
      (allPairs shelfFiles shelfTags)).1.map Attempt.result =
        [.ok (.ofString "/B/c"), .ok (.ofString "/c"), .ok (.ofString "/B/a"),
          .ok (.ofString "/a")] := by decide +kernel
  have hall : ∀ attempt ∈ (Action.tag.attemptAll ⟨.ofString "/"⟩ shelf
      (allPairs shelfFiles shelfTags)).1, attempt.Succeeds := by
    intro attempt hattempt
    have hmem := List.mem_map_of_mem (f := Attempt.result) hattempt
    rw [hresults] at hmem
    simp only [List.mem_cons, List.not_mem_nil, or_false] at hmem
    rcases hmem with h | h | h | h <;> exact ⟨_, h⟩
  obtain ⟨after, errors, hcall, _, huntagged, errors', hcall'⟩ :=
    call_untag_undoes (hasks .tag) (hasks .untag) hregular hfinds hall
  exact ⟨after, errors, hcall, by rw [huntagged, hresults], errors', hcall'⟩

end Context

end LinkTags
