import LinkTags.Command.Run
import LinkTags.Proofs.Tagging.Conflict
import Mathlib.Data.List.Forall2

/-!
# Batches that are run again

In a batch, a link made for one pair may be the file of a later one or lie on the way to
its directory, and a link removed for one pair may have been the file of a later one. But
all that tagging does is add to the tree, and all that untagging does is take away from it.
So a tag that is there for one pair is there when the batch is done, and what could be
untagged in the end could have been when its turn came. Hence a batch that is run a second
time changes nothing (`runChange_idempotent`).
-/

namespace LinkTags

/-- The pair that was attempted. -/
def Attempt.pair (attempt : Attempt) : Path × String :=
  (attempt.file, attempt.name)

/-- A batch on pairs of files and tags, from a context to the one that it leaves, with what
came of the attempts. -/
inductive Action.Batch (action : Action) (library : Library) :
    Context → List (Path × String) → List Attempt → Context → Prop where
  | done (context : Context) : Batch action library context [] [] context
  | changes {context after last : Context} {file link : Path} {name : String}
      {rest : List (Path × String)} {attempts : List Attempt}
      (hattempt : action.attempt library context file name = .ok (link, after))
      (hrest : Batch action library after rest attempts last) :
      Batch action library context ((file, name) :: rest)
        (⟨file, name, .ok link⟩ :: attempts) last
  | fails {context last : Context} {file : Path} {name : String} {e : TaggingError}
      {rest : List (Path × String)} {attempts : List Attempt}
      (hattempt : action.attempt library context file name = .error e)
      (hrest : Batch action library context rest attempts last) :
      Batch action library context ((file, name) :: rest)
        (⟨file, name, .error e⟩ :: attempts) last

theorem Action.batch_attemptAll (action : Action) (library : Library) (context : Context)
    (pairs : List (Path × String)) :
    action.Batch library context pairs (action.attemptAll library context pairs).1
      (action.attemptAll library context pairs).2 := by
  induction pairs generalizing context with
  | nil => exact .done context
  | cons pair rest ih =>
      obtain ⟨file, name⟩ := pair
      rw [attemptAll]
      cases hattempt : action.attempt library context file name with
      | ok result => exact .changes hattempt (ih result.2)
      | error e => exact .fails hattempt (ih context)

namespace Action.Batch

variable {action : Action} {library : Library} {context last : Context}
  {pairs : List (Path × String)} {attempts before rest : List Attempt} {attempt : Attempt}

theorem map_pair (h : action.Batch library context pairs attempts last) :
    attempts.map Attempt.pair = pairs := by
  induction h with
  | done context => rfl
  | changes _ _ ih => rw [List.map_cons, ih, Attempt.pair]
  | fails _ _ ih => rw [List.map_cons, ih, Attempt.pair]

/-- A batch is one on its first pairs, and then one on the others from what that has left. -/
theorem exists_between (h : action.Batch library context pairs (before ++ rest) last) :
    ∃ now, action.Batch library context (before.map Attempt.pair) before now ∧
      action.Batch library now (rest.map Attempt.pair) rest last := by
  induction before generalizing context pairs with
  | nil =>
      rw [List.nil_append] at h
      exact ⟨context, .done context, h.map_pair.symm ▸ h⟩
  | cons attempt before ih =>
      cases h with
      | changes hattempt hrest =>
          obtain ⟨now, hbefore, hafter⟩ := ih hrest
          exact ⟨now, .changes hattempt hbefore, hafter⟩
      | fails hattempt hrest =>
          obtain ⟨now, hbefore, hafter⟩ := ih hrest
          exact ⟨now, .fails hattempt hbefore, hafter⟩

/-- The library is asked to tag or to untag the first file. -/
theorem result_eq (h : action.Batch library context pairs (attempt :: rest) last) :
    attempt.result =
      (match action with
        | .tag => library.tag context attempt.file attempt.name
        | .untag => library.untag context attempt.file attempt.name).map Prod.fst := by
  cases h with
  | changes hattempt _ => cases action <;> exact (congrArg (Except.map Prod.fst) hattempt).symm
  | fails hattempt _ => cases action <;> exact (congrArg (Except.map Prod.fst) hattempt).symm

/-- The library is asked to tag or to untag every file, each time in the context that the
attempts before have left. -/
theorem exists_asked (h : action.Batch library context pairs (before ++ attempt :: rest) last) :
    ∃ now, action.Batch library context (before.map Attempt.pair) before now ∧
      attempt.result =
        (match action with
          | .tag => library.tag now attempt.file attempt.name
          | .untag => library.untag now attempt.file attempt.name).map Prod.fst := by
  obtain ⟨now, hbefore, hafter⟩ := h.exists_between
  exact ⟨now, hbefore, hafter.result_eq⟩

/-- Tagging adds to the tree. -/
theorem within_of_tag (h : Action.tag.Batch library context pairs attempts last) :
    context.Within last := by
  induction h with
  | done context => exact .refl context
  | changes hattempt _ ih =>
      obtain ⟨_, _, _, _, htagged⟩ := Context.exists_tagged hattempt
      exact htagged.added.within.trans ih
  | fails _ _ ih => exact ih

/-- Untagging takes away from the tree. -/
theorem within_of_untag (h : Action.untag.Batch library context pairs attempts last) :
    last.Within context := by
  induction h with
  | done context => exact .refl context
  | changes hattempt _ ih =>
      obtain ⟨_, _, _, _, huntagged⟩ := Context.exists_untagged hattempt
      exact ih.trans huntagged.removed.within
  | fails _ _ ih => exact ih

/-- When a batch of tagging is done without a failure, all its tags are there. -/
theorem alreadyTagged (h : Action.tag.Batch library context pairs attempts last)
    (hnone : ∀ attempt ∈ attempts, attempt.failed = false) :
    ∀ pair ∈ pairs, ∃ link, library.tag last pair.1 pair.2 = .error (.alreadyTagged link) := by
  induction h with
  | done context => exact List.forall_mem_nil _
  | changes hattempt hrest ih =>
      rw [List.forall_mem_cons] at hnone ⊢
      refine ⟨?_, ih hnone.2⟩
      obtain ⟨_, _, _, _, htagged⟩ := Context.exists_tagged hattempt
      have hoccupied := htagged.occupied (Context.not_isTooLong_of_tag hattempt)
      exact ⟨_, Context.tag_eq_alreadyTagged_iff.2 ⟨_, _, _, hoccupied.mono hrest.within_of_tag⟩⟩
  | @fails context last file name e rest attempts hattempt hrest ih =>
      rw [List.forall_mem_cons] at hnone ⊢
      refine ⟨?_, ih hnone.2⟩
      have hconflict : e.isConflict = true := by simpa [Attempt.failed] using hnone.1
      obtain ⟨link, rfl⟩ := Context.alreadyTagged_of_isConflict hattempt hconflict
      obtain ⟨_, _, _, hoccupied⟩ := Context.tag_eq_alreadyTagged_iff.1 hattempt
      exact ⟨link, Context.tag_eq_alreadyTagged_iff.2
        ⟨_, _, _, hoccupied.mono hrest.within_of_tag⟩⟩

/-- When a batch of untagging is done, none of its pairs can be untagged. -/
theorem untag_ne_ok (h : Action.untag.Batch library context pairs attempts last) :
    ∀ pair ∈ pairs, ∀ result, library.untag last pair.1 pair.2 ≠ .ok result := by
  induction h with
  | done context => exact List.forall_mem_nil _
  | changes hattempt hrest ih =>
      rw [List.forall_mem_cons]
      refine ⟨?_, ih⟩
      obtain ⟨_, _, _, _, huntagged⟩ := Context.exists_untagged hattempt
      exact huntagged.untag_ne_ok hrest.within_of_untag
  | fails hattempt hrest ih =>
      rw [List.forall_mem_cons]
      refine ⟨?_, ih⟩
      rintro ⟨link, after⟩ huntag
      -- With more in the tree, when its turn came, the pair could have been untagged too.
      obtain ⟨_, _, _, _, huntagged⟩ := Context.exists_untagged huntag
      have hbefore := (huntagged.mono hrest.within_of_untag).untag_eq_ok
      cases hattempt.symm.trans hbefore

/-- A batch changes nothing if no pair of it can be changed. -/
theorem unchanged (h : action.Batch library context pairs attempts last)
    (herror : ∀ pair ∈ pairs, ∀ result,
      action.attempt library context pair.1 pair.2 ≠ .ok result) :
    last = context ∧ List.Forall₂ (fun pair attempt => ∃ e,
      action.attempt library context pair.1 pair.2 = .error e ∧
        attempt = ⟨pair.1, pair.2, .error e⟩) pairs attempts := by
  induction h with
  | done context => exact ⟨rfl, .nil⟩
  | changes hattempt _ _ =>
      rw [List.forall_mem_cons] at herror
      exact absurd hattempt (herror.1 _)
  | fails hattempt _ ih =>
      rw [List.forall_mem_cons] at herror
      obtain ⟨hlast, hattempts⟩ := ih herror.2
      exact ⟨hlast, .cons ⟨_, hattempt, rfl⟩ hattempts⟩

end Action.Batch

namespace Library

variable {library : Library}

/-- The attempt to tag a file finds the tag there already. -/
def FindsTag (library : Library) (pair : Path × String) (attempt : Attempt) : Prop :=
  ∃ link, tagLink? pair.1 (library.resolveAsPath pair.2) = some link ∧
    attempt = ⟨pair.1, pair.2, .error (.alreadyTagged link)⟩

/-- The event says of a pair that it is skipped, since the tag is there already. -/
def Skips (library : Library) (pair : Path × String) (event : Event) : Prop :=
  ∃ link, tagLink? pair.1 (library.resolveAsPath pair.2) = some link ∧
    event = ⟨.warn, .command,
      s!"Skipping `{pair.1.display}` for `{pair.2}`: {(TaggingError.alreadyTagged link).message}"⟩

/-- Attempts that find the tag there already do not fail, and are said to be skipped. -/
theorem skips_of_findsTag {pairs : List (Path × String)} {attempts : List Attempt}
    (h : List.Forall₂ library.FindsTag pairs attempts) :
    (∀ attempt ∈ attempts, attempt.failed = false) ∧
      List.Forall₂ library.Skips pairs (attempts.flatMap (Attempt.events .tag)) := by
  induction h with
  | nil => exact ⟨List.forall_mem_nil _, .nil⟩
  | cons hfirst _ ih =>
      obtain ⟨link, hlink, rfl⟩ := hfirst
      exact ⟨List.forall_mem_cons.2 ⟨rfl, ih.1⟩, .cons ⟨link, hlink, rfl⟩ ih.2⟩

end Library

/-- If all tags are there already, a batch of tagging changes nothing and finds them there. -/
theorem Action.Batch.findsTag {library : Library} {context last : Context}
    {pairs : List (Path × String)} {attempts : List Attempt}
    (h : Action.tag.Batch library context pairs attempts last)
    (hthere : ∀ pair ∈ pairs, ∃ link,
      library.tag context pair.1 pair.2 = .error (.alreadyTagged link)) :
    last = context ∧ List.Forall₂ library.FindsTag pairs attempts := by
  have herror : ∀ pair ∈ pairs, ∀ result,
      Action.tag.attempt library context pair.1 pair.2 ≠ .ok result := by
    intro pair hpair result hresult
    obtain ⟨link, hlink⟩ := hthere pair hpair
    cases hlink.symm.trans hresult
  obtain ⟨hlast, hattempts⟩ := h.unchanged herror
  refine ⟨hlast, ((List.forall₂_and_left _ _).2 ⟨hthere, hattempts⟩).imp ?_⟩
  rintro pair attempt ⟨⟨link, hlink⟩, e, he, rfl⟩
  cases hlink.symm.trans he
  exact ⟨link, (Context.tag_eq_alreadyTagged hlink).1, rfl⟩

namespace Context

variable {context : Context} {library : Library} {action : Action} {files : List Path}
  {tags : List String}

/-- A batch fails if an attempt does. -/
theorem runChange_failure_eq_none_iff :
    (context.runChange library action files tags).failure = none ↔
      ∀ attempt ∈ (action.attemptAll library context (allPairs files tags)).1,
        attempt.failed = false := by
  have hnone (attempts : List Attempt) : (attempts.filter Attempt.failed).length = 0 ↔
      ∀ attempt ∈ attempts, attempt.failed = false := by
    rw [List.length_eq_zero_iff, List.filter_eq_nil_iff]
    simp only [Bool.not_eq_true]
  rw [← hnone, runChange]
  dsimp only
  split
  next hzero => simp only [hzero]
  next hsome => simp only [hsome, reduceCtorEq]

/-- The report of a batch that is run after it was run once. -/
def rerunChange (context : Context) (library : Library) (action : Action) (files : List Path)
    (tags : List String) : Report :=
  (context.runChange library action files tags).context.runChange library action files tags

/-- Of batches on all pairs of any files and tags, run twice. If the first run of tagging
does not fail, the second one changes nothing and does not fail, and says of each pair that
the tag is there already. The second run of untagging changes nothing, and no attempt of it
succeeds, whatever came of the first. -/
theorem runChange_idempotent (context : Context) (library : Library) (files : List Path)
    (tags : List String) :
    ((context.runChange library .tag files tags).failure = none →
      (context.rerunChange library .tag files tags).context =
          (context.runChange library .tag files tags).context ∧
        (context.rerunChange library .tag files tags).failure = none ∧
        List.Forall₂ library.FindsTag (allPairs files tags)
          (Action.tag.attemptAll library (context.runChange library .tag files tags).context
            (allPairs files tags)).1 ∧
        List.Forall₂ library.Skips (allPairs files tags)
          (context.rerunChange library .tag files tags).events) ∧
    (context.rerunChange library .untag files tags).context =
        (context.runChange library .untag files tags).context ∧
      List.Forall₂ (fun pair attempt => ∃ e, attempt = ⟨pair.1, pair.2, .error e⟩)
        (allPairs files tags)
        (Action.untag.attemptAll library (context.runChange library .untag files tags).context
          (allPairs files tags)).1 := by
  constructor
  · intro hnone
    have hfirst := Action.tag.batch_attemptAll library context (allPairs files tags)
    have hthere := hfirst.alreadyTagged (runChange_failure_eq_none_iff.1 hnone)
    have hsecond := Action.tag.batch_attemptAll library
      (context.runChange library .tag files tags).context (allPairs files tags)
    obtain ⟨hlast, hfinds⟩ := hsecond.findsTag hthere
    obtain ⟨hskipped, hevents⟩ := Library.skips_of_findsTag hfinds
    exact ⟨hlast, runChange_failure_eq_none_iff.2 hskipped, hfinds, hevents⟩
  · have hfirst := Action.untag.batch_attemptAll library context (allPairs files tags)
    have hsecond := Action.untag.batch_attemptAll library
      (context.runChange library .untag files tags).context (allPairs files tags)
    obtain ⟨hlast, hattempts⟩ := hsecond.unchanged hfirst.untag_ne_ok
    refine ⟨hlast, hattempts.imp ?_⟩
    rintro pair attempt ⟨e, _, hattempt⟩
    exact ⟨e, hattempt⟩

/-- The files of a batch on the desk. -/
def deskFiles : List Path := [.ofString "A/x", .ofString "L"]

/-- The tags of the batch. -/
def deskTags : List String := ["L", "//A"]

/-- The tags of `A/x` are there already. The symbolic link `L` gets a link in `B`, to which it
leads itself, and one in `A`. -/
theorem desk_runChange_idempotent :
    (desk.runChange ⟨.ofString "A/.."⟩ .tag deskFiles deskTags).failure = none ∧
      (desk.rerunChange ⟨.ofString "A/.."⟩ .tag deskFiles deskTags).failure = none ∧
      (desk.rerunChange ⟨.ofString "A/.."⟩ .tag deskFiles deskTags).context =
        (desk.runChange ⟨.ofString "A/.."⟩ .tag deskFiles deskTags).context ∧
      List.Forall₂ (Library.Skips ⟨.ofString "A/.."⟩)
        [(.ofString "A/x", "L"), (.ofString "A/x", "//A"), (.ofString "L", "L"),
          (.ofString "L", "//A")]
        (desk.rerunChange ⟨.ofString "A/.."⟩ .tag deskFiles deskTags).events := by
  have hfirst : (desk.runChange ⟨.ofString "A/.."⟩ .tag deskFiles deskTags).failure = none := by
    rfl
  obtain ⟨htag, _⟩ := runChange_idempotent desk ⟨.ofString "A/.."⟩ deskFiles deskTags
  obtain ⟨hcontext, hnone, _, hevents⟩ := htag hfirst
  exact ⟨hfirst, hnone, hcontext, hevents⟩

end Context

end LinkTags
