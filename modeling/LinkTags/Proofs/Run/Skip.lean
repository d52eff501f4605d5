import LinkTags.Proofs.FileSystem.There
import LinkTags.Proofs.Run.Undo
import LinkTags.Proofs.Tagging.UntagOutcome

/-!
# Pairs that are skipped

A batch skips the pairs whose attempts are conflicts, and still ends well. Tagging is a
conflict only if the file is there (`isThere_of_tag_conflict`), since the file is looked up
before anything can be in the way of its link. So in a batch of tagging that ends well every
file is there in the end (`Action.Batch.isThere_of_tag`).

Untagging looks at the link before the file. Where both are missing, it finds the tag gone
already, which is a conflict too (`untag_conflict_of_missing_iff`), and a batch of untagging
passes over a file that is not there (`shelf_untag_skips_missing_file`). Files that are missing
when their turn comes are passed over in no other case (`call_skips`).
-/

namespace LinkTags

namespace Context

variable {context : Context} {file directory link : Path}

/-! ## Conflicts over files that are not there -/

/-- Tagging conflicts with a tag only if the file is there. -/
theorem isThere_of_tag_conflict {e : TaggingError} (h : context.tag file directory = .error e)
    (hconflict : e.isConflict = true) : context.IsThere file := by
  obtain ⟨link, rfl⟩ := alreadyTagged_of_isConflict h hconflict
  obtain ⟨found, _, _, hoccupied⟩ := tag_eq_alreadyTagged_iff.1 h
  exact isThere_iff.2 ⟨found, hoccupied.names⟩

/-- Untagging a file that is not there is a conflict exactly if its link is missing too. -/
theorem untag_conflict_of_missing_iff (hmissing : ¬context.IsThere file) :
    (∃ e, context.untag file directory = .error e ∧ e.isConflict = true) ↔
      ∃ link, context.Candidate file directory link ∧
        context.identity link = .error .notFound := by
  constructor
  · rintro ⟨e, he, hconflict⟩
    obtain ⟨result, houtcome⟩ := exists_untagOutcome context file directory
    rw [houtcome.untag_eq] at he
    subst he
    cases houtcome with
    | noFileName | noTagDirectory | unresolvedLink | unresolvedFile | isDirectory => contradiction
    | notTagged h hlink => exact ⟨_, h, hlink⟩
    | differentFile _ _ hfile => exact absurd ⟨_, hfile⟩ hmissing
  · rintro ⟨link, h, hlink⟩
    exact ⟨.notTagged link, (UntagOutcome.notTagged h hlink).untag_eq, rfl⟩

theorem untag_ne_ok_of_missing (hmissing : ¬context.IsThere file) (result : Path × Context) :
    context.untag file directory ≠ .ok result := by
  intro huntag
  obtain ⟨_, _, _, _, h⟩ := exists_untagged huntag
  exact hmissing ⟨_, h.identity_file⟩

end Context

/-! ## Attempts, each in its context -/

namespace Action

variable {action : Action} {library : Library} {context last now : Context}
  {pairs : List (Path × String)} {attempts : List Attempt} {attempt : Attempt}

/-- The attempt was made in a context that a batch had made of the first one when its turn
came, and made the last one of. -/
structure MadeIn (action : Action) (library : Library) (context last : Context)
    (attempt : Attempt) (now : Context) : Prop where
  before : ∃ pairs attempts, action.Batch library context pairs attempts now
  after : ∃ pairs attempts, action.Batch library now pairs attempts last
  result_eq : attempt.result = (action.attempt library now attempt.file attempt.name).map Prod.fst

/-- Every attempt of a batch was made in some context. -/
theorem Batch.exists_madeIn (h : action.Batch library context pairs attempts last) :
    ∀ attempt ∈ attempts, ∃ now, action.MadeIn library context last attempt now := by
  intro attempt hmem
  obtain ⟨before, rest, rfl⟩ := List.append_of_mem hmem
  obtain ⟨now, hbefore, hafter⟩ := h.exists_between
  refine ⟨now, ⟨_, _, hbefore⟩, ⟨_, _, hafter⟩, ?_⟩
  cases action <;> exact hafter.result_eq

/-- A pair fails exactly if its attempt is refused and that is no conflict. -/
theorem MadeIn.failed_eq_false_iff (h : action.MadeIn library context last attempt now) :
    attempt.failed = false ↔
      ∀ e, action.attempt library now attempt.file attempt.name = .error e →
        e.isConflict = true := by
  rw [Attempt.failed, h.result_eq]
  cases action.attempt library now attempt.file attempt.name with
  | ok result => simp [Except.map]
  | error e => simp [Except.map]

/-- The file of a pair that tagging did not fail for was there in its turn. -/
theorem MadeIn.isThere_of_tag (h : Action.tag.MadeIn library context last attempt now)
    (hfailed : attempt.failed = false) : now.IsThere attempt.file := by
  rw [h.failed_eq_false_iff] at hfailed
  cases hresult : Action.tag.attempt library now attempt.file attempt.name with
  | ok result =>
      obtain ⟨_, _, _, _, htagged⟩ := Context.exists_tagged hresult
      exact Context.isThere_iff.2 ⟨_, htagged.names⟩
  | error e => exact Context.isThere_of_tag_conflict hresult (hfailed e hresult)

/-- A file that is not there in the turn of its pair is passed over by untagging exactly if the
link is missing too. -/
theorem MadeIn.skips_missing_iff (h : Action.untag.MadeIn library context last attempt now)
    (hmissing : ¬now.IsThere attempt.file) :
    attempt.failed = false ↔
      ∃ link, now.Candidate attempt.file (library.resolveAsPath attempt.name) link ∧
        now.identity link = .error .notFound := by
  rw [h.failed_eq_false_iff, ← Context.untag_conflict_of_missing_iff hmissing]
  cases hresult : Action.untag.attempt library now attempt.file attempt.name with
  | ok result => exact absurd hresult (Context.untag_ne_ok_of_missing hmissing result)
  | error e =>
      have huntag : now.untag attempt.file (library.resolveAsPath attempt.name) = .error e :=
        hresult
      simp [huntag]

/-- If a batch of tagging fails for no pair, all its files are there in the end. -/
theorem Batch.isThere_of_tag (h : Action.tag.Batch library context pairs attempts last)
    (hnone : ∀ attempt ∈ attempts, attempt.failed = false) :
    ∀ pair ∈ pairs, last.IsThere pair.1 := by
  intro pair hpair
  rw [← h.map_pair, List.mem_map] at hpair
  obtain ⟨attempt, hattempt, rfl⟩ := hpair
  obtain ⟨now, hnow⟩ := h.exists_madeIn attempt hattempt
  obtain ⟨_, _, hafter⟩ := hnow.after
  exact (hnow.isThere_of_tag (hnone attempt hattempt)).mono hafter.within_of_tag

end Action

namespace Context

variable {context : Context} {library : Library} {root : Option Path} {action : Action}
  {files : List Path} {tags : List String} {given : Call}

/-- A call for a batch ends well exactly if no attempt fails. -/
theorem exists_call_change_finished (hasks : given.Asks root (.change action files tags))
    (hfinds : context.FindsLibrary root library) :
    ∃ status errors attempts after, context.call given = (.finished status "" errors, after) ∧
      action.Batch library context (allPairs files tags) attempts after ∧
      (status = 0 ↔ ∀ attempt ∈ attempts, attempt.failed = false) := by
  obtain ⟨verbosity, filter, hcall⟩ := exists_call hasks
  rw [run_change hfinds] at hcall
  refine ⟨_, _, _, _, hcall, action.batch_attemptAll library context (allPairs files tags), ?_⟩
  rw [← runChange_failure_eq_none_iff, Report.status]
  cases (context.runChange library action files tags).failure with
  | none => simp
  | some failure => simp

/-- A conflict over tagging is one over a file that is there, and so is one over untagging but
for a file whose link is missing too. Hence a call for a batch of tagging that ends well leaves
all its files there. Untagging passes over a file that is missing in its turn, as it is if it
was missing at first, exactly if the link is missing then. -/
theorem call_skips (hasks : given.Asks root (.change action files tags))
    (hfinds : context.FindsLibrary root library) :
    (∀ (now : Context) file directory e, now.tag file directory = .error e →
      e.isConflict = true → now.IsThere file) ∧
    (∀ (now : Context) file directory, ¬now.IsThere file →
      ((∃ e, now.untag file directory = .error e ∧ e.isConflict = true) ↔
        ∃ link, now.Candidate file directory link ∧
          now.identity link = .error .notFound)) ∧
    ∃ (status : Nat) (errors : String) (attempts : List Attempt) (after : Context),
      context.call given = (.finished status "" errors, after) ∧
      attempts.map Attempt.pair = allPairs files tags ∧
      (status = 0 ↔ ∀ attempt ∈ attempts, attempt.failed = false) ∧
      (action = .tag → status = 0 → ∀ pair ∈ allPairs files tags, after.IsThere pair.1) ∧
      ∀ attempt ∈ attempts, ∃ now, action.MadeIn library context after attempt now ∧
        (action = .untag → ¬context.IsThere attempt.file → ¬now.IsThere attempt.file) ∧
        (¬now.IsThere attempt.file → (attempt.failed = false ↔
          action = .untag ∧
            ∃ link, now.Candidate attempt.file (library.resolveAsPath attempt.name) link ∧
              now.identity link = .error .notFound)) := by
  refine ⟨?_, ?_, ?_⟩
  · intro now file directory e
    exact isThere_of_tag_conflict
  · intro now file directory
    exact untag_conflict_of_missing_iff
  · obtain ⟨status, errors, attempts, after, hcall, hbatch, hstatus⟩ :=
      exists_call_change_finished hasks hfinds
    refine ⟨status, errors, attempts, after, hcall, hbatch.map_pair, hstatus, ?_, ?_⟩
    · rintro rfl hzero
      exact hbatch.isThere_of_tag (hstatus.1 hzero)
    · intro attempt hattempt
      obtain ⟨now, hnow⟩ := hbatch.exists_madeIn attempt hattempt
      refine ⟨now, hnow, ?_, ?_⟩
      · rintro rfl hmissing hthere
        obtain ⟨_, _, hbefore⟩ := hnow.before
        exact hmissing (hthere.mono hbefore.within_of_untag)
      · intro hmissing
        cases action with
        | tag => simpa using fun hfailed => hmissing (hnow.isThere_of_tag hfailed)
        | untag => simpa using hnow.skips_missing_iff hmissing

/-- A call to change a tag of `A/d`, which the shelf does not have. -/
def missingCall (action : Action) : Call where
  words := [action.verb, "-f", "A/d", "--", "//B"].map Path.ofString
  root := none
  filter := none

/-- Tagging a file that is not there fails. -/
theorem shelf_call_skips :
    (missingCall .tag).Asks none (.change .tag [.ofString "A/d"] ["//B"]) ∧
    ¬shelf.IsThere (.ofString "A/d") ∧
    ∃ status errors, shelf.call (missingCall .tag) = (.finished status "" errors, shelf) ∧
      status ≠ 0 := by
  have hasks : (missingCall .tag).Asks none (.change .tag [.ofString "A/d"] ["//B"]) := ⟨0, rfl⟩
  have hfinds : shelf.FindsLibrary none ⟨.ofString "/"⟩ := by rfl
  have hmissing : ¬shelf.IsThere (.ofString "A/d") := by
    rintro ⟨id, hid⟩
    cases hid
  have hafter : (shelf.call (missingCall .tag)).2 = shelf := by decide +kernel
  obtain ⟨_, _, status, errors, attempts, after, hcall, _, _, htag, _⟩ := call_skips hasks hfinds
  rw [hcall] at hafter
  subst hafter
  refine ⟨hasks, hmissing, status, errors, hcall, ?_⟩
  intro hzero
  exact hmissing (htag rfl hzero (.ofString "A/d", "//B") (List.mem_singleton.2 rfl))

/-- Untagging a file that is not there conflicts with a tag, and a call for it ends well. -/
theorem shelf_untag_skips_missing_file :
    shelf.identity (.ofString "A/d") = .error .notFound ∧
    shelf.untag (.ofString "A/d") (.ofString "B") = .error (.notTagged (.ofString "B/d")) ∧
    (TaggingError.notTagged (.ofString "B/d")).isConflict = true ∧
    shelf.call (missingCall .untag) =
      (.finished 0 "" " WARN Skipping \x60A/d\x60 for \x60//B\x60: \x60/B/d\x60 does not exist\n",
        shelf) := by
  exact ⟨by rfl, by rfl, by rfl, by decide +kernel⟩

end Context

end LinkTags
