import LinkTags.Proofs.Run.Operations
import LinkTags.Proofs.Run.Undo

/-!
# What a batch reports

A batch asks the library for every pair, each time in the context that the attempts before
have left (`Action.Batch.exists_asked`). An attempt that does not succeed leaves that context
as it is, so the others come out the same without it (`Action.Batch.attemptAll_thinned`). The
report ends badly exactly if an attempt failed, and says how many did. If nothing is said about
how much is shown, it shows one event for each attempt that did not succeed, and no other
(`toldBy_shown`). What a call for a batch comes to is put together from these
(`call_attempts_all`).
-/

namespace LinkTags

/-! ## Attempts that are left out -/

instance (attempt : Attempt) : Decidable attempt.Succeeds :=
  match h : attempt.result with
  | .ok link => isTrue ⟨link, h⟩
  | .error _ => isFalse fun ⟨_, hlink⟩ => nomatch h.symm.trans hlink

/-- What is left of attempts when some that did not succeed are left out. -/
inductive Attempt.Thinned : List Attempt → List Attempt → Prop where
  | nil : Thinned [] []
  | keeps {kept attempts : List Attempt} (attempt : Attempt) (h : Thinned kept attempts) :
      Thinned (attempt :: kept) (attempt :: attempts)
  | drops {kept attempts : List Attempt} {attempt : Attempt} (hfails : ¬attempt.Succeeds)
      (h : Thinned kept attempts) : Thinned kept (attempt :: attempts)

/-- None has to be left out. -/
theorem Attempt.Thinned.refl (attempts : List Attempt) : Thinned attempts attempts := by
  induction attempts with
  | nil => exact .nil
  | cons attempt _ ih => exact .keeps attempt ih

/-- All attempts that did not succeed can be left out. -/
theorem Attempt.thinned_filter (attempts : List Attempt) :
    Thinned (attempts.filter fun attempt => attempt.Succeeds) attempts := by
  induction attempts with
  | nil => exact .nil
  | cons attempt rest ih =>
      by_cases h : attempt.Succeeds
      · simpa [List.filter_cons, h] using Thinned.keeps attempt ih
      · simpa [List.filter_cons, h] using Thinned.drops h ih

/-- Without attempts that did not succeed, the others come out the same and leave the same. -/
theorem Action.Batch.attemptAll_thinned {action : Action} {library : Library}
    {context last : Context} {pairs : List (Path × String)} {attempts kept : List Attempt}
    (h : action.Batch library context pairs attempts last) (hkept : Attempt.Thinned kept attempts) :
    action.attemptAll library context (kept.map Attempt.pair) = (kept, last) := by
  induction h generalizing kept with
  | done context =>
      cases hkept
      rfl
  | changes hattempt _ ih =>
      cases hkept with
      | keeps _ hrest =>
          rw [List.map_cons, Attempt.pair, attemptAll, hattempt]
          dsimp only
          rw [ih hrest]
      | drops hfails _ => exact absurd ⟨_, rfl⟩ hfails
  | fails hattempt _ ih =>
      cases hkept with
      | keeps _ hrest =>
          rw [List.map_cons, Attempt.pair, attemptAll, hattempt]
          dsimp only
          rw [ih hrest]
      | drops _ hrest => exact ih hrest

/-! ## Events that are shown -/

namespace Filter

theorem rankFor_upTo (rank : Nat) (part : Part) : (upTo rank).rankFor part = rank := by
  have hcovers : Directive.covers ⟨[], .anything, rank⟩ part = true := rfl
  simp only [rankFor, upTo, List.filter_cons, hcovers, List.filter_nil]
  rfl

theorem shown_append (filter : Filter) (first second : List Event) :
    filter.shown (first ++ second) = filter.shown first ++ filter.shown second :=
  List.filter_append ..

end Filter

/-- The event says of an attempt that did not succeed what came of it: a warning if it
conflicts with the present state of the tag, and an error if it failed. -/
def Attempt.ToldBy (action : Action) (attempt : Attempt) (event : Event) : Prop :=
  ∃ e, attempt.result = .error e ∧ event =
    if e.isConflict then
      ⟨.warn, .command,
        s!"Skipping `{attempt.file.display}` for `{attempt.name}`: {e.message}"⟩
    else
      ⟨.error, .command, s!"Failed to {action.verb} `{attempt.file.display}` with " ++
        s!"`{attempt.name}`: {e.message}"⟩

/-- Up to warnings, one event is shown for each attempt that did not succeed. -/
theorem toldBy_shown (action : Action) (attempts : List Attempt) :
    List.Forall₂ (Attempt.ToldBy action)
      (attempts.filter fun attempt => ¬attempt.Succeeds)
      ((Filter.upTo Level.warn.rank).shown (attempts.flatMap (Attempt.events action))) := by
  induction attempts with
  | nil => exact .nil
  | cons attempt rest ih =>
      obtain ⟨file, name, result⟩ := attempt
      rw [List.flatMap_cons, Filter.shown_append]
      cases result with
      | ok link =>
          -- What is said about a link is of less weight than a warning.
          have hquiet : (Filter.upTo Level.warn.rank).shown
              (Attempt.events action ⟨file, name, .ok link⟩) = [] := by
            simp [Filter.shown, Filter.rankFor_upTo, Attempt.events, Level.rank]
          have hsucceeds : Attempt.Succeeds ⟨file, name, .ok link⟩ := ⟨link, rfl⟩
          rw [hquiet]
          simpa [List.filter_cons, hsucceeds] using ih
      | error e =>
          have hfails : ¬Attempt.Succeeds ⟨file, name, .error e⟩ := fun ⟨_, hlink⟩ => nomatch hlink
          obtain ⟨event, htold, hshown⟩ : ∃ event,
              Attempt.ToldBy action ⟨file, name, .error e⟩ event ∧
              (Filter.upTo Level.warn.rank).shown
                (Attempt.events action ⟨file, name, .error e⟩) = [event] := by
            refine ⟨_, ⟨e, rfl, rfl⟩, ?_⟩
            cases hconflict : e.isConflict <;>
              simp [Filter.shown, Filter.rankFor_upTo, Attempt.events, Level.rank, hconflict]
          rw [hshown]
          simpa [List.filter_cons, hfails] using List.Forall₂.cons htold ih

/-! ## How a batch ends -/

/-- What is said in the end about the attempts that failed, if there are any. -/
def Action.ending (action : Action) (attempts : List Attempt) (total : Nat) : List String :=
  let failed := attempts.countP Attempt.failed
  if failed = 0 then []
  else
    let message := s!"Failed to {action.verb} {failed} of {total} file and tag pairs"
    [s!"Error: {message}"]

/-- Nothing is said about how much is shown. -/
def Call.IsPlain (given : Call) : Prop :=
  given.filter = none ∧ ∀ invocation,
    Invocation.parse given.words given.root = .ok invocation → invocation.verbosity = 0

namespace Context

variable {context after : Context} {root : Option Path} {library : Library} {action : Action}
  {files : List Path} {tags : List String} {attempts : List Attempt} {given : Call}

/-- A batch is answered with the events that are shown and with what is said in the end. -/
theorem answer_runChange
    (h : action.attemptAll library context (allPairs files tags) = (attempts, after))
    (filter : Filter) :
    (context.runChange library action files tags).answer filter =
      .finished (if attempts.countP Attempt.failed = 0 then 0 else 1) ""
        (unlines ((filter.shown (attempts.flatMap (Attempt.events action))).map Event.line ++
          action.ending attempts (files.length * tags.length))) := by
  rw [runChange, h]
  dsimp only
  rw [← List.countP_eq_length_filter, Action.ending]
  by_cases hfailed : attempts.countP Attempt.failed = 0
  · rw [if_pos hfailed, if_pos hfailed]
    dsimp only
    rw [if_pos hfailed]
    rfl
  · rw [if_neg hfailed, if_neg hfailed]
    dsimp only
    rw [if_neg hfailed]
    rfl

theorem runChange_context
    (h : action.attemptAll library context (allPairs files tags) = (attempts, after)) :
    (context.runChange library action files tags).context = after := by
  rw [runChange, h]

/-- Without a library, a call for a batch says so and changes nothing. -/
theorem exists_call_without_library (hasks : given.Asks root (.change action files tags))
    (hnone : ∀ library, ¬context.FindsLibrary root library) :
    ∃ failure, (failure = .noLibrary (root.getD ⟨[]⟩) ∨ ∃ e, failure = .unplaced e) ∧
      context.call given = (.finished 1 "" (unlines (Failure.lines failure)), context) := by
  obtain ⟨verbosity, filter, hcall⟩ := exists_call hasks
  rw [hcall, run]
  dsimp only
  unfold withLibrary
  unfold FindsLibrary at hnone
  dsimp only
  cases hfind : Library.find context (root.getD ⟨[]⟩) with
  | error e => exact ⟨.unplaced e, .inr ⟨e, rfl⟩, rfl⟩
  | ok found =>
      cases found with
      | none => exact ⟨.noLibrary _, .inl rfl, rfl⟩
      | some library => exact absurd hfind (hnone library)

/-- Without a library, nothing is attempted. -/
theorem deeds_without_library (hasks : given.Asks root (.change action files tags))
    (hnone : ∀ library, ¬context.FindsLibrary root library) :
    (Operation.call given).deeds context = [] := by
  obtain ⟨verbosity, hparse⟩ := hasks
  unfold FindsLibrary at hnone
  rw [Operation.deeds, hparse]
  dsimp only [Invocation.deeds]
  split
  next library hfind => exact absurd hfind (hnone library)
  next => rfl

/-- Of a call for a batch. If a library is found, every pair is attempted, all tags of the
first file first: the library is asked to tag or to untag the file, in the context that the
attempts before have left. Attempts that do not succeed can be left out, and the others come
out the same and leave the same. The call ends with status 1 exactly if an attempt failed, and
then says how many of the pairs did. If nothing is said about how much is shown, it shows one
event for each attempt that did not succeed, in their order, and no other. If no library is
found, nothing is attempted, and nothing is changed. -/
theorem call_attempts_all (hasks : given.Asks root (.change action files tags)) :
    (∀ library, context.FindsLibrary root library →
      ∃ (attempts : List Attempt) (after : Context) (status : Nat) (events : List Event),
        action.Batch library context (allPairs files tags) attempts after ∧
        context.call given = (.finished status "" (unlines (events.map Event.line ++
          action.ending attempts (files.length * tags.length))), after) ∧
        (∀ before attempt rest, attempts = before ++ attempt :: rest →
          ∃ now, action.Batch library context (before.map Attempt.pair) before now ∧
            attempt.result =
              (match action with
                | .tag => library.tag now attempt.file attempt.name
                | .untag => library.untag now attempt.file attempt.name).map Prod.fst) ∧
        (∀ kept, Attempt.Thinned kept attempts →
          action.attemptAll library context (kept.map Attempt.pair) = (kept, after)) ∧
        (status = 1 ↔ ∃ attempt ∈ attempts, attempt.failed = true) ∧ status ≤ 1 ∧
        (given.IsPlain → List.Forall₂ (Attempt.ToldBy action)
          (attempts.filter fun attempt => ¬attempt.Succeeds) events)) ∧
    ((∀ library, ¬context.FindsLibrary root library) →
      (Operation.call given).deeds context = [] ∧
      ∃ failure, (failure = .noLibrary (root.getD ⟨[]⟩) ∨ ∃ e, failure = .unplaced e) ∧
        context.call given = (.finished 1 "" (unlines (Failure.lines failure)), context)) := by
  constructor
  · intro library hfinds
    obtain ⟨verbosity, hparse⟩ := hasks
    have hbatch := action.batch_attemptAll library context (allPairs files tags)
    obtain ⟨⟨attempts, after⟩, hall⟩ :
        ∃ result, action.attemptAll library context (allPairs files tags) = result := ⟨_, rfl⟩
    rw [hall] at hbatch
    have hcall : context.call given =
        ((context.runChange library action files tags).answer (.choose verbosity given.filter),
          (context.runChange library action files tags).context) := by
      rw [call, hparse]
      dsimp only
      rw [run_change hfinds]
    rw [answer_runChange hall, runChange_context hall] at hcall
    refine ⟨attempts, after, _, _, hbatch, hcall, ?_, ?_, ?_, ?_, ?_⟩
    · rintro before attempt rest rfl
      exact hbatch.exists_asked
    · intro kept hkept
      exact hbatch.attemptAll_thinned hkept
    · rw [← List.countP_pos_iff]
      split <;> omega
    · split <;> omega
    · rintro ⟨hfilter, hverbosity⟩
      have hdefault : Filter.choose verbosity given.filter = .upTo Level.warn.rank := by
        have hzero : verbosity = 0 := hverbosity _ hparse
        rw [hfilter, hzero]
        rfl
      rw [hdefault]
      exact toldBy_shown action attempts
  · intro hnone
    exact ⟨deeds_without_library hasks hnone, exists_call_without_library hasks hnone⟩

/-- The files of a batch: one that the shelf has, and one that it does not have. -/
def mixedFiles : List Path := [.ofString "A/a", .ofString "A/d"]

/-- The tags of the batch. The second is the directory that the first file is in. -/
def mixedTags : List String := ["//B", "//A"]

/-- A call for the batch. -/
def mixedCall : Call where
  words := ["tag", "-f", "A/a", "A/d", "--", "//B", "//A"].map Path.ofString
  root := none
  filter := none

/-- What comes of it: one pair succeeds, one conflicts, and two fail. -/
def mixedAttempts : List Attempt := [
  ⟨.ofString "A/a", "//B", .ok (.ofString "/B/a")⟩,
  ⟨.ofString "A/a", "//A", .error (.alreadyTagged (.ofString "/A/a"))⟩,
  ⟨.ofString "A/d", "//B", .error (.filesystem .notFound)⟩,
  ⟨.ofString "A/d", "//A", .error (.filesystem .notFound)⟩]

/-- The pair that succeeds comes to the same alone, and the three others are told about. -/
theorem shelf_call_attempts_all :
    mixedCall.Asks none (.change .tag mixedFiles mixedTags) ∧ mixedCall.IsPlain ∧
    ∃ (after : Context) (events : List Event),
      Action.tag.Batch ⟨.ofString "/"⟩ shelf (allPairs mixedFiles mixedTags) mixedAttempts after ∧
      shelf.call mixedCall = (.finished 1 "" (unlines (events.map Event.line ++
        ["Error: Failed to tag 2 of 4 file and tag pairs"])), after) ∧
      Action.tag.attemptAll ⟨.ofString "/"⟩ shelf [(.ofString "A/a", "//B")] =
        (mixedAttempts.take 1, after) ∧
      events.map Event.level = [.warn, .error, .error] := by
  have hasks : mixedCall.Asks none (.change .tag mixedFiles mixedTags) := ⟨0, rfl⟩
  have hplain : mixedCall.IsPlain := by
    refine ⟨rfl, ?_⟩
    intro invocation hparse
    cases hparse
    rfl
  have hfinds : shelf.FindsLibrary none ⟨.ofString "/"⟩ := by rfl
  obtain ⟨attempts, after, status, events, hbatch, hcall, _, hthinned, hstatus, _, htold⟩ :=
    (call_attempts_all hasks).1 _ hfinds
  have hall := hthinned attempts (.refl attempts)
  rw [hbatch.map_pair] at hall
  have hattempts : mixedAttempts = attempts := by
    calc mixedAttempts
        = (Action.tag.attemptAll ⟨.ofString "/"⟩ shelf (allPairs mixedFiles mixedTags)).1 := by rfl
      _ = attempts := congrArg Prod.fst hall
  subst hattempts
  have hone : status = 1 := hstatus.2 ⟨_, List.mem_of_getLast? rfl, rfl⟩
  subst hone
  have hlevels : events.map Event.level = [.warn, .error, .error] := by
    obtain _ | ⟨⟨_, hfirst, rfl⟩, _ | ⟨⟨_, hsecond, rfl⟩, _ | ⟨⟨_, hthird, rfl⟩, _ | _⟩⟩⟩ :=
      htold hplain
    cases hfirst
    cases hsecond
    cases hthird
    rfl
  exact ⟨hasks, hplain, after, events, hbatch, hcall,
    hthinned _ (Attempt.thinned_filter mixedAttempts), hlevels⟩

end Context

end LinkTags
