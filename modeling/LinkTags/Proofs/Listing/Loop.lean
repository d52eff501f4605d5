import LinkTags.Proofs.Listing.Visits

/-!
# The loop of a walk

A walk keeps the directories that it still has to read on a stack. It takes the one on top,
calls back for its regular files, and pushes its subdirectories, the last of them first, so
that the first is on top. This gives the files in the order of a recursion that goes below a
directory before it goes on to the next (`Context.loops_iff_descends`), and fails where the
recursion fails. Over a tree the loop ends, since each turn takes one directory off those that
are below its stack (`Context.loops_of_reads`).

## Implementation notes

Both the loop and the recursion read directories by their paths, and know nothing of the tree.
That they agree is proved of every stack, by what an append of stacks does to the recursion.
Only that the loop ends needs the tree. A directory is read for its files and again for its
subdirectories, with nothing in between that changes it, so a turn of the loop reads it once.
-/

namespace LinkTags

/-- The paths of the subdirectories among the entries of the directory at a path. -/
def subdirectoryPaths (path : Path) (entries : List Entry) : List Path :=
  (subdirectories entries).map fun entry => path.join entry.name.path

/-- Paths are pushed on a stack one after the other, and the last is then on top. -/
def pushAll (paths stack : List Path) : List Path :=
  paths.reverse ++ stack

theorem pushAll_reverse (paths stack : List Path) :
    pushAll paths.reverse stack = paths ++ stack := by
  rw [pushAll, List.reverse_reverse]

namespace Context

/-- The loop, from a stack of directories on: the files that it calls back for, in order, and
the error that ends it, if one does. -/
inductive Loops (context : Context) : List Path → List Match → Option FileError → Prop where
  | done : Loops context [] [] none
  | stuck {path : Path} {rest : List Path} {cause : FileError}
      (h : context.readDirectory path = .error cause) :
      Loops context (path :: rest) [] (some cause)
  | turn {path : Path} {rest : List Path} {entries : List Entry} {found : List Match}
      {failure : Option FileError} (h : context.readDirectory path = .ok entries)
      (hrest : Loops context (pushAll (subdirectoryPaths path entries).reverse rest) found
        failure) :
      Loops context (path :: rest) (regularFiles path entries ++ found) failure

/-- The recursion over directories: each is read, then those below it, and then the next. -/
inductive Descends (context : Context) : List Path → List Match → Option FileError → Prop where
  | done : Descends context [] [] none
  | stuck {path : Path} {rest : List Path} {cause : FileError}
      (h : context.readDirectory path = .error cause) :
      Descends context (path :: rest) [] (some cause)
  | stuckBelow {path : Path} {rest : List Path} {entries : List Entry} {below : List Match}
      {cause : FileError} (h : context.readDirectory path = .ok entries)
      (hbelow : Descends context (subdirectoryPaths path entries) below (some cause)) :
      Descends context (path :: rest) (regularFiles path entries ++ below) (some cause)
  | next {path : Path} {rest : List Path} {entries : List Entry} {below others : List Match}
      {failure : Option FileError} (h : context.readDirectory path = .ok entries)
      (hbelow : Descends context (subdirectoryPaths path entries) below none)
      (hrest : Descends context rest others failure) :
      Descends context (path :: rest) (regularFiles path entries ++ below ++ others) failure

variable {context : Context} {stack rest : List Path} {found others : List Match}
  {failure otherFailure : Option FileError}

/-! ## The loop is the recursion -/

theorem Loops.unique (h : context.Loops stack found failure)
    (h' : context.Loops stack others otherFailure) : found = others ∧ failure = otherFailure := by
  induction h generalizing others otherFailure with
  | done =>
      cases h'
      exact ⟨rfl, rfl⟩
  | stuck hread =>
      cases h' with
      | stuck hread' =>
          cases hread.symm.trans hread'
          exact ⟨rfl, rfl⟩
      | turn hread' _ => cases hread.symm.trans hread'
  | turn hread _ ih =>
      cases h' with
      | stuck hread' => cases hread.symm.trans hread'
      | turn hread' hrest =>
          cases hread.symm.trans hread'
          obtain ⟨rfl, rfl⟩ := ih hrest
          exact ⟨rfl, rfl⟩

/-- The recursion over several lists of directories goes through them in a row, or fails in
the first of them. -/
theorem Descends.split (h : context.Descends (stack ++ rest) found failure) :
    (∃ front back, found = front ++ back ∧ context.Descends stack front none ∧
      context.Descends rest back failure) ∨
    ∃ cause, failure = some cause ∧ context.Descends stack found failure := by
  induction stack generalizing found with
  | nil => exact .inl ⟨[], found, rfl, .done, h⟩
  | cons path others ih =>
      cases h with
      | stuck hread => exact .inr ⟨_, rfl, .stuck hread⟩
      | stuckBelow hread hbelow => exact .inr ⟨_, rfl, .stuckBelow hread hbelow⟩
      | next hread hbelow hrest =>
          rcases ih hrest with ⟨front, back, rfl, hfront, hback⟩ | ⟨cause, hcause, hfails⟩
          · refine .inl ⟨_, back, ?_, .next hread hbelow hfront, hback⟩
            simp only [List.append_assoc]
          · exact .inr ⟨cause, hcause, .next hread hbelow hfails⟩

theorem Loops.descends (h : context.Loops stack found failure) :
    context.Descends stack found failure := by
  induction h with
  | done => exact .done
  | stuck hread => exact .stuck hread
  | turn hread _ ih =>
      rw [pushAll_reverse] at ih
      rcases ih.split with ⟨below, others, rfl, hbelow, hothers⟩ | ⟨cause, rfl, hbelow⟩
      · rw [← List.append_assoc]
        exact .next hread hbelow hothers
      · exact .stuckBelow hread hbelow

/-- What the recursion does with the directories on top of a stack, the loop does before it
comes to the rest of the stack, unless it fails on the way. -/
theorem Descends.loops_append (h : context.Descends stack found failure) (rest : List Path) :
    (∀ others otherFailure, failure = none → context.Loops rest others otherFailure →
      context.Loops (stack ++ rest) (found ++ others) otherFailure) ∧
    ∀ cause, failure = some cause → context.Loops (stack ++ rest) found failure := by
  induction h generalizing rest with
  | done => exact ⟨fun _ _ _ hrest => hrest, nofun⟩
  | stuck hread => exact ⟨nofun, fun _ _ => .stuck hread⟩
  | @stuckBelow path after entries below cause hread _ ih =>
      refine ⟨nofun, fun _ _ => ?_⟩
      have hbelow := (ih (after ++ rest)).2 cause rfl
      rw [← pushAll_reverse] at hbelow
      exact .turn hread hbelow
  | @next path after entries below others failure hread _ _ ihBelow ihAfter =>
      have hturn : ∀ more last, context.Loops (after ++ rest) more last →
          context.Loops (path :: (after ++ rest))
            (regularFiles path entries ++ (below ++ more)) last := by
        intro more last hmore
        have hbelow := (ihBelow (after ++ rest)).1 more last rfl hmore
        rw [← pushAll_reverse] at hbelow
        exact .turn hread hbelow
      constructor
      · intro more last hnone hrest
        have hafter := (ihAfter rest).1 more last hnone hrest
        simpa using hturn _ _ hafter
      · intro cause hcause
        have hafter := (ihAfter rest).2 cause hcause
        simpa using hturn _ _ hafter

/-- The loop calls back for the same files as the recursion, in the same order, and fails as
it does. -/
theorem loops_iff_descends :
    context.Loops stack found failure ↔ context.Descends stack found failure := by
  constructor
  · exact Loops.descends
  · intro h
    cases failure with
    | none => simpa using (h.loops_append []).1 [] none rfl .done
    | some cause => simpa using (h.loops_append []).2 cause rfl

end Context

/-! ## Loops over trees -/

namespace Contents

/-- The directories that a walk goes on to from the one at a path, with what they hold. -/
def opened (path : Path) : Contents → List (Path × Contents)
  | .nil => []
  | .file _ _ rest => rest.opened path
  | .directory name inside rest =>
      if name.path = marker then rest.opened path
      else (path.join name.path, inside) :: rest.opened path

theorem map_fst_opened (path : Path) (contents : Contents) :
    (contents.opened path).map Prod.fst = subdirectoryPaths path contents.entries := by
  induction contents using induction_cons with
  | nil => rfl
  | cons name item rest _ ih =>
      cases item with
      | file inode => simpa [cons, opened, entries, subdirectoryPaths, subdirectories] using ih
      | directory inside =>
          by_cases hmarker : name.path = marker
          · simpa [cons, opened, entries, subdirectoryPaths, subdirectories, hmarker] using ih
          · simpa [cons, opened, entries, subdirectoryPaths, subdirectories, hmarker] using ih

theorem visitsBelow_eq_flatMap_opened (path : Path) (contents : Contents) :
    contents.visitsBelow path =
      (contents.opened path).flatMap fun item => item.2.visits item.1 := by
  induction contents using induction_cons with
  | nil => rfl
  | cons name item rest _ ih =>
      cases item with
      | file inode => exact ih
      | directory inside =>
          rw [cons, visitsBelow, opened]
          split
          · exact ih
          · rw [ih, List.flatMap_cons]
            rfl

end Contents

namespace Context

variable {context : Context}

/-- The visits before the first whose path is too long. -/
def shortVisits (visits : List (Path × List Entry)) : List (Path × List Entry) :=
  visits.takeWhile fun visit => !visit.1.isTooLong

/-- How a walk fails that makes these visits. -/
def failureOf (visits : List (Path × List Entry)) : Option FileError :=
  if visits.any fun visit => visit.1.isTooLong then some .nameTooLong else none

theorem shortVisits_cons (visit : Path × List Entry) (others : List (Path × List Entry)) :
    shortVisits (visit :: others) =
      if visit.1.isTooLong = true then [] else visit :: shortVisits others := by
  rw [shortVisits, List.takeWhile_cons]
  cases visit.1.isTooLong <;> rfl

theorem failureOf_cons (visit : Path × List Entry) (others : List (Path × List Entry)) :
    failureOf (visit :: others) =
      if visit.1.isTooLong = true then some .nameTooLong else failureOf others := by
  rw [failureOf, List.any_cons]
  cases visit.1.isTooLong <;> rfl

/-- A loop over directories that can be read unless their paths are too long makes the visits
of the directories on its stack, one after the other, up to the first that fails. -/
theorem loops_of_reads {stack : List (Path × Contents)} {visits : List (Path × List Entry)}
    (hvisits : (stack.flatMap fun item => item.2.visits item.1) = visits)
    (hreads : ∀ visit ∈ visits, context.readDirectory visit.1 =
      if visit.1.isTooLong = true then .error .nameTooLong else .ok visit.2) :
    context.Loops (stack.map Prod.fst)
      ((shortVisits visits).flatMap fun visit => regularFiles visit.1 visit.2)
      (failureOf visits) := by
  induction visits generalizing stack with
  | nil =>
      cases stack with
      | nil => exact .done
      | cons item rest => simp [Contents.visits] at hvisits
  | cons visit others ih =>
      cases stack with
      | nil => simp at hvisits
      | cons item rest =>
          obtain ⟨path, contents⟩ := item
          rw [List.flatMap_cons, Contents.visits, Contents.visitsBelow_eq_flatMap_opened,
            List.cons_append, List.cons_eq_cons, ← List.flatMap_append] at hvisits
          obtain ⟨rfl, hothers⟩ := hvisits
          rw [List.forall_mem_cons] at hreads
          obtain ⟨hread, hrest⟩ := hreads
          rw [shortVisits_cons, failureOf_cons]
          split
          next hlong =>
            rw [if_pos hlong] at hread
            exact .stuck hread
          next hshort =>
            rw [if_neg hshort] at hread
            have hloop := ih hothers hrest
            rw [List.map_append, Contents.map_fst_opened, ← pushAll_reverse] at hloop
            exact .turn hread hloop

end Context

end LinkTags
