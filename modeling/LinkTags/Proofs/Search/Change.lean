import LinkTags.Proofs.FileSystem.Carry
import LinkTags.Proofs.Search.Meaning
import LinkTags.Proofs.Tagging.Effect
import Mathlib.Order.Cover
import Mathlib.Data.Set.Insert

/-!
# Searching after tagging

A link to a regular file that is added changes no path to a directory, so every query can
be answered if it could be before, and no query has a part that files fall out of when a
leaf finds more. All that a query can find in addition is the one file. The same holds for
a link that is removed, of which the tree before is the tree after with the link added
(`search_after_tagging`).

## Implementation notes

All is proved once, of two contexts of which one has a link more (`LinkAdded`). That the
one context comes after the other enters only in the main result.
-/

namespace LinkTags

namespace Context

variable {context after : Context} {resolve : String → Path} {query : Query} {id : FileId}

/-- A query finds everything that it finds elsewhere if its leaves do: there is no term
that keeps a file out. -/
theorem Finds.mono (h : context.Finds resolve query id)
    (hleaf : ∀ name, context.Finds resolve (.dir name) id → after.Finds resolve (.dir name) id) :
    after.Finds resolve query id := by
  induction h with
  | dir hholds => exact hleaf _ (.dir hholds)
  | all hne _ ih => exact .all hne fun term hterm => ih term hterm hleaf
  | any hmem _ ih => exact .any hmem (ih hleaf)

/-! ## Queries that can be answered -/

theorem exists_matchesIn_iff {path : Path} :
    (∃ found, context.matchesIn path = .ok found) ↔ context.isDirectory path = true := by
  rw [isDirectory_iff]
  constructor
  · rintro ⟨found, hfound⟩
    obtain ⟨entries, hread, _⟩ := matchesIn_eq_ok hfound
    obtain ⟨place, hplace, _⟩ := readDirectory_eq_ok hread
    exact ⟨place, hplace⟩
  · rintro ⟨place, hplace⟩
    simp [matchesIn, readDirectory_of_lookup hplace]

mutual

/-- A query can be answered if every one of its leaves names a directory. -/
theorem exists_evaluate_iff (query : Query) :
    (∃ found, context.evaluate resolve query = .ok found) ↔
      ∀ name ∈ query.leaves, context.isDirectory (resolve name) = true := by
  match query with
  | .dir name =>
      rw [evaluate, Query.leaves, List.forall_mem_singleton]
      exact exists_matchesIn_iff
  | .group operator terms =>
      rw [Query.leaves, ← exists_evaluateAll_iff terms, evaluate]
      cases context.evaluateAll resolve terms <;> simp

theorem exists_evaluateAll_iff (terms : List Query) :
    (∃ found, context.evaluateAll resolve terms = .ok found) ↔
      ∀ name ∈ Query.leavesAll terms, context.isDirectory (resolve name) = true := by
  match terms with
  | [] => simp [evaluateAll, Query.leavesAll]
  | term :: rest =>
      rw [Query.leavesAll, List.forall_mem_append, ← exists_evaluate_iff term,
        ← exists_evaluateAll_iff rest, evaluateAll]
      cases context.evaluate resolve term <;>
        cases context.evaluateAll resolve rest <;> simp

end

/-- A search succeeds, and these are the files that it finds. -/
def Answers (context : Context) (resolve : String → Path) (query : Query)
    (ids : Set FileId) : Prop :=
  ∃ found : List Match, context.search resolve query = .ok (found.map Match.path) ∧
    context.evaluate resolve query = .ok found ∧ ids = {id | id ∈ found.map Match.id}

theorem answers_iff {ids : Set FileId} :
    context.Answers resolve query ids ↔
      (∀ name ∈ query.leaves, context.isDirectory (resolve name) = true) ∧
        ids = {id | context.Finds resolve query id} := by
  rw [← exists_evaluate_iff]
  constructor
  · rintro ⟨found, _, hfound, rfl⟩
    exact ⟨⟨found, hfound⟩, Set.ext (represents_of_evaluate hfound).mem_iff⟩
  · rintro ⟨⟨found, hfound⟩, rfl⟩
    refine ⟨found, ?_, hfound, (Set.ext (represents_of_evaluate hfound).mem_iff).symm⟩
    rw [search, hfound]

theorem answers_of_search {paths : List Path} (h : context.search resolve query = .ok paths) :
    context.Answers resolve query {id | context.Finds resolve query id} := by
  obtain ⟨found, hfound, _⟩ := search_eq_ok h
  exact answers_iff.2 ⟨(exists_evaluate_iff query).1 ⟨found, hfound⟩, rfl⟩

theorem answers_of_lookup {leaf : String} {place : Place}
    (h : context.lookup (resolve leaf) = .ok (.directory place)) :
    context.Answers resolve (.dir leaf) {id | context.Finds resolve (.dir leaf) id} := by
  refine answers_iff.2 ⟨?_, rfl⟩
  rw [Query.leaves, List.forall_mem_singleton, isDirectory_iff]
  exact ⟨place, h⟩

/-! ## With one link more -/

namespace LinkAdded

variable {less more : Context} {location : Location} {name : Name} {inode : Inode}

variable (h : less.LinkAdded more location name inode) (hregular : inode.kind = .regular)

include h hregular

theorem lookup_directory_iff {path : Path} {place : Place} :
    more.lookup path = .ok (.directory place) ↔ less.lookup path = .ok (.directory place) :=
  Context.lookup_directory_iff h.cwd h.within.carries (h.carries_back hregular)

theorem isDirectory_iff {path : Path} :
    more.isDirectory path = true ↔ less.isDirectory path = true := by
  simp only [Context.isDirectory_iff, h.lookup_directory_iff hregular]

theorem holdsFile_of_less {path : Path} {place : Location} {entry : Name} {other : Inode}
    (hholds : less.HoldsFile path place entry other) : more.HoldsFile path place entry other where
  leads := (h.lookup_directory_iff hregular).2 hholds.leads
  node := h.node?_of_less hholds.node
  regular := hholds.regular

/-- What is held with the link is held without it, the link itself apart. -/
theorem holdsFile_of_more {path : Path} {place : Location} {entry : Name} {other : Inode}
    (hholds : more.HoldsFile path place entry other) (hother : entry :: place ≠ name :: location) :
    less.HoldsFile path place entry other where
  leads := (h.lookup_directory_iff hregular).1 hholds.leads
  node := (h.node?_of_ne hother).symm.trans hholds.node
  regular := hholds.regular

theorem finds_of_less (hfinds : less.Finds resolve query id) : more.Finds resolve query id := by
  apply hfinds.mono
  intro leaf hleaf
  obtain ⟨place, entry, other, hholds, rfl⟩ := finds_dir_iff.1 hleaf
  exact .dir (h.holdsFile_of_less hregular hholds)

theorem finds_of_more (hid : id ≠ .file inode) (hfinds : more.Finds resolve query id) :
    less.Finds resolve query id := by
  apply hfinds.mono
  intro leaf hleaf
  obtain ⟨place, entry, other, hholds, rfl⟩ := finds_dir_iff.1 hleaf
  refine .dir (h.holdsFile_of_more hregular hholds ?_)
  intro hsame
  have hnode := hholds.node
  rw [hsame, h.node?_self] at hnode
  cases hnode
  exact hid rfl

/-- What a query finds with the link is what it finds without it, or the file in addition. -/
theorem finds_eq_or_eq_insert (query : Query) :
    {id | more.Finds resolve query id} = {id | less.Finds resolve query id} ∨
      {id | more.Finds resolve query id} =
        insert (.file inode) {id | less.Finds resolve query id} := by
  apply (Set.wcovBy_insert (FileId.file inode) {id | less.Finds resolve query id}).eq_or_eq
  · intro id hid
    exact h.finds_of_less hregular hid
  · intro id hid
    by_cases hfile : id = .file inode
    · exact .inl hfile
    · exact .inr (h.finds_of_more hregular hfile hid)

/-- With the link, a query finds the same files, or gains the one file. -/
theorem finds_more (query : Query) :
    {id | more.Finds resolve query id} = {id | less.Finds resolve query id} ∨
      .file inode ∉ {id | less.Finds resolve query id} ∧
        {id | more.Finds resolve query id} =
          insert (.file inode) {id | less.Finds resolve query id} := by
  rcases h.finds_eq_or_eq_insert hregular query with hsame | hinsert
  · exact .inl hsame
  · by_cases hmem : .file inode ∈ {id | less.Finds resolve query id}
    · exact .inl (hinsert.trans (Set.insert_eq_of_mem hmem))
    · exact .inr ⟨hmem, hinsert⟩

/-- Without the link, a query finds the same files, or loses the one file. -/
theorem finds_less (query : Query) :
    {id | less.Finds resolve query id} = {id | more.Finds resolve query id} ∨
      .file inode ∈ {id | more.Finds resolve query id} ∧
        {id | less.Finds resolve query id} =
          {id | more.Finds resolve query id} \ {.file inode} := by
  rcases h.finds_more hregular query with hsame | ⟨hnot, hinsert⟩
  · exact .inl hsame.symm
  · rw [hinsert, Set.insert_sdiff_self_of_notMem hnot]
    exact .inr ⟨Set.mem_insert _ _, rfl⟩

/-- A query can be answered with the link if it can be without it, and the other way round. -/
theorem answers_iff_answers (query : Query) :
    more.Answers resolve query {id | more.Finds resolve query id} ↔
      less.Answers resolve query {id | less.Finds resolve query id} := by
  simp only [answers_iff, h.isDirectory_iff hregular, and_true]

/-- A leaf that leads to the directory of the link finds the file with the link. -/
theorem finds_leaf {leaf : String}
    (hleaf : less.lookup (resolve leaf) = .ok (.directory (.live location))) :
    more.Finds resolve (.dir leaf) (.file inode) :=
  .dir ⟨(h.lookup_directory_iff hregular).2 hleaf, h.node?_self, hregular⟩

/-- Without the link, it finds the file if the directory has another link to it. -/
theorem finds_leaf_iff {leaf : String}
    (hleaf : less.lookup (resolve leaf) = .ok (.directory (.live location))) :
    less.Finds resolve (.dir leaf) (.file inode) ↔
      ∃ other, other ≠ name ∧ more.files.node? (other :: location) = some (.file inode) := by
  rw [finds_dir_iff]
  constructor
  · rintro ⟨place, entry, own, hholds, hown⟩
    cases hown
    obtain rfl : place = location := by
      have hleads := hholds.leads
      rw [hleaf] at hleads
      cases hleads
      rfl
    refine ⟨entry, ?_, h.node?_of_less hholds.node⟩
    rintro rfl
    have hnode := hholds.node
    rw [h.free] at hnode
    contradiction
  · rintro ⟨other, hother, hnode⟩
    refine ⟨location, other, inode, ⟨hleaf, ?_, hregular⟩, rfl⟩
    rw [← h.node?_of_ne (by simpa using hother), hnode]

end LinkAdded

/-! ## After tagging -/

/-- Of searches whose names are made paths in any way, that of a library included. After a
regular file is tagged, every search that succeeded succeeds, and finds what it found or
the file in addition. A leaf that leads to the directory of the tag finds the
file. After a link to a regular file is removed by untagging, every search that succeeded
succeeds, and finds what it found or all but the file. A leaf that leads to the directory
found the file, and no longer does if and only if this was the only link to it there. -/
theorem search_after_tagging (context : Context) (resolve : String → Path) :
    (∀ file directory link after inode, context.tag file directory = .ok (link, after) →
      context.identity file = .ok (.file inode) → inode.kind = .regular →
      (∀ query paths, context.search resolve query = .ok paths →
        ∃ ids ids', context.Answers resolve query ids ∧ after.Answers resolve query ids' ∧
          (ids' = ids ∨ .file inode ∉ ids ∧ ids' = insert (.file inode) ids)) ∧
      ∀ leaf, context.lookup (resolve leaf) = context.lookup directory →
        ∃ ids', after.Answers resolve (.dir leaf) ids' ∧ .file inode ∈ ids') ∧
    ∀ file directory link after location name inode,
      context.untag file directory = .ok (link, after) →
      context.lookupEntry link = .ok (.file location name inode) → inode.kind = .regular →
      (∀ query paths, context.search resolve query = .ok paths →
        ∃ ids ids', context.Answers resolve query ids ∧ after.Answers resolve query ids' ∧
          (ids' = ids ∨ .file inode ∈ ids ∧ ids' = ids \ {.file inode})) ∧
      context.lookup directory = .ok (.directory (.live location)) ∧
      ∀ leaf, context.lookup (resolve leaf) = context.lookup directory →
        ∃ ids ids', context.Answers resolve (.dir leaf) ids ∧
          after.Answers resolve (.dir leaf) ids' ∧ .file inode ∈ ids ∧
          (.file inode ∉ ids' ↔ ∀ other,
            context.files.node? (other :: location) = some (.file inode) → other = name) := by
  constructor
  · intro file directory link after inode htag hidentity hregular
    obtain ⟨above, location, name, own, htagged⟩ := exists_tagged htag
    obtain rfl : own = inode := by
      rw [identity, htagged.names] at hidentity
      cases hidentity
      rfl
    have hadded := htagged.added
    constructor
    · intro query paths hsearch
      have hanswers := answers_of_search hsearch
      exact ⟨_, _, hanswers, (hadded.answers_iff_answers hregular query).2 hanswers,
        hadded.finds_more hregular query⟩
    · intro leaf hleaf
      rw [htagged.leads] at hleaf
      have hanswers := (hadded.answers_iff_answers hregular _).2 (answers_of_lookup hleaf)
      exact ⟨_, hanswers, hadded.finds_leaf hregular hleaf⟩
  · intro file directory link after location name inode huntag hentry hregular
    obtain ⟨above, place, entry, own, huntagged⟩ := exists_untagged huntag
    obtain ⟨rfl, rfl, rfl⟩ : place = location ∧ entry = name ∧ own = inode := by
      have hlinked := huntagged.linked
      rw [hentry] at hlinked
      cases hlinked
      exact ⟨rfl, rfl, rfl⟩
    have hremoved := huntagged.removed
    refine ⟨?_, huntagged.leads, ?_⟩
    · intro query paths hsearch
      have hanswers := answers_of_search hsearch
      exact ⟨_, _, hanswers, (hremoved.answers_iff_answers hregular query).1 hanswers,
        hremoved.finds_less hregular query⟩
    · intro leaf hleaf
      rw [huntagged.leads] at hleaf
      have hafter := (hremoved.lookup_directory_iff hregular).1 hleaf
      refine ⟨_, _, answers_of_lookup hleaf, answers_of_lookup hafter,
        hremoved.finds_leaf hregular hafter, ?_⟩
      rw [Set.mem_ofPred_eq, hremoved.finds_leaf_iff hregular hafter]
      simp only [not_exists, not_and', ne_eq, Decidable.not_not]

/-- `c` of `A` is tagged in `B`, where a search finds it then. Without `a`, a search of `A`
still finds its file by `b`; without `x`, one of `B` finds it no longer. -/
theorem shelf_search_after_tagging :
    (∃ after, shelf.tag (.ofString "A/c") (.ofString "B") = .ok (.ofString "B/c", after) ∧
      ∃ ids, after.Answers Path.ofString (.dir "/B/.") ids ∧ .file ⟨1, .regular⟩ ∈ ids) ∧
    (∃ after, shelf.untag (.ofString "A/a") (.ofString "A") = .ok (.ofString "A/a", after) ∧
      ∃ ids, after.Answers Path.ofString (.dir "A/.") ids ∧ .file ⟨0, .regular⟩ ∈ ids) ∧
    ∃ after, shelf.untag (.ofString "B/x") (.ofString "B") = .ok (.ofString "B/x", after) ∧
      ∃ ids, after.Answers Path.ofString (.dir "/B") ids ∧ .file ⟨0, .regular⟩ ∉ ids := by
  obtain ⟨htag, huntag⟩ := search_after_tagging shelf Path.ofString
  refine ⟨?_, ?_, ?_⟩
  · obtain ⟨after, hafter⟩ : ∃ after,
        shelf.tag (.ofString "A/c") (.ofString "B") = .ok (.ofString "B/c", after) := ⟨_, rfl⟩
    obtain ⟨_, hleaf⟩ := htag _ _ _ after ⟨1, .regular⟩ hafter rfl rfl
    exact ⟨after, hafter, hleaf "/B/." rfl⟩
  · obtain ⟨after, hafter⟩ : ∃ after,
        shelf.untag (.ofString "A/a") (.ofString "A") = .ok (.ofString "A/a", after) := ⟨_, rfl⟩
    obtain ⟨_, _, hleaf⟩ := huntag _ _ _ after _ _ ⟨0, .regular⟩ hafter rfl rfl
    obtain ⟨_, ids, _, hanswers, _, hlost⟩ := hleaf "A/." rfl
    refine ⟨after, hafter, ids, hanswers, ?_⟩
    by_contra hnot
    have hother := hlost.1 hnot ⟨⟨[0x62], by decide⟩, by decide, by decide⟩ (by decide)
    exact absurd hother (by decide)
  · obtain ⟨after, hafter⟩ : ∃ after,
        shelf.untag (.ofString "B/x") (.ofString "B") = .ok (.ofString "B/x", after) := ⟨_, rfl⟩
    obtain ⟨_, _, hleaf⟩ := huntag _ _ _ after _ _ ⟨0, .regular⟩ hafter rfl rfl
    obtain ⟨_, ids, _, hanswers, _, hlost⟩ := hleaf "/B" rfl
    refine ⟨after, hafter, ids, hanswers, hlost.2 fun other hother => ?_⟩
    have hentry : ⟨other, .file ⟨0, .regular⟩⟩ ∈ (shelf.files.contentsIn _).entries :=
      FileSystem.mem_entries_contentsIn.2 hother
    cases hentry with
    | head => rfl
    | tail _ hrest => contradiction

end Context

end LinkTags
