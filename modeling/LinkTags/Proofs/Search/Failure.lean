import LinkTags.Proofs.Search.Change

/-!
# Searches that fail

A search fails if one of the leaves of its query, wherever it stands, does not lead to a
directory. The error is that of the first such leaf from left to right, whatever the leaves
before it have found (`search_fails_at_first_leaf`). A leaf whose directory is missing is not
found, one that leads to a file is no directory, and in all other cases the error of the file
system is given.

## Implementation notes

The leaves of a group are those of its terms in a row, so what fails first in two lists of
leaves is said once, of their append (`failsFirst_append`), and the induction over queries
has nothing to say about groups in groups.
-/

namespace LinkTags.Context

variable {context : Context} {resolve : String → Path} {path : Path} {e : SearchError}

/-- The path leads to a directory, which can then be listed. -/
def Listable (context : Context) (path : Path) : Prop :=
  ∃ place, context.lookup path = .ok (.directory place)

/-- The error says why the path does not lead to a directory. -/
inductive Unlistable (context : Context) (path : Path) : SearchError → Prop where
  | notFound (h : context.readDirectory path = .error .notFound) :
      Unlistable context path (.notFound path)
  | notADirectory {above : Location} {name : Name} {inode : Inode}
      (h : context.lookup path = .ok (.file above name inode)) :
      Unlistable context path (.notADirectory path)
  | filesystem {cause : FileError} (h : context.readDirectory path = .error cause)
      (hfound : cause ≠ .notFound) (hnowhere : ∀ found, context.lookup path ≠ .ok found) :
      Unlistable context path (.filesystem path cause)

/-! ## One leaf -/

theorem readDirectory_of_file {above : Location} {name : Name} {inode : Inode}
    (h : context.lookup path = .ok (.file above name inode)) :
    context.readDirectory path = .error .notADirectory := by
  rw [readDirectory, contentsOf, directoryAt, h]

theorem unlistable_of_error {cause : FileError} (h : context.lookup path = .error cause)
    (hfound : cause ≠ .notFound) : context.Unlistable path (.filesystem path cause) :=
  .filesystem (readDirectory_of_error h) hfound (by simp [h])

/-- Of the errors of a lookup only that nothing was found is told apart. -/
theorem unlistable_of_lookup {cause : FileError} (h : context.lookup path = .error cause) :
    context.Unlistable path
      (if cause = .notFound then .notFound path else .filesystem path cause) := by
  split
  next hcause =>
    rw [hcause] at h
    exact .notFound (readDirectory_of_error h)
  next hcause => exact unlistable_of_error h hcause

theorem exists_unlistable_iff : (∃ e, context.Unlistable path e) ↔ ¬context.Listable path := by
  constructor
  · rintro ⟨e, hunlistable⟩ ⟨place, hplace⟩
    have hread := readDirectory_of_lookup hplace
    cases hunlistable with
    | notFound h => cases hread.symm.trans h
    | notADirectory h => cases hplace.symm.trans h
    | filesystem h _ _ => cases hread.symm.trans h
  · intro hnot
    cases hlookup : context.lookup path with
    | error cause => exact ⟨_, unlistable_of_lookup hlookup⟩
    | ok found =>
        cases found with
        | directory place => exact absurd ⟨place, hlookup⟩ hnot
        | file above name inode => exact ⟨_, .notADirectory hlookup⟩

theorem matchesIn_of_unlistable (h : context.Unlistable path e) :
    context.matchesIn path = .error e := by
  cases h with
  | notFound h => rw [matchesIn, h]
  | notADirectory h =>
      have hleads : context.leads path = true := by rw [leads, h]
      have hfile : context.isDirectory path = false := by rw [isDirectory, h]
      rw [matchesIn, readDirectory_of_file h]
      exact if_pos ⟨hleads, by simp [hfile]⟩
  | filesystem h hfound hnowhere =>
      have hleads : context.leads path = false := by
        unfold leads
        split
        next found hlookup => exact absurd hlookup (hnowhere found)
        next => rfl
      rw [matchesIn, h]
      split
      next hread => cases hread
      next hread =>
        cases hread
        contradiction
      next hread =>
        cases hread
        exact if_neg (by simp [hleads])

/-- A leaf fails with the error that says why its path does not lead to a directory. -/
theorem matchesIn_eq_error_iff :
    context.matchesIn path = .error e ↔ context.Unlistable path e := by
  constructor
  · intro h
    have hnot : ¬context.Listable path := by
      intro hlistable
      obtain ⟨found, hfound⟩ := exists_matchesIn_iff.2 (isDirectory_iff.2 hlistable)
      cases h.symm.trans hfound
    obtain ⟨other, hother⟩ := exists_unlistable_iff.2 hnot
    obtain rfl : e = other := Except.error.inj (h.symm.trans (matchesIn_of_unlistable hother))
    exact hother
  · exact matchesIn_of_unlistable

/-! ## Paths that cannot be listed -/

theorem unlistable_of_empty (h : path.bytes = []) : context.Unlistable path (.notFound path) := by
  have hzero : (0 : UInt8) ∉ path.bytes := by simp [h]
  apply Unlistable.notFound (readDirectory_of_error _)
  rw [lookup, walkFrom, if_neg hzero, if_pos h]

theorem unlistable_of_zero (h : (0 : UInt8) ∈ path.bytes) :
    context.Unlistable path (.filesystem path .nulByte) :=
  unlistable_of_error (if_pos h) (by decide)

section Component

variable {component : Component} (hnonzero : (0 : UInt8) ∉ component.bytes)

include hnonzero

/-- A path that goes through a file is not taken for one that leads to a file. -/
theorem unlistable_join_of_file {above : Location} {name : Name} {inode : Inode}
    (h : context.lookup path = .ok (.file above name inode))
    (hshort : ¬(path.join component.path).isTooLong = true) :
    context.Unlistable (path.join component.path)
      (.filesystem (path.join component.path) .notADirectory) := by
  obtain ⟨hzero, hne, _, hwalk⟩ := walk_of_lookup h
  obtain ⟨front, hsteps, hjoin⟩ := Path.steps_join_component hne component
  have hjoined : (0 : UInt8) ∉ (path.join component.path).bytes :=
    Path.not_mem_bytes_join hne (Path.isAbsolute_component _) hzero (by decide) hnonzero
  have hfull := Path.bytes_join_component_ne_nil hne component
  have hstart : (path.join component.path).origin context.here = path.origin context.here := by
    rw [Path.origin, Path.isAbsolute_join hne (Path.isAbsolute_component _)]
    rfl
  have hlast : [Step.down component] ≠ [] := List.cons_ne_nil _ _
  have hthrough := walk_append_of_file hlast true hwalk
  apply unlistable_of_error _ (by decide)
  rw [lookup, walkFrom, if_neg hjoined, if_neg hfull, if_neg hshort, hjoin, hstart]
  rcases hsteps with hsteps | hsteps
  · rwa [hsteps] at hthrough
  · rwa [hsteps, List.append_assoc, List.singleton_append, walk_append_stay hlast] at hthrough

/-- A directory has no entry whose name is longer than names can be. -/
theorem unlistable_join_of_long {location : Location}
    (h : context.lookup path = .ok (.directory (.live location)))
    (hlong : 255 < component.bytes.length) :
    context.Unlistable (path.join component.path)
      (.filesystem (path.join component.path) .nameTooLong) := by
  obtain ⟨left, final, _, hplace, hjoin⟩ := walkFrom_join_component h hnonzero
  have hlost : final.lost = 0 := congrArg Place.lost hplace
  have hname : component.nameAt final.lost = .error .nameTooLong := by
    have hnone : Name.ofComponent? component = none := dif_neg (by omega)
    rw [Component.nameAt, if_neg (by simp [hlost]), hnone]
  have hchild : final.child context.files component = .error .nameTooLong := by
    rw [Position.child, hname]
  apply unlistable_of_error _ (by decide)
  rw [lookup, hjoin]
  split
  · rfl
  · rw [walk_down, hchild]

end Component

/-! ## The first leaf that fails -/

/-- One of the leaves cannot be listed, with this error, and all before it can. -/
inductive FailsFirst (context : Context) (resolve : String → Path) :
    List String → SearchError → Prop where
  | here {name : String} {rest : List String} {e : SearchError}
      (h : context.Unlistable (resolve name) e) : FailsFirst context resolve (name :: rest) e
  | later {name : String} {rest : List String} {e : SearchError}
      (hfirst : context.Listable (resolve name)) (h : FailsFirst context resolve rest e) :
      FailsFirst context resolve (name :: rest) e

theorem failsFirst_iff {names : List String} :
    context.FailsFirst resolve names e ↔
      ∃ front name back, names = front ++ name :: back ∧
        (∀ other ∈ front, context.Listable (resolve other)) ∧
        context.Unlistable (resolve name) e := by
  constructor
  · intro h
    induction h with
    | @here name rest e h => exact ⟨[], name, rest, rfl, List.forall_mem_nil _, h⟩
    | @later first rest e hfirst _ ih =>
        obtain ⟨front, name, back, rfl, hfront, hname⟩ := ih
        exact ⟨first :: front, name, back, rfl, List.forall_mem_cons.2 ⟨hfirst, hfront⟩, hname⟩
  · rintro ⟨front, name, back, rfl, hfront, hname⟩
    induction front with
    | nil => exact .here hname
    | cons first rest ih =>
        rw [List.forall_mem_cons] at hfront
        exact .later hfront.1 (ih hfront.2)

/-- Leaves in a row fail as the first of them do, or as the others do if these can be listed. -/
theorem failsFirst_append {names more : List String} :
    context.FailsFirst resolve (names ++ more) e ↔
      context.FailsFirst resolve names e ∨
        (∀ name ∈ names, context.Listable (resolve name)) ∧
          context.FailsFirst resolve more e := by
  induction names with
  | nil =>
      constructor
      · intro h
        exact .inr ⟨List.forall_mem_nil _, h⟩
      · rintro (hnone | ⟨_, h⟩)
        · cases hnone
        · exact h
  | cons name rest ih =>
      rw [List.cons_append, List.forall_mem_cons]
      constructor
      · intro h
        cases h with
        | here h => exact .inl (.here h)
        | later hfirst h =>
            rcases ih.1 h with hrest | ⟨hall, hmore⟩
            · exact .inl (.later hfirst hrest)
            · exact .inr ⟨⟨hfirst, hall⟩, hmore⟩
      · rintro (h | ⟨⟨hfirst, hall⟩, hmore⟩)
        · cases h with
          | here h => exact .here h
          | later hfirst h => exact .later hfirst (ih.2 (.inl h))
        · exact .later hfirst (ih.2 (.inr ⟨hall, hmore⟩))

/-! ## Queries -/

mutual

/-- A query fails as the first of its leaves that fails. -/
theorem evaluate_eq_error_iff (query : Query) :
    context.evaluate resolve query = .error e ↔ context.FailsFirst resolve query.leaves e := by
  match query with
  | .dir name =>
      rw [evaluate, matchesIn_eq_error_iff, Query.leaves]
      constructor
      · exact .here
      · rintro (h | ⟨_, ⟨⟩⟩)
        exact h
  | .group operator terms =>
      rw [Query.leaves, ← evaluateAll_eq_error_iff terms, evaluate]
      cases context.evaluateAll resolve terms <;> simp

theorem evaluateAll_eq_error_iff (terms : List Query) :
    context.evaluateAll resolve terms = .error e ↔
      context.FailsFirst resolve (Query.leavesAll terms) e := by
  match terms with
  | [] =>
      rw [evaluateAll, Query.leavesAll]
      constructor
      · nofun
      · nofun
  | term :: rest =>
      have hterm : (∀ name ∈ term.leaves, context.Listable (resolve name)) ↔
          ∃ found, context.evaluate resolve term = .ok found := by
        rw [exists_evaluate_iff]
        simp only [isDirectory_iff, Listable]
      rw [Query.leavesAll, failsFirst_append, hterm, ← evaluate_eq_error_iff term,
        ← evaluateAll_eq_error_iff rest, evaluateAll]
      cases context.evaluate resolve term <;>
        cases context.evaluateAll resolve rest <;> simp

end

theorem search_eq_error_iff {query : Query} :
    context.search resolve query = .error e ↔ context.evaluate resolve query = .error e := by
  unfold search
  cases context.evaluate resolve query <;> simp

/-- A search fails if a leaf of its query does not lead to a directory, and its error is that
of the first such leaf from left to right. A path that leads nowhere, like that of a symbolic
link whose target is missing, is not found, and every other error of a lookup is given as it
is. The empty path is among those that are not found. The file system refuses a path with a
zero byte, one that goes through a file, and one with a name that is too long. -/
theorem search_fails_at_first_leaf (context : Context) (resolve : String → Path) (query : Query) :
    ((∃ e, context.search resolve query = .error e) ↔
      ∃ name ∈ query.leaves, ¬context.Listable (resolve name)) ∧
    (∀ e, context.search resolve query = .error e ↔
      ∃ front name back, query.leaves = front ++ name :: back ∧
        (∀ other ∈ front, context.Listable (resolve other)) ∧
        context.Unlistable (resolve name) e) ∧
    ∀ path : Path,
      (∀ cause, context.lookup path = .error cause → context.Unlistable path
        (if cause = .notFound then .notFound path else .filesystem path cause)) ∧
      (path.bytes = [] → context.Unlistable path (.notFound path)) ∧
      ((0 : UInt8) ∈ path.bytes → context.Unlistable path (.filesystem path .nulByte)) ∧
      ∀ component : Component, (0 : UInt8) ∉ component.bytes →
        (∀ above name inode, context.lookup path = .ok (.file above name inode) →
          ¬(path.join component.path).isTooLong = true →
          context.Unlistable (path.join component.path)
            (.filesystem (path.join component.path) .notADirectory)) ∧
        ∀ location, context.lookup path = .ok (.directory (.live location)) →
          255 < component.bytes.length →
          context.Unlistable (path.join component.path)
            (.filesystem (path.join component.path) .nameTooLong) := by
  have hfirst (e : SearchError) : context.search resolve query = .error e ↔
      ∃ front name back, query.leaves = front ++ name :: back ∧
        (∀ other ∈ front, context.Listable (resolve other)) ∧
        context.Unlistable (resolve name) e := by
    rw [search_eq_error_iff, evaluate_eq_error_iff, failsFirst_iff]
  refine ⟨⟨?_, ?_⟩, hfirst, ?_⟩
  · rintro ⟨e, he⟩
    obtain ⟨front, name, back, hleaves, _, hname⟩ := (hfirst e).1 he
    refine ⟨name, ?_, exists_unlistable_iff.1 ⟨e, hname⟩⟩
    rw [hleaves]
    exact List.mem_append_right _ List.mem_cons_self
  · rintro ⟨name, hname, hnot⟩
    cases hsearch : context.search resolve query with
    | error e => exact ⟨e, rfl⟩
    | ok paths =>
        obtain ⟨found, hfound, _⟩ := search_eq_ok hsearch
        have hall := (exists_evaluate_iff query).1 ⟨found, hfound⟩
        exact absurd (isDirectory_iff.1 (hall name hname)) hnot
  · intro path
    refine ⟨fun _ => unlistable_of_lookup, unlistable_of_empty, unlistable_of_zero, ?_⟩
    intro component hnonzero
    constructor
    · intro above name inode hfile hshort
      exact unlistable_join_of_file hnonzero hfile hshort
    · intro location hdirectory hlong
      exact unlistable_join_of_long hnonzero hdirectory hlong

/-- A file `A`, a symbolic link `L` to itself, and a symbolic link `s` to nothing. -/
def snags : Context where
  files := {
    root :=
      .file nameA ⟨0, .regular⟩
      (.file nameL ⟨1, .symlink ⟨[0x4c]⟩⟩
      (.file nameS ⟨2, .symlink ⟨[0x78]⟩⟩ .nil))
    sorted := by
      simp [Contents.Sorted, Contents.names]
      decide }
  cwd := .root
  housed := rfl

-- Each leaf fails in a way of its own, although the first term finds nothing.
example :
    (["A", "A/x", "L", "s", ""].map fun name =>
      snags.search .ofString (.group .all [.group .any [], .dir name, .dir "gone"])) =
    [.error (.notADirectory (.ofString "A")),
      .error (.filesystem (.ofString "A/x") .notADirectory),
      .error (.filesystem (.ofString "L") .tooManyLinks),
      .error (.notFound (.ofString "s")), .error (.notFound (.ofString ""))] := by
  rfl

end LinkTags.Context
