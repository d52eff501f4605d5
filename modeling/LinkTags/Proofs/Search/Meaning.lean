import LinkTags.Proofs.FileSystem.Walk
import LinkTags.Search
import Mathlib.Data.List.Forall2

/-!
# What a search finds

A query stands for files: a leaf for the regular files that are entries of its
directory, a group for the files that all of its terms stand for, or any of them
(`Finds`). A search that succeeds gives every such file once, by a path that joins the
path of a leaf with the name of an entry, and this path names the file unless it is
too long (`search_finds_each_file_once`).

## Implementation notes

What the terms of a group give is a list of lists of matches, so the induction over
queries carries a relation between lists (`List.Forall₂`). Paths get their meaning only
at the leaves: groups choose among matches, and look at nothing but their files.
-/

namespace LinkTags

namespace Context

/-- The path leads to the directory at a location, and this directory has the regular
file as its entry under a name. -/
structure HoldsFile (context : Context) (path : Path) (location : Location) (name : Name)
    (inode : Inode) : Prop where
  leads : context.lookup path = .ok (.directory (.live location))
  node : context.files.node? (name :: location) = some (.file inode)
  regular : inode.kind = .regular

/-- The files that a query stands for. A group of terms that all have to hold stands
for none if it has no terms. -/
inductive Finds (context : Context) (resolve : String → Path) : Query → FileId → Prop where
  | dir {name : String} {location : Location} {entry : Name} {inode : Inode}
      (h : context.HoldsFile (resolve name) location entry inode) :
      Finds context resolve (.dir name) (.file inode)
  | all {terms : List Query} {id : FileId} (hne : terms ≠ [])
      (h : ∀ term ∈ terms, Finds context resolve term id) :
      Finds context resolve (.group .all terms) id
  | any {terms : List Query} {term : Query} {id : FileId} (hmem : term ∈ terms)
      (h : Finds context resolve term id) : Finds context resolve (.group .any terms) id

section Finds

variable {context : Context} {resolve : String → Path} {id : FileId}

theorem finds_dir_iff {name : String} :
    context.Finds resolve (.dir name) id ↔
      ∃ location entry inode, context.HoldsFile (resolve name) location entry inode ∧
        id = .file inode := by
  constructor
  · intro h
    cases h with
    | dir h => exact ⟨_, _, _, h, rfl⟩
  · rintro ⟨location, entry, inode, h, rfl⟩
    exact .dir h

theorem finds_all_iff {terms : List Query} :
    context.Finds resolve (.group .all terms) id ↔
      terms ≠ [] ∧ ∀ term ∈ terms, context.Finds resolve term id := by
  constructor
  · intro h
    cases h with
    | all hne h => exact ⟨hne, h⟩
  · rintro ⟨hne, h⟩
    exact .all hne h

theorem finds_any_iff {terms : List Query} :
    context.Finds resolve (.group .any terms) id ↔
      ∃ term ∈ terms, context.Finds resolve term id := by
  constructor
  · intro h
    cases h with
    | any hmem h => exact ⟨_, hmem, h⟩
  · rintro ⟨term, hmem, h⟩
    exact .any hmem h

end Finds

end Context

/-! ## Lists of matches -/

namespace Match

variable {id : FileId} {item : Match}

theorem covers_iff {found : List Match} : covers found id = true ↔ id ∈ found.map Match.id := by
  simp [covers]

theorem sublist_distinct (found : List Match) : (distinct found).Sublist found := by
  induction found with
  | nil => exact .slnil
  | cons first rest ih => exact (List.filter_sublist.trans ih).cons_cons first

theorem nodup_distinct (found : List Match) : ((distinct found).map Match.id).Nodup := by
  induction found with
  | nil => exact .nil
  | cons first rest ih =>
      rw [distinct, List.map_cons, List.nodup_cons]
      constructor
      · intro hmem
        obtain ⟨other, hother, heq⟩ := List.mem_map.1 hmem
        simp [heq] at hother
      · exact ih.sublist (List.filter_sublist.map _)

/-- Leaving out matches whose file has come before leaves out no file. -/
theorem mem_ids_distinct {found : List Match} :
    id ∈ (distinct found).map Match.id ↔ id ∈ found.map Match.id := by
  induction found with
  | nil => rfl
  | cons first rest ih =>
      by_cases hfirst : id = first.id
      · simp [distinct, hfirst]
      · rw [distinct, List.map_cons, List.map_cons, List.mem_cons, List.mem_cons, ← ih]
        simp only [hfirst, false_or, List.mem_map, List.mem_filter, decide_eq_true_eq]
        constructor
        · rintro ⟨other, ⟨hmem, _⟩, rfl⟩
          exact ⟨other, hmem, rfl⟩
        · rintro ⟨other, hmem, rfl⟩
          exact ⟨other, ⟨hmem, hfirst⟩, rfl⟩

theorem mem_common_cons {first : List Match} {others : List (List Match)} :
    item ∈ common (first :: others) ↔
      item ∈ first ∧ ∀ found ∈ others, item.id ∈ found.map Match.id := by
  simp [common, covers_iff]

theorem mem_ids_common_cons {first : List Match} {others : List (List Match)} :
    id ∈ (common (first :: others)).map Match.id ↔
      ∀ found ∈ first :: others, id ∈ found.map Match.id := by
  rw [List.forall_mem_cons, List.mem_map]
  constructor
  · rintro ⟨item, hitem, rfl⟩
    obtain ⟨hfirst, hothers⟩ := mem_common_cons.1 hitem
    exact ⟨List.mem_map_of_mem hfirst, hothers⟩
  · rintro ⟨hfirst, hothers⟩
    obtain ⟨item, hitem, rfl⟩ := List.mem_map.1 hfirst
    exact ⟨item, mem_common_cons.2 ⟨hitem, hothers⟩, rfl⟩

theorem nodup_common {founds : List (List Match)}
    (h : ∀ found ∈ founds, (found.map Match.id).Nodup) :
    ((common founds).map Match.id).Nodup := by
  cases founds with
  | nil => exact .nil
  | cons first others => exact (h first (by simp)).sublist (List.filter_sublist.map _)

theorem mem_ids_union {founds : List (List Match)} :
    id ∈ (union founds).map Match.id ↔ ∃ found ∈ founds, id ∈ found.map Match.id := by
  rw [union, mem_ids_distinct, List.map_flatten]
  simp

/-- A group gives only matches that one of its terms gave. -/
theorem exists_mem_of_mem_combine {operator : Operator} {founds : List (List Match)}
    (h : item ∈ operator.combine founds) : ∃ found ∈ founds, item ∈ found := by
  cases operator with
  | all =>
      cases founds with
      | nil => contradiction
      | cons first others => exact ⟨first, by simp, (mem_common_cons.1 h).1⟩
  | any => exact List.mem_flatten.1 ((sublist_distinct _).subset h)

end Match

theorem Query.mem_leavesAll {name : String} {terms : List Query} :
    name ∈ leavesAll terms ↔ ∃ term ∈ terms, name ∈ term.leaves := by
  induction terms with
  | nil => simp [leavesAll]
  | cons term rest ih => simp [leavesAll, ih]

/-! ## Regular files among entries -/

/-- The regular files among the entries of a directory, each with its name. -/
def regularEntries (entries : List Entry) : List (Name × Inode) :=
  entries.filterMap fun entry =>
    match entry.node with
    | .file inode => if inode.kind = .regular then some (entry.name, inode) else none
    | .directory => none

/-- The match that a file gives, by its name in the directory that a path leads to. -/
def Match.ofEntry (path : Path) (entry : Name × Inode) : Match :=
  ⟨.file entry.2, path.join entry.1.path⟩

theorem regularFiles_eq_map (path : Path) (entries : List Entry) :
    regularFiles path entries = (regularEntries entries).map (Match.ofEntry path) := by
  rw [regularFiles, regularEntries, List.map_filterMap]
  congr 1
  funext entry
  cases entry.node with
  | directory => rfl
  | file inode =>
      dsimp only
      split <;> rfl

theorem mem_regularEntries {entries : List Entry} {name : Name} {inode : Inode} :
    (name, inode) ∈ regularEntries entries ↔
      ⟨name, .file inode⟩ ∈ entries ∧ inode.kind = .regular := by
  rw [regularEntries, List.mem_filterMap]
  constructor
  · rintro ⟨⟨other, node⟩, hentry, hfile⟩
    cases node with
    | directory => contradiction
    | file inode =>
        simp only [Option.ite_none_right_eq_some, Option.some.injEq, Prod.mk.injEq] at hfile
        obtain ⟨hregular, rfl, rfl⟩ := hfile
        exact ⟨hentry, hregular⟩
  · rintro ⟨hentry, hregular⟩
    exact ⟨_, hentry, if_pos hregular⟩

theorem mem_regularFiles {path : Path} {entries : List Entry} {item : Match} :
    item ∈ regularFiles path entries ↔
      ∃ name inode, ⟨name, .file inode⟩ ∈ entries ∧ inode.kind = .regular ∧
        item = ⟨.file inode, path.join name.path⟩ := by
  rw [regularFiles_eq_map, List.mem_map]
  constructor
  · rintro ⟨⟨name, inode⟩, hmem, rfl⟩
    obtain ⟨hentry, hregular⟩ := mem_regularEntries.1 hmem
    exact ⟨name, inode, hentry, hregular, rfl⟩
  · rintro ⟨name, inode, hentry, hregular, rfl⟩
    exact ⟨(name, inode), mem_regularEntries.2 ⟨hentry, hregular⟩, rfl⟩

namespace Context

/-! ## What a directory gives -/

theorem mem_entries_contentsAt {context : Context} {place : Place} {entry : Entry} :
    entry ∈ (context.contentsAt place).entries ↔
      place.lost = 0 ∧ context.files.node? (entry.name :: place.base) = some entry.node := by
  unfold contentsAt
  split
  next hlost => simp [hlost, FileSystem.mem_entries_contentsIn]
  next hlost => simp [hlost, Contents.entries]

theorem readDirectory_eq_ok {context : Context} {path : Path} {entries : List Entry}
    (h : context.readDirectory path = .ok entries) :
    ∃ place, context.lookup path = .ok (.directory place) ∧
      entries = (context.contentsAt place).entries := by
  rw [readDirectory_eq, contentsOf, directoryAt] at h
  cases hlookup : context.lookup path with
  | error e => simp [hlookup, Except.map] at h
  | ok found =>
      cases found with
      | file directory name inode => simp [hlookup, Except.map] at h
      | directory place =>
          simp only [hlookup, Except.map, Except.ok.injEq] at h
          exact ⟨place, rfl, h.symm⟩

/-- A path that leads to a directory is read as what the directory holds. -/
theorem readDirectory_of_lookup {context : Context} {path : Path} {place : Place}
    (h : context.lookup path = .ok (.directory place)) :
    context.readDirectory path = .ok (context.contentsAt place).entries := by
  rw [readDirectory_eq, contentsOf, directoryAt, h]
  rfl

theorem readDirectory_of_error {context : Context} {path : Path} {cause : FileError}
    (h : context.lookup path = .error cause) : context.readDirectory path = .error cause := by
  rw [readDirectory, contentsOf, directoryAt, h]

theorem mem_regularEntries_readDirectory {context : Context} {path : Path}
    {entries : List Entry} (h : context.readDirectory path = .ok entries) {name : Name}
    {inode : Inode} :
    (name, inode) ∈ regularEntries entries ↔
      ∃ location, context.HoldsFile path location name inode := by
  obtain ⟨⟨base, lost⟩, hlookup, rfl⟩ := readDirectory_eq_ok h
  rw [mem_regularEntries, mem_entries_contentsAt]
  constructor
  · rintro ⟨⟨rfl, hnode⟩, hregular⟩
    exact ⟨base, hlookup, hnode, hregular⟩
  · rintro ⟨location, hleads, hnode, hregular⟩
    obtain ⟨rfl, rfl⟩ : base = location ∧ lost = 0 := by
      simpa [hlookup, Place.live] using hleads
    exact ⟨⟨rfl, hnode⟩, hregular⟩

/-- The regular files of a directory that is read are those that its path holds. -/
theorem mem_regularFiles_readDirectory {context : Context} {path : Path} {entries : List Entry}
    {item : Match} (h : context.readDirectory path = .ok entries) :
    item ∈ regularFiles path entries ↔
      ∃ location name inode, context.HoldsFile path location name inode ∧
        item = ⟨.file inode, path.join name.path⟩ := by
  simp only [mem_regularFiles, ← and_assoc, ← mem_regularEntries,
    mem_regularEntries_readDirectory h]
  constructor
  · rintro ⟨name, inode, ⟨location, hholds⟩, rfl⟩
    exact ⟨location, name, inode, hholds, rfl⟩
  · rintro ⟨location, name, inode, hholds, rfl⟩
    exact ⟨name, inode, ⟨location, hholds⟩, rfl⟩

theorem matchesIn_eq_ok {context : Context} {path : Path} {found : List Match}
    (h : context.matchesIn path = .ok found) :
    ∃ entries, context.readDirectory path = .ok entries ∧
      found = Match.distinct (regularFiles path entries) := by
  unfold matchesIn at h
  split at h
  next entries hread =>
    cases h
    exact ⟨entries, hread, rfl⟩
  · contradiction
  · split at h <;> cases h

/-! ## What a query gives -/

/-- The matches are those of a query: each file that it stands for once, and each by a
path to an entry of a leaf. -/
structure Represents (context : Context) (resolve : String → Path) (query : Query)
    (found : List Match) : Prop where
  nodup : (found.map Match.id).Nodup
  mem_iff : ∀ id, id ∈ found.map Match.id ↔ context.Finds resolve query id
  witnessed : ∀ item ∈ found, ∃ name ∈ query.leaves, ∃ location entry inode,
    context.HoldsFile (resolve name) location entry inode ∧
      item = ⟨.file inode, (resolve name).join entry.path⟩

section Represents

variable {context : Context} {resolve : String → Path}

theorem represents_dir {name : String} {found : List Match}
    (h : context.matchesIn (resolve name) = .ok found) :
    context.Represents resolve (.dir name) found := by
  obtain ⟨entries, hread, rfl⟩ := matchesIn_eq_ok h
  constructor
  · exact Match.nodup_distinct _
  · intro id
    rw [Match.mem_ids_distinct, finds_dir_iff, List.mem_map]
    constructor
    · rintro ⟨item, hitem, rfl⟩
      obtain ⟨location, entry, inode, hholds, rfl⟩ :=
        (mem_regularFiles_readDirectory hread).1 hitem
      exact ⟨location, entry, inode, hholds, rfl⟩
    · rintro ⟨location, entry, inode, hholds, rfl⟩
      exact ⟨_, (mem_regularFiles_readDirectory hread).2 ⟨_, _, _, hholds, rfl⟩, rfl⟩
  · intro item hitem
    have hmem := (Match.sublist_distinct _).subset hitem
    exact ⟨name, by simp [Query.leaves], (mem_regularFiles_readDirectory hread).1 hmem⟩

variable {terms : List Query} {founds : List (List Match)}

theorem forall_mem_ids_iff (h : List.Forall₂ (context.Represents resolve) terms founds)
    (id : FileId) :
    (∀ found ∈ founds, id ∈ found.map Match.id) ↔
      ∀ term ∈ terms, context.Finds resolve term id := by
  induction h with
  | nil => simp
  | cons hfirst _ ih => rw [List.forall_mem_cons, List.forall_mem_cons, ih, hfirst.mem_iff]

theorem exists_mem_ids_iff (h : List.Forall₂ (context.Represents resolve) terms founds)
    (id : FileId) :
    (∃ found ∈ founds, id ∈ found.map Match.id) ↔
      ∃ term ∈ terms, context.Finds resolve term id := by
  induction h with
  | nil => simp
  | cons hfirst _ ih =>
      rw [List.exists_mem_cons_iff, List.exists_mem_cons_iff, ih, hfirst.mem_iff]

theorem exists_represents (h : List.Forall₂ (context.Represents resolve) terms founds)
    {found : List Match} (hfound : found ∈ founds) :
    ∃ term ∈ terms, context.Represents resolve term found := by
  induction h with
  | nil => contradiction
  | cons hfirst _ ih =>
      rcases List.mem_cons.1 hfound with rfl | hmem
      · exact ⟨_, by simp, hfirst⟩
      · obtain ⟨term, hterm, hrepresents⟩ := ih hmem
        exact ⟨term, by simp [hterm], hrepresents⟩

/-- What the terms of a group give is combined to what the group gives. -/
theorem represents_group (operator : Operator)
    (h : List.Forall₂ (context.Represents resolve) terms founds) :
    context.Represents resolve (.group operator terms) (operator.combine founds) := by
  have hnodup : ∀ found ∈ founds, (found.map Match.id).Nodup := by
    intro found hfound
    obtain ⟨term, _, hterm⟩ := exists_represents h hfound
    exact hterm.nodup
  constructor
  · cases operator with
    | all => exact Match.nodup_common hnodup
    | any => exact Match.nodup_distinct _
  · intro id
    cases operator with
    | all =>
        rw [finds_all_iff, ← forall_mem_ids_iff h]
        cases h with
        | nil => simp [Operator.combine, Match.common]
        | cons hfirst hrest =>
            rw [Operator.combine, Match.mem_ids_common_cons]
            simp
    | any => rw [finds_any_iff, ← exists_mem_ids_iff h, Operator.combine, Match.mem_ids_union]
  · intro item hitem
    obtain ⟨found, hfound, hmem⟩ := Match.exists_mem_of_mem_combine hitem
    obtain ⟨term, hterm, hrepresents⟩ := exists_represents h hfound
    obtain ⟨name, hname, hwitness⟩ := hrepresents.witnessed item hmem
    exact ⟨name, Query.mem_leavesAll.2 ⟨term, hterm, hname⟩, hwitness⟩

end Represents

variable {context : Context} {resolve : String → Path}

mutual

theorem represents_of_evaluate {query : Query} {found : List Match}
    (h : context.evaluate resolve query = .ok found) :
    context.Represents resolve query found := by
  match query with
  | .dir name => exact represents_dir h
  | .group operator terms =>
      rw [evaluate] at h
      split at h
      · contradiction
      next founds hfounds =>
        cases h
        exact represents_group operator (represents_of_evaluateAll hfounds)

theorem represents_of_evaluateAll {terms : List Query} {founds : List (List Match)}
    (h : context.evaluateAll resolve terms = .ok founds) :
    List.Forall₂ (context.Represents resolve) terms founds := by
  match terms with
  | [] =>
      cases h
      exact .nil
  | term :: rest =>
      rw [evaluateAll] at h
      split at h
      · contradiction
      next found hfound =>
        split at h
        · contradiction
        next others hothers =>
          cases h
          exact .cons (represents_of_evaluate hfound) (represents_of_evaluateAll hothers)

end

theorem search_eq_ok {query : Query} {paths : List Path}
    (h : context.search resolve query = .ok paths) :
    ∃ found, context.evaluate resolve query = .ok found ∧ paths = found.map Match.path := by
  unfold search at h
  split at h
  · contradiction
  next found hfound =>
    cases h
    exact ⟨found, hfound, rfl⟩

/-- The files of a search that succeeds are different, and are those that its query
stands for. Each path joins the path of a leaf with an entry of the leaf's directory,
and names the regular file that it was given for, unless it is too long. -/
theorem search_finds_each_file_once (context : Context) (resolve : String → Path)
    (query : Query) (paths : List Path) (h : context.search resolve query = .ok paths) :
    ∃ found : List Match, context.evaluate resolve query = .ok found ∧
      paths = found.map Match.path ∧
      (found.map Match.id).Nodup ∧
      (∀ id, id ∈ found.map Match.id ↔ context.Finds resolve query id) ∧
      ∀ item ∈ found, ∃ name ∈ query.leaves, ∃ location entry inode,
        context.HoldsFile (resolve name) location entry inode ∧
        item.id = .file inode ∧
        item.path = (resolve name).join entry.path ∧
        context.lookupEntry item.path =
          if item.path.isTooLong = true then .error .nameTooLong
          else .ok (.file location entry inode) := by
  obtain ⟨found, hfound, hpaths⟩ := search_eq_ok h
  have hrepresents := represents_of_evaluate hfound
  refine ⟨found, hfound, hpaths, hrepresents.nodup, hrepresents.mem_iff, ?_⟩
  intro item hitem
  obtain ⟨name, hname, location, entry, inode, hholds, rfl⟩ := hrepresents.witnessed item hitem
  exact ⟨name, hname, location, entry, inode, hholds, rfl, rfl,
    lookupEntry_join_file hholds.leads hholds.node⟩

/-- A library with the directories `A` and `B`. In `A`, `a` and `b` are links to one file
and `c` is another; `x` in `B` is a third link to the first. -/
def shelf : Context where
  files := {
    root :=
      .directory ⟨⟨[0x2e, 0x68, 0x61, 0x72, 0x64, 0x74, 0x61, 0x67], by decide⟩,
        by decide, by decide⟩ .nil
      (.directory ⟨⟨[0x41], by decide⟩, by decide, by decide⟩
        (.file ⟨⟨[0x61], by decide⟩, by decide, by decide⟩ ⟨0, .regular⟩
        (.file ⟨⟨[0x62], by decide⟩, by decide, by decide⟩ ⟨0, .regular⟩
        (.file ⟨⟨[0x63], by decide⟩, by decide, by decide⟩ ⟨1, .regular⟩ .nil)))
      (.directory ⟨⟨[0x42], by decide⟩, by decide, by decide⟩
        (.file ⟨⟨[0x78], by decide⟩, by decide, by decide⟩ ⟨0, .regular⟩ .nil) .nil))
    sorted := by
      simp [Contents.Sorted, Contents.names]
      decide }
  cwd := .root
  housed := rfl

/-- Of the three links to the file that both directories hold, the first in `A` is given. -/
theorem shelf_search_intersection :
    ∃ found : List Match,
      shelf.evaluate Path.ofString (.group .all [.dir "A", .group .any [.dir "/B", .dir "B/."]]) =
        .ok found ∧
      [Path.ofString "A/a"] = found.map Match.path ∧ (found.map Match.id).Nodup ∧
      ∀ id, id ∈ found.map Match.id ↔ shelf.Finds Path.ofString
        (.group .all [.dir "A", .group .any [.dir "/B", .dir "B/."]]) id := by
  have hsearch : shelf.search Path.ofString
      (.group .all [.dir "A", .group .any [.dir "/B", .dir "B/."]]) =
        .ok [Path.ofString "A/a"] := by
    simp only [search, evaluate, evaluateAll, matchesIn, readDirectory_eq]
    rfl
  obtain ⟨found, hfound, hpaths, hnodup, hids, _⟩ :=
    search_finds_each_file_once shelf Path.ofString _ _ hsearch
  exact ⟨found, hfound, hpaths, hnodup, hids⟩

/-- The name `0123456789`. -/
def digits : Name :=
  ⟨⟨[0x30, 0x31, 0x32, 0x33, 0x34, 0x35, 0x36, 0x37, 0x38, 0x39], by decide⟩,
    by decide, by decide⟩

/-- A library with the file `0123456789` in its root. -/
def tray : Context where
  files := {
    root :=
      .directory ⟨⟨[0x2e, 0x68, 0x61, 0x72, 0x64, 0x74, 0x61, 0x67], by decide⟩,
        by decide, by decide⟩ .nil
      (.file digits ⟨0, .regular⟩ .nil)
    sorted := by
      simp [Contents.Sorted, Contents.names]
      decide }
  cwd := .root
  housed := rfl

/-- The root, with so many slashes that there is no room left for ten bytes. -/
def fullRoot : Path := ⟨List.replicate 4086 slash⟩

theorem lookup_fullRoot : tray.lookup fullRoot = .ok (.directory .root) :=
  lookup_slashes tray (by decide) (by decide)

theorem search_tray {resolve : String → Path} {name : String}
    (h : tray.lookup (resolve name) = .ok (.directory .root)) :
    tray.search resolve (.dir name) = .ok [(resolve name).join digits.path] := by
  have hread : tray.readDirectory (resolve name) = .ok tray.files.root.entries := by
    rw [readDirectory_of_lookup h]
    rfl
  rw [search, evaluate, matchesIn, hread]
  rfl

theorem isTooLong_fullRoot_join : (fullRoot.join digits.path).isTooLong = true := by
  have hlength : fullRoot.bytes.length = 4086 := List.length_replicate
  have hne : fullRoot.bytes ≠ [] := List.ne_nil_of_length_pos (by omega)
  have hdigits : digits.path.bytes.length = 10 := rfl
  apply Path.isTooLong_join_of_lt hne (Path.isAbsolute_component _)
  rw [hlength, hdigits, pathLimit]
  decide

theorem identity_fullRoot_join :
    tray.identity (fullRoot.join digits.path) = .error .nameTooLong := by
  have hnode : tray.files.node? [digits] = some (.file ⟨0, .regular⟩) := by decide
  rw [identity, lookupEntry_join_file lookup_fullRoot hnode, if_pos isTooLong_fullRoot_join]

/-- A search can give a path that names no file, because the path is too long. -/
theorem search_gives_path_too_long :
    tray.search Path.ofString (.dir (String.ofList (List.replicate 4086 '/'))) =
        .ok [fullRoot.join digits.path] ∧
      tray.identity (fullRoot.join digits.path) = .error .nameTooLong := by
  have hresolve := Path.ofString_slashes 4086
  constructor
  · rw [search_tray (hresolve ▸ lookup_fullRoot), hresolve]
    rfl
  · exact identity_fullRoot_join

end Context

end LinkTags
