import LinkTags.Proofs.Listing.Complete
import LinkTags.Proofs.Listing.Loop
import LinkTags.Proofs.Search.Leaf
import Mathlib.Data.List.TakeWhile

/-!
# The files of a walk

A walk comes upon the regular files in the directories that can be walked to, upon each of
them once for each entry, and those of a directory before those further down. If a directory
has a path that is too long, the walk fails at the first such directory, after all files of
those before it. The links to a file are the paths at which a walk comes upon it
(`Context.walk_calls_each_file`).

## Implementation notes

What a walk comes upon is told by the names on the way to a directory and the name in it
(`Encounter`). The order of a walk is that of these names, but not that of the paths.
-/

namespace LinkTags

/-- A regular file where a walk comes upon it: the names on the way to its directory, and its
name there. -/
structure Encounter where
  way : List Name
  name : Name
  inode : Inode

namespace Encounter

/-- The path at which a walk from a root comes upon the file. -/
def path (root : Path) (file : Encounter) : Path :=
  (root.through file.way).join file.name.path

def toMatch (root : Path) (file : Encounter) : Match :=
  ⟨.file file.inode, file.path root⟩

/-- The files of a directory come before those further down, and directories and files come
in the order of their names. -/
def Before (first second : Encounter) : Prop :=
  first.way < second.way ∨ first.way = second.way ∧ first.name < second.name

/-- The file is an entry of a directory that is walked to. -/
structure IsBelow (context : Context) (place : Place) (file : Encounter) : Prop where
  walked : context.Walked place (place.below file.way)
  entry : ⟨file.name, .file file.inode⟩ ∈ (context.contentsAt (place.below file.way)).entries
  regular : file.inode.kind = .regular

theorem path_eq_through (root : Path) (file : Encounter) :
    file.path root = root.through (file.way ++ [file.name]) :=
  (Path.through_concat root file.way file.name).symm

theorem Before.path_ne {root : Path} (hne : root.bytes ≠ []) {first second : Encounter}
    (h : first.Before second) : first.path root ≠ second.path root := by
  intro hsame
  rw [path_eq_through, path_eq_through] at hsame
  obtain ⟨hway, hname⟩ := List.append_inj' (Path.through_inj hne hsame) rfl
  rcases h with hlt | ⟨_, hlt⟩
  · rw [hway] at hlt
    exact List.lt_irrefl _ hlt
  · rw [List.singleton_inj.1 hname] at hlt
    exact Std.Irrefl.irrefl _ hlt

end Encounter

/-- What is taken of an ordered list comes before everything that stops the taking. -/
theorem mem_takeWhile_iff {α : Type} {p : α → Bool} {before : α → α → Prop}
    (hbefore : ∀ a b, before a b → ¬before b a) {items : List α} (hitems : items.Pairwise before)
    {item : α} :
    item ∈ items.takeWhile p ↔
      item ∈ items ∧ ∀ other ∈ items, ¬p other = true → before item other := by
  induction hitems with
  | nil => simp
  | @cons first rest hfirst _ ih =>
      rw [List.takeWhile_cons, List.forall_mem_cons, List.mem_cons]
      split
      next htaken =>
        rw [List.mem_cons, ih]
        constructor
        · rintro (rfl | ⟨hmem, hrest⟩)
          · exact ⟨.inl rfl, fun hnot => absurd htaken hnot,
              fun other hother _ => hfirst other hother⟩
          · exact ⟨.inr hmem, fun hnot => absurd htaken hnot, hrest⟩
        · rintro ⟨rfl | hmem, _, hrest⟩
          · exact .inl rfl
          · exact .inr ⟨hmem, hrest⟩
      next hnot =>
        refine iff_of_false List.not_mem_nil ?_
        rintro ⟨rfl | hmem, hearlier, _⟩
        · exact hbefore _ _ (hearlier hnot) (hearlier hnot)
        · exact hbefore _ _ (hearlier hnot) (hfirst item hmem)

namespace Context

variable {context : Context} {root : Path} {place : Place}

/-! ## Reading by paths -/

/-- A directory that a walk visits is read by its path, unless the path is too long. -/
theorem readDirectory_through (hroot : context.lookup root = .ok (.directory place))
    {way : List Name × List Entry} (hway : way ∈ (context.contentsAt place).ways) :
    context.readDirectory (root.through way.1) =
      if (root.through way.1).isTooLong = true then .error .nameTooLong else .ok way.2 := by
  split
  next hlong =>
    exact readDirectory_of_error (lookup_through_of_tooLong hroot hlong)
  next hshort =>
    rw [readDirectory_of_lookup (lookup_of_mem_ways hroot hway hshort),
      entries_of_mem_ways (isDirectory_of_lookup hroot) hway]

theorem failureOf_visits (root : Path) (hplace : context.files.IsDirectory place.base) :
    (context.WalkIsTooLong root place →
        failureOf ((context.contentsAt place).visits root) = some .nameTooLong) ∧
      (¬context.WalkIsTooLong root place →
        failureOf ((context.contentsAt place).visits root) = none) := by
  rw [← any_isTooLong_iff hplace, failureOf]
  exact ⟨fun h => if_pos h, fun h => if_neg h⟩

/-! ## What a walk comes upon -/

/-- The files that a walk comes upon before it comes to a directory whose path is too long. -/
def encounters (context : Context) (root : Path) (place : Place) : List Encounter :=
  ((context.contentsAt place).ways.takeWhile fun way => !(root.through way.1).isTooLong).flatMap
    fun way => (regularEntries way.2).map fun entry => ⟨way.1, entry.1, entry.2⟩

theorem map_toMatch_encounters (context : Context) (root : Path) (place : Place) :
    (context.encounters root place).map (Encounter.toMatch root) =
      (shortVisits ((context.contentsAt place).visits root)).flatMap
        fun visit => regularFiles visit.1 visit.2 := by
  rw [Contents.visits_eq_map_ways, shortVisits, List.takeWhile_map, List.flatMap_map, encounters,
    List.map_flatMap]
  apply List.flatMap_congr
  intro way _
  rw [regularFiles_eq_map, List.map_map]
  rfl

/-- The loop that starts with the root calls back for what the walk comes upon. -/
theorem loops_root (hroot : context.lookup root = .ok (.directory place)) :
    context.Loops [root] ((context.encounters root place).map (Encounter.toMatch root))
      (failureOf ((context.contentsAt place).visits root)) := by
  have hvisits : [(root, context.contentsAt place)].flatMap (fun item => item.2.visits item.1) =
      (context.contentsAt place).visits root := List.flatMap_singleton _ _
  rw [map_toMatch_encounters]
  refine loops_of_reads hvisits ?_
  intro visit hvisit
  rw [Contents.visits_eq_map_ways] at hvisit
  obtain ⟨way, hway, rfl⟩ := List.mem_map.1 hvisit
  exact readDirectory_through hroot hway

theorem mem_encounters_iff (hplace : context.files.IsDirectory place.base) {file : Encounter} :
    file ∈ context.encounters root place ↔ file.IsBelow context place ∧
      ∀ names, context.Walked place (place.below names) →
        (root.through names).isTooLong = true → file.way < names := by
  have hways := List.pairwise_map.1 (Contents.pairwise_ways (sorted_contentsAt context place))
  have hfirst : ∀ names : List Name, (∀ way ∈ (context.contentsAt place).ways,
        ¬(!(root.through way.1).isTooLong) = true → names < way.1) ↔
      ∀ others, context.Walked place (place.below others) →
        (root.through others).isTooLong = true → names < others := by
    intro names
    simp only [Bool.not_eq_true', Bool.not_eq_false]
    constructor
    · intro h others hwalked hlong
      obtain ⟨way, hway, hbelow⟩ := (walked_iff_mem_ways hplace).1 hwalked
      obtain rfl := Place.below_inj hbelow
      exact h way hway hlong
    · intro h way hway hlong
      exact h way.1 ((walked_iff_mem_ways hplace).2 ⟨way, hway, rfl⟩) hlong
  rw [encounters, List.mem_flatMap]
  constructor
  · rintro ⟨way, hway, hfile⟩
    obtain ⟨hway, hbefore⟩ := (mem_takeWhile_iff (fun _ _ => List.lt_asymm) hways).1 hway
    obtain ⟨⟨name, inode⟩, hentry, rfl⟩ := List.mem_map.1 hfile
    obtain ⟨hentry, hregular⟩ := mem_regularEntries.1 hentry
    rw [entries_of_mem_ways hplace hway] at hentry
    have hwalked := (walked_iff_mem_ways hplace).2 ⟨way, hway, rfl⟩
    exact ⟨⟨hwalked, hentry, hregular⟩, (hfirst way.1).1 hbefore⟩
  · rintro ⟨⟨hwalked, hentry, hregular⟩, hbefore⟩
    obtain ⟨names, name, inode⟩ := file
    obtain ⟨way, hway, hbelow⟩ := (walked_iff_mem_ways hplace).1 hwalked
    obtain rfl := Place.below_inj hbelow
    rw [← entries_of_mem_ways hplace hway] at hentry
    refine ⟨way, (mem_takeWhile_iff (fun _ _ => List.lt_asymm) hways).2
      ⟨hway, (hfirst way.1).2 hbefore⟩, ?_⟩
    exact List.mem_map.2 ⟨(name, inode), mem_regularEntries.2 ⟨hentry, hregular⟩, rfl⟩

theorem pairwise_encounters (hplace : context.files.IsDirectory place.base) :
    (context.encounters root place).Pairwise Encounter.Before := by
  have hways := List.pairwise_map.1 (Contents.pairwise_ways (sorted_contentsAt context place))
  rw [encounters, List.pairwise_flatMap]
  constructor
  · intro way hway
    have htaken := (List.takeWhile_sublist _).subset hway
    rw [List.pairwise_map, entries_of_mem_ways hplace htaken]
    refine (pairwise_regularEntries (sorted_contentsAt context _)).imp ?_
    intro first second hlt
    exact .inr ⟨rfl, hlt⟩
  · refine (hways.sublist (List.takeWhile_sublist _)).imp ?_
    intro way other hlt first hfirst second hsecond
    obtain ⟨_, _, rfl⟩ := List.mem_map.1 hfirst
    obtain ⟨_, _, rfl⟩ := List.mem_map.1 hsecond
    exact .inl hlt

/-- No two files are come upon at the same path. -/
theorem nodup_path_encounters (hroot : context.lookup root = .ok (.directory place)) :
    ((context.encounters root place).map (Encounter.path root)).Nodup := by
  obtain ⟨_, hne, _, _⟩ := walk_of_lookup hroot
  rw [List.Nodup, List.pairwise_map]
  exact (pairwise_encounters (isDirectory_of_lookup hroot)).imp fun h => h.path_ne hne

/-! ## Links -/

theorem shortVisits_eq_self {visits : List (Path × List Entry)}
    (h : ¬(visits.any fun visit => visit.1.isTooLong) = true) : shortVisits visits = visits := by
  rw [shortVisits, List.takeWhile_eq_self_iff]
  simpa using h

/-- The walk of a listing gives what the loop gives. -/
theorem map_walkFiles (hroot : context.lookup root = .ok (.directory place)) :
    (context.walkFiles root).map
        (fun visits => visits.flatMap fun visit => regularFiles visit.1 visit.2) =
      (failureOf ((context.contentsAt place).visits root)).elim
        (.ok ((context.encounters root place).map (Encounter.toMatch root))) .error := by
  have hplace := isDirectory_of_lookup hroot
  obtain ⟨hlong, hshort⟩ := failureOf_visits root hplace
  by_cases hwalk : context.WalkIsTooLong root place
  · rw [walkFiles_of_tooLong hroot hwalk, hlong hwalk]
    rfl
  · have hvisits := shortVisits_eq_self ((any_isTooLong_iff hplace).not.2 hwalk)
    rw [walkFiles_of_short hroot hwalk, hshort hwalk, map_toMatch_encounters, hvisits,
      ← Contents.visits_eq_map_ways]
    rfl

theorem flatMap_linksAmong (id : FileId) (visits : List (Path × List Entry)) :
    visits.flatMap (linksAmong id) =
      ((visits.flatMap fun visit => regularFiles visit.1 visit.2).filter
        fun item => item.id = id).map Match.path := by
  rw [List.filter_flatMap, List.map_flatMap]
  rfl

/-- The links to a file are the paths at which the walk comes upon it. -/
theorem links_of_short (hroot : context.lookup root = .ok (.directory place))
    (hshort : ¬context.WalkIsTooLong root place) {file : Path} {id : FileId}
    (hfile : context.identity file = .ok id) :
    context.links root file = .ok (((context.encounters root place).filter
      fun other => .file other.inode = id).map (Encounter.path root)) := by
  have hvisits := (any_isTooLong_iff (isDirectory_of_lookup hroot)).not.2 hshort
  have hfound := map_toMatch_encounters context root place
  rw [shortVisits_eq_self hvisits] at hfound
  rw [links, hfile, walkFiles_of_short hroot hshort, ← Contents.visits_eq_map_ways]
  apply congrArg Except.ok
  calc ((context.contentsAt place).visits root).flatMap (linksAmong id)
      = ((((context.contentsAt place).visits root).flatMap fun visit =>
          regularFiles visit.1 visit.2).filter fun item => item.id = id).map Match.path :=
        flatMap_linksAmong id _
    _ = (((context.encounters root place).map (Encounter.toMatch root)).filter
          fun item => item.id = id).map Match.path := by rw [hfound]
    _ = ((context.encounters root place).filter
          fun other => .file other.inode = id).map (Encounter.path root) := by
        rw [List.filter_map, List.map_map]
        rfl

theorem nodup_links (hroot : context.lookup root = .ok (.directory place)) {file : Path}
    {found : List Path} (h : context.links root file = .ok found) : found.Nodup := by
  cases hfile : context.identity file with
  | error cause => simp [links, hfile] at h
  | ok id =>
      by_cases hlong : context.WalkIsTooLong root place
      · rw [links_of_tooLong hroot hfile hlong] at h
        cases h
      · rw [links_of_short hroot hlong hfile] at h
        cases h
        exact (nodup_path_encounters hroot).sublist (List.filter_sublist.map _)

/-- Links are not listed of what is not there, nor by a walk that is too long. -/
theorem links_eq_error_iff (hroot : context.lookup root = .ok (.directory place)) {file : Path}
    {e : FileError} :
    context.links root file = .error e ↔ context.identity file = .error e ∨
      (∃ id, context.identity file = .ok id) ∧ context.WalkIsTooLong root place ∧
        e = .nameTooLong := by
  cases hfile : context.identity file with
  | error cause => simp [links, hfile]
  | ok id =>
      by_cases hlong : context.WalkIsTooLong root place
      · simp [links_of_tooLong hroot hfile hlong, hlong, eq_comm]
      · simp [links_of_short hroot hlong hfile, hlong]

/-- From a root that leads to a directory, the loop ends, and calls back for the same files as
the recursion, which are those that a walk lists. They are in the order of the names, no two of
them at the same path. If no path is too long, they are the regular files in all directories
that can be walked to, and the links to a file are those of them that are the file. Otherwise
they are those that come before the first directory whose path is too long, and the loop and
the listing of links fail. -/
theorem walk_calls_each_file (context : Context) {root : Path} {place : Place}
    (hroot : context.lookup root = .ok (.directory place)) :
    ∃ (files : List Encounter) (failure : Option FileError),
      (∀ found other, context.Loops [root] found other ↔
        found = files.map (Encounter.toMatch root) ∧ other = failure) ∧
      context.Descends [root] (files.map (Encounter.toMatch root)) failure ∧
      (context.walkFiles root).map
          (fun visits => visits.flatMap fun visit => regularFiles visit.1 visit.2) =
        failure.elim (.ok (files.map (Encounter.toMatch root))) .error ∧
      files.Pairwise Encounter.Before ∧
      (files.map (Encounter.path root)).Nodup ∧
      (¬context.WalkIsTooLong root place → failure = none ∧
        (∀ file, file ∈ files ↔ file.IsBelow context place) ∧
        ∀ path id, context.identity path = .ok id →
          context.links root path = .ok ((files.filter fun file => .file file.inode = id).map
            (Encounter.path root))) ∧
      (context.WalkIsTooLong root place → failure = some .nameTooLong ∧
        ∀ file, file ∈ files ↔ file.IsBelow context place ∧
          ∀ names, context.Walked place (place.below names) →
            (root.through names).isTooLong = true → file.way < names) ∧
      (∀ path found, context.links root path = .ok found → found.Nodup) ∧
      ∀ path e, context.links root path = .error e ↔ context.identity path = .error e ∨
        (∃ id, context.identity path = .ok id) ∧ context.WalkIsTooLong root place ∧
          e = .nameTooLong := by
  have hplace := isDirectory_of_lookup hroot
  have hloop := loops_root hroot
  obtain ⟨hlong, hshort⟩ := failureOf_visits root hplace
  refine ⟨context.encounters root place, _, ?_, hloop.descends, map_walkFiles hroot,
    pairwise_encounters hplace, nodup_path_encounters hroot, ?_, ?_,
    fun _ _ => nodup_links hroot, fun _ _ => links_eq_error_iff hroot⟩
  · intro found other
    constructor
    · exact fun h => h.unique hloop
    · rintro ⟨rfl, rfl⟩
      exact hloop
  · intro hwalk
    refine ⟨hshort hwalk, ?_, fun _ _ => links_of_short hroot hwalk⟩
    intro file
    rw [mem_encounters_iff hplace, and_iff_left_iff_imp]
    intro _ names hwalked hnames
    exact absurd ⟨names, hwalked, hnames⟩ hwalk
  · intro hwalk
    exact ⟨hlong hwalk, fun _ => mem_encounters_iff hplace⟩

/-- A walk of the shelf comes upon four entries of regular files, three of them of one file. -/
theorem shelf_walk_calls_each_file :
    shelf.lookup (.ofString "/") = .ok (.directory .root) ∧
    ∃ files : List Encounter,
      shelf.Loops [.ofString "/"] (files.map (Encounter.toMatch (.ofString "/"))) none ∧
      (∀ file, file ∈ files ↔ file.IsBelow shelf .root) ∧
      files.map (Encounter.path (.ofString "/")) =
        [.ofString "/A/a", .ofString "/A/b", .ofString "/A/c", .ofString "/B/x"] ∧
      shelf.links (.ofString "/") (.ofString "A/../B/x") =
        .ok ((files.filter fun file => .file file.inode = FileId.file ⟨0, .regular⟩).map
          (Encounter.path (.ofString "/"))) := by
  have hroot : shelf.lookup (.ofString "/") = .ok (.directory .root) := by rfl
  have hplace : shelf.files.IsDirectory Place.root.base := shelf.housed
  have hshort : ¬shelf.WalkIsTooLong (.ofString "/") .root := by
    rw [← any_isTooLong_iff hplace]
    decide
  obtain ⟨files, failure, hloop, _, hwalk, _, _, hfiles, _⟩ := walk_calls_each_file shelf hroot
  obtain ⟨rfl, hbelow, hlinks⟩ := hfiles hshort
  have hpaths : (files.map (Encounter.toMatch (.ofString "/"))).map Match.path =
      [.ofString "/A/a", .ofString "/A/b", .ofString "/A/c", .ofString "/B/x"] := by
    rw [← Except.ok.inj hwalk]
    rfl
  rw [List.map_map] at hpaths
  exact ⟨hroot, files, (hloop _ _).2 ⟨rfl, rfl⟩, hbelow, hpaths, hlinks _ _ rfl⟩

/-- In a library that is too deep, the walk fails, and no link is listed of a file in the root,
although the file is there and the root can be read. -/
theorem shaft_walk_fails :
    shaft.lookup (.ofString "/") = .ok (.directory .root) ∧
    shaft.identity (.ofString "/0123456789") = .ok (.file ⟨0, .regular⟩) ∧
    (∃ entries, shaft.readDirectory (.ofString "/") = .ok entries ∧
      ⟨digits, .file ⟨0, .regular⟩⟩ ∈ entries) ∧
    shaft.links (.ofString "/") (.ofString "/0123456789") = .error .nameTooLong ∧
    ∀ found failure, shaft.Loops [.ofString "/"] found failure → failure = some .nameTooLong := by
  have hroot : shaft.lookup (.ofString "/") = .ok (.directory .root) := by rfl
  have hfile : shaft.identity (.ofString "/0123456789") = .ok (.file ⟨0, .regular⟩) := by rfl
  have hlong : shaft.WalkIsTooLong (.ofString "/") .root := shaft_walkIsTooLong (by decide)
  refine ⟨hroot, hfile, ⟨_, readDirectory_of_lookup hroot, mem_entries_contentsAt.2 ⟨rfl, rfl⟩⟩,
    links_of_tooLong hroot hfile hlong, ?_⟩
  intro found failure hloop
  rw [(hloop.unique (loops_root hroot)).2]
  exact (failureOf_visits _ (isDirectory_of_lookup hroot)).1 hlong

end Context

end LinkTags
