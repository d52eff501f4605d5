import LinkTags.Listing
import LinkTags.Proofs.FileSystem.Walk

/-!
# What a walk visits

A walk of a library comes to the directories below its root by their ways down: the
names from the root on, the outermost first. The ways are those through real directories
that are not the marker (`Contents.mem_ways_iff`), and they come in the order of their
names, a directory before what is in it (`Contents.pairwise_ways`). In a file system they
lead to the directories that can be walked to (`Context.walked_iff_mem_ways`).

## Implementation notes

`visits` gives each directory by a path that starts with the path of the root, which may
be spelled in any way. `ways` is the same walk with nothing but the names
(`Contents.visits_eq_map_ways`), so that order and completeness are said of it alone.
-/

namespace LinkTags

/-- The name of the directory that marks the root of a library. -/
def markerName : Name := ⟨⟨marker.bytes, by decide⟩, by decide, by decide⟩

theorem markerName_path : markerName.path = marker := rfl

namespace Contents

/-- The ways to the directories that a walk visits below this one, with their entries. -/
def waysBelow : Contents → List (List Name × List Entry)
  | .nil => []
  | .file _ _ rest => rest.waysBelow
  | .directory name inside rest =>
      if name.path = marker then rest.waysBelow
      else
        ([name], inside.entries) :: inside.waysBelow.map (fun way => (name :: way.1, way.2)) ++
          rest.waysBelow

/-- The ways to the directories that a walk visits from this one on, with their entries. -/
def ways (contents : Contents) : List (List Name × List Entry) :=
  ([], contents.entries) :: contents.waysBelow

theorem waysBelow_cons_directory (name : Name) (inside rest : Contents) :
    (cons name (.directory inside) rest).waysBelow =
      if name.path = marker then rest.waysBelow
      else inside.ways.map (fun way => (name :: way.1, way.2)) ++ rest.waysBelow := rfl

theorem waysBelow_cons_file (name : Name) (inode : Inode) (rest : Contents) :
    (cons name (.file inode) rest).waysBelow = rest.waysBelow := rfl

theorem visitsBelow_eq_map_waysBelow (path : Path) (contents : Contents) :
    contents.visitsBelow path =
      contents.waysBelow.map fun way => (path.through way.1, way.2) := by
  induction contents generalizing path with
  | nil => rfl
  | file name inode rest ih => exact ih path
  | directory name inside rest ihInside ih =>
      rw [visitsBelow, waysBelow]
      split
      · exact ih path
      · rw [ihInside, ih, List.map_append, List.map_cons, List.map_map]
        rfl

/-- A walk visits the directories at the ends of the ways. -/
theorem visits_eq_map_ways (path : Path) (contents : Contents) :
    contents.visits path = contents.ways.map fun way => (path.through way.1, way.2) := by
  rw [visits, visitsBelow_eq_map_waysBelow]
  rfl

/-! ## Which ways there are -/

variable {contents : Contents} {names : List Name} {entries : List Entry}

theorem ne_nil_of_mem_waysBelow (h : (names, entries) ∈ contents.waysBelow) : names ≠ [] := by
  induction contents using induction_cons with
  | nil => contradiction
  | cons first item rest _ ih =>
      cases item with
      | file inode => exact ih h
      | directory inside =>
          rw [waysBelow_cons_directory] at h
          split at h
          · exact ih h
          · rcases List.mem_append.1 h with hinside | hrest
            · obtain ⟨way, _, hway⟩ := List.mem_map.1 hinside
              cases hway
              exact List.cons_ne_nil _ _
            · exact ih hrest

theorem mem_ways_nil : ([], entries) ∈ contents.ways ↔ entries = contents.entries := by
  rw [ways, List.mem_cons]
  constructor
  · rintro (h | h)
    · exact congrArg Prod.snd h
    · exact absurd rfl (ne_nil_of_mem_waysBelow h)
  · rintro rfl
    exact .inl rfl

/-- A way further down begins with a directory that is not the marker. -/
theorem mem_ways_cons (hsorted : contents.Sorted) {first : Name} {more : List Name} :
    (first :: more, entries) ∈ contents.ways ↔
      first.path ≠ marker ∧
        ∃ inside, contents.find? first = some (.directory inside) ∧
          (more, entries) ∈ inside.ways := by
  have hbelow : (first :: more, entries) ∈ contents.ways ↔
      (first :: more, entries) ∈ contents.waysBelow := by
    simp [ways]
  rw [hbelow]
  clear hbelow
  induction contents using induction_cons with
  | nil => simp [waysBelow, find?]
  | cons name item rest _ ih =>
      have hfree := find?_rest_of_sorted hsorted
      have hrest := ih (sorted_cons.1 hsorted).2.2
      cases item with
      | file inode =>
          rw [waysBelow_cons_file, find?_cons]
          by_cases hname : name = first
          · subst hname
            simp [hrest, hfree]
          · simp [hrest, hname]
      | directory inside =>
          rw [waysBelow_cons_directory, find?_cons]
          by_cases hname : name = first
          · subst hname
            by_cases hmarker : name.path = marker
            · simp [hmarker, hrest]
            · simp [hmarker, hrest, hfree]
          · by_cases hmarker : name.path = marker
            · simp [hmarker, hname, hrest]
            · simp [hmarker, hname, hrest]

/-- The ways go through directories that are there and are not the marker. -/
theorem mem_ways_iff (hsorted : contents.Sorted) :
    (names, entries) ∈ contents.ways ↔
      (∀ name ∈ names, name.path ≠ marker) ∧
        ∃ inside, contents.reach? names = some (.directory inside) ∧
          entries = inside.entries := by
  induction names generalizing contents with
  | nil => simp [mem_ways_nil, reach?]
  | cons first more ih =>
      rw [mem_ways_cons hsorted, List.forall_mem_cons, and_assoc, reach?]
      apply and_congr_right
      intro _
      constructor
      · rintro ⟨inside, hfind, hmore⟩
        obtain ⟨hopen, deeper, hreach, hentries⟩ := (ih (sorted_of_find? hsorted hfind)).1 hmore
        exact ⟨hopen, deeper, by simpa [hfind] using hreach, hentries⟩
      · rintro ⟨hopen, deeper, hreach, hentries⟩
        split at hreach
        next inside hfind =>
          have hmore := (ih (sorted_of_find? hsorted hfind)).2 ⟨hopen, deeper, hreach, hentries⟩
          exact ⟨inside, hfind, hmore⟩
        · split at hreach <;> cases hreach
        · contradiction

/-! ## Their order -/

/-- The names in a directory are different. -/
theorem nodup_map_name_entries (hsorted : contents.Sorted) :
    (contents.entries.map Entry.name).Nodup := by
  rw [map_name_entries]
  refine (pairwise_names hsorted).imp ?_
  rintro name _ hlt rfl
  exact Std.Irrefl.irrefl name hlt

theorem mem_names_of_mem_waysBelow {first : Name} {more : List Name} (hsorted : contents.Sorted)
    (h : (first :: more, entries) ∈ contents.waysBelow) : first ∈ contents.names := by
  have hways : (first :: more, entries) ∈ contents.ways := List.mem_cons_of_mem _ h
  obtain ⟨_, inside, hfind, _⟩ := (mem_ways_cons hsorted).1 hways
  apply Decidable.by_contra
  intro hnot
  rw [find?_eq_none_iff.2 hnot] at hfind
  contradiction

/-- A directory comes before what is in it. -/
theorem pairwise_ways_of_waysBelow (h : (contents.waysBelow.map Prod.fst).Pairwise (· < ·)) :
    (contents.ways.map Prod.fst).Pairwise (· < ·) := by
  apply List.Pairwise.cons ?_ h
  intro names hmem
  obtain ⟨⟨_, entries⟩, hway, rfl⟩ := List.mem_map.1 hmem
  obtain ⟨first, more, rfl⟩ := List.exists_cons_of_ne_nil (ne_nil_of_mem_waysBelow hway)
  exact List.nil_lt_cons first more

theorem pairwise_waysBelow (hsorted : contents.Sorted) :
    (contents.waysBelow.map Prod.fst).Pairwise (· < ·) := by
  induction contents using induction_cons with
  | nil => exact .nil
  | cons name item rest ihInside ih =>
      obtain ⟨hbefore, hitem, hrest⟩ := sorted_cons.1 hsorted
      cases item with
      | file inode => exact ih hrest
      | directory inside =>
          rw [waysBelow_cons_directory]
          split
          · exact ih hrest
          · have hinside := pairwise_ways_of_waysBelow (ihInside inside rfl hitem)
            have hfront : (inside.ways.map fun way => (name :: way.1, way.2)).map Prod.fst =
                (inside.ways.map Prod.fst).map (List.cons name) := by
              simp
            rw [List.map_append, List.pairwise_append, hfront]
            refine ⟨?_, ih hrest, ?_⟩
            · apply hinside.map
              intro names others hlt
              exact List.cons_lt_cons_iff.2 (.inr ⟨rfl, hlt⟩)
            · intro names hnames others hothers
              obtain ⟨_, _, rfl⟩ := List.mem_map.1 hnames
              obtain ⟨⟨_, entries⟩, hway, rfl⟩ := List.mem_map.1 hothers
              obtain ⟨first, more, rfl⟩ :=
                List.exists_cons_of_ne_nil (ne_nil_of_mem_waysBelow hway)
              have hlater := hbefore first (mem_names_of_mem_waysBelow hrest hway)
              exact List.cons_lt_cons_iff.2 (.inl hlater)

/-- The ways come in the order of their names, a way before those that go on from it. -/
theorem pairwise_ways (hsorted : contents.Sorted) :
    (contents.ways.map Prod.fst).Pairwise (· < ·) :=
  pairwise_ways_of_waysBelow (pairwise_waysBelow hsorted)

end Contents

/-! ## The directories visited -/

/-- The directory that names lead down to, the outermost first. -/
def Place.below (place : Place) (names : List Name) : Place :=
  ⟨names.reverse ++ place.base, place.lost⟩

theorem Place.below_inj {place : Place} {names others : List Name}
    (h : place.below names = place.below others) : names = others := by
  simpa [below] using h

namespace Context

/-- A directory is walked to from another one through directories that are in the tree
and are not the marker. -/
inductive Walked (context : Context) (root : Place) : Place → Prop where
  | start : Walked context root root
  | enter {place : Place} {name : Name} (h : Walked context root place)
      (hlive : place.lost = 0) (hopen : name.path ≠ marker)
      (hdirectory : context.files.IsDirectory (name :: place.base)) :
      Walked context root (.live (name :: place.base))

variable {context : Context}

/-- A directory that was removed has nothing in it to walk to. -/
theorem walked_of_lost {root place : Place} (hlost : root.lost ≠ 0)
    (h : context.Walked root place) : place = root := by
  induction h with
  | start => rfl
  | enter _ hlive _ _ ih => exact absurd (ih ▸ hlive) hlost

/-- Directories of the tree are walked to through all names but the marker's. -/
theorem walked_live_iff {base : Location} {place : Place}
    (hbase : context.files.IsDirectory base) :
    context.Walked (.live base) place ↔
      ∃ names, (∀ name ∈ names, name.path ≠ marker) ∧
        context.files.IsDirectory (names.reverse ++ base) ∧
        place = Place.below (.live base) names := by
  constructor
  · intro h
    induction h with
    | start => exact ⟨[], by simp, hbase, rfl⟩
    | @enter place name _ _ hopen hdirectory ih =>
        obtain ⟨names, hnames, _, rfl⟩ := ih
        refine ⟨names ++ [name], ?_, ?_, ?_⟩
        · simpa [or_imp, forall_and] using ⟨hnames, hopen⟩
        · simpa [Place.below, Place.live] using hdirectory
        · simp [Place.below, Place.live]
  · rintro ⟨names, hnames, hdirectory, rfl⟩
    -- The innermost name is the last that is walked through.
    obtain ⟨down, rfl⟩ : ∃ down : List Name, names = down.reverse :=
      ⟨names.reverse, names.reverse_reverse.symm⟩
    simp only [List.mem_reverse, List.reverse_reverse, Place.below] at *
    induction down with
    | nil => exact .start
    | cons name rest ih =>
        rw [List.forall_mem_cons] at hnames
        have hrest := ih hnames.2 (FileSystem.isDirectory_tail hdirectory)
        exact .enter hrest rfl hnames.1 hdirectory

theorem ways_contentsAt_of_lost {place : Place} (h : place.lost ≠ 0) :
    (context.contentsAt place).ways = [([], (context.contentsAt place).entries)] := by
  rw [contentsAt, if_neg h]
  rfl

theorem contentsAt_live {location : Location} {inside : Contents}
    (h : context.files.inside? location = some inside) :
    context.contentsAt (.live location) = inside := by
  simp [contentsAt, Place.live, FileSystem.contentsIn, h]

/-- What is reached from a directory is what is below its location. -/
theorem reach?_contentsAt {base : Location} (hbase : context.files.IsDirectory base)
    {names : List Name} {inside : Contents} :
    (context.contentsAt (.live base)).reach? names = some (.directory inside) ↔
      context.files.inside? (names.reverse ++ base) = some inside := by
  obtain ⟨contents, hcontents⟩ := FileSystem.isDirectory_iff_exists_inside?.1 hbase
  rw [contentsAt_live hcontents]
  cases names with
  | nil => simp [Contents.reach?, hcontents]
  | cons first more =>
      have hroot := FileSystem.inside?_eq_some_iff.1 hcontents
      rw [FileSystem.inside?_eq_some_iff, List.reverse_append, List.reverse_reverse,
        Contents.reach?_append _ _ _ (List.cons_ne_nil first more), hroot]

/-- The ways from a directory of the tree, with the entries at their ends. -/
theorem mem_ways_live {base : Location} (hbase : context.files.IsDirectory base)
    {names : List Name} {entries : List Entry} :
    (names, entries) ∈ (context.contentsAt (.live base)).ways ↔
      (∀ name ∈ names, name.path ≠ marker) ∧
        context.files.IsDirectory (names.reverse ++ base) ∧
        entries = (context.contentsAt (Place.below (.live base) names)).entries := by
  rw [Contents.mem_ways_iff (sorted_contentsAt context _),
    FileSystem.isDirectory_iff_exists_inside?]
  simp only [reach?_contentsAt hbase]
  apply and_congr_right
  intro _
  constructor
  · rintro ⟨inside, hinside, rfl⟩
    exact ⟨⟨inside, hinside⟩, by rw [Place.below, ← contentsAt_live hinside]; rfl⟩
  · rintro ⟨⟨inside, hinside⟩, rfl⟩
    exact ⟨inside, hinside, by rw [Place.below, ← contentsAt_live hinside]; rfl⟩

/-- A walk comes to the directories that can be walked to. -/
theorem walked_iff_mem_ways {root place : Place} (hroot : context.files.IsDirectory root.base) :
    context.Walked root place ↔
      ∃ way ∈ (context.contentsAt root).ways, place = root.below way.1 := by
  obtain ⟨base, lost⟩ := root
  by_cases hlost : lost = 0
  · subst hlost
    rw [show (⟨base, 0⟩ : Place) = .live base from rfl, walked_live_iff hroot]
    constructor
    · rintro ⟨names, hnames, hdirectory, rfl⟩
      exact ⟨(names, _), (mem_ways_live hroot).2 ⟨hnames, hdirectory, rfl⟩, rfl⟩
    · rintro ⟨⟨names, entries⟩, hway, rfl⟩
      obtain ⟨hnames, hdirectory, _⟩ := (mem_ways_live hroot).1 hway
      exact ⟨names, hnames, hdirectory, rfl⟩
  · rw [ways_contentsAt_of_lost hlost]
    constructor
    · intro h
      exact ⟨_, List.mem_singleton_self _, walked_of_lost hlost h⟩
    · rintro ⟨way, hway, rfl⟩
      obtain rfl := List.mem_singleton.1 hway
      exact .start

/-- A walk gives each directory with its entries. -/
theorem entries_of_mem_ways {root : Place} (hroot : context.files.IsDirectory root.base)
    {way : List Name × List Entry} (h : way ∈ (context.contentsAt root).ways) :
    way.2 = (context.contentsAt (root.below way.1)).entries := by
  obtain ⟨base, lost⟩ := root
  by_cases hlost : lost = 0
  · subst hlost
    exact ((mem_ways_live hroot).1 h).2.2
  · rw [ways_contentsAt_of_lost hlost] at h
    obtain rfl := List.mem_singleton.1 h
    rfl

/-! ## The paths of a walk -/

theorem walkFiles_eq_ok {root : Path} {place : Place} {visits : List (Path × List Entry)}
    (hroot : context.lookup root = .ok (.directory place))
    (h : context.walkFiles root = .ok visits) :
    visits = ((context.contentsAt place).ways.map fun way => (root.through way.1, way.2)) ∧
      ∀ visit ∈ visits, ¬visit.1.isTooLong = true := by
  unfold walkFiles contentsOf directoryAt at h
  simp only [hroot] at h
  split at h
  · contradiction
  next hshort =>
    cases h
    refine ⟨Contents.visits_eq_map_ways root _, ?_⟩
    intro visit hvisit hlong
    apply hshort
    exact List.any_eq_true.2 ⟨visit, hvisit, hlong⟩

/-- Each path that a walk gives leads to the directory that was visited there. -/
theorem lookup_of_mem_ways {root : Path} {place : Place}
    (hroot : context.lookup root = .ok (.directory place))
    {way : List Name × List Entry} (hway : way ∈ (context.contentsAt place).ways)
    (hshort : ¬(root.through way.1).isTooLong = true) :
    context.lookup (root.through way.1) = .ok (.directory (place.below way.1)) := by
  have hdirectory := isDirectory_of_lookup hroot
  obtain ⟨base, lost⟩ := place
  by_cases hlost : lost = 0
  · subst hlost
    exact lookup_through hroot ((mem_ways_live hdirectory).1 hway).2.1 hshort
  · rw [ways_contentsAt_of_lost hlost] at hway
    obtain rfl := List.mem_singleton.1 hway
    exact hroot

end Context

end LinkTags
