import LinkTags.Proofs.Library.Nearest
import LinkTags.Proofs.Library.Root
import LinkTags.Proofs.Run.Call
import LinkTags.Proofs.Run.Operations

/-!
# Listing files by calls

A call to list a name that stands for a path to a regular file, which is no symbolic link,
answers with the links or the tags of the file, whatever path of it was named
(`call_list_file`). The library that was found has an absolute root, so its files have tags
if the ways to them are text. The only other thing in the way is a directory that the walk
comes to by a path that is too long.
-/

namespace LinkTags

namespace Context

variable {context : Context} {library : Library} {root : Option Path}

/-- A library that is found is one at an absolute path. -/
theorem FindsLibrary.isLibrary (h : context.FindsLibrary root library) :
    library.root.isAbsolute = true ∧ context.isLibrary library.root = true := by
  rw [FindsLibrary, Library.find] at h
  split at h
  · contradiction
  next found hfound =>
    obtain ⟨route, hroute, hnearest⟩ := findLibrary_eq_ok_iff.1 hfound
    cases hnearest with
    | absent _ => cases h
    | found houter hlibrary _ =>
        have hopen := Except.ok.inj h
        rw [Option.bind_some, Library.open?, if_pos hlibrary] at hopen
        cases hopen
        rw [Route.isAbsolute_toPath, houter.absolute]
        exact ⟨absolute_eq_true hroute, hlibrary⟩

/-! ## What a call to list answers -/

theorem answer_of_events_nil {report : Report} (h : report.events = []) (filter other : Filter) :
    report.answer filter = report.answer other := by
  rw [Report.answer, Report.answer, Report.errors, Report.errors, h]
  rfl

theorem runList_events (context : Context) (library : Library) (links : Bool) (name : String) :
    (context.runList library links name).events = [] := by
  unfold runList
  dsimp only
  repeat' split
  all_goals rfl

variable {given : Call} {links : Bool} {name other : String}

/-- A call to list changes nothing, and says nothing that could be left out. -/
theorem call_list (hasks : given.Asks root (.list links name))
    (hfinds : context.FindsLibrary root library) (filter : Filter) :
    context.call given = ((context.runList library links name).answer filter, context) := by
  obtain ⟨verbosity, shown, hcall⟩ := exists_call hasks
  rw [run_list hfinds, runList_context] at hcall
  rw [hcall, answer_of_events_nil (runList_events context library links name) shown filter]

/-- Of files, all that a listing looks at is which file is named. -/
theorem runList_eq_of_identity (hname : context.isRegular (library.resolveAsPath name) = true)
    (hother : context.isRegular (library.resolveAsPath other) = true)
    (hsame : context.identity (library.resolveAsPath name) =
      context.identity (library.resolveAsPath other)) :
    context.runList library links name = context.runList library links other := by
  have hlinks : library.links context (library.resolveAsPath name) =
      library.links context (library.resolveAsPath other) := by
    rw [Library.links, Library.links, Context.links, Context.links, hsame]
  have htags : library.tagsOf context (library.resolveAsPath name) =
      library.tagsOf context (library.resolveAsPath other) := by
    rw [Library.tagsOf, Library.tagsOf, Context.tagsOf_eq, Context.tagsOf_eq, hsame]
  rw [runList, runList, if_pos hname, if_pos hother, hlinks, htags]

/-! ## Files -/

/-- What is answered if the walk comes to a directory by a path that is too long. -/
def tooLongAnswer : Answer := .finished 1 "" "Error: File name too long (os error 36)\n"

section File

variable {base : Location} {inode : Inode}
  (hregular : context.isRegular (library.resolveAsPath name) = true)
  (hroot : context.lookup library.root = .ok (.directory (.live base)))
  (hfile : context.identity (library.resolveAsPath name) = .ok (.file inode))

include hregular hroot hfile

theorem answer_of_tooLong (h : context.WalkIsTooLong library.root (.live base))
    (filter : Filter) :
    (context.runList library links name).answer filter = tooLongAnswer := by
  rw [runList, if_pos hregular, Library.links, Library.tagsOf, links_of_tooLong hroot hfile h,
    tagsOf_of_tooLong hroot hfile h]
  cases links <;> rfl

variable (hkind : inode.kind = .regular)
  (hshort : ¬context.WalkIsTooLong library.root (.live base)) (filter : Filter)

include hkind hshort

/-- The links in the directories visited are printed. -/
theorem exists_answer_links :
    ∃ lines, (context.runList library true name).answer filter = .finished 0 (unlines lines) "" ∧
      ∀ names entry, context.Walked (.live base) (Place.below (.live base) names) →
        context.files.node? (entry :: (names.reverse ++ base)) = some (.file inode) →
        ((library.root.through names).join entry.path).display ∈ lines := by
  obtain ⟨found, hfound, hmem⟩ := exists_links hroot hfile hkind hshort
  refine ⟨found.map Path.display, ?_, ?_⟩
  · rw [runList, if_pos hregular, Library.links, hfound]
    rfl
  · intro names entry hwalked hnode
    have hentry : ⟨entry, .file inode⟩ ∈
        (context.contentsAt (Place.below (.live base) names)).entries :=
      mem_entries_contentsAt.2 ⟨rfl, hnode⟩
    exact List.mem_map_of_mem ((hmem _).2 ⟨names, entry, hwalked, hentry, rfl⟩)

/-- The tags of the directories visited that hold the file are printed. -/
theorem exists_answer_tags (habsolute : library.root.isAbsolute = true)
    (htext : context.HoldersAreText (.live base) inode) :
    ∃ lines, (context.runList library false name).answer filter = .finished 0 (unlines lines) "" ∧
      ∀ names, context.Walked (.live base) (Place.below (.live base) names) →
        context.Holds (Place.below (.live base) names) inode →
        ∃ tag : Tag, tag.text ∈ lines ∧
          (Path.ofString tag.text).bytes =
            slash :: slash :: [slash].intercalate (names.map fun name => name.bytes) ∧
          library.LeadsTo context tag (Place.below (.live base) names) := by
  have hroute : context.absolute library.root = .ok _ := if_pos habsolute
  obtain ⟨tags, htags, hall⟩ := exists_tagsOf hroot hfile hkind hshort hroute htext
  refine ⟨tags.map Tag.text, ?_, ?_⟩
  · rw [runList, if_pos hregular, Library.tagsOf, htags]
    rfl
  · intro names hwalked hholds
    obtain ⟨tag, hmem, hspelled, hleads⟩ := hall names hwalked hholds
    exact ⟨tag, List.mem_map_of_mem hmem, hspelled, hleads⟩

end File

/-- A call asks to list a name for a path that names a regular file, in a library that is
found. If the walk of the library comes to a directory by a path that is too long, the call
fails. Otherwise it prints every link of the file in a directory visited, or the tag of every
such directory, if the ways to those that hold the file are text. A call for any other path
of the file has the same answer. -/
theorem call_list_file {above : Location} {own : Name} {inode : Inode}
    (hasks : given.Asks root (.list links name)) (hfinds : context.FindsLibrary root library)
    (hnames : context.lookupEntry (library.resolveAsPath name) = .ok (.file above own inode))
    (hkind : inode.kind = .regular) :
    context.isRegular (library.resolveAsPath name) = true ∧
    (∃ base, context.lookup library.root = .ok (.directory (.live base)) ∧
      (context.WalkIsTooLong library.root (.live base) →
        context.call given = (tooLongAnswer, context)) ∧
      (¬context.WalkIsTooLong library.root (.live base) → links = true →
        ∃ lines, context.call given = (.finished 0 (unlines lines) "", context) ∧
          ∀ names entry, context.Walked (.live base) (Place.below (.live base) names) →
            context.files.node? (entry :: (names.reverse ++ base)) = some (.file inode) →
            ((library.root.through names).join entry.path).display ∈ lines) ∧
      (¬context.WalkIsTooLong library.root (.live base) → links = false →
        context.HoldersAreText (.live base) inode →
        ∃ lines, context.call given = (.finished 0 (unlines lines) "", context) ∧
          ∀ names, context.Walked (.live base) (Place.below (.live base) names) →
            context.Holds (Place.below (.live base) names) inode →
            ∃ tag : Tag, tag.text ∈ lines ∧
              (Path.ofString tag.text).bytes =
                slash :: slash :: [slash].intercalate (names.map fun name => name.bytes) ∧
              library.LeadsTo context tag (Place.below (.live base) names))) ∧
    ∀ {second : Call} {other : String} {above' : Location} {own' : Name},
      second.Asks root (.list links other) →
      context.lookupEntry (library.resolveAsPath other) = .ok (.file above' own' inode) →
      context.call second = context.call given := by
  have hisRegular {name : String} {above : Location} {own : Name}
      (hnames : context.lookupEntry (library.resolveAsPath name) = .ok (.file above own inode)) :
      context.isRegular (library.resolveAsPath name) = true := by
    rw [isRegular, lookup_of_lookupEntry hkind hnames]
    exact decide_eq_true hkind
  have hregular := hisRegular hnames
  have hfile : context.identity (library.resolveAsPath name) = .ok (.file inode) :=
    identity_eq_file_iff.2 ⟨above, own, hnames⟩
  obtain ⟨habsolute, hlibrary⟩ := hfinds.isLibrary
  have hne : library.root.bytes ≠ [] := fun hempty =>
    Bool.false_ne_true ((Path.isAbsolute_of_empty hempty).symm.trans habsolute)
  obtain ⟨base, hroot, _⟩ := exists_lookup_of_isLibrary hne hlibrary
  have hcall := call_list hasks hfinds []
  refine ⟨hregular, ⟨base, hroot, ?_, ?_, ?_⟩, ?_⟩
  · intro hlong
    rw [hcall, answer_of_tooLong hregular hroot hfile hlong]
  · rintro hshort rfl
    obtain ⟨lines, hanswer, hlines⟩ :=
      exists_answer_links hregular hroot hfile hkind hshort []
    exact ⟨lines, by rw [hcall, hanswer], hlines⟩
  · rintro hshort rfl htext
    obtain ⟨lines, hanswer, hlines⟩ :=
      exists_answer_tags hregular hroot hfile hkind hshort [] habsolute htext
    exact ⟨lines, by rw [hcall, hanswer], hlines⟩
  · intro second other above' own' hasks' hnames'
    have hfile' : context.identity (library.resolveAsPath other) = .ok (.file inode) :=
      identity_eq_file_iff.2 ⟨above', own', hnames'⟩
    rw [hcall, call_list hasks' hfinds [],
      runList_eq_of_identity (hisRegular hnames') hregular (hfile'.trans hfile.symm)]

/-- A call to list the tags of what a name stands for. -/
def listCall (name : String) : Call :=
  ⟨[.ofString "list", .ofString name], none, none⟩

/-- A file on the shelf is named by a tag and its name there. Among its tags is `//B`, where it
has another name, for which its tags are the same. -/
theorem shelf_call_list_file :
    ∃ lines, shelf.call (listCall "//A/b") = (.finished 0 (unlines lines) "", shelf) ∧
      (∃ tag : Tag, tag.text ∈ lines ∧ (Path.ofString tag.text).bytes = [slash, slash, 0x42]) ∧
      shelf.call (listCall "B/x") = shelf.call (listCall "//A/b") := by
  have hasks : (listCall "//A/b").Asks none (.list false "//A/b") := ⟨0, by rfl⟩
  have hasks' : (listCall "B/x").Asks none (.list false "B/x") := ⟨0, by rfl⟩
  have hfinds : shelf.FindsLibrary none ⟨.ofString "/"⟩ := by rfl
  have hroot : shelf.lookup (.ofString "/") = .ok (.directory .root) := by rfl
  have hplace : shelf.files.IsDirectory Place.root.base := shelf.housed
  have hshort : ¬shelf.WalkIsTooLong (.ofString "/") .root := by
    rw [← any_isTooLong_iff hplace]
    decide
  have htext : shelf.HoldersAreText .root ⟨0, .regular⟩ :=
    holdersAreText_of_ways hplace (by decide +kernel)
  obtain ⟨_, ⟨base, hbase, _, _, htags⟩, hsame⟩ := call_list_file hasks hfinds rfl rfl
  cases hbase.symm.trans hroot
  obtain ⟨lines, hcall, hlines⟩ := htags hshort rfl htext
  have hwalked : shelf.Walked .root (Place.below .root [nameB]) :=
    .enter .start rfl (by decide) (by decide)
  have hholds : shelf.Holds (Place.below .root [nameB]) ⟨0, .regular⟩ := ⟨rfl, nameX, rfl⟩
  obtain ⟨tag, hmem, hspelled, _⟩ := hlines _ hwalked hholds
  exact ⟨lines, hcall, ⟨tag, hmem, hspelled⟩, hsame hasks' rfl⟩

/-- A library with a file in a directory and a symbolic link to it. -/
def bench : Context where
  files := {
    root :=
      .directory markerName .nil
      (.directory nameA (.file nameX ⟨0, .regular⟩ .nil)
      (.file nameS ⟨1, .symlink (.ofString "A/x")⟩ .nil))
    sorted := by
      simp [Contents.Sorted, Contents.names]
      decide }
  cwd := .root
  housed := rfl

/-- The symbolic link leads to the file, but has none of its tags. In a library that is too
deep, nothing is listed of a file in the root. -/
theorem call_list_can_fail :
    (bench.lookup (.ofString "/s") = bench.lookup (.ofString "/A/x") ∧
      bench.isRegular (.ofString "/s") = true ∧
      bench.call (listCall "/A/x") = (.finished 0 "//A\n" "", bench) ∧
      bench.call (listCall "/s") = (.finished 0 "" "", bench)) ∧
    shaft.FindsLibrary none ⟨.ofString "/"⟩ ∧
      shaft.lookupEntry trayFile = .ok (.file [] digits ⟨0, .regular⟩) ∧
      shaft.isRegular trayFile = true ∧
      shaft.HoldersAreText .root ⟨0, .regular⟩ ∧
      shaft.call (listCall "/0123456789") = (tooLongAnswer, shaft) := by
  have hasks : (listCall "/0123456789").Asks none (.list false "/0123456789") := ⟨0, by rfl⟩
  have hfinds : shaft.FindsLibrary none ⟨.ofString "/"⟩ := by rfl
  have hregular : shaft.isRegular trayFile = true := by rfl
  have hroot : shaft.lookup (.ofString "/") = .ok (.directory .root) := by rfl
  have hfile : shaft.identity trayFile = .ok (.file ⟨0, .regular⟩) := by rfl
  have hlong : shaft.WalkIsTooLong (.ofString "/") .root := shaft_walkIsTooLong (by decide)
  have hresolve : Library.resolveAsPath ⟨.ofString "/"⟩ "/0123456789" = trayFile := by rfl
  have hcall : shaft.call (listCall "/0123456789") = (tooLongAnswer, shaft) := by
    rw [← hresolve] at hregular hfile
    rw [call_list hasks hfinds [], answer_of_tooLong hregular hroot hfile hlong]
  exact ⟨⟨by rfl, by rfl, by rfl, by rfl⟩, hfinds, by rfl, hregular, shaft_holdersAreText _, hcall⟩

end Context

end LinkTags
