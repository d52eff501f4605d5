import LinkTags.Proofs.Tag.Below

/-!
# From paths to tags and back

A tag is made of a path by leaving out the names that its route shares with the route of
the root: it climbs from the root by as many steps as the root has further names, and goes
down the further names of the path. Followed from the root, it undoes what was left out, so
the path that it stands for has the route of the path it was made from. A tag that goes
down by names is the tag of the path that it stands for (`ofPath_round_trip`).
-/

namespace LinkTags

namespace Context

variable {context : Context} {path : Path}

theorem absolute_eq_true {route : Route} (h : context.absolute path = .ok route) :
    route.absolute = true := by
  unfold absolute at h
  split at h
  · cases h
    exact Route.absolute_followAll _ _
  · split at h
    · cases h
      exact Route.absolute_followAll _ _
    · contradiction

/-- While the working directory is part of the tree, every path has a route. -/
theorem exists_absolute (hcwd : context.cwd.lost = 0) (path : Path) :
    ∃ route, context.absolute path = .ok route := by
  unfold absolute
  rw [if_pos hcwd]
  split
  · exact ⟨_, rfl⟩
  · exact ⟨_, rfl⟩

end Context

namespace Tag

variable {context : Context} {root path : Path} {tag : Tag}

/-- The path of a tag goes on from the root by the way that the tag spells. -/
theorem absolute_toPath (context : Context) (root : Path) (tag : Tag) :
    context.absolute (tag.toPath root) =
      (context.absolute root).map fun route => route.followAll tag.way.steps := by
  unfold toPath
  split
  next hempty =>
    rw [Path.steps_of_empty hempty]
    cases context.absolute root <;> rfl
  next => exact context.absolute_join root tag.isAbsolute_way

theorem ofPath_eq {route base : Route} (hroute : context.absolute path = .ok route)
    (hbase : context.absolute root = .ok base) :
    ofPath context root path = ofRoute (route.relativeTo base) := by
  simp only [ofPath, hroute, hbase]

theorem ofPath_eq_ok (h : ofPath context root path = .ok tag) :
    ∃ route base, context.absolute path = .ok route ∧ context.absolute root = .ok base ∧
      ofRoute (route.relativeTo base) = .ok tag := by
  unfold ofPath at h
  split at h
  · contradiction
  next route hroute =>
    split at h
    · contradiction
    next base hbase => exact ⟨route, base, hroute, hbase, h⟩

/-- The path that a tag stands for has the route of the path it was made from. -/
theorem absolute_toPath_of_ofPath (h : ofPath context root path = .ok tag) :
    context.absolute (tag.toPath root) = context.absolute path := by
  obtain ⟨route, base, hroute, hbase, htag⟩ := ofPath_eq_ok h
  have hway := way_of_ofRoute rfl htag
  have hback := Route.followAll_relativeTo (Context.absolute_eq_true hroute)
    (Context.absolute_eq_true hbase)
  rw [absolute_toPath, hbase, hway, hroute]
  exact congrArg Except.ok hback

/-- Paths have the same tag exactly if they have the same route. -/
theorem ofPath_eq_ok_iff (h : ofPath context root path = .ok tag) (other : Path) :
    ofPath context root other = .ok tag ↔ context.absolute other = context.absolute path := by
  constructor
  · intro hother
    exact (absolute_toPath_of_ofPath hother).symm.trans (absolute_toPath_of_ofPath h)
  · intro hsame
    rw [← h, ofPath, ofPath, hsame]

/-- There is no tag exactly if the way is not text. -/
theorem exists_ofRoute_eq_notText_iff {route : Route} :
    (∃ way, ofRoute route = .error (.notText way)) ↔ route.toPath.toString? = none := by
  unfold ofRoute
  cases route.toPath.toString? <;> simp

theorem exists_ofRoute_eq_ok_iff {route : Route} :
    (∃ tag, ofRoute route = .ok tag) ↔ route.toPath.toString? ≠ none := by
  unfold ofRoute
  cases route.toPath.toString? <;> simp

/-- A tag that goes down by names is the tag of the path it stands for. -/
theorem ofPath_toPath_of_names (hcwd : context.cwd.lost = 0) {names : List Component}
    (h : (Path.ofString tag.text).bytes =
      slash :: slash :: [slash].intercalate (names.map Component.bytes)) :
    ofPath context root (tag.toPath root) = .ok tag := by
  obtain ⟨base, hbase⟩ := Context.exists_absolute hcwd root
  have htag : ofRoute (Route.here.followAll (names.map .down)) = .ok tag := by
    rw [ofRoute_eq_ok_iff, Route.bytes_toPath_here_downs, h]
  have hdown : base.followAll tag.way.steps = base.followAll (names.map .down) := by
    rw [way_of_ofRoute (Route.absolute_followAll _ _) htag, Route.followAll_toPath,
      Route.followAll_downs]
    simp [Route.here]
  have habsolute : context.absolute (tag.toPath root) =
      .ok (base.followAll (names.map .down)) := by
    rw [absolute_toPath, hbase, ← hdown]
    rfl
  rw [ofPath_eq habsolute hbase, Route.relativeTo_followAll_downs, htag]

/-- Of tags made from any path, in a library with any root. The path that a tag stands for
has the route of the path it was made from, and other paths have this tag if they have this
route. A path has no tag if what its route has after the longest beginning that it shares
with the route of the root is not text, and has a tag otherwise. A tag that goes down by
names is the tag of the path that it stands for. -/
theorem ofPath_round_trip (context : Context) (root path : Path) (hcwd : context.cwd.lost = 0) :
    (∀ tag, ofPath context root path = .ok tag →
      context.absolute (tag.toPath root) = context.absolute path ∧
      ∀ other, ofPath context root other = .ok tag ↔
        context.absolute other = context.absolute path) ∧
    (∃ route base common rest left,
      context.absolute path = .ok route ∧ context.absolute root = .ok base ∧
      route.names.reverse = common ++ rest ∧ base.names.reverse = common ++ left ∧
      (∀ other, other <+: route.names.reverse → other <+: base.names.reverse →
        other <+: common) ∧
      ((∃ way, ofPath context root path = .error (.notText way)) ↔
        Path.toString? ⟨[slash].intercalate (rest.map Component.bytes)⟩ = none) ∧
      ((∃ tag, ofPath context root path = .ok tag) ↔
        Path.toString? ⟨[slash].intercalate (rest.map Component.bytes)⟩ ≠ none)) ∧
    ∀ (tag : Tag) (names : List Component),
      (Path.ofString tag.text).bytes =
        slash :: slash :: [slash].intercalate (names.map Component.bytes) →
      ofPath context root (tag.toPath root) = .ok tag := by
  refine ⟨?_, ?_, ?_⟩
  · intro tag htag
    exact ⟨absolute_toPath_of_ofPath htag, ofPath_eq_ok_iff htag⟩
  · obtain ⟨route, hroute⟩ := Context.exists_absolute hcwd path
    obtain ⟨base, hbase⟩ := Context.exists_absolute hcwd root
    obtain ⟨common, hnames, hbaseNames, hlongest⟩ :=
      Route.exists_common route.names.reverse base.names.reverse
    have htext := Route.toString?_toPath_eq_none_iff
      (Route.dropCommon route.names.reverse base.names.reverse).2.length
      (Route.dropCommon route.names.reverse base.names.reverse).1
    refine ⟨route, base, common, _, _, hroute, hbase, hnames, hbaseNames, hlongest, ?_, ?_⟩
    · rw [ofPath_eq hroute hbase, exists_ofRoute_eq_notText_iff]
      exact htext
    · rw [ofPath_eq hroute hbase, exists_ofRoute_eq_ok_iff]
      exact not_congr htext
  · intro tag names htag
    exact ofPath_toPath_of_names hcwd htag

/-- The tag of a path beside the root, which climbs. -/
def beside : Tag := ⟨"//../../music", isTag_append "../../music"⟩

/-- The root is spelled with a name that is left again. The path that the tag stands for
leads to `/music`, and so do all other paths that have this tag. -/
theorem ofPath_round_trip_beside :
    ofPath .empty (.ofString "shelf//a/./b/..") (.ofString "/music") = .ok beside ∧
    Context.absolute .empty (beside.toPath (.ofString "shelf//a/./b/..")) =
      .ok (.fromRoot [⟨(Path.ofString "music").bytes, by decide⟩]) ∧
    ∀ other, ofPath .empty (.ofString "shelf//a/./b/..") other = .ok beside ↔
      Context.absolute .empty other =
        .ok (.fromRoot [⟨(Path.ofString "music").bytes, by decide⟩]) := by
  have htag : ofPath .empty (.ofString "shelf//a/./b/..") (.ofString "/music") =
      .ok beside := by rfl
  obtain ⟨hback, _, _⟩ := ofPath_round_trip .empty (.ofString "shelf//a/./b/..")
    (.ofString "/music") rfl
  exact ⟨htag, hback beside htag⟩

end Tag

end LinkTags
