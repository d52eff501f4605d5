import LinkTags.Proofs.Path.Relative
import LinkTags.Tag

/-!
# Tags of directories below the root

The tag of a directory that is reached through names from the root of a library spells
these names, however the root is spelled: what `.`, `..` and slashes in the root do to
its route, they do to the route of the directory too, and the way from one to the other
does not show it. So the tag stands for the path that it was made from
(`resolveAsPath_of_ofPath_through`).
-/

namespace LinkTags

namespace Route

/-- A route with further names. -/
def below (route : Route) (names : List Name) : Route :=
  { route with names := (names.map Name.toComponent).reverse ++ route.names }

theorem below_eq (route : Route) (names : List Name) :
    route.below names = route.followAll ((names.map Name.toComponent).map .down) := by
  rw [followAll_downs]
  rfl

theorem follow_below (route : Route) (name : Name) (rest : List Name) :
    (route.follow (.down name.toComponent)).below rest = route.below (name :: rest) := by
  rw [below_eq, below_eq]
  rfl

/-- The way from a route to one with further names goes through these names. -/
theorem relativeTo_below (route : Route) (names : List Name) :
    (route.below names).relativeTo route = here.below names := by
  rw [below_eq, relativeTo_followAll_downs, ← below_eq]

theorem bytes_toPath_below_here (names : List Name) :
    (here.below names).toPath.bytes = [slash].intercalate (names.map fun name => name.bytes) := by
  rw [below_eq, bytes_toPath_here_downs, List.map_map]
  rfl

end Route

namespace Context

/-- The route of a joined path is that of the first path, extended by the second one. -/
theorem absolute_join (context : Context) (base : Path) {relative : Path}
    (hrelative : relative.isAbsolute = false) :
    context.absolute (base.join relative) =
      (context.absolute base).map fun route => route.followAll relative.steps := by
  unfold absolute
  rw [Path.isAbsolute_join_relative base hrelative]
  split
  · exact congrArg Except.ok (Route.followAll_steps_join _ base hrelative)
  · split
    · exact congrArg Except.ok (Route.followAll_steps_join _ base hrelative)
    · rfl

/-- The route of a path that goes on through names has these names too. -/
theorem absolute_through (context : Context) {base : Path} (hne : base.bytes ≠ [])
    (names : List Name) :
    context.absolute (base.through names) =
      (context.absolute base).map fun route => route.below names := by
  induction names generalizing base with
  | nil => cases h : context.absolute base <;> simp [h, Except.map, Route.below]
  | cons name rest ih =>
      have hnext := Path.bytes_join_component_ne_nil hne name.toComponent
      have hrelative := Path.isAbsolute_component name.toComponent
      rw [Path.through_cons, ih hnext, absolute_join context base hrelative, Path.steps_component]
      cases context.absolute base with
      | error e => rfl
      | ok route => exact congrArg Except.ok (Route.follow_below route name rest)

end Context

namespace Tag

variable {context : Context} {root : Path} {names : List Name} {tag : Tag}

theorem bytes_ofString_tagMark (text : String) :
    (Path.ofString (tagMark ++ text)).bytes = slash :: slash :: (Path.ofString text).bytes := by
  simp only [Path.ofString, String.toByteArray_append, ByteArray.data_append,
    Array.toList_append]
  rfl

/-- The tag for a way is the mark, followed by the path that writes the way. -/
theorem ofRoute_eq_ok_iff {route : Route} :
    ofRoute route = .ok tag ↔
      (Path.ofString tag.text).bytes = slash :: slash :: route.toPath.bytes := by
  constructor
  · intro h
    unfold ofRoute at h
    split at h
    next text htext =>
      cases h
      rw [bytes_ofString_tagMark, Path.ofString_of_toString? htext]
    · contradiction
  · intro h
    -- What follows the mark is text, since the whole tag is.
    obtain ⟨text, htext⟩ : ∃ text, route.toPath.toString? = some text := by
      apply Option.ne_none_iff_exists'.1
      intro hnone
      have hmark : (Path.ofString tagMark).bytes = [slash, slash] := rfl
      have htag : Path.ofString tag.text = ⟨(Path.ofString tagMark).bytes ++ route.toPath.bytes⟩ :=
        congrArg Path.mk h
      rw [← Path.toString?_append_eq_none_iff tagMark, ← htag, Path.toString?_ofString] at hnone
      contradiction
    have hsame : tagMark ++ text = tag.text := by
      apply Path.ofString_inj
      have hbytes : (Path.ofString (tagMark ++ text)).bytes = (Path.ofString tag.text).bytes := by
        rw [h, bytes_ofString_tagMark, Path.ofString_of_toString? htext]
      exact congrArg Path.mk hbytes
    unfold ofRoute
    rw [htext]
    cases tag
    cases hsame
    rfl

/-- The way that a tag spells starts with no slash. -/
theorem isAbsolute_way (tag : Tag) : tag.way.isAbsolute = false := by
  have hhead :=
    List.head?_dropWhile_not (fun b => decide (b = slash)) (Path.ofString tag.text).bytes
  unfold way Path.isAbsolute
  split at hhead
  next b hb => simpa [hb] using hhead
  next hb => simp [hb]

/-- What is taken off a tag is its mark and no more. -/
theorem way_of_ofRoute {route : Route} (hrelative : route.absolute = false)
    (h : ofRoute route = .ok tag) : tag.way = route.toPath := by
  have hstart : route.toPath.isAbsolute = false := by rw [Route.isAbsolute_toPath, hrelative]
  have hdrop := Path.dropWhile_slash_of_relative hstart
  rw [way, ofRoute_eq_ok_iff.1 h]
  exact congrArg Path.mk hdrop

/-- The tag of a directory below the root spells the names on the way to it. -/
theorem way_of_ofPath_through (hne : root.bytes ≠ [])
    (h : ofPath context root (root.through names) = .ok tag) :
    tag.way.bytes = [slash].intercalate (names.map fun name => name.bytes) := by
  unfold ofPath at h
  rw [Context.absolute_through context hne] at h
  cases hbase : context.absolute root with
  | error e => simp [hbase, Except.map] at h
  | ok base =>
      simp only [hbase, Except.map, Route.relativeTo_below] at h
      rw [way_of_ofRoute rfl h, Route.bytes_toPath_below_here]

/-- A tag made from a path that goes down from the root stands for that path. -/
theorem resolveAsPath_of_ofPath_through (hne : root.bytes ≠ [])
    (h : ofPath context root (root.through names) = .ok tag) :
    resolveAsPath root tag.text = root.through names := by
  have hway := way_of_ofPath_through hne h
  rw [resolveAsPath, dif_pos tag.marked, toPath]
  cases names with
  | nil => exact if_pos hway
  | cons name rest =>
      have hwayne : tag.way.bytes ≠ [] := by
        rw [hway]
        cases rest <;> simp [List.intercalate_cons_cons, name.proper.1]
      have hjoin : (root.join tag.way).bytes = (root.through (name :: rest)).bytes := by
        rw [Path.bytes_join hne tag.isAbsolute_way, hway, Path.bytes_through_cons hne]
      rw [if_neg hwayne]
      exact congrArg Path.mk hjoin

end Tag

end LinkTags
