import LinkTags.Proofs.Path.Relative

/-!
# Normal paths

A path in normal form has nothing left to be read away: no `.`, no slash that only ends a
piece or repeats another, and `..` only where there is no name that it could undo. These
are the paths that write a route (`exists_toPath_iff_isNormal`), so normalizing a path gives
a normal path and leaves a normal path as it is (`isNormal_iff_normalize_eq`). It does not
matter whether a path is normalized before or after another one is joined to it
(`normalize_join`), and the way from one normal path to another, joined to the first, gives
the second (`normal_form_laws`).
-/

namespace LinkTags

namespace Path

/-- The path says nothing that can be left out, and climbs only before it names anything. -/
structure IsNormal (path : Path) : Prop where
  no_dot : [dot] ∉ split path.bytes
  no_repeated_slash : ¬[slash, slash] <:+: path.bytes
  no_last_slash : path.bytes.getLast? = some slash → path.bytes = [slash]
  climbs_first : ∀ front back, split path.bytes = front ++ [dot, dot] :: back →
    ∀ piece ∈ front, piece = [dot, dot]

/-! ## Pieces -/

/-- The pieces of a path, with slashes between them, spell the path. -/
theorem intercalate_split (bytes : List UInt8) : [slash].intercalate (split bytes) = bytes := by
  induction bytes with
  | nil => rfl
  | cons b rest ih =>
      obtain ⟨piece, pieces, hpieces⟩ := List.exists_cons_of_ne_nil (split_ne_nil rest)
      rw [hpieces] at ih
      by_cases hb : b = slash
      · rw [split, if_pos hb, hpieces, List.intercalate_cons_cons, ih, hb]
        rfl
      · have hsplit : split (b :: rest) = (b :: piece) :: pieces := by
          simp only [split, if_neg hb, hpieces]
        rw [hsplit, ← ih]
        cases pieces with
        | nil => rfl
        | cons next others => rw [List.intercalate_cons_cons, List.intercalate_cons_cons]; rfl

/-- An empty piece that is not the first one comes from a slash after another, or at the end. -/
theorem of_nil_mem_tail_split {bytes : List UInt8} (h : [] ∈ (split bytes).tail) :
    [slash, slash] <:+: bytes ∨ bytes.getLast? = some slash := by
  induction bytes with
  | nil => exact absurd h List.not_mem_nil
  | cons b rest ih =>
      -- What holds of the rest holds of the whole.
      have hrest : [] ∈ (split rest).tail →
          [slash, slash] <:+: b :: rest ∨ (b :: rest).getLast? = some slash := by
        intro htail
        rcases ih htail with hpart | hlast
        · exact .inl (hpart.trans (List.suffix_cons b rest).isInfix)
        · exact .inr (by rw [List.getLast?_cons, hlast]; rfl)
      by_cases hb : b = slash
      · rw [split, if_pos hb, List.tail_cons] at h
        cases rest with
        | nil => exact .inr (by rw [hb]; rfl)
        | cons next more =>
            by_cases hnext : next = slash
            · refine .inl ⟨[], more, ?_⟩
              rw [hb, hnext]
              rfl
            · apply hrest
              obtain ⟨piece, pieces, hpieces⟩ := List.exists_cons_of_ne_nil (split_ne_nil more)
              simpa [split, hnext, hpieces] using h
      · apply hrest
        obtain ⟨piece, pieces, hpieces⟩ := List.exists_cons_of_ne_nil (split_ne_nil rest)
        simpa [split, hb, hpieces] using h

theorem nil_mem_tail_split_of_repeated {bytes : List UInt8} (h : [slash, slash] <:+: bytes) :
    [] ∈ (split bytes).tail := by
  obtain ⟨front, back, rfl⟩ := h
  obtain ⟨piece, pieces, hpieces⟩ := List.exists_cons_of_ne_nil (split_ne_nil front)
  rw [List.append_assoc, List.cons_append, split_append_slash, hpieces]
  simp [split]

theorem nil_mem_tail_split_of_last {bytes : List UInt8} (h : bytes.getLast? = some slash) :
    [] ∈ (split bytes).tail := by
  obtain ⟨front, rfl⟩ := List.getLast?_eq_some_iff.1 h
  obtain ⟨piece, pieces, hpieces⟩ := List.exists_cons_of_ne_nil (split_ne_nil front)
  rw [split_append_slash, hpieces]
  simp [split]

/-- The pieces between slashes have none. -/
theorem slash_not_mem_of_mem_split {bytes piece : List UInt8} (h : piece ∈ split bytes) :
    slash ∉ piece := by
  induction bytes generalizing piece with
  | nil => simp_all [split]
  | cons b rest ih =>
      obtain ⟨first, pieces, hpieces⟩ := List.exists_cons_of_ne_nil (split_ne_nil rest)
      by_cases hb : b = slash
      · rw [split, if_pos hb, List.mem_cons] at h
        rcases h with rfl | h
        · exact List.not_mem_nil
        · exact ih h
      · rw [hpieces, List.forall_mem_cons] at ih
        simp only [split, if_neg hb, hpieces, List.mem_cons] at h
        rcases h with rfl | h
        · simpa [Ne.symm hb] using ih.1
        · exact ih.2 piece h

/-- Nothing can be left out of the paths that lead nowhere else. -/
theorem isNormal_of_still {path : Path} (h : path.bytes = [] ∨ path.bytes = [slash]) :
    path.IsNormal := by
  have hempty : ∀ piece ∈ split path.bytes, piece = [] := by
    rcases h with hbytes | hbytes <;> simp [hbytes, split]
  refine ⟨?_, ?_, ?_, ?_⟩
  · intro hdot
    exact absurd (hempty _ hdot) (by decide)
  · intro hpart
    have hlength := hpart.length_le
    rcases h with hbytes | hbytes <;> simp [hbytes] at hlength
  · intro hlast
    rcases h with hbytes | hbytes
    · simp [hbytes] at hlast
    · exact hbytes
  · intro front back hfront
    exact absurd (hempty [dot, dot] (by rw [hfront]; simp)) (by decide)

end Path

namespace Route

/-! ## Written routes are normal -/

theorem up_not_mem_names (names : List Component) :
    [dot, dot] ∉ names.reverse.map Component.bytes := by
  intro h
  obtain ⟨component, _, hbytes⟩ := List.mem_map.1 h
  exact component.proper.2.2.2 hbytes

/-- A route is written with pieces that all move. -/
theorem moves_of_mem_pieces {route : Route} {piece : List UInt8} (h : piece ∈ route.pieces) :
    piece ≠ [] ∧ piece ≠ [dot] := by
  rcases List.mem_append.1 h with hup | hname
  · rw [List.eq_of_mem_replicate hup]
    decide
  · obtain ⟨component, _, rfl⟩ := List.mem_map.1 hname
    exact ⟨component.proper.1, component.proper.2.2.1⟩

/-- A route that moves is written with its pieces, after an empty one if it is absolute. -/
theorem split_toPath {route : Route} (h : route.pieces ≠ []) :
    Path.split route.toPath.bytes = (if route.absolute then [[]] else []) ++ route.pieces := by
  have hsplit := split_intercalate h fun _ hpiece => mem_pieces_ne_slash hpiece
  unfold toPath
  cases route.absolute with
  | true => simp [Path.split, hsplit]
  | false => simpa using hsplit

/-- Climbing comes first. -/
theorem climbs_first_pieces {route : Route} {front back : List (List UInt8)}
    (h : route.pieces = front ++ [dot, dot] :: back) : ∀ piece ∈ front, piece = [dot, dot] := by
  rcases List.append_eq_append_iff.1 h with ⟨others, _, hnames⟩ | ⟨others, hups, _⟩
  · -- The pieces before would end in names, but no name is `..`.
    exact absurd (by rw [hnames]; simp) (up_not_mem_names route.names)
  · intro piece hpiece
    apply List.eq_of_mem_replicate (n := route.ups)
    rw [hups]
    exact List.mem_append_left others hpiece

theorem up_not_mem_pieces {route : Route} (h : route.absolute = true) :
    [dot, dot] ∉ route.pieces := by
  rw [pieces, route.anchored h]
  exact up_not_mem_names route.names

/-- A route that does not move is written with nothing, or with a slash. -/
theorem bytes_toPath_of_pieces_nil {route : Route} (h : route.pieces = []) :
    route.toPath.bytes = [] ∨ route.toPath.bytes = [slash] := by
  unfold toPath
  rw [h]
  cases route.absolute with
  | true => exact .inr rfl
  | false => exact .inl rfl

/-- A route that moves is written with no empty piece but the first one. -/
theorem nil_not_mem_tail_split_toPath {route : Route} (h : route.pieces ≠ []) :
    [] ∉ (Path.split route.toPath.bytes).tail := by
  intro hnil
  rw [split_toPath h] at hnil
  have hmem : [] ∈ route.pieces := by
    cases ha : route.absolute with
    | true => simpa [ha] using hnil
    | false => exact List.mem_of_mem_tail (by simpa [ha] using hnil)
  exact (moves_of_mem_pieces hmem).1 rfl

/-- A route that moves is written with its climbs first. -/
theorem climbs_first_toPath {route : Route} (h : route.pieces ≠ []) {front back : List (List UInt8)}
    (hfront : Path.split route.toPath.bytes = front ++ [dot, dot] :: back) :
    ∀ piece ∈ front, piece = [dot, dot] := by
  rw [split_toPath h] at hfront
  cases ha : route.absolute with
  | false =>
      rw [ha] at hfront
      exact climbs_first_pieces hfront
  | true =>
      -- A route from the root does not climb at all.
      have hmem : [dot, dot] ∈ (if route.absolute then [[]] else []) ++ route.pieces := by
        rw [hfront]
        exact List.mem_append_right _ (List.mem_cons_self ..)
      rw [ha] at hmem
      rcases List.mem_cons.1 hmem with hnil | hup
      · exact absurd hnil (by decide)
      · exact absurd hup (up_not_mem_pieces ha)

theorem isNormal_toPath (route : Route) : route.toPath.IsNormal := by
  by_cases hpieces : route.pieces = []
  · exact Path.isNormal_of_still (bytes_toPath_of_pieces_nil hpieces)
  · have hmoves := nil_not_mem_tail_split_toPath hpieces
    refine ⟨?_, ?_, ?_, ?_⟩
    · rw [split_toPath hpieces, List.mem_append, not_or]
      refine ⟨?_, fun hdot => (moves_of_mem_pieces hdot).2 rfl⟩
      cases route.absolute <;> decide
    · intro hpart
      exact hmoves (Path.nil_mem_tail_split_of_repeated hpart)
    · intro hlast
      exact absurd (Path.nil_mem_tail_split_of_last hlast) hmoves
    · intro front back hfront
      exact climbs_first_toPath hpieces hfront

/-! ## Normal paths are written routes -/

/-- Pieces that all move, and climb first, are those of a way up and then down. -/
theorem exists_eq_append_names {pieces : List (List UInt8)}
    (hslash : ∀ piece ∈ pieces, slash ∉ piece) (hnil : [] ∉ pieces) (hdot : [dot] ∉ pieces)
    (hfirst : ∀ front back, pieces = front ++ [dot, dot] :: back →
      ∀ piece ∈ front, piece = [dot, dot]) :
    ∃ (ups : Nat) (names : List Component),
      pieces = List.replicate ups [dot, dot] ++ names.map Component.bytes := by
  induction pieces with
  | nil => exact ⟨0, [], rfl⟩
  | cons piece rest ih =>
      rw [List.forall_mem_cons] at hslash
      rw [List.mem_cons, not_or] at hnil hdot
      obtain ⟨ups, names, hrest⟩ := ih hslash.2 hnil.2 hdot.2 (by
        intro front back hfront
        have hall := hfirst (piece :: front) back (by rw [hfront]; rfl)
        exact (List.forall_mem_cons.1 hall).2)
      by_cases hup : piece = [dot, dot]
      · exact ⟨ups + 1, names, by rw [hup, hrest]; rfl⟩
      · -- After a name nothing climbs.
        have hups : ups = 0 := by
          cases ups with
          | zero => rfl
          | succ less =>
              have hall := hfirst [piece] _ (by rw [hrest]; rfl)
              exact absurd (hall piece (List.mem_singleton.2 rfl)) hup
        have hproper : Proper piece := ⟨Ne.symm hnil.1, hslash.1, Ne.symm hdot.1, hup⟩
        exact ⟨0, ⟨piece, hproper⟩ :: names, by rw [hrest, hups]; rfl⟩

/-- A relative route is written with its climbs and its names. -/
theorem bytes_toPath_relative (ups : Nat) (names : List Component) :
    (toPath ⟨false, ups, names.reverse, nofun⟩).bytes =
      [slash].intercalate (List.replicate ups [dot, dot] ++ names.map Component.bytes) := by
  simp [toPath, pieces]

/-- An absolute route is written with a slash and its names. -/
theorem bytes_toPath_fromRoot (names : List Component) :
    (fromRoot names.reverse).toPath.bytes =
      slash :: [slash].intercalate (names.map Component.bytes) := by
  simp [toPath, pieces, fromRoot]

end Route

namespace Path

/-- A normal path that is not the root has an empty piece at most at its beginning. -/
theorem IsNormal.nil_not_mem_tail {path : Path} (h : path.IsNormal) (hne : path.bytes ≠ [slash]) :
    [] ∉ (split path.bytes).tail := by
  intro hnil
  rcases of_nil_mem_tail_split hnil with hpart | hlast
  · exact h.no_repeated_slash hpart
  · exact hne (h.no_last_slash hlast)

theorem exists_eq_cons_slash {path : Path} (habsolute : path.isAbsolute = true) :
    ∃ rest, path.bytes = slash :: rest :=
  List.head?_eq_some_iff.1 (of_decide_eq_true habsolute)

/-- A normal path from the root does not climb. -/
theorem IsNormal.up_not_mem {path : Path} (h : path.IsNormal) (habsolute : path.isAbsolute = true) :
    [dot, dot] ∉ split path.bytes := by
  intro hup
  obtain ⟨rest, hrest⟩ := exists_eq_cons_slash habsolute
  have hsplit : split path.bytes = [] :: split rest := by rw [hrest]; rfl
  obtain ⟨front, back, hfront⟩ := List.append_of_mem hup
  -- The piece at the beginning is empty, so it is neither a climb nor followed by one.
  cases front with
  | nil => cases hsplit.symm.trans hfront
  | cons piece others =>
      obtain rfl : piece = [] := (List.cons.inj (hfront.symm.trans hsplit)).1
      have hall := h.climbs_first _ back hfront
      exact absurd (hall [] (List.mem_cons_self ..)) (by decide)

/-- A normal path from the root writes the names that it goes through. -/
theorem IsNormal.exists_fromRoot {path : Path} (h : path.IsNormal)
    (habsolute : path.isAbsolute = true) :
    ∃ names : List Component, (Route.fromRoot names.reverse).toPath = path := by
  have hclimb := h.up_not_mem habsolute
  obtain ⟨bytes⟩ := path
  obtain ⟨rest, rfl⟩ := exists_eq_cons_slash habsolute
  by_cases hempty : rest = []
  · exact ⟨[], by rw [hempty]; rfl⟩
  · have hnil : [] ∉ split rest := h.nil_not_mem_tail (by simpa using hempty)
    have hdot : [dot] ∉ split rest := List.not_mem_of_not_mem_cons h.no_dot
    have hup : [dot, dot] ∉ split rest := List.not_mem_of_not_mem_cons hclimb
    have hslash : ∀ piece ∈ split rest, slash ∉ piece :=
      fun _ hpiece => slash_not_mem_of_mem_split hpiece
    obtain ⟨ups, names, hnames⟩ := Route.exists_eq_append_names hslash hnil hdot
      fun front back hfront => absurd (by rw [hfront]; simp) hup
    have hups : ups = 0 := by
      cases ups with
      | zero => rfl
      | succ less => exact absurd (by rw [hnames]; exact List.mem_cons_self ..) hup
    have hbytes : (Route.fromRoot names.reverse).toPath.bytes = slash :: rest := by
      calc (Route.fromRoot names.reverse).toPath.bytes
        _ = slash :: [slash].intercalate (names.map Component.bytes) :=
          Route.bytes_toPath_fromRoot names
        _ = slash :: [slash].intercalate (split rest) := by
          rw [hnames, hups]
          rfl
        _ = slash :: rest := by rw [intercalate_split]
    exact ⟨names, congrArg Path.mk hbytes⟩

/-- A normal path that is relative writes its climbs and its names. -/
theorem IsNormal.exists_relative {path : Path} (h : path.IsNormal)
    (hrelative : path.isAbsolute = false) :
    ∃ (ups : Nat) (names : List Component),
      Route.toPath ⟨false, ups, names.reverse, nofun⟩ = path := by
  obtain ⟨bytes⟩ := path
  cases bytes with
  | nil => exact ⟨0, [], rfl⟩
  | cons b rest =>
      have hb : b ≠ slash := by simpa [isAbsolute] using hrelative
      have hnil : [] ∉ split (b :: rest) := by
        have htail := h.nil_not_mem_tail (by simp [hb])
        obtain ⟨piece, pieces, hpieces⟩ := List.exists_cons_of_ne_nil (split_ne_nil rest)
        simpa [split, hb, hpieces] using htail
      obtain ⟨ups, names, hnames⟩ := Route.exists_eq_append_names
        (fun _ hpiece => slash_not_mem_of_mem_split hpiece) hnil h.no_dot h.climbs_first
      have hbytes : (Route.toPath ⟨false, ups, names.reverse, nofun⟩).bytes = b :: rest := by
        rw [Route.bytes_toPath_relative, ← hnames, intercalate_split]
      exact ⟨ups, names, congrArg Path.mk hbytes⟩

/-- The normal paths are those that write a route. -/
theorem exists_toPath_iff_isNormal {path : Path} :
    (∃ route : Route, route.toPath = path) ↔ path.IsNormal := by
  constructor
  · rintro ⟨route, rfl⟩
    exact route.isNormal_toPath
  · intro h
    cases hstart : path.isAbsolute with
    | true =>
        obtain ⟨names, hnames⟩ := h.exists_fromRoot hstart
        exact ⟨_, hnames⟩
    | false =>
        obtain ⟨ups, names, hnames⟩ := h.exists_relative hstart
        exact ⟨_, hnames⟩

/-! ## Normalizing -/

/-- The normal paths are those that normalizing leaves as they are. -/
theorem isNormal_iff_normalize_eq {path : Path} : path.IsNormal ↔ path.normalize = path := by
  constructor
  · intro h
    obtain ⟨route, rfl⟩ := exists_toPath_iff_isNormal.2 h
    rw [normalize, Route.ofPath_toPath]
  · intro h
    rw [← h]
    exact (Route.ofPath path).isNormal_toPath

/-- A path can be normalized before another one is joined to it. -/
theorem normalize_join (base relative : Path) :
    (base.join relative).normalize = (base.normalize.join relative).normalize := by
  cases hstart : relative.isAbsolute with
  | true => rw [join, if_pos hstart, join, if_pos hstart]
  | false =>
      calc (base.join relative).normalize
        _ = ((Route.ofPath base).followAll relative.steps).toPath := by
          rw [normalize, Route.ofPath_join base hstart]
        _ = ((Route.ofPath base.normalize).followAll relative.steps).toPath := by
          rw [normalize, Route.ofPath_toPath]
        _ = (Route.ofPath (base.normalize.join relative)).toPath := by
          rw [Route.ofPath_join base.normalize hstart]

/-- Normalizing keeps where a path starts. -/
theorem isAbsolute_normalize (path : Path) : path.normalize.isAbsolute = path.isAbsolute := by
  rw [normalize, Route.isAbsolute_toPath, Route.ofPath, Route.absolute_followAll]
  cases path.isAbsolute <;> rfl

/-- The way between two normal paths leaves out the names that they share, climbs over those
that the base has further, and goes down those that the other path has further. Joined to
the base, it is the other path once more. -/
theorem exists_relativeTo {path base : Path} (hpath : path.IsNormal) (hbase : base.IsNormal)
    (hstart : path.isAbsolute = true) (hstart' : base.isAbsolute = true) :
    ∃ common rest left : List Component,
      path.bytes = slash :: [slash].intercalate ((common ++ rest).map Component.bytes) ∧
      base.bytes = slash :: [slash].intercalate ((common ++ left).map Component.bytes) ∧
      (∀ other, other <+: common ++ rest → other <+: common ++ left → other <+: common) ∧
      ((Route.ofPath path).relativeTo (Route.ofPath base)).toPath.bytes =
        [slash].intercalate (List.replicate left.length [dot, dot] ++ rest.map Component.bytes) ∧
      (base.join ((Route.ofPath path).relativeTo (Route.ofPath base)).toPath).normalize = path := by
  obtain ⟨names, rfl⟩ := hpath.exists_fromRoot hstart
  obtain ⟨baseNames, rfl⟩ := hbase.exists_fromRoot hstart'
  obtain ⟨common, hnames, hbaseNames, hlongest⟩ := Route.exists_common names baseNames
  have hreverse (list : List Component) :
      (Route.fromRoot list.reverse).names.reverse = list := List.reverse_reverse list
  refine ⟨common, (Route.dropCommon names baseNames).1, (Route.dropCommon names baseNames).2,
    ?_, ?_, ?_, ?_, ?_⟩
  · rw [Route.bytes_toPath_fromRoot, ← hnames]
  · rw [Route.bytes_toPath_fromRoot, ← hbaseNames]
  · rw [← hnames, ← hbaseNames]
    exact hlongest
  · rw [Route.ofPath_toPath, Route.ofPath_toPath, Route.relativeTo, hreverse, hreverse]
    exact Route.bytes_toPath_relative _ _
  · rw [normalize, Route.ofPath_join _ (Route.isAbsolute_toPath _), Route.ofPath_toPath,
      Route.ofPath_toPath, Route.followAll_relativeTo rfl rfl]

/-- Of normalizing any path. What it gives has no `.`, no slash that repeats another or is the
last byte, apart from `/` itself, and climbs only at the beginning, and not at all from the
root. It changes nothing a second time, and nothing is lost if it is done before another path
is joined. The way between two normal paths from the root climbs over the names of the base
after the longest beginning that they share, goes down the rest of the other path, and leads
from the base to it. -/
theorem normal_form_laws (path next : Path) :
    path.normalize.IsNormal ∧
    (path.isAbsolute = true → [dot, dot] ∉ split path.normalize.bytes) ∧
    path.normalize.normalize = path.normalize ∧
    (path.join next).normalize = (path.normalize.join next).normalize ∧
    ∀ target base : Path, target.IsNormal → base.IsNormal → target.isAbsolute = true →
      base.isAbsolute = true →
      ∃ common rest left : List Component,
        target.bytes = slash :: [slash].intercalate ((common ++ rest).map Component.bytes) ∧
        base.bytes = slash :: [slash].intercalate ((common ++ left).map Component.bytes) ∧
        (∀ other, other <+: common ++ rest → other <+: common ++ left → other <+: common) ∧
        ((Route.ofPath target).relativeTo (Route.ofPath base)).toPath.bytes =
          [slash].intercalate
            (List.replicate left.length [dot, dot] ++ rest.map Component.bytes) ∧
        (base.join ((Route.ofPath target).relativeTo (Route.ofPath base)).toPath).normalize =
          target := by
  have hnormal : path.normalize.IsNormal := (Route.ofPath path).isNormal_toPath
  refine ⟨hnormal, ?_, normalize_normalize path, normalize_join path next, ?_⟩
  · intro hstart
    exact hnormal.up_not_mem (by rw [isAbsolute_normalize, hstart])
  · intro target base htarget hbase hstart hstart'
    exact exists_relativeTo htarget hbase hstart hstart'

/-- A path that tries to climb out of the root, and a way that climbs twice. -/
theorem normal_form_of_climbs :
    (ofString "/..//a/./b/../").isAbsolute = true ∧
    [dot, dot] ∉ split (ofString "/..//a/./b/../").normalize.bytes ∧
    (ofString "/a/x").IsNormal ∧ (ofString "/a/b/c").IsNormal ∧
    ((Route.ofPath (ofString "/a/x")).relativeTo (Route.ofPath (ofString "/a/b/c"))).toPath =
      ofString "../../x" ∧
    ((ofString "/a/b/c").join (ofString "../../x")).normalize = ofString "/a/x" := by
  have hstart : (ofString "/..//a/./b/../").isAbsolute = true := by rfl
  have htarget : (ofString "/a/x").IsNormal := isNormal_iff_normalize_eq.2 (by rfl)
  have hbase : (ofString "/a/b/c").IsNormal := isNormal_iff_normalize_eq.2 (by rfl)
  have hway : ((Route.ofPath (ofString "/a/x")).relativeTo
      (Route.ofPath (ofString "/a/b/c"))).toPath = ofString "../../x" := by rfl
  obtain ⟨_, hup, _, _, hways⟩ := normal_form_laws (ofString "/..//a/./b/../") (ofString "")
  obtain ⟨_, _, _, _, _, _, _, hback⟩ := hways _ _ htarget hbase (by rfl) (by rfl)
  rw [hway] at hback
  exact ⟨hstart, hup hstart, htarget, hbase, hway, hback⟩

end Path

end LinkTags
