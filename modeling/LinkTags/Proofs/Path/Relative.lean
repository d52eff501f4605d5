import LinkTags.Proofs.Path.Join

/-!
# Ways between routes

The way from one route to another leaves out the names that they share
(`exists_common`), climbs over the rest of the first and goes down the rest of the second.
Followed from the first route, it leads to the second (`followAll_relativeTo`).
-/

namespace LinkTags

namespace Route

/-! ## Following -/

theorem followAll_append (route : Route) (first second : List Step) :
    route.followAll (first ++ second) = (route.followAll first).followAll second :=
  List.foldl_append

theorem absolute_follow (route : Route) (step : Step) :
    (route.follow step).absolute = route.absolute := by
  cases step with
  | stay => rfl
  | down component => rfl
  | up =>
      obtain ⟨absolute, ups, names, anchored⟩ := route
      cases names with
      | nil => cases absolute <;> rfl
      | cons component outer => rfl

theorem absolute_followAll (route : Route) (steps : List Step) :
    (route.followAll steps).absolute = route.absolute := by
  induction steps generalizing route with
  | nil => rfl
  | cons step rest ih =>
      calc (route.followAll (step :: rest)).absolute
        _ = (route.follow step).absolute := ih (route.follow step)
        _ = route.absolute := route.absolute_follow step

theorem eq_fromRoot {route : Route} (h : route.absolute = true) :
    route = fromRoot route.names := by
  obtain ⟨absolute, ups, names, anchored⟩ := route
  obtain rfl : absolute = true := h
  obtain rfl : ups = 0 := anchored rfl
  rfl

/-- Climbing undoes as many names as there are steps. -/
theorem followAll_climb (front names : List Component) :
    (fromRoot (front ++ names)).followAll (List.replicate front.length .up) = fromRoot names := by
  induction front with
  | nil => rfl
  | cons component rest ih => exact ih

/-- The steps of a written route climb and then go down, after some that stay. -/
theorem exists_steps_toPath (route : Route) :
    ∃ count, route.toPath.steps = List.replicate count .stay ++
      (List.replicate route.ups .up ++ route.names.reverse.map .down) := by
  rw [← map_ofPiece_pieces]
  rcases steps_toPath route with (h | h) | ⟨hempty, hstays⟩
  · exact ⟨0, h⟩
  · exact ⟨1, h⟩
  · refine ⟨route.toPath.steps.length, ?_⟩
    rw [hempty, List.map_nil, List.append_nil]
    exact List.eq_replicate_iff.2 ⟨rfl, hstays⟩

theorem followAll_toPath (base route : Route) :
    base.followAll route.toPath.steps =
      base.followAll (List.replicate route.ups .up ++ route.names.reverse.map .down) := by
  obtain ⟨count, hsteps⟩ := route.exists_steps_toPath
  rw [hsteps, followAll_append, followAll_stays fun step hstep => List.eq_of_mem_replicate hstep]

/-- Following a joined path is following the one after the other. -/
theorem followAll_steps_join (route : Route) (base : Path) {relative : Path}
    (hrelative : relative.isAbsolute = false) :
    route.followAll (base.join relative).steps =
      (route.followAll base.steps).followAll relative.steps := by
  by_cases hempty : base.bytes = []
  · rw [Path.empty_join hempty, Path.steps_of_empty hempty]
    rfl
  · obtain ⟨front, hbase, hjoin⟩ := Path.steps_join hempty hrelative
    rcases hbase with hbase | hbase <;>
      simp [followAll, hbase, hjoin, follow]

/-- The route of a joined path goes on from the route of the first path. -/
theorem ofPath_join (base : Path) {relative : Path} (hrelative : relative.isAbsolute = false) :
    ofPath (base.join relative) = (ofPath base).followAll relative.steps := by
  rw [ofPath, ofPath, Path.isAbsolute_join_relative base hrelative,
    followAll_steps_join _ base hrelative]

/-! ## What two routes share -/

theorem dropCommon_append [DecidableEq α] (front back : List α) :
    dropCommon (front ++ back) front = (back, []) := by
  induction front with
  | nil => cases back <;> rfl
  | cons a rest ih => simp [dropCommon, ih]

/-- What `dropCommon` leaves out is the longest list that both lists begin with. -/
theorem exists_common {α : Type} [DecidableEq α] (a b : List α) :
    ∃ common, a = common ++ (dropCommon a b).1 ∧ b = common ++ (dropCommon a b).2 ∧
      ∀ other, other <+: a → other <+: b → other <+: common := by
  induction a generalizing b with
  | nil => exact ⟨[], rfl, by cases b <;> rfl, fun other ha _ => ha⟩
  | cons x as ih =>
      cases b with
      | nil => exact ⟨[], rfl, rfl, fun other _ hb => hb⟩
      | cons y bs =>
          rw [dropCommon]
          split
          next hsame =>
            obtain ⟨common, ha, hb, hlongest⟩ := ih bs
            refine ⟨x :: common, congrArg (x :: ·) ha, ?_, ?_⟩
            · rw [← hsame]
              exact congrArg (x :: ·) hb
            · intro other hx hy
              cases other with
              | nil => exact List.nil_prefix
              | cons z more =>
                  obtain ⟨rfl, hxs⟩ := List.cons_prefix_cons.1 hx
                  obtain ⟨_, hys⟩ := List.cons_prefix_cons.1 hy
                  exact List.cons_prefix_cons.2 ⟨rfl, hlongest more hxs hys⟩
          next hdiffer =>
            refine ⟨[], rfl, rfl, ?_⟩
            intro other hx hy
            cases other with
            | nil => exact List.nil_prefix
            | cons z more =>
                obtain ⟨rfl, _⟩ := List.cons_prefix_cons.1 hx
                obtain ⟨rfl, _⟩ := List.cons_prefix_cons.1 hy
                exact absurd rfl hdiffer

/-- The way from one absolute route to another leads there. -/
theorem followAll_relativeTo {route base : Route} (hroute : route.absolute = true)
    (hbase : base.absolute = true) :
    base.followAll (route.relativeTo base).toPath.steps = route := by
  obtain ⟨common, hnames, hbaseNames, _⟩ := exists_common route.names.reverse base.names.reverse
  rw [followAll_toPath, relativeTo]
  generalize dropCommon route.names.reverse base.names.reverse = parts at hnames hbaseNames ⊢
  obtain ⟨rest, left⟩ := parts
  have hnames' : route.names = rest.reverse ++ common.reverse := by
    rw [← List.reverse_append, ← hnames, List.reverse_reverse]
  have hbaseNames' : base.names = left.reverse ++ common.reverse := by
    rw [← List.reverse_append, ← hbaseNames, List.reverse_reverse]
  have hclimb := followAll_climb left.reverse common.reverse
  rw [List.length_reverse] at hclimb
  dsimp only
  calc base.followAll (List.replicate left.length .up ++ rest.reverse.reverse.map .down)
    _ = ((fromRoot (left.reverse ++ common.reverse)).followAll
          (List.replicate left.length .up)).followAll (rest.map .down) := by
      rw [followAll_append, List.reverse_reverse, ← hbaseNames', ← eq_fromRoot hbase]
    _ = (fromRoot common.reverse).followAll (rest.map .down) := by rw [hclimb]
    _ = fromRoot (rest.reverse ++ common.reverse) := followAll_downs _ rest
    _ = route := by rw [← hnames', ← eq_fromRoot hroute]

/-- The way to what is below a route goes through the names below it. -/
theorem relativeTo_followAll_downs (base : Route) (names : List Component) :
    (base.followAll (names.map .down)).relativeTo base = here.followAll (names.map .down) := by
  have hnames : (names.reverse ++ base.names).reverse = base.names.reverse ++ names := by simp
  rw [followAll_downs, followAll_downs]
  unfold relativeTo
  rw [hnames, dropCommon_append]
  simp [here]

/-- The way down by names spells the names with slashes between them. -/
theorem bytes_toPath_here_downs (names : List Component) :
    (here.followAll (names.map .down)).toPath.bytes =
      [slash].intercalate (names.map Component.bytes) := by
  rw [followAll_downs]
  simp [toPath, pieces, here]

/-- A written route has no bytes but those of its names, dots and slashes. -/
theorem not_mem_bytes_toPath {route : Route} {b : UInt8} (hslash : b ≠ slash) (hdot : b ≠ dot)
    (h : ∀ component ∈ route.names, b ∉ component.bytes) : b ∉ route.toPath.bytes := by
  have hpieces : ∀ piece ∈ route.pieces, b ∉ piece := by
    intro piece hpiece
    simp only [pieces, List.mem_append, List.mem_replicate, List.mem_map,
      List.mem_reverse] at hpiece
    rcases hpiece with ⟨_, rfl⟩ | ⟨component, hcomponent, rfl⟩
    · simp [hdot]
    · exact h component hcomponent
  have hjoined (rest : List (List UInt8)) (hrest : ∀ piece ∈ rest, b ∉ piece) :
      b ∉ [slash].intercalate rest := by
    induction rest with
    | nil => simp [List.intercalate]
    | cons piece others ih =>
        rw [List.forall_mem_cons] at hrest
        cases others with
        | nil => simpa [List.intercalate] using hrest.1
        | cons next further =>
            rw [List.intercalate_cons_cons]
            simpa [hslash, hrest.1] using ih hrest.2
  unfold toPath
  cases route.absolute <;> simp [hslash, hjoined route.pieces hpieces]

/-- Climbing is spelled as text, so a way is text if its names are. -/
theorem toString?_toPath_eq_none_iff (ups : Nat) (names : List Component) :
    (toPath ⟨false, ups, names.reverse, nofun⟩).toString? = none ↔
      Path.toString? ⟨[slash].intercalate (names.map Component.bytes)⟩ = none := by
  have hclimb (count : Nat) :
      Path.toString? ⟨[slash].intercalate
          (List.replicate count [dot, dot] ++ names.map Component.bytes)⟩ = none ↔
        Path.toString? ⟨[slash].intercalate (names.map Component.bytes)⟩ = none := by
    induction count with
    | zero => rfl
    | succ count ih =>
        rw [← ih, List.replicate_succ, List.cons_append]
        cases hrest : List.replicate count [dot, dot] ++ names.map Component.bytes with
        | nil => exact Path.toString?_append_eq_none_iff ".." []
        | cons piece others =>
            rw [List.intercalate_cons_cons]
            exact Path.toString?_append_eq_none_iff "../" ([slash].intercalate (piece :: others))
  simpa [toPath, pieces] using hclimb ups

end Route

end LinkTags
