import LinkTags.Path.Basic

/-!
# Routes

A route is what a path says when its steps are followed without looking at any
file system: `..` undoes the name before it. At the root there is nothing to
undo, and at the start of a relative route `..` stays. Every route is the route
of the path it is written as (`ofPath_toPath`), so writing the route of a path
gives the path a normal form.
-/

namespace LinkTags

/-- A path read lexically: where it starts, how far it climbs first, and the names
it then goes down by. The innermost name comes first. -/
structure Route where
  absolute : Bool
  ups : Nat
  names : List Component
  anchored : absolute = true → ups = 0
  deriving DecidableEq

namespace Route

/-- The route `/`. -/
def root : Route := ⟨true, 0, [], fun _ => rfl⟩

/-- The relative route that goes nowhere. -/
def here : Route := ⟨false, 0, [], nofun⟩

/-- The absolute route through the given names, the innermost of them first. -/
def fromRoot (names : List Component) : Route := ⟨true, 0, names, fun _ => rfl⟩

/-- Extend a route by one step. -/
def follow (route : Route) : Step → Route
  | .stay => route
  | .down component => { route with names := component :: route.names }
  | .up =>
      match route.names with
      | _ :: outer => { route with names := outer }
      | [] =>
          if h : route.absolute = true then route
          else { route with ups := route.ups + 1, anchored := fun e => absurd e h }

/-- Extend a route by the steps of a path, taken as a relative one. -/
def followAll (route : Route) (steps : List Step) : Route :=
  steps.foldl follow route

/-- The route of a path. -/
def ofPath (path : Path) : Route :=
  (if path.isAbsolute then root else here).followAll path.steps

/-- The pieces that a route is written with, in the order of the text. -/
def pieces (route : Route) : List (List UInt8) :=
  List.replicate route.ups [dot, dot] ++ route.names.reverse.map Component.bytes

/-- The path that writes a route: no `.`, no slash too many, and `..` only at the
start of a relative route. The relative route that goes nowhere is empty. -/
def toPath (route : Route) : Path :=
  ⟨(if route.absolute then [slash] else []) ++ [slash].intercalate route.pieces⟩

/-- The routes from this one outward to where its names begin, nearest first. -/
def ancestors (route : Route) : List Route :=
  go route.names
where
  go : List Component → List Route
    | [] => [{ route with names := [] }]
    | component :: outer => { route with names := component :: outer } :: go outer

/-- Two lists without the beginning that they share. -/
def dropCommon [DecidableEq α] : List α → List α → List α × List α
  | a :: as, b :: bs => if a = b then dropCommon as bs else (a :: as, b :: bs)
  | as, bs => (as, bs)

/-- The relative route from `base` to `route`, both taken from the root: up from
what is left of the base after the names they share, then down the rest. -/
def relativeTo (route base : Route) : Route :=
  let (rest, left) := dropCommon route.names.reverse base.names.reverse
  ⟨false, left.length, rest.reverse, nofun⟩

/-! ## A route is the route of its path -/

theorem mem_pieces_ne_slash {route : Route} {piece : List UInt8} (h : piece ∈ route.pieces) :
    slash ∉ piece := by
  simp only [pieces, List.mem_append, List.mem_replicate, List.mem_map] at h
  rcases h with ⟨_, rfl⟩ | ⟨component, _, rfl⟩
  · decide
  · exact component.proper.2.1

theorem split_intercalate {pieces : List (List UInt8)} (hne : pieces ≠ [])
    (h : ∀ piece ∈ pieces, slash ∉ piece) :
    Path.split ([slash].intercalate pieces) = pieces := by
  induction pieces with
  | nil => exact absurd rfl hne
  | cons piece rest ih =>
      cases rest with
      | nil => simpa [List.intercalate] using Path.split_of_not_mem (h piece (by simp))
      | cons next others =>
          have hrest := ih (by simp) (fun p hp => h p (by simp [hp]))
          have hpiece := Path.split_of_not_mem (h piece (by simp))
          rw [List.intercalate_cons_cons, List.append_assoc, List.singleton_append,
            Path.split_append_slash, hpiece, hrest]
          rfl

/-- The steps that the pieces of a route spell. -/
theorem map_ofPiece_pieces (route : Route) :
    route.pieces.map Step.ofPiece =
      List.replicate route.ups .up ++ route.names.reverse.map .down := by
  have hup : Step.ofPiece [dot, dot] = .up := Step.ofPiece_piece .up
  have hdown (component : Component) : Step.ofPiece component.bytes = .down component :=
    Step.ofPiece_piece (.down component)
  simp [pieces, hup, hdown]

theorem followAll_downs (route : Route) (names : List Component) :
    route.followAll (names.map .down) = { route with names := names.reverse ++ route.names } := by
  induction names generalizing route with
  | nil => rfl
  | cons component rest ih =>
      simp only [followAll, List.map_cons, List.foldl_cons] at ih ⊢
      rw [ih]
      simp [follow]

theorem followAll_ups (n : Nat) :
    here.followAll (List.replicate n .up) = ⟨false, n, [], nofun⟩ := by
  induction n with
  | zero => rfl
  | succ n ih =>
      rw [List.replicate_succ', followAll, List.foldl_append]
      change (here.followAll (List.replicate n .up)).followAll [.up] = _
      rw [ih]
      rfl

/-- Splitting a written route gives back its steps, apart from those that stay. -/
theorem steps_toPath (route : Route) :
    (route.toPath.steps = route.pieces.map Step.ofPiece ∨
      route.toPath.steps = .stay :: route.pieces.map Step.ofPiece) ∨
    (route.pieces = [] ∧ ∀ step ∈ route.toPath.steps, step = .stay) := by
  by_cases hp : route.pieces = []
  · right
    refine ⟨hp, ?_⟩
    cases ha : route.absolute <;>
      simp [toPath, Path.steps, ha, hp, List.intercalate, Path.split, Step.ofPiece, Proper,
        dot]
  · left
    have hs := split_intercalate hp fun _ h => mem_pieces_ne_slash h
    cases ha : route.absolute with
    | false => exact .inl (by simp [toPath, Path.steps, ha, hs])
    | true =>
        right
        have : Step.ofPiece [] = .stay := by decide
        simp [toPath, Path.steps, ha, Path.split, hs, this]

theorem isAbsolute_toPath (route : Route) : route.toPath.isAbsolute = route.absolute := by
  cases ha : route.absolute with
  | true => simp [Path.isAbsolute, toPath, ha]
  | false =>
      cases hp : route.pieces with
      | nil => simp [Path.isAbsolute, toPath, ha, hp, List.intercalate]
      | cons piece rest =>
          have hmem : piece ∈ route.pieces := by simp [hp]
          have hslash := mem_pieces_ne_slash hmem
          have hne : piece ≠ [] := by
            simp only [pieces, List.mem_append, List.mem_replicate, List.mem_map] at hmem
            rcases hmem with ⟨_, rfl⟩ | ⟨component, _, rfl⟩
            · simp
            · exact component.proper.1
          obtain ⟨b, bs, rfl⟩ := List.exists_cons_of_ne_nil hne
          have hb : b ≠ slash := fun e => hslash (by simp [e])
          cases rest with
          | nil => simp [Path.isAbsolute, toPath, ha, hp, List.intercalate, hb]
          | cons next others =>
              simp [Path.isAbsolute, toPath, ha, hp, List.intercalate_cons_cons, hb]

theorem followAll_stays {route : Route} {steps : List Step} (h : ∀ step ∈ steps, step = .stay) :
    route.followAll steps = route := by
  induction steps with
  | nil => rfl
  | cons step rest ih =>
      have hstep := h step (by simp)
      subst hstep
      exact ih fun s hs => h s (by simp [hs])

/-- The steps of the pieces of a route, followed from where it starts, make it. -/
theorem followAll_pieces (route : Route) :
    (if route.absolute then root else here).followAll (route.pieces.map Step.ofPiece) = route := by
  obtain ⟨absolute, ups, names, anchored⟩ := route
  rw [map_ofPiece_pieces, followAll, List.foldl_append]
  cases absolute with
  | true =>
      obtain rfl : ups = 0 := anchored rfl
      change root.followAll (names.reverse.map .down) = _
      rw [followAll_downs]
      simp [root]
  | false =>
      change (here.followAll (List.replicate ups .up)).followAll (names.reverse.map .down) = _
      rw [followAll_ups, followAll_downs]
      simp

/-- Reading back a written route gives the route. -/
@[simp] theorem ofPath_toPath (route : Route) : ofPath route.toPath = route := by
  have hpieces := followAll_pieces route
  rw [ofPath, isAbsolute_toPath]
  rcases steps_toPath route with (h | h) | ⟨hp, h⟩
  · rw [h]
    exact hpieces
  · rw [h]
    exact hpieces
  · rw [followAll_stays h]
    rwa [hp] at hpieces

theorem toPath_inj {a b : Route} (h : a.toPath = b.toPath) : a = b := by
  simpa using congrArg ofPath h

end Route

/-- A path in normal form: the one that writes its route. -/
def Path.normalize (path : Path) : Path :=
  (Route.ofPath path).toPath

theorem Path.normalize_normalize (path : Path) : path.normalize.normalize = path.normalize := by
  simp [Path.normalize]

end LinkTags
