import LinkTags.Library

/-!
# The nearest outward

A route has as many routes outward from it as it has names, and itself
(`Route.mem_ancestors_iff`). What is nearest outward of the paths that have a property is the
path of the longest of these routes that has it (`Route.Nearest`). The library of a path is
the nearest one outward along its route (`Context.findLibrary_eq_ok_iff`).
-/

namespace LinkTags

namespace Route

variable {route outer other : Route} {P Q : Path → Prop} {result result' : Option Path}

/-- The route goes part of the way that the other one goes, or all of it. -/
structure IsOutward (outer route : Route) : Prop where
  absolute : outer.absolute = route.absolute
  ups : outer.ups = route.ups
  names : outer.names <:+ route.names

namespace IsOutward

theorem refl (route : Route) : route.IsOutward route :=
  ⟨rfl, rfl, List.suffix_rfl⟩

theorem trans (h : outer.IsOutward other) (hother : other.IsOutward route) :
    outer.IsOutward route :=
  ⟨h.absolute.trans hother.absolute, h.ups.trans hother.ups, h.names.trans hother.names⟩

theorem antisymm (h : outer.IsOutward route) (hback : route.IsOutward outer) : outer = route := by
  obtain ⟨habsolute, hups, hnames⟩ := h
  have hsame := hnames.eq_of_length_le hback.names.length_le
  obtain ⟨absolute, ups, names, anchored⟩ := outer
  cases habsolute
  cases hups
  cases hsame
  rfl

/-- Of two routes outward from one, one is outward from the other. -/
theorem total (h : outer.IsOutward route) (hother : other.IsOutward route) :
    outer.IsOutward other ∨ other.IsOutward outer := by
  have habsolute := h.absolute.trans hother.absolute.symm
  have hups := h.ups.trans hother.ups.symm
  rcases List.suffix_or_suffix_of_suffix h.names hother.names with hnames | hnames
  · exact .inl ⟨habsolute, hups, hnames⟩
  · exact .inr ⟨habsolute.symm, hups.symm, hnames⟩

/-- A route is outward from one with a further name if it is this route, or outward from the
route without the name. -/
theorem cons_iff {absolute : Bool} {ups : Nat} {component : Component} {rest : List Component}
    {anchored : absolute = true → ups = 0} :
    outer.IsOutward ⟨absolute, ups, component :: rest, anchored⟩ ↔
      outer = ⟨absolute, ups, component :: rest, anchored⟩ ∨
        outer.IsOutward ⟨absolute, ups, rest, anchored⟩ := by
  constructor
  · rintro ⟨habsolute, hups, hnames⟩
    rcases List.suffix_cons_iff.1 hnames with hsame | hrest
    · refine .inl (antisymm ⟨habsolute, hups, hnames⟩ ⟨habsolute.symm, hups.symm, ?_⟩)
      simp [hsame]
    · exact .inr ⟨habsolute, hups, hrest⟩
  · rintro (rfl | ⟨habsolute, hups, hrest⟩)
    · exact refl _
    · exact ⟨habsolute, hups, hrest.trans (List.suffix_cons _ _)⟩

theorem nil_iff {absolute : Bool} {ups : Nat} {anchored : absolute = true → ups = 0} :
    outer.IsOutward ⟨absolute, ups, [], anchored⟩ ↔ outer = ⟨absolute, ups, [], anchored⟩ := by
  constructor
  · rintro ⟨habsolute, hups, hnames⟩
    refine antisymm ⟨habsolute, hups, hnames⟩ ⟨habsolute.symm, hups.symm, ?_⟩
    exact List.nil_suffix
  · rintro rfl
    exact refl _

theorem root_iff : root.IsOutward route ↔ route.absolute = true := by
  constructor
  · intro h
    exact h.absolute.symm
  · intro habsolute
    exact ⟨habsolute.symm, (route.anchored habsolute).symm, List.nil_suffix⟩

end IsOutward

/-- Outward from a route are the route itself and those outward from it without its last
name. -/
theorem ancestors_cons (absolute : Bool) (ups : Nat) (component : Component)
    (rest : List Component) (anchored : absolute = true → ups = 0) :
    ancestors ⟨absolute, ups, component :: rest, anchored⟩ =
      ⟨absolute, ups, component :: rest, anchored⟩ ::
        ancestors ⟨absolute, ups, rest, anchored⟩ := by
  have hgo (names more less : List Component) :
      ancestors.go ⟨absolute, ups, more, anchored⟩ names =
        ancestors.go ⟨absolute, ups, less, anchored⟩ names := by
    induction names with
    | nil => rfl
    | cons first others ih => exact congrArg (_ :: ·) ih
  exact congrArg (_ :: ·) (hgo rest _ _)

theorem mem_ancestors_iff : outer ∈ route.ancestors ↔ outer.IsOutward route := by
  obtain ⟨absolute, ups, names, anchored⟩ := route
  induction names with
  | nil => exact List.mem_singleton.trans IsOutward.nil_iff.symm
  | cons component rest ih => rw [ancestors_cons, List.mem_cons, ih, IsOutward.cons_iff]

/-! ## The nearest of those with a property -/

/-- What is nearest outward along a route of the paths that have the property, if any has it:
the path of the longest route with it. -/
inductive Nearest (route : Route) (P : Path → Prop) : Option Path → Prop where
  | absent (hnone : ∀ other : Route, other.IsOutward route → ¬P other.toPath) :
      Nearest route P none
  | found {outer : Route} (houter : outer.IsOutward route) (hholds : P outer.toPath)
      (hlongest : ∀ other : Route, other.IsOutward route → P other.toPath →
        other.IsOutward outer) :
      Nearest route P (some outer.toPath)

namespace Nearest

theorem unique (h : route.Nearest P result) (h' : route.Nearest P result') :
    result = result' := by
  cases h with
  | absent hnone =>
      cases h' with
      | absent _ => rfl
      | found houter hholds _ => exact absurd hholds (hnone _ houter)
  | found houter hholds hlongest =>
      cases h' with
      | absent hnone => exact absurd hholds (hnone _ houter)
      | found houter' hholds' hlongest' =>
          have hsame := (hlongest' _ houter hholds).antisymm (hlongest _ houter' hholds')
          rw [hsame]

theorem eq_none_iff (h : route.Nearest P result) :
    result = none ↔ ∀ other : Route, other.IsOutward route → ¬P other.toPath := by
  constructor
  · rintro rfl
    cases h with
    | absent hnone => exact hnone
  · intro hnone
    exact h.unique (.absent hnone)

/-- What is nearest along a route is nearest along every route between the two. -/
theorem of_outward {inner : Route} (h : route.Nearest P result) (hinner : inner.IsOutward route)
    (hbetween : ∀ outer : Route, result = some outer.toPath → outer.IsOutward inner) :
    inner.Nearest P result := by
  cases h with
  | absent hnone =>
      refine .absent ?_
      intro other hother
      exact hnone other (hother.trans hinner)
  | found houter hholds hlongest =>
      refine .found (hbetween _ rfl) hholds ?_
      intro other hother
      exact hlongest other (hother.trans hinner)

/-- It matters only which of the paths outward have the property. -/
theorem congr (hsame : ∀ other : Route, other.IsOutward route → (P other.toPath ↔ Q other.toPath))
    (h : route.Nearest P result) : route.Nearest Q result := by
  cases h with
  | absent hnone =>
      refine .absent ?_
      intro other hother hholds
      exact hnone other hother ((hsame _ hother).2 hholds)
  | found houter hholds hlongest =>
      refine .found houter ((hsame _ houter).1 hholds) ?_
      intro other hother hother'
      exact hlongest other hother ((hsame _ hother).2 hother')

/-- A route without the property leaves what is nearest to those outward from it. -/
theorem cons {absolute : Bool} {ups : Nat} {component : Component} {rest : List Component}
    {anchored : absolute = true → ups = 0}
    (h : Nearest ⟨absolute, ups, rest, anchored⟩ P result)
    (hnot : ¬P (toPath ⟨absolute, ups, component :: rest, anchored⟩)) :
    Nearest ⟨absolute, ups, component :: rest, anchored⟩ P result := by
  have hrest : ∀ other : Route, other.IsOutward ⟨absolute, ups, component :: rest, anchored⟩ →
      P other.toPath → other.IsOutward ⟨absolute, ups, rest, anchored⟩ := by
    intro other hother hholds
    rcases IsOutward.cons_iff.1 hother with rfl | hrest
    · exact absurd hholds hnot
    · exact hrest
  cases h with
  | absent hnone =>
      refine .absent ?_
      intro other hother hholds
      exact hnone other (hrest other hother hholds) hholds
  | found houter hfound hlongest =>
      refine .found (IsOutward.cons_iff.2 (.inr houter)) hfound ?_
      intro other hother hholds
      exact hlongest other (hrest other hother hholds) hholds

/-- Paths that come to have the property do not change which is nearest if there is one
nearer than all of them. -/
theorem of_nearer (h : route.Nearest P result) {nearer : Route} (hnearer : nearer.IsOutward route)
    (hholds : P nearer.toPath) (hless : ∀ other : Route, other.IsOutward route → P other.toPath →
      Q other.toPath)
    (hmore : ∀ other : Route, other.IsOutward route → Q other.toPath →
      P other.toPath ∨ other.IsOutward nearer) :
    route.Nearest Q result := by
  cases h with
  | absent hnone => exact absurd hholds (hnone nearer hnearer)
  | found houter hfound hlongest =>
      refine .found houter (hless _ houter hfound) ?_
      intro other hother hother'
      rcases hmore other hother hother' with hbefore | hfarther
      · exact hlongest other hother hbefore
      · exact hfarther.trans (hlongest nearer hnearer hholds)

end Nearest

/-- Looking outward along a route stops at the nearest path with the property. -/
theorem nearest_find? (route : Route) (p : Path → Bool) :
    route.Nearest (fun path => p path = true) ((route.ancestors.map toPath).find? p) := by
  obtain ⟨absolute, ups, names, anchored⟩ := route
  induction names with
  | nil =>
      have hancestors : ancestors ⟨absolute, ups, [], anchored⟩ =
          [⟨absolute, ups, [], anchored⟩] := rfl
      rw [hancestors, List.map_singleton, List.find?_singleton]
      split
      next hholds => exact .found (.refl _) hholds fun other hother _ => hother
      next hnot =>
        refine .absent ?_
        intro other hother hholds
        rw [IsOutward.nil_iff.1 hother] at hholds
        exact hnot hholds
  | cons component rest ih =>
      rw [ancestors_cons, List.map_cons, List.find?_cons]
      split
      next hholds => exact .found (.refl _) hholds fun other hother _ => hother
      next hnot => exact ih.cons (by simpa using hnot)

end Route

namespace Context

variable {context : Context} {start : Path} {result : Option Path}

/-- The library of a path is the nearest one outward along the route of the path. -/
theorem findLibrary_eq_ok_iff : context.findLibrary start = .ok result ↔
    ∃ route, context.absolute start = .ok route ∧
      route.Nearest (fun path => context.isLibrary path = true) result := by
  unfold findLibrary
  split
  next e herror => simp [herror]
  next route hroute =>
    rw [hroute]
    constructor
    · rintro ⟨⟩
      exact ⟨route, rfl, route.nearest_find? context.isLibrary⟩
    · rintro ⟨route, ⟨⟩, hnearest⟩
      exact congrArg Except.ok ((route.nearest_find? context.isLibrary).unique hnearest)

end Context

end LinkTags
