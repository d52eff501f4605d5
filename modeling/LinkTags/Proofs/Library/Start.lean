import LinkTags.Proofs.Library.Discovery

/-!
# What a start finds

Every start has a normal form, which is an absolute path without `.` and `..`, and is looked
outward from, down to `/`. Of the paths outward that are libraries the longest is found, also
from the paths that lie between, and it is a library that can be opened
(`Context.findLibrary_from_start`).
-/

namespace LinkTags

namespace Context

variable {context : Context} {start : Path} {route : Route} {result : Option Path}

/-- The path of the working directory, which relative paths are taken from. -/
def workingPath (context : Context) : Path :=
  (Route.ofLocation context.cwd.base).toPath

theorem isAbsolute_workingPath (context : Context) : context.workingPath.isAbsolute = true :=
  Route.isAbsolute_toPath _

theorem absolute_of_isAbsolute (h : start.isAbsolute = true) :
    context.absolute start = .ok (Route.ofPath start) := by
  rw [absolute, Route.ofPath, if_pos h, if_pos h]

/-- The working directory makes a path absolute. -/
theorem isAbsolute_workingPath_join (context : Context) (start : Path) :
    (context.workingPath.join start).isAbsolute = true := by
  have hworking := context.isAbsolute_workingPath
  cases hstart : start.isAbsolute with
  | true => rwa [Path.join, if_pos hstart]
  | false =>
      have hne : context.workingPath.bytes ≠ [] := by
        intro hempty
        rw [Path.isAbsolute_of_empty hempty] at hworking
        contradiction
      rwa [Path.isAbsolute_join hne hstart]

theorem absolute_workingPath_join (hcwd : context.cwd.lost = 0) (start : Path) :
    context.absolute (context.workingPath.join start) = context.absolute start := by
  cases hstart : start.isAbsolute with
  | true => rw [Path.join, if_pos hstart]
  | false =>
      rw [absolute_join context _ hstart, workingPath, absolute_of_route context rfl,
        absolute_eq hcwd, Context.start, hstart]
      rfl

/-- The route of a start is written as its normal form. -/
theorem toPath_of_absolute (hcwd : context.cwd.lost = 0)
    (h : context.absolute start = .ok route) :
    route.toPath = (context.workingPath.join start).normalize := by
  rw [← absolute_workingPath_join hcwd,
    absolute_of_isAbsolute (context.isAbsolute_workingPath_join start)] at h
  rw [← Except.ok.inj h, Path.normalize]

/-- A start between another one and what this finds finds the same. -/
theorem findLibrary_of_outward {inner : Route} (hroute : context.absolute start = .ok route)
    (hnearest : route.Nearest (fun path => context.isLibrary path = true) result)
    (hinner : inner.IsOutward route)
    (hbetween : ∀ outer : Route, result = some outer.toPath → outer.IsOutward inner) :
    context.findLibrary inner.toPath = .ok result := by
  have habsolute := hinner.absolute.trans (absolute_eq_true hroute)
  exact findLibrary_eq_ok_iff.2
    ⟨inner, absolute_of_route context habsolute, hnearest.of_outward hinner hbetween⟩

theorem isLibrary_of_findLibrary {root : Path}
    (h : context.findLibrary start = .ok (some root)) : context.isLibrary root = true := by
  obtain ⟨route, _, hnearest⟩ := findLibrary_eq_ok_iff.1 h
  cases hnearest with
  | found _ hholds _ => exact hholds

/-- What is found can be opened. -/
theorem find_eq_ok (h : context.findLibrary start = .ok result) :
    Library.find context start = .ok (result.map Library.mk) := by
  rw [Library.find, h]
  cases result with
  | none => rfl
  | some root => exact congrArg Except.ok (if_pos (isLibrary_of_findLibrary h))

/-- While the working directory is part of the tree, looking for the library of a start ends.
Its normal form has `/` outward from it, and the longest path outward from it that is a
library is found, or none if there is none. The same is found from every path between the
two, itself included, and is a library whose metadata is a directory. -/
theorem findLibrary_from_start (context : Context) (hcwd : context.cwd.lost = 0)
    (start : Path) :
    ∃ route result, context.absolute start = .ok route ∧
      route.toPath = (context.workingPath.join start).normalize ∧
      Route.root.IsOutward route ∧
      context.findLibrary start = .ok result ∧
      route.Nearest (fun path => context.isLibrary path = true) result ∧
      (result = none ↔
        ∀ outer : Route, outer.IsOutward route → ¬context.isLibrary outer.toPath = true) ∧
      (∀ inner : Route, inner.IsOutward route →
        (∀ outer : Route, result = some outer.toPath → outer.IsOutward inner) →
        context.findLibrary inner.toPath = .ok result) ∧
      (∀ root, result = some root → context.findLibrary root = .ok (some root)) ∧
      Library.find context start = .ok (result.map Library.mk) ∧
      ∀ library, Library.find context start = .ok (some library) →
        context.isDirectory library.metadata = true := by
  obtain ⟨route, hroute⟩ := exists_absolute hcwd start
  obtain ⟨result, hresult, hnearest⟩ := exists_findLibrary hroute
  have hfind := find_eq_ok hresult
  have hbetween : ∀ inner : Route, inner.IsOutward route →
      (∀ outer : Route, result = some outer.toPath → outer.IsOutward inner) →
      context.findLibrary inner.toPath = .ok result :=
    fun _ => findLibrary_of_outward hroute hnearest
  refine ⟨route, result, hroute, toPath_of_absolute hcwd hroute,
    Route.IsOutward.root_iff.2 (absolute_eq_true hroute), hresult, hnearest,
    hnearest.eq_none_iff, hbetween, ?_, hfind, ?_⟩
  · rintro root rfl
    cases hnearest with
    | @found outer houter _ _ =>
        refine hbetween outer houter ?_
        intro other hsame
        rw [Route.toPath_inj (Option.some.inj hsame)]
        exact .refl _
  · intro library hlibrary
    obtain ⟨root, rfl, rfl⟩ :=
      Option.map_eq_some_iff.1 (Except.ok.inj (hfind.symm.trans hlibrary))
    exact isLibrary_of_findLibrary hresult

/-- From a path that nothing is at, the library `/` is found, and from `/B` on the way to it
too. -/
theorem shelf_findLibrary_from_start :
    shelf.cwd.lost = 0 ∧
    shelf.findLibrary (.ofString "A/.././B//A") = .ok (some (.ofString "/")) ∧
    (shelf.workingPath.join (.ofString "A/.././B//A")).normalize = .ofString "/B/A" ∧
    shelf.findLibrary (.ofString "/B") = .ok (some (.ofString "/")) ∧
    Library.find shelf (.ofString "A/.././B//A") = .ok (some ⟨.ofString "/"⟩) ∧
    shelf.isDirectory (.ofString "/.hardtag") = true := by
  have hfound : shelf.findLibrary (.ofString "A/.././B//A") = .ok (some (.ofString "/")) := by rfl
  have hpath : shelf.absolute (.ofString "A/.././B//A") = .ok (.ofLocation [nameA, nameB]) := by
    rfl
  obtain ⟨route, result, hroute, hnormal, _, hresult, _, _, hbetween, _, hfind, hmetadata⟩ :=
    findLibrary_from_start shelf rfl (.ofString "A/.././B//A")
  obtain rfl : route = .ofLocation [nameA, nameB] := Except.ok.inj (hroute.symm.trans hpath)
  obtain rfl : result = some (.ofString "/") := Except.ok.inj (hresult.symm.trans hfound)
  refine ⟨rfl, hfound, hnormal.symm, ?_, hfind, hmetadata ⟨.ofString "/"⟩ hfind⟩
  refine hbetween (.ofLocation [nameB]) ⟨rfl, rfl, by decide⟩ ?_
  intro outer houter
  have hroot : Route.root.toPath = outer.toPath := Option.some.inj houter
  rw [← Route.toPath_inj hroot]
  exact Route.IsOutward.root_iff.2 rfl

end Context

end LinkTags
