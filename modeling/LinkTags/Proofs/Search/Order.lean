import LinkTags.Proofs.Search.Change
import LinkTags.Proofs.Search.Leaf
import LinkTags.Proofs.Search.Rewriting

/-!
# The order of what is found

Which path stands for a file, and where it comes, is said by the terms of a query from left
to right. An `AND` filters what its first term gives, and of its other terms only the set
counts. An `OR` begins with all that its first term gives, and which files it finds does not
depend on the order of its terms. So a term absorbs what it is combined with to no effect,
and a leaf names each of its files by the smallest name (`search_order_laws`).

## Implementation notes

Of what the terms of a group give, only the members count for most of this, so a row of
evaluations is read as a set (`mem_of_evaluateAll`).
-/

namespace LinkTags

/-! ## Lists of matches -/

namespace Operator

variable {first second : List Match} {rest others : List (List Match)}

theorem sublist_all (first : List Match) (rest : List (List Match)) :
    (all.combine (first :: rest)).Sublist first :=
  List.filter_sublist

/-- Of the lists that the first is compared with, only the set counts. -/
theorem all_congr (h : ∀ found, found ∈ others ↔ found ∈ rest) :
    all.combine (first :: others) = all.combine (first :: rest) := by
  apply List.filter_congr
  intro item _
  rw [Bool.eq_iff_iff, List.all_eq_true, List.all_eq_true]
  simp only [h]

theorem prefix_any (hfirst : (first.map Match.id).Nodup) (rest : List (List Match)) :
    first <+: any.combine (first :: rest) := by
  rw [combine, Match.union, List.flatten_cons, Match.distinct_append,
    Match.distinct_of_nodup hfirst]
  exact List.prefix_append _ _

theorem all_any_self (hfirst : (first.map Match.id).Nodup)
    (hsecond : (second.map Match.id).Nodup) :
    all.combine [first, any.combine [first, second]] = first := by
  rw [all_pair, any_pair hfirst hsecond, List.filter_eq_self]
  intro item hitem
  rw [Match.covers_append, Match.covers_of_mem hitem, Bool.true_or]

theorem any_all_self (hfirst : (first.map Match.id).Nodup) (second : List Match) :
    any.combine [first, all.combine [first, second]] = first := by
  rw [any_pair hfirst (nodup_all_pair hfirst), all_pair, List.append_right_eq_self,
    List.filter_eq_nil_iff]
  intro item hitem
  simp [Match.covers_of_mem (List.mem_of_mem_filter hitem)]

end Operator

namespace Context

variable {context : Context} {resolve : String → Path}

/-! ## Several terms -/

/-- Each of the terms can be searched for. -/
def Searchable (context : Context) (resolve : String → Path) (terms : List Query) : Prop :=
  ∀ term ∈ terms, ∃ paths, context.search resolve term = .ok paths

theorem search_of_evaluate {query : Query} {found : List Match}
    (h : context.evaluate resolve query = .ok found) :
    context.search resolve query = .ok (found.map Match.path) := by
  rw [search, h]

theorem exists_evaluateAll {terms : List Query} (h : context.Searchable resolve terms) :
    ∃ founds, context.evaluateAll resolve terms = .ok founds := by
  rw [exists_evaluateAll_iff]
  intro name hname
  obtain ⟨term, hterm, hleaf⟩ := Query.mem_leavesAll.1 hname
  obtain ⟨paths, hpaths⟩ := h term hterm
  obtain ⟨found, hfound, _⟩ := search_eq_ok hpaths
  exact (exists_evaluate_iff term).1 ⟨found, hfound⟩ name hleaf

theorem mem_of_evaluateAll {terms : List Query} {founds : List (List Match)}
    (h : context.evaluateAll resolve terms = .ok founds) {found : List Match} :
    found ∈ founds ↔ ∃ term ∈ terms, context.evaluate resolve term = .ok found := by
  induction terms generalizing founds with
  | nil =>
      cases h
      simp
  | cons term rest ih =>
      rw [evaluateAll] at h
      split at h
      · contradiction
      next first hfirst =>
        split at h
        · contradiction
        next others hothers =>
          cases h
          rw [List.mem_cons, List.exists_mem_cons_iff, ih hothers, hfirst, Except.ok.injEq,
            eq_comm]

/-- A group begins with what its first term gives, and goes on with what the others do. -/
theorem evaluate_group_cons {first : Query} {rest : List Query} {found : List Match}
    {founds : List (List Match)} (operator : Operator)
    (hfirst : context.evaluate resolve first = .ok found)
    (hrest : context.evaluateAll resolve rest = .ok founds) :
    context.evaluate resolve (.group operator (first :: rest)) =
      .ok (operator.combine (found :: founds)) := by
  rw [evaluate_group, evaluateAll, hfirst, hrest]
  rfl

/-! ## Groups -/

variable {first : Query} {rest : List Query} {paths : List Path}

theorem search_all_of_searchable (hfirst : context.search resolve first = .ok paths)
    (hrest : context.Searchable resolve rest) :
    ∃ kept, context.search resolve (.group .all (first :: rest)) = .ok kept ∧
      kept.Sublist paths ∧
      ∀ others, (∀ term, term ∈ others ↔ term ∈ rest) →
        context.search resolve (.group .all (first :: others)) = .ok kept := by
  obtain ⟨found, hfound, rfl⟩ := search_eq_ok hfirst
  obtain ⟨founds, hfounds⟩ := exists_evaluateAll hrest
  refine ⟨_, search_of_evaluate (evaluate_group_cons .all hfound hfounds),
    (Operator.sublist_all found founds).map Match.path, ?_⟩
  intro others hsame
  have hsearchable : context.Searchable resolve others :=
    fun term hterm => hrest term ((hsame term).1 hterm)
  obtain ⟨otherFounds, hotherFounds⟩ := exists_evaluateAll hsearchable
  have hmem : ∀ item, item ∈ otherFounds ↔ item ∈ founds := by
    intro item
    simp only [mem_of_evaluateAll hotherFounds, mem_of_evaluateAll hfounds, hsame]
  rw [search_of_evaluate (evaluate_group_cons .all hfound hotherFounds),
    Operator.all_congr hmem]

/-- Which files an `OR` finds depends on the set of its terms only. -/
theorem answers_any_congr {terms others : List Query} {ids : Set FileId}
    (h : ∀ term, term ∈ others ↔ term ∈ terms) :
    context.Answers resolve (.group .any others) ids ↔
      context.Answers resolve (.group .any terms) ids := by
  simp only [answers_iff, Query.leaves, Query.mem_leavesAll, finds_any_iff, h]

theorem search_any_of_searchable (hfirst : context.search resolve first = .ok paths)
    (hrest : context.Searchable resolve rest) :
    ∃ all ids, context.search resolve (.group .any (first :: rest)) = .ok all ∧
      paths <+: all ∧ context.Answers resolve (.group .any (first :: rest)) ids ∧
      ∀ others, others.Perm (first :: rest) →
        context.Answers resolve (.group .any others) ids := by
  obtain ⟨found, hfound, rfl⟩ := search_eq_ok hfirst
  obtain ⟨founds, hfounds⟩ := exists_evaluateAll hrest
  have hsearch := search_of_evaluate (evaluate_group_cons .any hfound hfounds)
  have hanswers := answers_of_search hsearch
  refine ⟨_, _, hsearch, ?_, hanswers, ?_⟩
  · exact (Operator.prefix_any (nodup_of_evaluate hfound) founds).map Match.path
  · intro others hperm
    exact (answers_any_congr fun _ => hperm.mem_iff).2 hanswers

theorem search_absorb {a b : Query} (ha : context.search resolve a = .ok paths)
    (hb : context.Searchable resolve [b]) :
    context.search resolve (.group .all [a, .group .any [a, b]]) = .ok paths ∧
      context.search resolve (.group .any [a, .group .all [a, b]]) = .ok paths := by
  obtain ⟨found, hfound, rfl⟩ := search_eq_ok ha
  obtain ⟨otherPaths, hotherPaths⟩ := hb b (List.mem_singleton_self b)
  obtain ⟨other, hother, _⟩ := search_eq_ok hotherPaths
  have hnodup := nodup_of_evaluate hfound
  have hotherNodup := nodup_of_evaluate hother
  have hpair : ∀ operator : Operator,
      context.evaluate resolve (.group operator [a, b]) =
        .ok (operator.combine [found, other]) := by
    intro operator
    rw [evaluate_group, evaluateAll_pair, hfound, hother]
    rfl
  constructor
  · rw [search, evaluate_group, evaluateAll_pair, hfound, hpair .any]
    exact congrArg (fun kept => Except.ok (kept.map Match.path))
      (Operator.all_any_self hnodup hotherNodup)
  · rw [search, evaluate_group, evaluateAll_pair, hfound, hpair .all]
    exact congrArg (fun all => Except.ok (all.map Match.path))
      (Operator.any_all_self hnodup other)

/-! ## Leaves -/

/-- The paths of a leaf are in the order of the names of its directory, and the names are the
smallest of its files. -/
theorem search_dir_eq_ok {name : String} (h : context.search resolve (.dir name) = .ok paths) :
    ∃ entries : List (Name × Inode),
      paths = entries.map (fun entry => (resolve name).join entry.1.path) ∧
      (entries.Pairwise fun first second => first.1 < second.1) ∧
      (∀ entry inode,
        (entry, inode) ∈ entries ↔ context.IsFirstName (resolve name) entry inode) ∧
      ∀ location entry inode, context.HoldsFile (resolve name) location entry inode →
        ∃ least, (least, inode) ∈ entries := by
  obtain ⟨found, hfound, rfl⟩ := search_eq_ok h
  obtain ⟨entries, rfl, hsorted, hfirst⟩ := exists_entries_of_leaf hfound
  refine ⟨entries, List.map_map, hsorted, hfirst, ?_⟩
  intro location entry inode hholds
  have hmem := ((represents_of_evaluate hfound).mem_iff _).2 (.dir hholds)
  rw [List.map_map] at hmem
  obtain ⟨⟨least, other⟩, hleast, hsame⟩ := List.mem_map.1 hmem
  obtain rfl : other = inode := FileId.file.inj hsame
  exact ⟨least, hleast⟩

/-- If the terms can be searched for, an `AND` gives some of the paths of its first term, the
others in any order and as often as one likes; an `OR` gives those of its first term first,
and the same files in any order of its terms; either absorbs the other; and a leaf gives each
of its files by its smallest name, in the order of the names. -/
theorem search_order_laws (context : Context) (resolve : String → Path) :
    (∀ first rest paths, context.search resolve first = .ok paths →
      context.Searchable resolve rest →
        ∃ kept, context.search resolve (.group .all (first :: rest)) = .ok kept ∧
          kept.Sublist paths ∧
          ∀ others, (∀ term, term ∈ others ↔ term ∈ rest) →
            context.search resolve (.group .all (first :: others)) = .ok kept) ∧
    (∀ first rest paths, context.search resolve first = .ok paths →
      context.Searchable resolve rest →
        ∃ all ids, context.search resolve (.group .any (first :: rest)) = .ok all ∧
          paths <+: all ∧ context.Answers resolve (.group .any (first :: rest)) ids ∧
          ∀ others, others.Perm (first :: rest) →
            context.Answers resolve (.group .any others) ids) ∧
    (∀ a b paths, context.search resolve a = .ok paths → context.Searchable resolve [b] →
      context.search resolve (.group .all [a, .group .any [a, b]]) = .ok paths ∧
        context.search resolve (.group .any [a, .group .all [a, b]]) = .ok paths) ∧
    ∀ name paths, context.search resolve (.dir name) = .ok paths →
      ∃ entries : List (Name × Inode),
        paths = entries.map (fun entry => (resolve name).join entry.1.path) ∧
        (entries.Pairwise fun first second => first.1 < second.1) ∧
        (∀ entry inode,
          (entry, inode) ∈ entries ↔ context.IsFirstName (resolve name) entry inode) ∧
        ∀ location entry inode, context.HoldsFile (resolve name) location entry inode →
          ∃ least, (least, inode) ∈ entries :=
  ⟨fun _ _ _ => search_all_of_searchable, fun _ _ _ => search_any_of_searchable,
    fun _ _ _ => search_absorb, fun _ _ => search_dir_eq_ok⟩

/-- In `A`, `a` stands for the file that is `b` too, and still does if `B` follows. -/
theorem shelf_search_order :
    shelf.search Path.ofString (.dir "A") = .ok [Path.ofString "A/a", Path.ofString "A/c"] ∧
    shelf.Searchable Path.ofString [.dir "B"] ∧
    shelf.search Path.ofString (.group .all [.dir "A", .dir "B"]) =
      .ok [Path.ofString "A/a"] ∧
    shelf.search Path.ofString (.group .all [.dir "A", .dir "B", .dir "B"]) =
      .ok [Path.ofString "A/a"] ∧
    shelf.search Path.ofString (.group .any [.dir "A", .group .all [.dir "A", .dir "B"]]) =
      .ok [Path.ofString "A/a", Path.ofString "A/c"] ∧
    (∃ ids, shelf.Answers Path.ofString (.group .any [.dir "B", .dir "A"]) ids) ∧
    ∃ entries : List (Name × Inode),
      [Path.ofString "A/a", Path.ofString "A/c"] =
        entries.map (fun entry => (Path.ofString "A").join entry.1.path) ∧
      ∀ entry inode,
        (entry, inode) ∈ entries ↔ shelf.IsFirstName (Path.ofString "A") entry inode := by
  have hfirst : shelf.search Path.ofString (.dir "A") =
      .ok [Path.ofString "A/a", Path.ofString "A/c"] := by
    simp only [search, evaluate, matchesIn, readDirectory_eq]
    rfl
  have hkept : shelf.search Path.ofString (.group .all [.dir "A", .dir "B"]) =
      .ok [Path.ofString "A/a"] := by
    simp only [search, evaluate, evaluateAll, matchesIn, readDirectory_eq]
    rfl
  have hrest : shelf.Searchable Path.ofString [.dir "B"] := by
    intro term hterm
    obtain rfl := List.mem_singleton.1 hterm
    refine ⟨[Path.ofString "B/x"], ?_⟩
    simp only [search, evaluate, matchesIn, readDirectory_eq]
    rfl
  obtain ⟨hall, hany, habsorb, hleaf⟩ := search_order_laws shelf Path.ofString
  obtain ⟨kept, hsearch, _, hsame⟩ := hall _ _ _ hfirst hrest
  obtain rfl : kept = [Path.ofString "A/a"] := Except.ok.inj (hsearch.symm.trans hkept)
  obtain ⟨_, ids, _, _, _, hperm⟩ := hany _ _ _ hfirst hrest
  obtain ⟨entries, hpaths, _, hleast, _⟩ := hleaf _ _ hfirst
  have htwice : ∀ term, term ∈ ([.dir "B", .dir "B"] : List Query) ↔ term ∈ [.dir "B"] := by
    simp
  exact ⟨hfirst, hrest, hkept, hsame _ htwice, (habsorb _ _ _ hfirst hrest).2,
    ⟨ids, hperm _ (List.Perm.swap ..)⟩, entries, hpaths, hleast⟩

end Context

end LinkTags
