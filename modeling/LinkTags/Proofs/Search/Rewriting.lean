import LinkTags.Proofs.Search.Meaning
import Mathlib.Data.List.Perm.Basic

/-!
# Rewriting queries

Queries that can be rewritten into each other without a search noticing: its paths, their
order and its error stay the same (`search_rewriting_laws`). A group of one term, or of
one term twice, is that term; a group in a group of the same sort dissolves; and `OR`
distributes over `AND`. `AND` distributes over `OR` only up to the order of the paths.

## Implementation notes

The laws of groups are laws of lists of matches, in which no file comes twice. Failures
need no law of their own: both sides of an equation read the same leaves, and each for
the first time in the same order.
-/

namespace LinkTags

namespace Match

variable {id : FileId}

/-! ## Laws of lists of matches -/

theorem covers_append (found other : List Match) :
    covers (found ++ other) id = (covers found id || covers other id) := by
  simp [covers]

theorem covers_distinct (found : List Match) : covers (distinct found) id = covers found id := by
  rw [Bool.eq_iff_iff, covers_iff, covers_iff, mem_ids_distinct]

theorem covers_common_cons (first : List Match) (others : List (List Match)) :
    covers (common (first :: others)) id =
      (covers first id && others.all fun found => covers found id) := by
  rw [Bool.eq_iff_iff, covers_iff, mem_ids_common_cons, List.forall_mem_cons]
  simp [covers_iff]

theorem covers_of_mem {item : Match} {found : List Match} (h : item ∈ found) :
    covers found item.id = true :=
  covers_iff.2 (List.mem_map_of_mem h)

/-- Matches of different files are all kept. -/
theorem distinct_of_nodup {found : List Match} (h : (found.map Match.id).Nodup) :
    distinct found = found := by
  induction found with
  | nil => rfl
  | cons first rest ih =>
      rw [List.map_cons, List.nodup_cons] at h
      rw [distinct, ih h.2, List.filter_eq_self.2]
      intro other hother
      have hne : other.id ≠ first.id := fun e => h.1 (e ▸ List.mem_map_of_mem hother)
      simpa using hne

/-- Of matches that follow others, those are kept whose file is not among the others. -/
theorem distinct_append (found other : List Match) :
    distinct (found ++ other) =
      distinct found ++ (distinct other).filter fun item => !covers found item.id := by
  induction found with
  | nil => simp [distinct, covers]
  | cons first rest ih =>
      rw [List.cons_append, distinct, ih, distinct, List.filter_append, List.cons_append,
        List.filter_filter]
      congr 2
      apply List.filter_congr
      intro item _
      by_cases hitem : item.id = first.id
      · simp [covers, hitem]
      · simp [covers, hitem, eq_comm]

theorem distinct_distinct (found : List Match) : distinct (distinct found) = distinct found :=
  distinct_of_nodup (nodup_distinct found)

/-- Leaving out matches twice is leaving them out once, wherever they stand. -/
theorem distinct_append_distinct_append (front found back : List Match) :
    distinct (front ++ (distinct found ++ back)) = distinct (front ++ (found ++ back)) := by
  simp only [distinct_append, distinct_distinct, covers_distinct]

end Match

namespace Operator

/-- A group of one term gives what the term gives. -/
theorem combine_singleton (operator : Operator) {found : List Match}
    (h : (found.map Match.id).Nodup) : operator.combine [found] = found := by
  cases operator with
  | all => simp [combine, Match.common]
  | any => simp [combine, Match.union, Match.distinct_of_nodup h]

/-- A group of one term twice gives what the term gives. -/
theorem combine_pair_self (operator : Operator) {found : List Match}
    (h : (found.map Match.id).Nodup) : operator.combine [found, found] = found := by
  cases operator with
  | all =>
      rw [combine, Match.common, List.filter_eq_self]
      intro item hitem
      simpa using Match.covers_of_mem hitem
  | any =>
      have hnone : (found.filter fun item => !Match.covers found item.id) = [] := by
        rw [List.filter_eq_nil_iff]
        intro item hitem
        simp [Match.covers_of_mem hitem]
      simp [combine, Match.union, Match.distinct_append, Match.distinct_of_nodup h, hnone]

/-- A group among the terms of a group of the same sort can be replaced by its terms. The
common part of no terms at all is empty, so it cannot be left out. -/
theorem combine_nested (operator : Operator) (front : List (List Match))
    {inner : List (List Match)} (back : List (List Match)) (h : operator = .any ∨ inner ≠ []) :
    operator.combine (front ++ [operator.combine inner] ++ back) =
      operator.combine (front ++ inner ++ back) := by
  cases operator with
  | any =>
      simp only [combine, Match.union, List.flatten_append, List.flatten_singleton,
        List.append_assoc]
      exact Match.distinct_append_distinct_append ..
  | all =>
      obtain ⟨first, rest, rfl⟩ := List.exists_cons_of_ne_nil (h.resolve_left (by decide))
      cases front with
      | nil => simp [combine, Match.common, List.filter_filter, Bool.and_comm]
      | cons lead others =>
          change (lead.filter fun item =>
              (others ++ [Match.common (first :: rest)] ++ back).all
                fun found => Match.covers found item.id) =
            lead.filter fun item =>
              (others ++ (first :: rest) ++ back).all fun found => Match.covers found item.id
          apply List.filter_congr
          intro item _
          simp [Match.covers_common_cons, Bool.and_assoc]

variable {first second third : List Match}

theorem all_pair : all.combine [first, second] =
    first.filter fun item => Match.covers second item.id := by
  simp [combine, Match.common]

theorem any_pair (hfirst : (first.map Match.id).Nodup) (hsecond : (second.map Match.id).Nodup) :
    any.combine [first, second] =
      first ++ second.filter fun item => !Match.covers first item.id := by
  simp [combine, Match.union, Match.distinct_append, Match.distinct_of_nodup hfirst,
    Match.distinct_of_nodup hsecond]

theorem nodup_all_pair (hfirst : (first.map Match.id).Nodup) :
    ((all.combine [first, second]).map Match.id).Nodup := by
  rw [all_pair]
  exact hfirst.sublist (List.filter_sublist.map _)

theorem covers_all_pair (id : FileId) :
    Match.covers (all.combine [first, second]) id =
      (Match.covers first id && Match.covers second id) := by
  simp [combine, Match.covers_common_cons]

theorem covers_any_pair (id : FileId) :
    Match.covers (any.combine [first, second]) id =
      (Match.covers first id || Match.covers second id) := by
  simp [combine, Match.union, Match.covers_distinct, Match.covers_append]

/-- A match of the first list stands before those that the other two have in common. -/
theorem any_all_eq_all_any (hfirst : (first.map Match.id).Nodup)
    (hsecond : (second.map Match.id).Nodup) :
    any.combine [first, all.combine [second, third]] =
      all.combine [any.combine [first, second], any.combine [first, third]] := by
  rw [any_pair hfirst (nodup_all_pair hsecond), all_pair, all_pair, any_pair hfirst hsecond,
    List.filter_append, List.filter_filter, List.filter_filter]
  congr 1
  · symm
    rw [List.filter_eq_self]
    intro item hitem
    rw [covers_any_pair, Match.covers_of_mem hitem, Bool.true_or]
  · apply List.filter_congr
    intro item _
    rw [covers_any_pair]
    cases Match.covers first item.id <;> simp

/-- What the first list has in common with the second comes before what it has in common
with the third only. -/
theorem all_any_perm_any_all (hfirst : (first.map Match.id).Nodup) (second third : List Match) :
    (all.combine [first, any.combine [second, third]]).Perm
      (any.combine [all.combine [first, second], all.combine [first, third]]) := by
  rw [any_pair (nodup_all_pair hfirst) (nodup_all_pair hfirst)]
  have hsplit := List.filter_append_perm (fun item : Match => Match.covers second item.id)
    (all.combine [first, any.combine [second, third]])
  apply hsplit.symm.trans
  apply List.Perm.of_eq
  simp only [all_pair, List.filter_filter]
  congr 1
  · apply List.filter_congr
    intro item _
    rw [covers_any_pair]
    cases Match.covers second item.id <;> simp
  · apply List.filter_congr
    intro item hitem
    rw [covers_any_pair, ← all_pair, covers_all_pair, Match.covers_of_mem hitem]
    cases Match.covers second item.id <;> simp

end Operator

namespace Context

variable {context : Context} {resolve : String → Path}

/-! ## Laws of searches -/

theorem nodup_of_evaluate {query : Query} {found : List Match}
    (h : context.evaluate resolve query = .ok found) : (found.map Match.id).Nodup :=
  (represents_of_evaluate h).nodup

theorem evaluate_group (operator : Operator) (terms : List Query) :
    context.evaluate resolve (.group operator terms) =
      (context.evaluateAll resolve terms).map operator.combine := by
  rw [evaluate]
  cases context.evaluateAll resolve terms <;> rfl

/-- Terms are evaluated one after the other, and the first failure counts. -/
theorem evaluateAll_append (front back : List Query) :
    context.evaluateAll resolve (front ++ back) =
      (context.evaluateAll resolve front).bind fun found =>
        (context.evaluateAll resolve back).map (found ++ ·) := by
  induction front with
  | nil =>
      rw [List.nil_append, evaluateAll]
      cases context.evaluateAll resolve back <;> rfl
  | cons term rest ih =>
      rw [List.cons_append, evaluateAll, evaluateAll, ih]
      cases context.evaluate resolve term with
      | error e => rfl
      | ok found =>
          cases context.evaluateAll resolve rest with
          | error e => rfl
          | ok others => cases context.evaluateAll resolve back <;> rfl

theorem evaluateAll_singleton (term : Query) :
    context.evaluateAll resolve [term] = (context.evaluate resolve term).map ([·]) := by
  rw [evaluateAll, evaluateAll]
  cases context.evaluate resolve term <;> rfl

theorem evaluateAll_pair (first second : Query) :
    context.evaluateAll resolve [first, second] =
      (context.evaluate resolve first).bind fun found =>
        (context.evaluate resolve second).map fun other => [found, other] := by
  rw [evaluateAll, evaluateAll_singleton]
  cases context.evaluate resolve first with
  | error e => rfl
  | ok found => cases context.evaluate resolve second <;> rfl

theorem evaluate_group_singleton (operator : Operator) (term : Query) :
    context.evaluate resolve (.group operator [term]) = context.evaluate resolve term := by
  rw [evaluate_group, evaluateAll_singleton]
  cases h : context.evaluate resolve term with
  | error e => rfl
  | ok found => exact congrArg Except.ok (operator.combine_singleton (nodup_of_evaluate h))

theorem evaluate_group_pair_self (operator : Operator) (term : Query) :
    context.evaluate resolve (.group operator [term, term]) = context.evaluate resolve term := by
  rw [evaluate_group, evaluateAll_pair]
  cases h : context.evaluate resolve term with
  | error e => rfl
  | ok found => exact congrArg Except.ok (operator.combine_pair_self (nodup_of_evaluate h))

theorem ne_nil_of_evaluateAll {terms : List Query} {founds : List (List Match)}
    (h : context.evaluateAll resolve terms = .ok founds) (hne : terms ≠ []) : founds ≠ [] := by
  have hlength := (represents_of_evaluateAll h).length_eq
  rintro rfl
  exact hne (List.length_eq_zero_iff.1 hlength)

theorem evaluate_group_nested (operator : Operator) (front : List Query) {inner : List Query}
    (back : List Query) (h : operator = .any ∨ inner ≠ []) :
    context.evaluate resolve (.group operator (front ++ [.group operator inner] ++ back)) =
      context.evaluate resolve (.group operator (front ++ inner ++ back)) := by
  simp only [evaluate_group, evaluateAll_append, evaluateAll_singleton]
  cases context.evaluateAll resolve front with
  | error e => rfl
  | ok before =>
      cases hinner : context.evaluateAll resolve inner with
      | error e => rfl
      | ok founds =>
          cases context.evaluateAll resolve back with
          | error e => rfl
          | ok after =>
              have hfounds : operator = .any ∨ founds ≠ [] :=
                h.imp_right (ne_nil_of_evaluateAll hinner)
              exact congrArg Except.ok (operator.combine_nested before after hfounds)

theorem evaluate_any_all (a b c : Query) :
    context.evaluate resolve (.group .any [a, .group .all [b, c]]) =
      context.evaluate resolve (.group .all [.group .any [a, b], .group .any [a, c]]) := by
  simp only [evaluate_group, evaluateAll_pair]
  cases ha : context.evaluate resolve a with
  | error e => rfl
  | ok first =>
      cases hb : context.evaluate resolve b with
      | error e => rfl
      | ok second =>
          cases context.evaluate resolve c with
          | error e => rfl
          | ok third =>
              exact congrArg Except.ok
                (Operator.any_all_eq_all_any (nodup_of_evaluate ha) (nodup_of_evaluate hb))

/-- Two searches fail alike, or give the same paths in some order. -/
def SameUpToOrder (a b : Except SearchError (List Path)) : Prop :=
  (∃ e, a = .error e ∧ b = .error e) ∨ ∃ paths others, a = .ok paths ∧ b = .ok others ∧
    paths.Perm others

theorem search_all_any (a b c : Query) :
    SameUpToOrder (context.search resolve (.group .all [a, .group .any [b, c]]))
      (context.search resolve (.group .any [.group .all [a, b], .group .all [a, c]])) := by
  simp only [search, evaluate_group, evaluateAll_pair]
  cases ha : context.evaluate resolve a with
  | error e => exact .inl ⟨e, rfl, rfl⟩
  | ok first =>
      cases context.evaluate resolve b with
      | error e => exact .inl ⟨e, rfl, rfl⟩
      | ok second =>
          cases context.evaluate resolve c with
          | error e => exact .inl ⟨e, rfl, rfl⟩
          | ok third =>
              have hperm := Operator.all_any_perm_any_all (nodup_of_evaluate ha) second third
              exact .inr ⟨_, _, rfl, rfl, hperm.map Match.path⟩

/-- Searches for these queries give the same paths in the same order, or fail with the
same error; for the last two, the order may be another. -/
theorem search_rewriting_laws (context : Context) (resolve : String → Path) :
    (∀ operator term, context.search resolve (.group operator [term]) =
      context.search resolve term) ∧
    (∀ operator term, context.search resolve (.group operator [term, term]) =
      context.search resolve term) ∧
    (∀ front inner back,
      context.search resolve (.group .any (front ++ [.group .any inner] ++ back)) =
        context.search resolve (.group .any (front ++ inner ++ back))) ∧
    (∀ front inner back, inner ≠ [] →
      context.search resolve (.group .all (front ++ [.group .all inner] ++ back)) =
        context.search resolve (.group .all (front ++ inner ++ back))) ∧
    (∀ a b c, context.search resolve (.group .any [a, .group .all [b, c]]) =
      context.search resolve (.group .all [.group .any [a, b], .group .any [a, c]])) ∧
    ∀ a b c, SameUpToOrder (context.search resolve (.group .all [a, .group .any [b, c]]))
      (context.search resolve (.group .any [.group .all [a, b], .group .all [a, c]])) := by
  refine ⟨?_, ?_, ?_, ?_, ?_, search_all_any⟩
  · intro operator term
    rw [search, evaluate_group_singleton, search]
  · intro operator term
    rw [search, evaluate_group_pair_self, search]
  · intro front inner back
    rw [search, evaluate_group_nested .any front back (.inl rfl), search]
  · intro front inner back hne
    rw [search, evaluate_group_nested .all front back (.inr hne), search]
  · intro a b c
    rw [search, evaluate_any_all, search]

/-- A group in front of others dissolves, and the paths of its first term stay. -/
theorem shelf_search_nested :
    ([.dir "A", .dir "/B"] : List Query) ≠ [] ∧
    shelf.search Path.ofString
        (.group .all ([] ++ [.group .all [.dir "A", .dir "/B"]] ++ [.dir "B/."])) =
      shelf.search Path.ofString (.group .all ([] ++ [.dir "A", .dir "/B"] ++ [.dir "B/."])) ∧
    shelf.search Path.ofString (.group .all ([] ++ [.dir "A", .dir "/B"] ++ [.dir "B/."])) =
      .ok [Path.ofString "A/a"] := by
  have hne : ([.dir "A", .dir "/B"] : List Query) ≠ [] := List.cons_ne_nil _ _
  have hfound : shelf.search Path.ofString (.group .all [.dir "A", .dir "/B", .dir "B/."]) =
      .ok [Path.ofString "A/a"] := by
    simp only [search, evaluate, evaluateAll, matchesIn, readDirectory_eq]
    rfl
  obtain ⟨_, _, _, hnested, _⟩ := search_rewriting_laws shelf Path.ofString
  exact ⟨hne, hnested [] _ _ hne, hfound⟩

end Context

end LinkTags
