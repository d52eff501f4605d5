import LinkTags.Proofs.Query.RoundTrip
import Mathlib.Algebra.Ring.Parity

/-!
# Tokens are runs

White space separates tokens where an even number of quotes comes before it. The tokens are
the runs of characters between separating ones, each as long as it goes: a token has the
characters of its run without the quotes, and the offset in bytes of the first of them. If the
quotes are odd in number there are no tokens, and the last quote is the one that is never
closed (`tokenize_gives_runs`).

## Implementation notes

A run is a span of positions, and what separates is said of the whole text. A scan that has
come to a position gives the runs that begin where the token being read began, or later
(`Gives`). Where the next character separates, what was read is a run unless it is empty, and
the other runs come after it (`IsReached.isRun_iff`).
-/

namespace LinkTags

namespace Token

theorem utf8ByteSize_ofList (chars : List Char) :
    (String.ofList chars).utf8ByteSize = bytesOf chars := by
  induction chars with
  | nil => rfl
  | cons c rest ih =>
      rw [String.ofList_cons, String.utf8ByteSize_append, String.utf8ByteSize_singleton, ih,
        bytesOf]

theorem bytesOf_append (front back : List Char) :
    bytesOf (front ++ back) = bytesOf front + bytesOf back := by
  induction front with
  | nil => simp [bytesOf]
  | cons c rest ih => rw [List.cons_append, bytesOf, ih, bytesOf, Nat.add_assoc]

/-! ## Runs -/

/-- The last quote among the characters is at this offset in bytes. -/
def LastQuoteAt (chars : List Char) (offset : Nat) : Prop :=
  ∃ front back, chars = front ++ quote :: back ∧ quote ∉ back ∧
    offset = (String.ofList front).utf8ByteSize

/-- There is white space at the position, and an even number of quotes before it. -/
def Separates (chars : List Char) (position : Nat) : Prop :=
  ∃ c, chars[position]? = some c ∧ isBlank c = true ∧ Even ((chars.take position).count quote)

/-- A part of a text, from one position up to another. -/
structure Span where
  start : Nat
  stop : Nat

namespace Span

/-- The characters of a part of a text. -/
def slice (chars : List Char) (span : Span) : List Char :=
  (chars.take span.stop).drop span.start

/-- The token that a part of a text makes. -/
def token (chars : List Char) (span : Span) : Token where
  text := String.ofList ((span.slice chars).filter (· ≠ quote))
  offset := (String.ofList (chars.take span.start)).utf8ByteSize

/-- The part is not empty, and nothing in it separates. -/
structure IsUnbroken (chars : List Char) (span : Span) : Prop where
  nonempty : span.start < span.stop
  inside : span.stop ≤ chars.length
  whole : ∀ position, span.start ≤ position → position < span.stop → ¬Separates chars position

/-- The part is unbroken, and no larger part around it is. -/
structure IsRun (chars : List Char) (span : Span) : Prop extends span.IsUnbroken chars where
  maximal : ∀ other : Span, other.IsUnbroken chars → other.start ≤ span.start →
    span.stop ≤ other.stop → other = span

variable {chars : List Char} {span : Span}

/-- Before a run there is nothing, or a character that separates. -/
theorem IsRun.left (h : span.IsRun chars) :
    span.start = 0 ∨ Separates chars (span.start - 1) := by
  obtain ⟨⟨hnonempty, hinside, hwhole⟩, hmaximal⟩ := h
  by_contra hnot
  rw [not_or] at hnot
  have hwider : IsUnbroken chars ⟨span.start - 1, span.stop⟩ := by
    refine ⟨by dsimp only; omega, hinside, ?_⟩
    intro position hfrom hto
    dsimp only at hfrom hto
    by_cases hfirst : position = span.start - 1
    · exact hfirst ▸ hnot.2
    · exact hwhole position (by omega) hto
  have hsame := congrArg Span.start (hmaximal _ hwider (Nat.sub_le _ _) le_rfl)
  dsimp only at hsame
  omega

/-- After a run there is nothing, or a character that separates. -/
theorem IsRun.right (h : span.IsRun chars) :
    span.stop = chars.length ∨ Separates chars span.stop := by
  obtain ⟨⟨hnonempty, hinside, hwhole⟩, hmaximal⟩ := h
  by_contra hnot
  rw [not_or] at hnot
  have hwider : IsUnbroken chars ⟨span.start, span.stop + 1⟩ := by
    refine ⟨by dsimp only; omega, by dsimp only; omega, ?_⟩
    intro position hfrom hto
    dsimp only at hfrom hto
    by_cases hlast : position = span.stop
    · exact hlast ▸ hnot.2
    · exact hwhole position hfrom (by omega)
  have hsame := congrArg Span.stop (hmaximal _ hwider le_rfl (Nat.le_succ _))
  dsimp only at hsame
  omega

/-- An unbroken part is a run if it cannot be made longer by one character. -/
theorem IsUnbroken.isRun (h : span.IsUnbroken chars)
    (hleft : span.start = 0 ∨ Separates chars (span.start - 1))
    (hright : span.stop = chars.length ∨ Separates chars span.stop) : span.IsRun chars := by
  have hnonempty := h.nonempty
  refine ⟨h, ?_⟩
  rintro ⟨start, stop⟩ ⟨_, hinside, hwhole⟩ hfrom hto
  dsimp only at hinside hwhole hfrom hto
  have hstart : start = span.start := by
    by_contra hne
    rcases hleft with hzero | hbefore
    · omega
    · exact hwhole (span.start - 1) (by omega) (by omega) hbefore
  have hstop : stop = span.stop := by
    by_contra hne
    rcases hright with hlength | hafter
    · omega
    · exact hwhole span.stop (by omega) (by omega) hafter
  rw [hstart, hstop]

end Span

variable {chars : List Char} {start position : Nat}

/-- A token can begin at the start, and nothing from there up to the position separates. -/
structure IsReached (chars : List Char) (start position : Nat) : Prop where
  le : start ≤ position
  inside : position ≤ chars.length
  left : start = 0 ∨ Separates chars (start - 1)
  whole : ∀ i, start ≤ i → i < position → ¬Separates chars i

namespace IsReached

theorem succ (h : IsReached chars start position) (hinside : position < chars.length)
    (hnot : ¬Separates chars position) : IsReached chars start (position + 1) := by
  refine ⟨by have := h.le; omega, hinside, h.left, ?_⟩
  intro i hfrom hto
  by_cases hlast : i = position
  · exact hlast ▸ hnot
  · exact h.whole i hfrom (by omega)

theorem restart (hinside : position < chars.length) (h : Separates chars position) :
    IsReached chars (position + 1) (position + 1) := by
  refine ⟨le_rfl, hinside, .inr h, ?_⟩
  intro i hfrom hto
  omega

variable {span : Span}

theorem start_eq (h : IsReached chars start position) (hrun : span.IsRun chars)
    (hfrom : start ≤ span.start) (hto : span.start ≤ position) : span.start = start := by
  by_contra hne
  rcases hrun.left with hzero | hbefore
  · omega
  · exact h.whole (span.start - 1) (by omega) (by omega) hbefore

theorem stop_eq (h : IsReached chars start position)
    (hend : position = chars.length ∨ Separates chars position) (hrun : span.IsRun chars)
    (hfrom : start ≤ span.start) (hto : span.start ≤ position) : span.stop = position := by
  have hinside := h.inside
  have hnonempty := hrun.nonempty
  have hstop := hrun.inside
  rcases Nat.lt_trichotomy span.stop position with hless | hsame | hmore
  · rcases hrun.right with hlength | hafter
    · omega
    · exact absurd hafter (h.whole span.stop (by omega) hless)
  · exact hsame
  · rcases hend with hlength | hseparates
    · omega
    · exact absurd hseparates (hrun.whole position hto hmore)

/-- What was read up to where a token has to end is a run unless it is empty, and the other
runs that do not begin before it begin after its end. -/
theorem isRun_iff (h : IsReached chars start position)
    (hend : position = chars.length ∨ Separates chars position) :
    span.IsRun chars ∧ start ≤ span.start ↔
      (start < position ∧ span = ⟨start, position⟩) ∨
        (span.IsRun chars ∧ position + 1 ≤ span.start) := by
  constructor
  · rintro ⟨hrun, hfrom⟩
    by_cases hlater : position + 1 ≤ span.start
    · exact .inr ⟨hrun, hlater⟩
    · have hto : span.start ≤ position := by omega
      have hstart := h.start_eq hrun hfrom hto
      have hstop := h.stop_eq hend hrun hfrom hto
      have hnonempty := hrun.nonempty
      refine .inl ⟨by omega, ?_⟩
      rw [← hstart, ← hstop]
  · rintro (⟨hlt, rfl⟩ | ⟨hrun, hlater⟩)
    · have hunbroken : Span.IsUnbroken chars ⟨start, position⟩ := ⟨hlt, h.inside, h.whole⟩
      exact ⟨hunbroken.isRun h.left hend, le_rfl⟩
    · have hle := h.le
      exact ⟨hrun, by omega⟩

end IsReached

/-! ## Open quotes -/

/-- The quote that is open after the characters, if one is: the last one. -/
inductive OpenAfter (chars : List Char) : Option Nat → Prop where
  | closed (heven : Even (chars.count quote)) : OpenAfter chars none
  | opened {offset : Nat} (hodd : Odd (chars.count quote)) (hlast : LastQuoteAt chars offset) :
      OpenAfter chars (some offset)

theorem OpenAfter.quote {opened : Option Nat} (h : OpenAfter chars opened) :
    OpenAfter (chars ++ [LinkTags.quote])
      (if opened = none then some (bytesOf chars) else none) := by
  cases h with
  | closed heven =>
      refine .opened ?_ ⟨chars, [], rfl, List.not_mem_nil, (utf8ByteSize_ofList chars).symm⟩
      simpa using heven.add_one
  | opened hodd hlast => exact .closed (by simpa using hodd.add_one)

theorem OpenAfter.other {opened : Option Nat} (h : OpenAfter chars opened) {c : Char}
    (hquote : c ≠ LinkTags.quote) : OpenAfter (chars ++ [c]) opened := by
  have hcount : (chars ++ [c]).count LinkTags.quote = chars.count LinkTags.quote := by
    simp [hquote]
  cases h with
  | closed heven => exact .closed (by rwa [hcount])
  | opened hodd hlast =>
      obtain ⟨front, back, rfl, hback, hoffset⟩ := hlast
      refine .opened (by rwa [hcount]) ⟨front, back ++ [c], by simp, ?_, hoffset⟩
      simp [hback, hquote.symm]

/-! ## What a scan has read and what it gives -/

/-- The token being read at a position, if one has begun before it. -/
def reading (chars : List Char) (start position : Nat) : Option Partial :=
  if start < position then
    some ⟨bytesOf (chars.take start), ((Span.slice chars ⟨start, position⟩).filter
      (· ≠ quote)).reverse⟩
  else none

/-- What a scan of a text gives, from a position where a token can begin. -/
inductive Gives (chars : List Char) (start : Nat) : Except QueryError (List Token) → Prop where
  | unclosed {offset : Nat} (hodd : Odd (chars.count quote)) (hlast : LastQuoteAt chars offset) :
      Gives chars start (.error (.unclosedQuote offset))
  | tokens {spans : List Span} (heven : Even (chars.count quote))
      (hordered : spans.Pairwise fun first second => first.stop < second.start)
      (hmem : ∀ span, span ∈ spans ↔ span.IsRun chars ∧ start ≤ span.start) :
      Gives chars start (.ok (spans.map (Span.token chars)))

theorem slice_succ {c : Char} (hle : start ≤ position) (hc : chars[position]? = some c) :
    Span.slice chars ⟨start, position + 1⟩ = Span.slice chars ⟨start, position⟩ ++ [c] := by
  have hlength := (List.getElem?_eq_some_iff.1 hc).1
  have hstart : start ≤ (chars.take position).length := by
    rw [List.length_take]
    omega
  rw [Span.slice, List.take_add_one, hc, Option.toList_some,
    List.drop_append_of_le_length hstart, Span.slice]

theorem reach_reading (hle : start ≤ position) :
    Partial.reach (reading chars start position) (bytesOf (chars.take position)) =
      ⟨bytesOf (chars.take start),
        ((Span.slice chars ⟨start, position⟩).filter (· ≠ quote)).reverse⟩ := by
  unfold reading
  split
  · rfl
  next hnot =>
    obtain rfl : start = position := by omega
    simp [Partial.reach, Span.slice]

theorem reading_succ_quote (hle : start ≤ position) (hc : chars[position]? = some quote) :
    reading chars start (position + 1) =
      some (Partial.reach (reading chars start position) (bytesOf (chars.take position))) := by
  rw [reach_reading hle, reading, if_pos (by omega), slice_succ hle hc]
  simp

theorem reading_succ {c : Char} (hle : start ≤ position) (hc : chars[position]? = some c)
    (hquote : c ≠ quote) :
    reading chars start (position + 1) =
      some ((Partial.reach (reading chars start position)
        (bytesOf (chars.take position))).push c) := by
  rw [reach_reading hle, reading, if_pos (by omega), slice_succ hle hc]
  simp [Partial.push, hquote]

theorem toList_reading (chars : List Char) (start position : Nat) :
    ((reading chars start position).map Partial.token).toList =
      (if start < position then [⟨start, position⟩] else []).map (Span.token chars) := by
  unfold reading
  split
  · simp [Partial.token, Span.token, utf8ByteSize_ofList]
  · rfl

/-! ## Scanning -/

/-- Where a token has to end, the one being read comes before those of the later runs. -/
theorem IsReached.gives_append (h : IsReached chars start position)
    (hend : position = chars.length ∨ Separates chars position)
    {given : Except QueryError (List Token)} (hgiven : Gives chars (position + 1) given) :
    Gives chars start
      (given.map (((reading chars start position).map Partial.token).toList ++ ·)) := by
  cases hgiven with
  | unclosed hodd hlast => exact .unclosed hodd hlast
  | @tokens spans heven hordered hmem =>
      rw [Except.map, toList_reading, ← List.map_append]
      refine .tokens heven ?_ ?_
      · refine List.pairwise_append.2 ⟨?_, hordered, ?_⟩
        · split
          · exact List.pairwise_singleton _ _
          · exact .nil
        · intro first hfirst second hsecond
          have hlater := ((hmem second).1 hsecond).2
          split at hfirst
          · rw [List.mem_singleton.1 hfirst]
            exact hlater
          · contradiction
      · intro span
        rw [List.mem_append, hmem, h.isRun_iff hend]
        split <;> simp_all

/-- No run begins behind the text. -/
theorem gives_nil (heven : Even (chars.count quote)) :
    Gives chars (chars.length + 1) (.ok []) := by
  refine .tokens heven .nil ?_
  intro span
  refine iff_of_false List.not_mem_nil ?_
  rintro ⟨hrun, hlater⟩
  have hnonempty := hrun.nonempty
  have hinside := hrun.inside
  omega

theorem not_separates_of_ne {c : Char} {opened : Option Nat} (hc : chars[position]? = some c)
    (hopened : OpenAfter (chars.take position) opened)
    (hnot : ¬(opened = none ∧ isBlank c = true)) : ¬Separates chars position := by
  rintro ⟨other, hother, hblank, heven⟩
  rw [hc] at hother
  cases hother
  cases hopened with
  | closed _ => exact hnot ⟨rfl, hblank⟩
  | opened hodd _ => exact Nat.not_even_iff_odd.2 hodd heven

theorem take_succ_of_drop {c : Char} {rest : List Char} (h : chars.drop position = c :: rest) :
    chars[position]? = some c ∧ position < chars.length ∧ chars.drop (position + 1) = rest ∧
      chars.take (position + 1) = chars.take position ++ [c] := by
  have hc : chars[position]? = some c := by rw [← List.head?_drop, h, List.head?_cons]
  refine ⟨hc, (List.getElem?_eq_some_iff.1 hc).1, ?_, ?_⟩
  · rw [← List.tail_drop, h, List.tail_cons]
  · rw [List.take_add_one, hc, Option.toList_some]

/-- A scan that has come to a position gives the runs from where the token being read began. -/
theorem gives_scan {rest : List Char} {opened : Option Nat} (hrest : chars.drop position = rest)
    (h : IsReached chars start position) (hopened : OpenAfter (chars.take position) opened) :
    Gives chars start
      (scan (bytesOf (chars.take position)) opened (reading chars start position) rest) := by
  induction rest generalizing start position opened with
  | nil =>
      have hlength : position = chars.length := by
        have hinside := h.inside
        have hall := List.drop_eq_nil_iff.1 hrest
        omega
      rw [hlength, List.take_length] at hopened
      cases hopened with
      | closed heven =>
          have htokens := h.gives_append (.inl hlength) (hlength ▸ gives_nil heven)
          simpa [scan, Except.map] using htokens
      | opened hodd hlast => exact .unclosed hodd hlast
  | cons c rest ih =>
      obtain ⟨hc, hinside, hnext, htake⟩ := take_succ_of_drop hrest
      have hbytes : bytesOf (chars.take position) + c.utf8Size =
          bytesOf (chars.take (position + 1)) := by
        rw [htake, bytesOf_append, bytesOf, bytesOf, Nat.add_zero]
      by_cases hquote : c = quote
      · subst hquote
        have hnot : ¬Separates chars position :=
          not_separates_of_ne hc hopened fun hblank => absurd hblank.2 (by decide)
        have hstep := ih hnext (h.succ hinside hnot) (htake ▸ hopened.quote)
        rw [reading_succ_quote h.le hc, ← hbytes] at hstep
        rwa [scan_toggle]
      · by_cases hblank : opened = none ∧ isBlank c = true
        · obtain ⟨rfl, hblank⟩ := hblank
          have heven : Even ((chars.take position).count quote) := by
            cases hopened
            assumption
          have hseparates : Separates chars position := ⟨c, hc, hblank, heven⟩
          have hnone : reading chars (position + 1) (position + 1) = none :=
            if_neg (Nat.lt_irrefl _)
          have hstep := ih hnext (IsReached.restart hinside hseparates)
            (htake ▸ hopened.other hquote)
          rw [hnone] at hstep
          rw [scan_blank hquote hblank, hbytes]
          exact h.gives_append (.inr hseparates) hstep
        · have hnot := not_separates_of_ne hc hopened hblank
          have hstep := ih hnext (h.succ hinside hnot) (htake ▸ hopened.other hquote)
          rw [reading_succ h.le hc hquote, ← hbytes] at hstep
          rwa [scan_push hquote hblank]

theorem gives_tokenize (text : String) : Gives text.toList 0 (tokenize text) := by
  have hreached : IsReached text.toList 0 0 := ⟨le_rfl, Nat.zero_le _, .inl rfl, nofun⟩
  exact gives_scan List.drop_zero hreached (.closed ⟨0, rfl⟩)

/-- If the quotes of a text are odd in number, the text has no tokens, and reading it as a
query fails where the last quote is. Otherwise its tokens are its runs in their order, each
without quotes, so that a pair of quotes alone makes an empty token. -/
theorem tokenize_gives_runs (text : String) :
    (Odd (text.toList.count quote) → ∃ offset, LastQuoteAt text.toList offset ∧
      tokenize text = .error (.unclosedQuote offset) ∧
      Query.parse text = .error (.unclosedQuote offset)) ∧
    (Even (text.toList.count quote) → ∃ spans : List Span,
      tokenize text = .ok (spans.map (Span.token text.toList)) ∧
      (spans.Pairwise fun first second => first.stop < second.start) ∧
      (∀ span, span ∈ spans ↔ span.IsRun text.toList) ∧
      ∀ span ∈ spans, quote ∉ (span.token text.toList).text.toList ∧
        (span.slice text.toList = [quote, quote] → (span.token text.toList).text = "")) := by
  have hgives := gives_tokenize text
  constructor
  · intro hodd
    generalize htokens : tokenize text = given at hgives
    cases hgives with
    | unclosed _ hlast => exact ⟨_, hlast, rfl, by rw [Query.parse, htokens]⟩
    | tokens heven _ _ => exact absurd heven (Nat.not_even_iff_odd.2 hodd)
  · intro heven
    generalize tokenize text = given at hgives
    cases hgives with
    | unclosed hodd _ => exact absurd heven (Nat.not_even_iff_odd.2 hodd)
    | @tokens spans _ hordered hmem =>
        refine ⟨spans, rfl, hordered, by simpa using hmem, ?_⟩
        intro span _
        constructor
        · simp [Span.token]
        · intro hslice
          rw [Span.token, hslice]
          rfl

/-- Quoted and bare text that touch are one token, and `''` is an empty one; a quote that is
open at the end is an error, whatever comes before it. -/
theorem tokenize_quoted_runs :
    Even ("a'b c'\u3000''  d".toList.count quote) ∧
    tokenize "a'b c'\u3000''  d" = .ok [⟨"ab c", 0⟩, ⟨"", 9⟩, ⟨"d", 13⟩] ∧
    (∃ spans : List Span,
      [⟨"ab c", 0⟩, ⟨"", 9⟩, ⟨"d", 13⟩] =
        spans.map (Span.token "a'b c'\u3000''  d".toList) ∧
      ∀ span, span ∈ spans ↔ span.IsRun "a'b c'\u3000''  d".toList) ∧
    Odd (") 'a' '".toList.count quote) ∧
    LastQuoteAt ") 'a' '".toList 6 ∧
    Query.parse ") 'a' '" = .error (.unclosedQuote 6) := by
  have heven : Even ("a'b c'\u3000''  d".toList.count quote) := by decide
  have hodd : Odd (") 'a' '".toList.count quote) := by decide
  have htokens : tokenize "a'b c'\u3000''  d" = .ok [⟨"ab c", 0⟩, ⟨"", 9⟩, ⟨"d", 13⟩] := by rfl
  have hparse : Query.parse ") 'a' '" = .error (.unclosedQuote 6) := by rfl
  obtain ⟨spans, hspans, _, hmem, _⟩ := (tokenize_gives_runs "a'b c'\u3000''  d").2 heven
  obtain ⟨offset, hlast, _, herror⟩ := (tokenize_gives_runs ") 'a' '").1 hodd
  rw [htokens] at hspans
  rw [hparse] at herror
  cases herror
  exact ⟨heven, htokens, ⟨spans, Except.ok.inj hspans, hmem⟩, hodd, hlast, hparse⟩

end Token

end LinkTags
