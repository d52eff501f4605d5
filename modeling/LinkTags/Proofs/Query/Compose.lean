import LinkTags.Command.Program
import LinkTags.Proofs.Query.Runs
import Mathlib.Data.List.Forall2

/-!
# Queries that are put together

Words whose quotes are closed do not disturb each other: joined by spaces they have the tokens
that each has alone, one word after the other (`exists_tokensOf`). So it makes no difference at
which separating white space a text is split into words (`parse_intercalate_iff`), and texts that
are read as queries can be the terms of a group (`parse_group`), at any depth
(`parse_of_composes`).

## Implementation notes

A scan carries three things from one word into the next: the offset, an open quote, and the
token being read. Where white space separates, the last two are gone (`scan_append`), and the
offset is only added to those of the tokens (`scan_shift`).
-/

namespace LinkTags

namespace Token

/-! ## Scans from another offset -/

/-- The token in a text that has so many bytes more before it. -/
def shift (bytes : Nat) (token : Token) : Token :=
  { token with offset := token.offset + bytes }

/-- The token being read in a text that has so many bytes more before it. -/
def Partial.shift (bytes : Nat) (word : Partial) : Partial :=
  { word with offset := word.offset + bytes }

@[simp] theorem text_shift (bytes : Nat) (token : Token) : (token.shift bytes).text = token.text :=
  rfl

theorem map_text_shift (bytes : Nat) (tokens : List Token) :
    (tokens.map (shift bytes)).map Token.text = tokens.map Token.text := by
  simp [Function.comp_def]

theorem reach_shift (bytes offset : Nat) (word : Option Partial) :
    Partial.reach (word.map (Partial.shift bytes)) (offset + bytes) =
      (Partial.reach word offset).shift bytes := by
  cases word <;> rfl

theorem toList_shift (bytes : Nat) (word : Option Partial) :
    ((word.map (Partial.shift bytes)).map Partial.token).toList =
      (word.map Partial.token).toList.map (shift bytes) := by
  cases word <;> rfl

/-- A scan that is successful is so with more bytes before it, and finds the same tokens
farther on. -/
theorem scan_shift (bytes : Nat) {offset : Nat} {opened : Option Nat} {word : Option Partial}
    {chars : List Char} {tokens : List Token} (h : scan offset opened word chars = .ok tokens) :
    scan (offset + bytes) (opened.map (· + bytes)) (word.map (Partial.shift bytes)) chars =
      .ok (tokens.map (shift bytes)) := by
  induction chars generalizing offset opened word tokens with
  | nil =>
      cases opened with
      | none =>
          cases h
          exact congrArg Except.ok (toList_shift bytes word)
      | some start => cases h
  | cons c rest ih =>
      have hnext : offset + bytes + c.utf8Size = offset + c.utf8Size + bytes :=
        Nat.add_right_comm _ _ _
      by_cases hquote : c = quote
      · subst hquote
        rw [scan_toggle] at h
        have hrest := ih h
        rw [scan_toggle, hnext, reach_shift]
        cases opened <;> exact hrest
      by_cases hblank : opened = none ∧ isBlank c = true
      · obtain ⟨rfl, hblank⟩ := hblank
        obtain ⟨more, hrest, rfl⟩ := exists_of_scan_blank hquote hblank h
        have hshifted := ih hrest
        rw [Option.map_none, Option.map_none] at hshifted
        rw [Option.map_none, scan_blank hquote hblank, hnext, hshifted, toList_shift,
          List.map_append]
        rfl
      · have hblank' : ¬(opened.map (· + bytes) = none ∧ isBlank c = true) := by
          simpa using hblank
        rw [scan_push hquote hblank] at h
        have hrest := ih h
        rw [scan_push hquote hblank', hnext, reach_shift]
        exact hrest

theorem ne_quote_of_isBlank {c : Char} (h : isBlank c = true) : c ≠ quote := by
  rintro rfl
  contradiction

/-- White space after characters whose quotes are closed begins the scan anew. -/
theorem scan_append {c : Char} (hblank : isBlank c = true) {offset : Nat} {opened : Option Nat}
    {word : Option Partial} {front : List Char} {tokens : List Token}
    (h : scan offset opened word front = .ok tokens) (back : List Char) :
    scan offset opened word (front ++ c :: back) =
      (scan (offset + bytesOf front + c.utf8Size) none none back).map (tokens ++ ·) := by
  induction front generalizing offset opened word tokens with
  | nil =>
      cases opened with
      | none =>
          cases h
          exact scan_blank (ne_quote_of_isBlank hblank) hblank offset word back
      | some start => cases h
  | cons d rest ih =>
      rw [bytesOf, ← Nat.add_assoc, List.cons_append]
      by_cases hd : d = quote
      · subst hd
        rw [scan_toggle] at h ⊢
        exact ih h
      by_cases hends : opened = none ∧ isBlank d = true
      · obtain ⟨rfl, hends⟩ := hends
        obtain ⟨more, hrest, rfl⟩ := exists_of_scan_blank hd hends h
        rw [scan_blank hd hends, ih hrest]
        cases scan (offset + d.utf8Size + bytesOf rest + c.utf8Size) none none back with
        | error e => rfl
        | ok others => exact congrArg Except.ok (List.append_assoc _ _ _).symm
      · rw [scan_push hd hends] at h ⊢
        exact ih h

/-! ## Words joined by spaces -/

/-- A text has tokens if its quotes are even in number. -/
theorem exists_tokenize_iff {text : String} :
    (∃ tokens, tokenize text = .ok tokens) ↔ Even (text.toList.count quote) := by
  have hgives := gives_tokenize text
  generalize tokenize text = given at hgives
  cases hgives with
  | unclosed hodd _ => simpa using hodd
  | tokens heven _ _ => simpa using heven

/-- The tokens of a word are found farther on if it does not stand at the beginning. -/
theorem scan_word {text : String} {tokens : List Token} (h : tokenize text = .ok tokens)
    (offset : Nat) : scan offset none none text.toList = .ok (tokens.map (shift offset)) := by
  have hshifted := scan_shift offset h
  rwa [Nat.zero_add] at hshifted

/-- The tokens of words that stand one after the other behind a text, with a space after each
word: those that each has alone, behind all that stands before it. -/
inductive TokensOf : String → List String → List Token → Prop where
  | nil (before : String) : TokensOf before [] []
  | cons {before word : String} {words : List String} {tokens more : List Token}
      (hword : tokenize word = .ok tokens) (hrest : TokensOf (before ++ word ++ " ") words more) :
      TokensOf before (word :: words) (tokens.map (shift before.utf8ByteSize) ++ more)

theorem utf8ByteSize_eq (text : String) : text.utf8ByteSize = bytesOf text.toList := by
  rw [← utf8ByteSize_ofList, String.ofList_toList]

theorem toList_intercalate_cons (word next : String) (others : List String) :
    (" ".intercalate (word :: next :: others)).toList =
      word.toList ++ ' ' :: (" ".intercalate (next :: others)).toList := by
  rw [String.intercalate_cons_cons, String.toList_append, String.toList_append, List.append_assoc]
  rfl

theorem scan_intercalate (before : String) {words : List String}
    (heven : ∀ word ∈ words, Even (word.toList.count quote)) :
    ∃ tokens, TokensOf before words tokens ∧
      scan before.utf8ByteSize none none (" ".intercalate words).toList = .ok tokens := by
  induction words generalizing before with
  | nil => exact ⟨[], .nil before, rfl⟩
  | cons word rest ih =>
      rw [List.forall_mem_cons] at heven
      obtain ⟨tokens, htokens⟩ := exists_tokenize_iff.2 heven.1
      -- No space stands behind the last word, but then there is nothing to scan behind it.
      obtain ⟨more, hmore, hscan⟩ := ih (before ++ word ++ " ") heven.2
      refine ⟨_, .cons htokens hmore, ?_⟩
      have hword := scan_word htokens before.utf8ByteSize
      cases rest with
      | nil =>
          cases hmore
          rwa [String.intercalate_singleton, List.append_nil]
      | cons next others =>
          have hbytes : (before ++ word ++ " ").utf8ByteSize =
              before.utf8ByteSize + bytesOf word.toList + ' '.utf8Size := by
            rw [String.utf8ByteSize_append, String.utf8ByteSize_append, utf8ByteSize_eq word]
            rfl
          rw [hbytes] at hscan
          rw [toList_intercalate_cons, scan_append (by decide) hword, hscan]
          rfl

/-- Words whose quotes are even in number, joined by spaces, have the tokens of each. -/
theorem exists_tokensOf {words : List String}
    (heven : ∀ word ∈ words, Even (word.toList.count quote)) :
    ∃ tokens, TokensOf "" words tokens ∧ tokenize (" ".intercalate words) = .ok tokens :=
  scan_intercalate "" heven

/-! ## Texts split into words -/

/-- The texts of the tokens, if there are tokens. -/
def texts (text : String) : List String :=
  match tokenize text with
  | .ok tokens => tokens.map Token.text
  | .error _ => []

theorem texts_eq {text : String} {tokens : List Token} (h : tokenize text = .ok tokens) :
    texts text = tokens.map Token.text := by
  rw [texts, h]

/-- The characters are split into words at white space, which is dropped. Before it all quotes
are closed. -/
inductive Splits : List Char → List String → Prop where
  | nil : Splits [] []
  | last (word : String) : Splits word.toList [word]
  | blank {c : Char} {chars : List Char} {words : List String} (hblank : isBlank c = true)
      (hrest : Splits chars words) : Splits (c :: chars) words
  | cons {c : Char} {chars : List Char} {word : String} {words : List String}
      (heven : Even (word.toList.count quote)) (hblank : isBlank c = true)
      (hrest : Splits chars words) : Splits (word.toList ++ c :: chars) (word :: words)

namespace Splits

variable {chars : List Char} {words : List String}

/-- No quote is dropped. -/
theorem count_eq (h : Splits chars words) :
    chars.count quote = (words.map fun word => word.toList.count quote).sum := by
  induction h with
  | nil => rfl
  | last word => simp
  | blank hblank _ ih => rw [List.count_cons_of_ne (ne_quote_of_isBlank hblank), ih]
  | cons _ hblank _ ih =>
      rw [List.count_append, List.count_cons_of_ne (ne_quote_of_isBlank hblank), ih,
        List.map_cons, List.sum_cons]

/-- The quotes of all words are closed if those of the text are. -/
theorem even_of_mem (h : Splits chars words) (heven : Even (chars.count quote)) :
    ∀ word ∈ words, Even (word.toList.count quote) := by
  induction h with
  | nil => exact List.forall_mem_nil _
  | last word => simpa using heven
  | @blank c chars words hblank hrest ih =>
      apply ih
      rwa [hrest.count_eq, ← (hrest.blank hblank).count_eq]
  | @cons c chars word words hword hblank hrest ih =>
      rw [List.forall_mem_cons]
      refine ⟨hword, ih ?_⟩
      rw [(hrest.cons hword hblank).count_eq, List.map_cons, List.sum_cons, Nat.even_add] at heven
      rw [hrest.count_eq]
      exact heven.1 hword

/-- The quotes of all words but the last are closed in any case. -/
theorem even_of_mem_dropLast (h : Splits chars words) :
    ∀ word ∈ words.dropLast, Even (word.toList.count quote) := by
  induction h with
  | nil => exact List.forall_mem_nil _
  | last word => exact List.forall_mem_nil _
  | blank _ _ ih => exact ih
  | @cons c chars word words hword _ _ ih =>
      cases words with
      | nil => exact List.forall_mem_nil _
      | cons next others =>
          rw [List.dropLast_cons_cons, List.forall_mem_cons]
          exact ⟨hword, ih⟩

/-- What is split has the tokens of its words, apart from their offsets. -/
theorem exists_scan (h : Splits chars words)
    (heven : ∀ word ∈ words, Even (word.toList.count quote)) (offset : Nat) :
    ∃ tokens, scan offset none none chars = .ok tokens ∧
      tokens.map Token.text = words.flatMap texts := by
  induction h generalizing offset with
  | nil => exact ⟨[], rfl, rfl⟩
  | last word =>
      obtain ⟨tokens, htokens⟩ := exists_tokenize_iff.2 (heven word List.mem_cons_self)
      refine ⟨_, scan_word htokens offset, ?_⟩
      rw [map_text_shift, List.flatMap_singleton, texts_eq htokens]
  | @blank c chars words hblank _ ih =>
      obtain ⟨tokens, hscan, htexts⟩ := ih heven (offset + c.utf8Size)
      refine ⟨tokens, ?_, htexts⟩
      rw [scan_blank (ne_quote_of_isBlank hblank) hblank, hscan]
      rfl
  | @cons c chars word words hword hblank _ ih =>
      rw [List.forall_mem_cons] at heven
      obtain ⟨tokens, htokens⟩ := exists_tokenize_iff.2 hword
      obtain ⟨more, hscan, htexts⟩ :=
        ih heven.2 (offset + bytesOf word.toList + c.utf8Size)
      refine ⟨tokens.map (shift offset) ++ more, ?_, ?_⟩
      · rw [scan_append hblank (scan_word htokens offset), hscan]
        rfl
      · rw [List.map_append, map_text_shift, htexts, List.flatMap_cons, texts_eq htokens]

end Splits

/-- Words that are joined by spaces can be split again. -/
theorem splits_intercalate {words : List String}
    (heven : ∀ word ∈ words.dropLast, Even (word.toList.count quote)) :
    Splits (" ".intercalate words).toList words := by
  induction words with
  | nil => exact .nil
  | cons word rest ih =>
      cases rest with
      | nil =>
          rw [String.intercalate_singleton]
          exact .last word
      | cons next others =>
          rw [List.dropLast_cons_cons, List.forall_mem_cons] at heven
          rw [toList_intercalate_cons]
          exact .cons heven.1 (by decide) (ih heven.2)

end Token

namespace Query

open Token

variable {text other : String} {words others : List String} {query : Query}

/-- A text that is split into words is read as what the tokens of the words denote. -/
theorem parse_eq_ok_iff_of_splits (h : Splits text.toList words) :
    parse text = .ok query ↔
      (∀ word ∈ words, Even (word.toList.count quote)) ∧ IsTerm (words.flatMap texts) query := by
  rw [parse_eq_ok_iff]
  constructor
  · rintro ⟨tokens, htokens, hterm⟩
    have heven := h.even_of_mem (exists_tokenize_iff.1 ⟨tokens, htokens⟩)
    obtain ⟨same, hsame, htexts⟩ := h.exists_scan heven 0
    obtain rfl : tokens = same := Except.ok.inj (htokens.symm.trans hsame)
    exact ⟨heven, htexts ▸ hterm⟩
  · rintro ⟨heven, hterm⟩
    obtain ⟨tokens, htokens, htexts⟩ := h.exists_scan heven 0
    exact ⟨tokens, htokens, htexts ▸ hterm⟩

/-- A text is read as what the words that it is split into are, joined by spaces. -/
theorem parse_intercalate_iff (h : Splits text.toList words) :
    parse (" ".intercalate words) = .ok query ↔ parse text = .ok query := by
  have hjoined := splits_intercalate h.even_of_mem_dropLast
  rw [parse_eq_ok_iff_of_splits h, parse_eq_ok_iff_of_splits hjoined]

/-! ## Groups of texts -/

theorem isTerm_texts (h : parse text = .ok query) :
    Even (text.toList.count quote) ∧ IsTerm (texts text) query := by
  obtain ⟨heven, hterm⟩ := (parse_eq_ok_iff_of_splits (.last text)).1 h
  rw [List.flatMap_singleton] at hterm
  exact ⟨heven text List.mem_cons_self, hterm⟩

theorem areTerms_texts {terms : List Query}
    (h : List.Forall₂ (fun text term => parse text = .ok term) words terms) :
    (∀ word ∈ words, Even (word.toList.count quote)) ∧ AreTerms (words.flatMap texts) terms := by
  induction h with
  | nil => exact ⟨List.forall_mem_nil _, .nil⟩
  | cons hfirst _ ih =>
      obtain ⟨heven, hterm⟩ := isTerm_texts hfirst
      exact ⟨List.forall_mem_cons.2 ⟨heven, ih.1⟩, .cons hterm ih.2⟩

theorem texts_word (operator : Operator) :
    Even (operator.word.toList.count quote) ∧ texts operator.word = [operator.word] := by
  cases operator <;> exact ⟨by decide, by rfl⟩

theorem texts_closer : Even (closer.toList.count quote) ∧ texts closer = [closer] :=
  ⟨by decide, by rfl⟩

/-- Texts of queries between the word of an operator and the closing word, joined by spaces. -/
def groupText (operator : Operator) (words : List String) : String :=
  " ".intercalate (operator.word :: (words ++ [closer]))

/-- Texts that are read as queries are read as the terms of a group. -/
theorem parse_group (operator : Operator) {terms : List Query} (hne : words ≠ [])
    (h : List.Forall₂ (fun text term => parse text = .ok term) words terms) :
    parse (groupText operator words) = .ok (.group operator terms) := by
  obtain ⟨heven, hterms⟩ := areTerms_texts h
  have hall : ∀ word ∈ operator.word :: (words ++ [closer]),
      Even (word.toList.count quote) := by
    rw [List.forall_mem_cons, List.forall_mem_append, List.forall_mem_singleton]
    exact ⟨(texts_word operator).1, heven, texts_closer.1⟩
  have hsplits := splits_intercalate fun word hword => hall word (List.dropLast_subset _ hword)
  have htexts : (operator.word :: (words ++ [closer])).flatMap texts =
      operator.word :: (words.flatMap texts ++ [closer]) := by
    rw [List.flatMap_cons, List.flatMap_append, List.flatMap_singleton, (texts_word operator).2,
      texts_closer.2]
    rfl
  rw [groupText, parse_eq_ok_iff_of_splits hsplits, htexts]
  refine ⟨hall, .group operator hterms ?_⟩
  rintro rfl
  cases h
  contradiction

mutual

/-- A text is put together, in groups of groups, from texts that are read as queries. -/
inductive Composes : String → Query → Prop where
  | text {text : String} {query : Query} (h : parse text = .ok query) : Composes text query
  | group (operator : Operator) {words : List String} {terms : List Query} (hne : words ≠ [])
      (hterms : ComposeAll words terms) :
      Composes (groupText operator words) (.group operator terms)

/-- Texts are put together, each from texts that are read as queries. -/
inductive ComposeAll : List String → List Query → Prop where
  | nil : ComposeAll [] []
  | cons {text : String} {query : Query} {words : List String} {terms : List Query}
      (hfirst : Composes text query) (hrest : ComposeAll words terms) :
      ComposeAll (text :: words) (query :: terms)

end

mutual

/-- What is put together is read as the query put together in the same way. -/
theorem parse_of_composes {spelled : String} {tree : Query} (h : Composes spelled tree) :
    parse spelled = .ok tree := by
  match h with
  | .text hparse => exact hparse
  | .group operator hne hterms => exact parse_group operator hne (parse_of_composeAll hterms)

theorem parse_of_composeAll {spelled : List String} {trees : List Query}
    (h : ComposeAll spelled trees) :
    List.Forall₂ (fun text term => parse text = .ok term) spelled trees := by
  match h with
  | .nil => exact .nil
  | .cons hfirst hrest => exact .cons (parse_of_composes hfirst) (parse_of_composeAll hrest)

end

end Query

/-! ## Searching for a query that is split -/

open Token

/-- A search is the same for all words that one text is split into. -/
theorem Context.runSearch_of_splits (context : Context) (library : Library) {text : String}
    {words others : List String} (h : Splits text.toList words)
    (hother : Splits text.toList others) :
    (context.runSearch library words).output = (context.runSearch library others).output ∧
      (context.runSearch library words).status = (context.runSearch library others).status := by
  have hsame (query : Query) : Query.parse (" ".intercalate words) = .ok query ↔
      Query.parse (" ".intercalate others) = .ok query := by
    rw [Query.parse_intercalate_iff h, Query.parse_intercalate_iff hother]
  rw [runSearch, runSearch]
  cases hparse : Query.parse (" ".intercalate words) with
  | error e =>
      cases hparse' : Query.parse (" ".intercalate others) with
      | error e' => exact ⟨rfl, rfl⟩
      | ok query => cases hparse.symm.trans ((hsame query).2 hparse')
  | ok query =>
      rw [(hsame query).1 hparse]
      dsimp only
      cases library.search context query <;> exact ⟨rfl, rfl⟩

namespace Query

/-- Words whose quotes are even in number have, joined by spaces, the tokens of each, behind
all that stands before it. At which separating white space a text is split into words makes no
difference to the query that is read, nor to what a search for it finds. Texts that are read as
queries are read as the terms of a group around them, and so are groups of such groups. -/
theorem parse_composed :
    (∀ words : List String, (∀ word ∈ words, Even (word.toList.count quote)) →
      ∃ tokens, TokensOf "" words tokens ∧ tokenize (" ".intercalate words) = .ok tokens) ∧
    (∀ (text : String) (words : List String), Splits text.toList words →
      ∀ query, parse (" ".intercalate words) = .ok query ↔ parse text = .ok query) ∧
    (∀ (context : Context) (library : Library) (text : String) (words others : List String),
      Splits text.toList words → Splits text.toList others →
        (context.runSearch library words).output = (context.runSearch library others).output ∧
        (context.runSearch library words).status =
          (context.runSearch library others).status) ∧
    (∀ operator words terms, words ≠ [] →
      List.Forall₂ (fun text term => parse text = .ok term) words terms →
      parse (" ".intercalate (operator.word :: (words ++ [closer]))) =
        .ok (.group operator terms)) ∧
    ∀ text query, Composes text query → parse text = .ok query := by
  refine ⟨?_, ?_, ?_, ?_, ?_⟩
  · intro words heven
    exact exists_tokensOf heven
  · intro text words hsplits query
    exact parse_intercalate_iff hsplits
  · intro context library text words others hsplits hother
    exact context.runSearch_of_splits library hsplits hother
  · intro operator words terms hne hterms
    exact parse_group operator hne hterms
  · intro text query hcomposes
    exact parse_of_composes hcomposes

/-- The quotes of the first word are closed before the second, which has no tokens. A group in
a group is split at an ideographic space, and once more in the middle. -/
theorem parse_composed_nested :
    (∃ tokens, TokensOf "" ["'é a'b", "", "c 'd'"] tokens ∧
      tokens = [⟨"é ab", 0⟩, ⟨"c", 9⟩, ⟨"d", 11⟩]) ∧
    Splits "AND\u3000 a OR 'b'  c ) )".toList ["AND", "a OR 'b' ", "c ) )"] ∧
    parse "AND\u3000 a OR 'b'  c ) )" =
      .ok (.group .all [.dir "a", .group .any [.dir "b", .dir "c"]]) := by
  obtain ⟨htokens, hsplit, _, _, hcomposed⟩ := parse_composed
  have hsplits : Splits "AND\u3000 a OR 'b'  c ) )".toList ["AND", "a OR 'b' ", "c ) )"] :=
    @Splits.cons _ _ "AND" _ (by decide) (by decide)
      (.blank (by decide) (@Splits.cons _ _ "a OR 'b' " _ (by decide) (by decide) (.last "c ) )")))
  have ha : parse "a" = .ok (.dir "a") := (parse_eq_conclude rfl).trans rfl
  have hb : parse "'b' " = .ok (.dir "b") := (parse_eq_conclude rfl).trans rfl
  have hc : parse "c" = .ok (.dir "c") := (parse_eq_conclude rfl).trans rfl
  have hinner : Composes (groupText .any ["'b' ", "c"]) (.group .any [.dir "b", .dir "c"]) :=
    .group .any (List.cons_ne_nil _ _) (.cons (.text hb) (.cons (.text hc) .nil))
  have houter : Composes (groupText .all ["a", groupText .any ["'b' ", "c"]])
      (.group .all [.dir "a", .group .any [.dir "b", .dir "c"]]) :=
    .group .all (List.cons_ne_nil _ _) (.cons (.text ha) (.cons hinner .nil))
  refine ⟨?_, hsplits, ?_⟩
  · obtain ⟨tokens, hof, hok⟩ := htokens ["'é a'b", "", "c 'd'"] (by decide)
    have hgiven : tokenize (" ".intercalate ["'é a'b", "", "c 'd'"]) =
        .ok [⟨"é ab", 0⟩, ⟨"c", 9⟩, ⟨"d", 11⟩] := by rfl
    exact ⟨tokens, hof, Except.ok.inj (hok.symm.trans hgiven)⟩
  · have hjoined : " ".intercalate ["AND", "a OR 'b' ", "c ) )"] =
        groupText .all ["a", groupText .any ["'b' ", "c"]] := by decide
    rw [← hsplit _ _ hsplits, hjoined]
    exact hcomposed _ _ houter

end Query

end LinkTags
