import LinkTags.Proofs.Query.Grammar

/-!
# Reading what is written

A query can be written so that it is read back if each of its groups has a term and
none of its names holds a quote. These are also the only queries that are ever read,
so whatever is read can be written and read again (`parse_print_iff`).

## Implementation notes

The text of a query is put together from words with a space between each two. `Scans`
says which tokens a text contributes wherever it stands, its last word still being
open to what follows; texts with this property are joined by a space (`Scans.join`),
which is all that the induction on the query needs to know about tokens.
-/

namespace LinkTags

namespace Query

mutual

/-- Every group has a term, and no name holds a quote. -/
def Writable : Query → Prop
  | .dir name => quote ∉ name.toList
  | .group _ terms => terms ≠ [] ∧ AllWritable terms

/-- Every group in the queries has a term, and no name in them holds a quote. -/
def AllWritable : List Query → Prop
  | [] => True
  | term :: rest => Writable term ∧ AllWritable rest

end

end Query

/-! ## Scanning words -/

namespace Token

/-- How many bytes the characters have. -/
def bytesOf : List Char → Nat
  | [] => 0
  | c :: rest => c.utf8Size + bytesOf rest

/-- Read more characters into a token. -/
def Partial.pushAll (word : Partial) (chars : List Char) : Partial :=
  { word with reversed := chars.reverse ++ word.reversed }

/-- A character that is no quote and does not separate is read into the token. -/
theorem scan_push {opened : Option Nat} {c : Char} (hquote : c ≠ quote)
    (hblank : ¬(opened = none ∧ isBlank c = true)) (offset : Nat) (word : Option Partial)
    (rest : List Char) :
    scan offset opened word (c :: rest) =
      scan (offset + c.utf8Size) opened (some ((Partial.reach word offset).push c)) rest := by
  rw [scan.eq_def]
  simp only [if_neg hquote, if_neg hblank]

theorem scan_plain {opened : Option Nat} {chars : List Char}
    (h : ∀ c ∈ chars, c ≠ quote ∧ ¬(opened = none ∧ isBlank c = true)) (offset : Nat)
    (word : Partial) (tail : List Char) :
    scan offset opened (some word) (chars ++ tail) =
      scan (offset + bytesOf chars) opened (some (word.pushAll chars)) tail := by
  induction chars generalizing offset word with
  | nil => rfl
  | cons c rest ih =>
      obtain ⟨hquote, hblank⟩ := h c (by simp)
      have hrest := ih fun d hd => h d (by simp [hd])
      rw [List.cons_append, scan_push hquote hblank, hrest]
      simp [bytesOf, Partial.pushAll, Partial.push, Partial.reach, Nat.add_assoc]

/-- A token begins where a character does not separate. -/
theorem scan_begin {c : Char} (h : isBlank c = false) (offset : Nat) (rest : List Char) :
    scan offset none none (c :: rest) = scan offset none (some ⟨offset, []⟩) (c :: rest) := by
  simp [scan, h, Partial.reach]

/-- A quote opens or closes, and belongs to a token in any case. -/
theorem scan_toggle (offset : Nat) (opened : Option Nat) (word : Option Partial)
    (rest : List Char) :
    scan offset opened word (quote :: rest) =
      scan (offset + quote.utf8Size) (if opened = none then some offset else none)
        (some (Partial.reach word offset)) rest := by
  rw [scan.eq_def]
  cases opened <;> simp

theorem scan_quote (offset : Nat) (word : Partial) (rest : List Char) :
    scan offset none (some word) (quote :: rest) =
      scan (offset + 1) (some offset) (some word) rest :=
  scan_toggle offset none (some word) rest

theorem scan_unquote (offset start : Nat) (word : Partial) (rest : List Char) :
    scan offset (some start) (some word) (quote :: rest) =
      scan (offset + 1) none (some word) rest :=
  scan_toggle offset (some start) (some word) rest

/-- White space outside quotes ends a token. -/
theorem scan_blank {c : Char} (hquote : c ≠ quote) (hblank : isBlank c = true) (offset : Nat)
    (word : Option Partial) (rest : List Char) :
    scan offset none word (c :: rest) =
      (scan (offset + c.utf8Size) none none rest).map
        ((word.map Partial.token).toList ++ ·) := by
  rw [scan, if_neg hquote, if_pos ⟨rfl, hblank⟩]
  cases scan (offset + c.utf8Size) none none rest <;> rfl

theorem exists_of_scan_blank {c : Char} (hquote : c ≠ quote) (hblank : isBlank c = true)
    {offset : Nat} {word : Option Partial} {rest : List Char} {tokens : List Token}
    (h : scan offset none word (c :: rest) = .ok tokens) :
    ∃ more, scan (offset + c.utf8Size) none none rest = .ok more ∧
      tokens = (word.map Partial.token).toList ++ more := by
  rw [scan_blank hquote hblank] at h
  cases hrest : scan (offset + c.utf8Size) none none rest with
  | error e =>
      rw [hrest] at h
      cases h
  | ok more =>
      rw [hrest] at h
      exact ⟨more, rfl, (Except.ok.inj h).symm⟩

theorem scan_space (offset : Nat) (word : Partial) (rest : List Char) :
    scan offset none (some word) (' ' :: rest) =
      (scan (offset + 1) none none rest).map (word.token :: ·) :=
  scan_blank (by decide) (by decide) offset (some word) rest

/-- The characters make tokens with these texts, the last of which is still being read
when the characters are over. -/
def Scans (chars : List Char) (texts : List String) : Prop :=
  ∀ offset tail, ∃ next tokens last,
    scan offset none none (chars ++ tail) =
      (scan next none (some last) tail).map (tokens ++ ·) ∧
    (tokens ++ [last.token]).map Token.text = texts

theorem Scans.join {front back : List Char} {texts more : List String}
    (hfront : Scans front texts) (hback : Scans back more) :
    Scans (front ++ ' ' :: back) (texts ++ more) := by
  intro offset tail
  obtain ⟨middle, tokens, last, hscan, rfl⟩ := hfront offset (' ' :: (back ++ tail))
  obtain ⟨next, others, final, hrest, rfl⟩ := hback (middle + 1) tail
  refine ⟨next, tokens ++ last.token :: others, final, ?_, by simp⟩
  rw [List.append_assoc, List.cons_append, hscan, scan_space, hrest]
  cases scan next none (some final) tail <;> simp [Except.map]

theorem tokenize_of_scans {chars : List Char} {texts : List String} (h : Scans chars texts) :
    ∃ tokens, tokenize (String.ofList chars) = .ok tokens ∧ tokens.map Token.text = texts := by
  obtain ⟨next, tokens, last, hscan, htexts⟩ := h 0 []
  refine ⟨tokens ++ [last.token], ?_, htexts⟩
  rw [tokenize, String.toList_ofList, ← List.append_nil chars, hscan]
  rfl

/-- A word without quotes and white space is one token. -/
theorem scans_bare {chars : List Char} (hne : chars ≠ [])
    (h : ∀ c ∈ chars, c ≠ quote ∧ isBlank c = false) :
    Scans chars [String.ofList chars] := by
  intro offset tail
  obtain ⟨first, rest, rfl⟩ := List.exists_cons_of_ne_nil hne
  have hplain : ∀ c ∈ first :: rest, c ≠ quote ∧ ¬((none : Option Nat) = none ∧ isBlank c = true) :=
    fun c hc => ⟨(h c hc).1, by simp [(h c hc).2]⟩
  refine ⟨offset + bytesOf (first :: rest), [],
    (⟨offset, []⟩ : Partial).pushAll (first :: rest), ?_, ?_⟩
  · have hbegin := scan_begin (h first (by simp)).2 offset (rest ++ tail)
    rw [List.cons_append, hbegin, ← List.cons_append, scan_plain hplain]
    cases scan _ none _ tail <;> rfl
  · simp [Partial.token, Partial.pushAll]

/-- A quoted text without quotes in it is one token. -/
theorem scans_quoted {chars : List Char} (h : quote ∉ chars) :
    Scans (quote :: (chars ++ [quote])) [String.ofList chars] := by
  intro offset tail
  have hplain : ∀ c ∈ chars, c ≠ quote ∧ ¬(some offset = none ∧ isBlank c = true) :=
    fun c hc => ⟨fun e => h (e ▸ hc), by simp⟩
  refine ⟨offset + 1 + bytesOf chars + 1, [], (⟨offset, []⟩ : Partial).pushAll chars, ?_, ?_⟩
  · have hbegin := scan_begin (c := quote) (by decide) offset (chars ++ quote :: tail)
    have happend : quote :: (chars ++ [quote]) ++ tail = quote :: (chars ++ quote :: tail) := by
      simp
    rw [happend, hbegin, scan_quote, scan_plain hplain, scan_unquote]
    cases scan _ none _ tail <;> rfl
  · simp [Partial.token, Partial.pushAll]

/-! ## Tokens hold no quotes -/

theorem quote_not_mem_reach {word : Option Partial} (hword : ∀ part ∈ word, quote ∉ part.reversed)
    (offset : Nat) : quote ∉ (Partial.reach word offset).reversed := by
  cases word with
  | none => simp [Partial.reach]
  | some part => exact hword part rfl

theorem quote_not_mem_token {word : Option Partial} (hword : ∀ part ∈ word, quote ∉ part.reversed) :
    ∀ token ∈ (word.map Partial.token).toList, quote ∉ token.text.toList := by
  cases word with
  | none => simp
  | some part => simpa [Partial.token] using hword part rfl

/-- Quotes are dropped, so none gets into a token. -/
theorem quote_not_mem_of_scan {chars : List Char} {offset : Nat} {opened : Option Nat}
    {word : Option Partial} {tokens : List Token}
    (hword : ∀ part ∈ word, quote ∉ part.reversed)
    (h : scan offset opened word chars = .ok tokens) :
    ∀ token ∈ tokens, quote ∉ token.text.toList := by
  induction chars generalizing offset opened word tokens with
  | nil =>
      cases opened with
      | some start => simp [scan] at h
      | none =>
          simp only [scan, Except.ok.injEq] at h
          exact h ▸ quote_not_mem_token hword
  | cons c rest ih =>
      have hreach := quote_not_mem_reach hword offset
      by_cases hquote : c = quote
      · subst hquote
        rw [scan_toggle] at h
        exact ih (by simpa using hreach) h
      · by_cases hblank : opened = none ∧ isBlank c = true
        · obtain ⟨rfl, hblank⟩ := hblank
          obtain ⟨more, hrest, rfl⟩ := exists_of_scan_blank hquote hblank h
          rw [List.forall_mem_append]
          exact ⟨quote_not_mem_token hword, ih (by simp) hrest⟩
        · rw [scan_push hquote hblank] at h
          apply ih ?_ h
          simpa [Partial.push, Ne.symm hquote] using hreach

/-- No token has a quote in its text. -/
theorem quote_not_mem_of_tokenize {text : String} {tokens : List Token}
    (h : tokenize text = .ok tokens) : ∀ token ∈ tokens, quote ∉ token.text.toList :=
  quote_not_mem_of_scan (by simp) h

end Token

/-! ## Names -/

theorem quote_not_mem_of_standsFor {word name : String} (h : StandsFor word name)
    (hword : quote ∉ word.toList) : quote ∉ name.toList := by
  cases h with
  | plain _ => exact hword
  | escaped h => exact fun hmem => hword (by simp [h, hmem])

theorem head_ne_escape_of_mem_reservedWords {word : String} (h : word ∈ reservedWords) :
    word.toList.head? ≠ some escape := by
  simp only [reservedWords, List.mem_cons, List.not_mem_nil, or_false] at h
  rcases h with rfl | rfl | rfl <;> decide

/-- A name behind the backslash that it needs is a word, and stands for the name. -/
theorem isTerm_escaped (name : String) : IsTerm [String.ofList (escaped name)] (.dir name) := by
  unfold escaped
  split
  next h =>
    apply IsTerm.word ?_ (.escaped (by simp))
    intro hmem
    exact head_ne_escape_of_mem_reservedWords hmem (by simp)
  next h =>
    rw [not_or] at h
    rw [String.ofList_toList]
    exact .word h.1 (.plain h.2)

theorem scans_writtenName {name : String} (h : quote ∉ name.toList) :
    Token.Scans (writtenName name) [String.ofList (escaped name)] := by
  have hquote : quote ∉ escaped name := by
    unfold escaped
    split
    · simp [h, show quote ≠ escape by decide]
    · exact h
  simp only [writtenName]
  split
  · exact Token.scans_quoted hquote
  next hplain =>
    simp only [not_or, List.any_eq_true, not_exists, not_and] at hplain
    apply Token.scans_bare hplain.1
    intro c hc
    refine ⟨fun e => hquote (e ▸ hc), ?_⟩
    simpa using hplain.2 c hc

theorem scans_operator (operator : Operator) :
    Token.Scans operator.word.toList [operator.word] := by
  have hne : operator.word.toList ≠ [] := by cases operator <;> decide
  have hplain : ∀ c ∈ operator.word.toList, c ≠ quote ∧ isBlank c = false := by
    cases operator <;> simp [Operator.word] <;> decide
  have hbare := Token.scans_bare hne hplain
  rwa [String.ofList_toList] at hbare

theorem scans_closer : Token.Scans closer.toList [closer] := by
  have hplain : ∀ c ∈ closer.toList, c ≠ quote ∧ isBlank c = false := by
    simp [closer]
    decide
  have hbare := Token.scans_bare (by decide) hplain
  rwa [String.ofList_toList] at hbare

namespace Query

/-! ## Queries -/

mutual

/-- The text of a query that can be written is a term that denotes it. -/
theorem scans_written (query : Query) (h : query.Writable) :
    ∃ texts, Token.Scans query.written texts ∧ IsTerm texts query := by
  match query with
  | .dir name => exact ⟨_, scans_writtenName h, isTerm_escaped name⟩
  | .group operator terms =>
      obtain ⟨texts, hscans, hterms⟩ := scans_writtenAll terms h.1 h.2
      refine ⟨operator.word :: (texts ++ [closer]), ?_, .group operator hterms h.1⟩
      rw [written]
      exact (scans_operator operator).join (hscans.join scans_closer)

theorem scans_writtenAll (terms : List Query) (hne : terms ≠ []) (h : AllWritable terms) :
    ∃ texts, Token.Scans (writtenAll terms) texts ∧ AreTerms texts terms := by
  match terms with
  | [] => exact absurd rfl hne
  | [term] =>
      obtain ⟨texts, hscans, hterm⟩ := scans_written term h.1
      exact ⟨texts, by simpa [writtenAll, writtenRest] using hscans, .singleton hterm⟩
  | term :: next :: others =>
      obtain ⟨front, hfirst, hterm⟩ := scans_written term h.1
      obtain ⟨back, hrest, hterms⟩ := scans_writtenAll (next :: others) (by simp) h.2
      exact ⟨front ++ back, hfirst.join hrest, .cons hterm hterms⟩

end

mutual

/-- A term without quotes in its texts denotes a query that can be written. -/
theorem writable_of_isTerm {texts : List String} {query : Query} (h : IsTerm texts query)
    (htexts : ∀ text ∈ texts, quote ∉ text.toList) : query.Writable := by
  match h with
  | .word _ hname => exact quote_not_mem_of_standsFor hname (htexts _ (by simp))
  | .group _ hterms hne =>
      exact ⟨hne, allWritable_of_areTerms hterms fun text hmem => htexts text (by simp [hmem])⟩

theorem allWritable_of_areTerms {texts : List String} {terms : List Query}
    (h : AreTerms texts terms) (htexts : ∀ text ∈ texts, quote ∉ text.toList) :
    AllWritable terms := by
  match h with
  | .nil => trivial
  | .cons hfirst hrest =>
      exact ⟨writable_of_isTerm hfirst fun text hmem => htexts text (by simp [hmem]),
        allWritable_of_areTerms hrest fun text hmem => htexts text (by simp [hmem])⟩

end

theorem parse_print {query : Query} (h : query.Writable) : parse query.print = .ok query := by
  obtain ⟨texts, hscans, hterm⟩ := scans_written query h
  obtain ⟨tokens, htokens, rfl⟩ := Token.tokenize_of_scans hscans
  rw [print_eq]
  exact parse_eq_ok_iff.2 ⟨tokens, htokens, hterm⟩

theorem writable_of_parse {text : String} {query : Query} (h : parse text = .ok query) :
    query.Writable := by
  obtain ⟨tokens, htokens, hterm⟩ := parse_eq_ok_iff.1 h
  apply writable_of_isTerm hterm
  intro text hmem
  obtain ⟨token, htoken, rfl⟩ := List.mem_map.1 hmem
  exact Token.quote_not_mem_of_tokenize htokens token htoken

/-- A query is read back from its text exactly if it can be written, and every query
that is read can be written and is read back. -/
theorem parse_print_iff :
    (∀ query : Query, parse query.print = .ok query ↔ query.Writable) ∧
    ∀ (text : String) (query : Query), parse text = .ok query →
      query.Writable ∧ parse query.print = .ok query := by
  constructor
  · intro query
    exact ⟨writable_of_parse, parse_print⟩
  · intro text query h
    have hwritable := writable_of_parse h
    exact ⟨hwritable, parse_print hwritable⟩

/-- Read back are an empty name, a keyword that is a name, and a name with a blank in it. -/
theorem parse_print_keyword_name :
    parse "AND '' OR \\AND 'a\u3000b' ) )" =
      .ok (.group .all [.dir "", .group .any [.dir "AND", .dir "a\u3000b"]]) ∧
    parse (print (.group .all [.dir "", .group .any [.dir "AND", .dir "a\u3000b"]])) =
      .ok (.group .all [.dir "", .group .any [.dir "AND", .dir "a\u3000b"]]) := by
  have hparse : parse "AND '' OR \\AND 'a\u3000b' ) )" =
      .ok (.group .all [.dir "", .group .any [.dir "AND", .dir "a\u3000b"]]) :=
    (parse_eq_conclude rfl).trans rfl
  exact ⟨hparse, (parse_print_iff.2 _ _ hparse).2⟩

end Query

end LinkTags
