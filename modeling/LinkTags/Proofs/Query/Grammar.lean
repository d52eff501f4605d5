import LinkTags.Proofs.Query.Reading
import LinkTags.Query.Printer

/-!
# The grammar of queries

A term is a word, or the word of an operator, one or more terms, and `)`. The tokens
of a query have to be one term as a whole, and the query is what that term denotes;
no tokens are a term in two ways (`parse_eq_ok_iff`).

## Implementation notes

While tokens are read, the terms of the open groups are not complete. `Opened` says
what has been read up to the innermost level, so that the texts behind a reading are
those of the open groups followed by those of the terms at that level (`Holds`). A
step adds the text of its token there, and only a closed group moves texts inward.
-/

namespace LinkTags

/-- The name that a word stands for: one backslash in front does not belong to it. -/
inductive StandsFor : String → String → Prop where
  | plain {name : String} (h : name.toList.head? ≠ some escape) : StandsFor name name
  | escaped {word name : String} (h : word.toList = escape :: name.toList) :
      StandsFor word name

mutual

/-- The texts are a term, and this is the query that it denotes. -/
inductive IsTerm : List String → Query → Prop where
  | word {text name : String} (hword : text ∉ reservedWords) (hname : StandsFor text name) :
      IsTerm [text] (.dir name)
  | group (operator : Operator) {texts : List String} {terms : List Query}
      (hterms : AreTerms texts terms) (hne : terms ≠ []) :
      IsTerm (operator.word :: (texts ++ [closer])) (.group operator terms)

/-- The texts are terms one after the other, and these are the queries they denote. -/
inductive AreTerms : List String → List Query → Prop where
  | nil : AreTerms [] []
  | cons {front back : List String} {term : Query} {rest : List Query}
      (hfirst : IsTerm front term) (hrest : AreTerms back rest) :
      AreTerms (front ++ back) (term :: rest)

end

theorem AreTerms.append {front back : List String} {first rest : List Query}
    (hfirst : AreTerms front first) (hrest : AreTerms back rest) :
    AreTerms (front ++ back) (first ++ rest) := by
  match hfirst with
  | .nil => exact hrest
  | .cons hterm hmore =>
      rw [List.append_assoc]
      exact .cons hterm (hmore.append hrest)

theorem AreTerms.singleton {texts : List String} {term : Query} (h : IsTerm texts term) :
    AreTerms texts [term] := by
  simpa using AreTerms.cons h .nil

theorem areTerms_singleton_iff {texts : List String} {term : Query} :
    AreTerms texts [term] ↔ IsTerm texts term := by
  constructor
  · intro h
    cases h with
    | cons hfirst hrest =>
        cases hrest
        rwa [List.append_nil]
  · exact .singleton

/-! ## Words and lexemes -/

theorem standsFor_iff {word name : String} : StandsFor word name ↔ unescape word = name := by
  constructor
  · intro h
    cases h with
    | plain h =>
        unfold unescape
        split
        · rfl
        next c rest hword =>
          have hc : c ≠ escape := by simpa [hword] using h
          rw [if_neg hc]
    | escaped h => simp [unescape, h]
  · rintro rfl
    unfold unescape
    split
    next hword => exact .plain (by simp [hword])
    next c rest hword =>
      split
      next hc => exact .escaped (by simp [hword, hc])
      next hc => exact .plain (by simpa [hword] using hc)

namespace Lexeme

@[simp] theorem ofText_closer : ofText LinkTags.closer = .closer := by
  decide

@[simp] theorem ofText_word (operator : Operator) : ofText operator.word = .opener operator := by
  cases operator <;> decide

theorem ofText_of_not_mem {text : String} (h : text ∉ reservedWords) :
    ofText text = .word (unescape text) := by
  simp only [reservedWords, List.mem_cons, List.not_mem_nil, or_false, not_or] at h
  simp [ofText, h]

/-- What a text is if it is no word: the closing word, or that of an operator. -/
theorem eq_of_mem_reservedWords {text : String} (h : text ∈ reservedWords) :
    text = LinkTags.closer ∨ ∃ operator : Operator, text = operator.word := by
  simp only [reservedWords, List.mem_cons, List.not_mem_nil, or_false] at h
  rcases h with rfl | rfl | rfl
  · exact .inr ⟨.all, rfl⟩
  · exact .inr ⟨.any, rfl⟩
  · exact .inl rfl

end Lexeme

namespace Reading

/-- The queries of terms that have been read, in the order of the text. -/
def queries (terms : List Term) : List Query :=
  (terms.map Term.query).reverse

@[simp] theorem queries_nil : queries [] = [] := rfl

@[simp] theorem queries_cons (term : Term) (terms : List Term) :
    queries (term :: terms) = queries terms ++ [term.query] := by
  simp [queries]

@[simp] theorem queries_eq_nil_iff {terms : List Term} : queries terms = [] ↔ terms = [] := by
  simp [queries]

@[simp] theorem query_close (group : OpenGroup) (terms : List Term) :
    (close group terms).query = .group group.operator (queries terms) := by
  simp [close, queries]

/-! ## What one token does -/

/-- A token adds a word to the innermost level, opens a group there, or closes the
innermost group, which then has terms. -/
theorem step_eq_ok {reading next : Reading} {token : Token} (h : reading.step token = .ok next) :
    (∃ name, token.text ∉ reservedWords ∧ StandsFor token.text name ∧
      next = { reading with terms := ⟨token.offset, .dir name⟩ :: reading.terms }) ∨
    (∃ operator : Operator, token.text = operator.word ∧
      next = ⟨⟨⟨operator, token.offset⟩, reading.terms⟩ :: reading.groups, []⟩) ∨
    (∃ group outer, token.text = closer ∧ reading.groups = group :: outer ∧
      reading.terms ≠ [] ∧ next = ⟨outer, close group reading.terms :: group.outside⟩) := by
  by_cases hword : token.text ∈ reservedWords
  · rcases Lexeme.eq_of_mem_reservedWords hword with hcloser | ⟨operator, hopener⟩
    · right; right
      simp only [step, hcloser, Lexeme.ofText_closer] at h
      split at h
      · contradiction
      next group outer hgroups =>
        split at h
        · contradiction
        next hterms =>
          cases h
          exact ⟨group, outer, hcloser, hgroups, by simpa using hterms, rfl⟩
    · right; left
      simp only [step, hopener, Lexeme.ofText_word] at h
      cases h
      exact ⟨operator, hopener, rfl⟩
  · left
    simp only [step, Lexeme.ofText_of_not_mem hword] at h
    cases h
    exact ⟨_, hword, standsFor_iff.2 rfl, rfl⟩

theorem step_word {reading : Reading} {token : Token} {name : String}
    (hword : token.text ∉ reservedWords) (hname : StandsFor token.text name) :
    reading.step token =
      .ok { reading with terms := ⟨token.offset, .dir name⟩ :: reading.terms } := by
  simp [step, Lexeme.ofText_of_not_mem hword, standsFor_iff.1 hname]

theorem step_opener {reading : Reading} {token : Token} {operator : Operator}
    (h : token.text = operator.word) :
    reading.step token =
      .ok ⟨⟨⟨operator, token.offset⟩, reading.terms⟩ :: reading.groups, []⟩ := by
  simp [step, h]

theorem step_closer {group : OpenGroup} {outer : List OpenGroup} {terms : List Term}
    {token : Token} (h : token.text = closer) (hterms : terms ≠ []) :
    (⟨group :: outer, terms⟩ : Reading).step token =
      .ok ⟨outer, close group terms :: group.outside⟩ := by
  simp [step, h, hterms]

theorem run_append (reading : Reading) (front back : List Token) :
    reading.run (front ++ back) =
      match reading.run front with
      | .error e => .error e
      | .ok next => next.run back := by
  induction front generalizing reading with
  | nil => rfl
  | cons token rest ih =>
      rw [List.cons_append, run, run]
      cases reading.step token with
      | error e => rfl
      | ok next => exact ih next

/-! ## Reading accepts only terms -/

/-- The texts that lead to the innermost level: those of the terms at each level
outside, followed by the word that opened the next. -/
inductive Opened : List OpenGroup → List String → Prop where
  | outermost : Opened [] []
  | inside {group : OpenGroup} {outer : List OpenGroup} {before texts : List String}
      (houter : Opened outer before) (hterms : AreTerms texts (queries group.outside)) :
      Opened (group :: outer) (before ++ (texts ++ [group.operator.word]))

/-- The texts that have been read are those that lead to the innermost level and
those of its terms. -/
def Holds (reading : Reading) (texts : List String) : Prop :=
  ∃ before here, texts = before ++ here ∧ Opened reading.groups before ∧
    AreTerms here (queries reading.terms)

theorem holds_start : start.Holds [] :=
  ⟨[], [], rfl, .outermost, .nil⟩

theorem Holds.step {reading next : Reading} {token : Token} {texts : List String}
    (hholds : reading.Holds texts) (h : reading.step token = .ok next) :
    next.Holds (texts ++ [token.text]) := by
  obtain ⟨groups, terms⟩ := reading
  obtain ⟨before, here, rfl, hopened, hterms⟩ := hholds
  rcases step_eq_ok h with ⟨name, hword, hname, rfl⟩ | ⟨operator, hopener, rfl⟩ |
    ⟨group, outer, hcloser, hgroups, hne, rfl⟩
  · refine ⟨before, here ++ [token.text], List.append_assoc .., hopened, ?_⟩
    rw [queries_cons]
    exact hterms.append (.singleton (.word hword hname))
  · refine ⟨_, [], (List.append_nil _).symm, ?_, .nil⟩
    rw [List.append_assoc, hopener]
    exact .inside hopened hterms
  · subst hgroups
    cases hopened with
    | @inside _ _ before outside houter houtside =>
        -- The texts of the group, with its words, become a term of the level outside.
        have hgroup := IsTerm.group group.operator hterms (by simpa using hne)
        have hlevel := houtside.append (.singleton hgroup)
        refine ⟨before, _, ?_, houter, by simpa using hlevel⟩
        simp [hcloser]

theorem Holds.run {reading final : Reading} {tokens : List Token} {texts : List String}
    (hholds : reading.Holds texts) (h : reading.run tokens = .ok final) :
    final.Holds (texts ++ tokens.map Token.text) := by
  induction tokens generalizing reading texts with
  | nil =>
      cases h
      simpa using hholds
  | cons token rest ih =>
      rw [Reading.run] at h
      split at h
      · contradiction
      next next hstep =>
        have hrest := ih (hholds.step hstep) h
        simpa using hrest

/-- A reading that is over gives a query if nothing is open and there is one term. -/
theorem finish_eq_ok_iff {reading : Reading} {query : Query} :
    reading.finish = .ok query ↔ reading.groups = [] ∧ queries reading.terms = [query] := by
  unfold finish
  split
  next hgroups => simp [hgroups]
  next hgroups =>
    simp only [hgroups, true_and, queries, ← List.map_reverse, Query.ofTerms]
    split
    next hterms => simp [hterms]
    next term hterms => simp [hterms]
    next hterms => simp [hterms]

/-! ## Reading accepts all terms -/

mutual

/-- Reading a term adds its query at the innermost level, where its first token begins. -/
theorem run_of_isTerm {texts : List String} {query : Query} (h : IsTerm texts query)
    (reading : Reading) {tokens : List Token} (htexts : tokens.map Token.text = texts) :
    ∃ offset, tokens.head?.map Token.offset = some offset ∧
      reading.run tokens = .ok { reading with terms := ⟨offset, query⟩ :: reading.terms } := by
  match h with
  | .word hword hname =>
      obtain ⟨token, rfl, htoken⟩ := List.map_eq_singleton_iff.1 htexts
      refine ⟨token.offset, rfl, ?_⟩
      rw [run, step_word (by rwa [htoken]) (by rwa [htoken])]
      rfl
  | .group operator hterms hne =>
      obtain ⟨opener, others, rfl, hopener, hothers⟩ := List.map_eq_cons_iff.1 htexts
      obtain ⟨inner, last, rfl, hinner, hlast⟩ := List.map_eq_append_iff.1 hothers
      obtain ⟨token, rfl, hcloser⟩ := List.map_eq_singleton_iff.1 hlast
      obtain ⟨read, hread, hrun⟩ := run_of_areTerms hterms
        ⟨⟨⟨operator, opener.offset⟩, reading.terms⟩ :: reading.groups, []⟩ hinner
      refine ⟨opener.offset, rfl, ?_⟩
      have hreadne : read ≠ [] := by
        rintro rfl
        exact hne hread.symm
      rw [run, step_opener hopener]
      simp only [run_append, hrun, List.append_nil]
      rw [run, step_closer hcloser hreadne]
      simp [run, close, ← hread, queries]

theorem run_of_areTerms {texts : List String} {terms : List Query} (h : AreTerms texts terms)
    (reading : Reading) {tokens : List Token} (htexts : tokens.map Token.text = texts) :
    ∃ read, queries read = terms ∧
      reading.run tokens = .ok { reading with terms := read ++ reading.terms } := by
  match h with
  | .nil =>
      obtain rfl := List.map_eq_nil_iff.1 htexts
      exact ⟨[], rfl, rfl⟩
  | @AreTerms.cons _ _ term _ hfirst hrest =>
      obtain ⟨front, back, rfl, hfront, hback⟩ := List.map_eq_append_iff.1 htexts
      obtain ⟨offset, _, hone⟩ := run_of_isTerm hfirst reading hfront
      obtain ⟨read, hread, hmore⟩ := run_of_areTerms hrest
        { reading with terms := ⟨offset, term⟩ :: reading.terms } hback
      refine ⟨read ++ [⟨offset, term⟩], ?_, ?_⟩
      · simp [queries, ← hread]
      · simp [run_append, hone, hmore]

end

end Reading

namespace Query

/-- The tokens of a query are one term, which denotes it, and conversely. -/
theorem ofTokens_eq_ok_iff {tokens : List Token} {query : Query} :
    ofTokens tokens = .ok query ↔ IsTerm (tokens.map Token.text) query := by
  constructor
  · intro h
    rw [ofTokens_eq_conclude, Reading.conclude] at h
    split at h
    · contradiction
    next final hrun =>
      obtain ⟨hgroups, hterms⟩ := Reading.finish_eq_ok_iff.1 h
      obtain ⟨before, here, htexts, hopened, hhere⟩ := Reading.holds_start.run hrun
      rw [hgroups] at hopened
      cases hopened
      rw [hterms, areTerms_singleton_iff] at hhere
      have hall : tokens.map Token.text = here := htexts
      rwa [hall]
  · intro h
    obtain ⟨offset, _, hrun⟩ := Reading.run_of_isTerm h Reading.start rfl
    rw [ofTokens_eq_conclude, Reading.conclude, hrun]
    exact Reading.finish_eq_ok_iff.2 ⟨rfl, rfl⟩

/-- A text is read as a query exactly if its tokens are a term that denotes it. -/
theorem parse_eq_ok_iff {text : String} {query : Query} :
    parse text = .ok query ↔
      ∃ tokens, Token.tokenize text = .ok tokens ∧ IsTerm (tokens.map Token.text) query := by
  unfold parse
  split
  next e htokens => simp [htokens]
  next tokens htokens => simp [htokens, ofTokens_eq_ok_iff]

end Query

/-- The same texts denote no two queries, since reading tokens with these texts gives
each query that they denote. -/
theorem IsTerm.unique {texts : List String} {first second : Query}
    (hfirst : IsTerm texts first) (hsecond : IsTerm texts second) : first = second := by
  have htexts : (texts.map fun text => (⟨text, 0⟩ : Token)).map Token.text = texts := by
    simp [Function.comp_def]
  rw [← htexts, ← Query.ofTokens_eq_ok_iff] at hfirst hsecond
  exact Except.ok.inj (hfirst.symm.trans hsecond)

namespace Query

/-- Reading is sound and complete for the grammar, and the grammar is unambiguous. -/
theorem parse_accepts_exactly_terms :
    (∀ (text : String) (query : Query), parse text = .ok query ↔
      ∃ tokens, Token.tokenize text = .ok tokens ∧ IsTerm (tokens.map Token.text) query) ∧
    ∀ (texts : List String) (first second : Query),
      IsTerm texts first → IsTerm texts second → first = second :=
  ⟨fun _ _ => parse_eq_ok_iff, fun _ _ _ => IsTerm.unique⟩

/-- A nested query with a quoted and escaped word is one term, and denotes one query. -/
theorem parse_accepts_nested_term :
    parse "OR '\\AND' AND b ) )" = .ok (.group .any [.dir "AND", .group .all [.dir "b"]]) ∧
    group .any [.dir (unescape "\\AND"), .group .all [.dir (unescape "b")]] =
      .group .any [.dir "AND", .group .all [.dir "b"]] := by
  have hquery : IsTerm ["OR", "\\AND", "AND", "b", ")", ")"]
      (.group .any [.dir "AND", .group .all [.dir "b"]]) :=
    .group .any (.cons (.word (by decide) (.escaped (by decide)))
      (.singleton (.group .all (.singleton (.word (by decide) (.plain (by decide)))) (by simp))))
      (by simp)
  have hother : IsTerm ["OR", "\\AND", "AND", "b", ")", ")"]
      (.group .any [.dir (unescape "\\AND"), .group .all [.dir (unescape "b")]]) :=
    .group .any (.cons (.word (by decide) (standsFor_iff.2 rfl))
      (.singleton (.group .all (.singleton (.word (by decide) (standsFor_iff.2 rfl))) (by simp))))
      (by simp)
  have htokens : Token.tokenize "OR '\\AND' AND b ) )" =
      .ok [⟨"OR", 0⟩, ⟨"\\AND", 3⟩, ⟨"AND", 10⟩, ⟨"b", 14⟩, ⟨")", 16⟩, ⟨")", 18⟩] := by
    rfl
  constructor
  · exact (parse_accepts_exactly_terms.1 _ _).2 ⟨_, htokens, hquery⟩
  · exact parse_accepts_exactly_terms.2 _ _ _ hother hquery

end Query

end LinkTags
