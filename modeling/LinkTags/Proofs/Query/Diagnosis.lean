import LinkTags.Proofs.Query.Grammar

/-!
# What is wrong with a query

A scan of the tokens of a query keeps the groups that are open on a stack: the operator
of each, where its word is, and whether a term in it is complete. The first token that
does not fit there decides the error of the query. If every token fits, the groups that
are left open decide it, and after them the number of terms (`parse_fails_at_first_offence`).

## Implementation notes

A query is read by going into each group and coming back, with no stack but that of the
calls. That a pass over the tokens with the open groups on a stack ends in the same query or
the same error is `Query.ofTokens_eq_conclude`, by induction along the reading. The scan keeps
less than that pass: it builds no query, and of the terms of a group it keeps whether there are
any. `Reading.frames` forgets the terms, and a step of the one is then a step of the other,
refusals included (`frames_step`). Where terms begin is not a matter of the stack: `BeginAt`
takes it from the grammar.
-/

namespace LinkTags

/-- A group that is open in a scan: its operator, where its word is, and whether a term
in it is complete. -/
structure Frame where
  operator : Operator
  offset : Nat
  filled : Bool
  deriving DecidableEq

namespace Frame

/-- A term is complete in the innermost group. -/
def fill : List Frame → List Frame
  | [] => []
  | frame :: outer => { frame with filled := true } :: outer

/-- The open groups after one more token, unless it does not fit. -/
def step (stack : List Frame) (token : Token) : Option (List Frame) :=
  if token.text = closer then
    match stack with
    | ⟨_, _, true⟩ :: outer => some (fill outer)
    | _ => none
  else if token.text = Operator.all.word then some (⟨.all, token.offset, false⟩ :: stack)
  else if token.text = Operator.any.word then some (⟨.any, token.offset, false⟩ :: stack)
  else some (fill stack)

/-- The open groups after all tokens, unless one of them does not fit. -/
def scan (stack : List Frame) : List Token → Option (List Frame)
  | [] => some stack
  | token :: rest =>
      match step stack token with
      | some next => scan next rest
      | none => none

/-- The token is the first that does not fit, and these are the groups open there. -/
def FirstOffence (tokens : List Token) (stack : List Frame) (token : Token) : Prop :=
  ∃ front back, tokens = front ++ token :: back ∧ scan [] front = some stack ∧
    step stack token = none

/-- What is wrong where a token does not fit. -/
def blame : List Frame → Token → QueryError
  | [], token => .unexpectedCloser token.offset
  | frame :: _, _ => .emptyGroup frame.operator frame.offset

theorem step_opener (stack : List Frame) {token : Token} {operator : Operator}
    (h : token.text = operator.word) :
    step stack token = some (⟨operator, token.offset, false⟩ :: stack) := by
  cases operator with
  | all => simp [step, h, Operator.word, closer]
  | any => simp [step, h, Operator.word, closer]

theorem step_word (stack : List Frame) {token : Token} (h : token.text ∉ reservedWords) :
    step stack token = some (fill stack) := by
  simp only [reservedWords, List.mem_cons, List.not_mem_nil, or_false, not_or] at h
  simp [step, h]

/-- A token that does not fit closes nothing, or a group without a term. -/
theorem step_eq_none_iff {stack : List Frame} {token : Token} :
    step stack token = none ↔ token.text = closer ∧
      (stack = [] ∨ ∃ operator offset outer, stack = ⟨operator, offset, false⟩ :: outer) := by
  unfold step
  split
  next hcloser =>
    split
    next => simp [hcloser]
    next hopen =>
      cases stack with
      | nil => simp [hcloser]
      | cons frame outer =>
          obtain ⟨operator, offset, filled⟩ := frame
          cases filled with
          | true => exact absurd rfl (hopen operator offset outer)
          | false => simp [hcloser]
  next hother =>
    split
    · simp [hother]
    · split <;> simp [hother]

theorem FirstOffence.step_eq_none {tokens : List Token} {stack : List Frame} {token : Token}
    (h : FirstOffence tokens stack token) : step stack token = none := by
  obtain ⟨_, _, _, _, hstep⟩ := h
  exact hstep

end Frame

/-- The tokens are terms one after the other, which begin at these offsets. -/
inductive BeginAt : List Token → List Nat → Prop where
  | nil : BeginAt [] []
  | cons {first : Token} {others rest : List Token} {query : Query} {offsets : List Nat}
      (hfirst : IsTerm ((first :: others).map Token.text) query) (hrest : BeginAt rest offsets) :
      BeginAt (first :: others ++ rest) (first.offset :: offsets)

namespace Reading

/-! ## Reading and scanning -/

/-- The open groups, where the innermost one has the given terms. -/
def framesOf (terms : List Term) : List OpenGroup → List Frame
  | [] => []
  | group :: outer =>
      ⟨group.operator, group.offset, !terms.isEmpty⟩ :: framesOf group.outside outer

/-- The open groups of a reading, as a scan keeps them. -/
def frames (reading : Reading) : List Frame :=
  framesOf reading.terms reading.groups

/-- One more term at the innermost level fills the innermost group. -/
theorem framesOf_cons (term : Term) (terms : List Term) (groups : List OpenGroup) :
    framesOf (term :: terms) groups = Frame.fill (framesOf terms groups) := by
  cases groups <;> rfl

/-- Reading and scanning take the same tokens, and the open groups stay the same. -/
theorem frames_step (reading : Reading) (token : Token) :
    Frame.step reading.frames token = (reading.step token).toOption.map frames := by
  by_cases hword : token.text ∈ reservedWords
  · rcases Lexeme.eq_of_mem_reservedWords hword with hcloser | ⟨operator, hopener⟩
    · obtain ⟨groups, terms⟩ := reading
      cases groups with
      | nil => simp [Frame.step, Reading.step, hcloser, frames, framesOf, Except.toOption]
      | cons group outer =>
          cases terms with
          | nil => simp [Frame.step, Reading.step, hcloser, frames, framesOf, Except.toOption]
          | cons term terms =>
              simp [Frame.step, Reading.step, hcloser, frames, framesOf, framesOf_cons,
                Except.toOption]
    · rw [Frame.step_opener _ hopener, step_opener hopener]
      rfl
  · rw [Frame.step_word _ hword, step_word hword (standsFor_iff.2 rfl)]
    simp [frames, framesOf_cons, Except.toOption]

theorem frames_run (reading : Reading) (tokens : List Token) :
    Frame.scan reading.frames tokens = (reading.run tokens).toOption.map frames := by
  induction tokens generalizing reading with
  | nil => rfl
  | cons token rest ih =>
      rw [Frame.scan, Reading.run, frames_step]
      cases reading.step token with
      | error e => rfl
      | ok next => exact ih next

theorem scan_eq_some_iff {tokens : List Token} {stack : List Frame} :
    Frame.scan [] tokens = some stack ↔
      ∃ reading, start.run tokens = .ok reading ∧ reading.frames = stack := by
  have hrun : Frame.scan [] tokens = (start.run tokens).toOption.map frames :=
    frames_run start tokens
  rw [hrun]
  cases start.run tokens with
  | error e => simp [Except.toOption]
  | ok reading => simp [Except.toOption]

/-! ## Where reading stops -/

/-- The error for a token that is refused is decided by the open groups. -/
theorem blame_frames {reading : Reading} {token : Token} {e : QueryError}
    (h : reading.step token = .error e) : Frame.blame reading.frames token = e := by
  obtain ⟨groups, terms⟩ := reading
  unfold Reading.step at h
  split at h
  · contradiction
  · contradiction
  · cases groups with
    | nil =>
        cases h
        rfl
    | cons group outer =>
        dsimp only at h
        split at h
        · cases h
          rfl
        · contradiction

theorem step_eq_error_iff {reading : Reading} {token : Token} {e : QueryError} :
    reading.step token = .error e ↔
      Frame.step reading.frames token = none ∧ Frame.blame reading.frames token = e := by
  rw [frames_step]
  cases hstep : reading.step token with
  | error e' => simp [Except.toOption, blame_frames hstep]
  | ok next => simp [Except.toOption]

theorem run_eq_error_iff {reading : Reading} {tokens : List Token} {e : QueryError} :
    reading.run tokens = .error e ↔
      ∃ front token back next, tokens = front ++ token :: back ∧
        reading.run front = .ok next ∧ next.step token = .error e := by
  constructor
  · intro h
    induction tokens generalizing reading with
    | nil => cases h
    | cons token rest ih =>
        rw [Reading.run] at h
        split at h
        next e' hstep =>
          cases h
          exact ⟨[], token, rest, reading, rfl, rfl, hstep⟩
        next next hstep =>
          obtain ⟨front, later, back, last, rfl, hrun, hlast⟩ := ih h
          refine ⟨token :: front, later, back, last, rfl, ?_, hlast⟩
          rw [Reading.run, hstep]
          exact hrun
  · rintro ⟨front, token, back, next, rfl, hrun, hstep⟩
    simp [run_append, hrun, Reading.run, hstep]

/-- Reading stops at the first token that does not fit, and with its error. -/
theorem run_start_eq_error_iff {tokens : List Token} {e : QueryError} :
    start.run tokens = .error e ↔
      ∃ stack token, Frame.FirstOffence tokens stack token ∧ Frame.blame stack token = e := by
  rw [run_eq_error_iff]
  constructor
  · rintro ⟨front, token, back, next, htokens, hrun, hstep⟩
    obtain ⟨hnone, hblame⟩ := step_eq_error_iff.1 hstep
    have hscan := scan_eq_some_iff.2 ⟨next, hrun, rfl⟩
    exact ⟨next.frames, token, ⟨front, back, htokens, hscan, hnone⟩, hblame⟩
  · rintro ⟨stack, token, ⟨front, back, htokens, hscan, hnone⟩, hblame⟩
    obtain ⟨next, hrun, rfl⟩ := scan_eq_some_iff.1 hscan
    exact ⟨front, token, back, next, htokens, hrun, step_eq_error_iff.2 ⟨hnone, hblame⟩⟩

/-! ## Where terms begin -/

/-- Tokens that are terms one after the other are read as these terms. -/
theorem run_of_beginAt {tokens : List Token} {offsets : List Nat} (h : BeginAt tokens offsets)
    (reading : Reading) :
    ∃ read, (read.map Term.offset).reverse = offsets ∧
      reading.run tokens = .ok { reading with terms := read ++ reading.terms } := by
  induction h generalizing reading with
  | nil => exact ⟨[], rfl, rfl⟩
  | @cons first others rest query offsets hfirst _ ih =>
      obtain ⟨offset, hoffset, hone⟩ := run_of_isTerm hfirst reading rfl
      obtain rfl : first.offset = offset := by simpa using hoffset
      obtain ⟨read, hread, hmore⟩ := ih { reading with
        terms := ⟨first.offset, query⟩ :: reading.terms }
      refine ⟨read ++ [⟨first.offset, query⟩], by simp [← hread], ?_⟩
      rw [run_append, hone]
      simpa using hmore

theorem exists_beginAt {texts : List String} {terms : List Query} (h : AreTerms texts terms)
    {tokens : List Token} (htexts : tokens.map Token.text = texts) :
    ∃ offsets, BeginAt tokens offsets := by
  induction terms generalizing texts tokens with
  | nil =>
      cases h
      obtain rfl := List.map_eq_nil_iff.1 htexts
      exact ⟨[], .nil⟩
  | cons term rest ih =>
      cases h with
      | cons hfirst hrest =>
          obtain ⟨front, back, rfl, rfl, hback⟩ := List.map_eq_append_iff.1 htexts
          obtain ⟨offsets, hoffsets⟩ := ih hrest hback
          cases front with
          | nil => nomatch hfirst
          | cons first others => exact ⟨_, .cons hfirst hoffsets⟩

/-- When nothing is left open, the tokens read are the terms at the outermost level. -/
theorem beginAt_iff {tokens : List Token} {offsets : List Nat} :
    BeginAt tokens offsets ↔
      ∃ read, start.run tokens = .ok ⟨[], read⟩ ∧ (read.map Term.offset).reverse = offsets := by
  constructor
  · intro h
    obtain ⟨read, hread, hrun⟩ := run_of_beginAt h start
    exact ⟨read, by simpa [start] using hrun, hread⟩
  · rintro ⟨read, hrun, rfl⟩
    obtain ⟨before, here, htexts, hopened, hterms⟩ := holds_start.run hrun
    cases hopened
    obtain ⟨offsets, hbegin⟩ := exists_beginAt hterms htexts
    obtain ⟨again, hagain, hrun'⟩ := run_of_beginAt hbegin start
    have hsame := Except.ok.inj (hrun.symm.trans hrun')
    obtain rfl : read = again := by simpa [start] using hsame
    rwa [hagain]

theorem scan_of_beginAt {tokens : List Token} {offsets : List Nat} (h : BeginAt tokens offsets) :
    Frame.scan [] tokens = some [] := by
  obtain ⟨read, hrun, _⟩ := beginAt_iff.1 h
  exact scan_eq_some_iff.2 ⟨_, hrun, rfl⟩

/-! ## What is noticed at the end -/

/-- What is left open is noticed before the number of terms is. -/
theorem finish_eq_unterminated_iff {reading : Reading} {operator : Operator} {offset : Nat} :
    reading.finish = .error (.unterminated operator offset) ↔
      ∃ filled outer, reading.frames = ⟨operator, offset, filled⟩ :: outer := by
  obtain ⟨groups, terms⟩ := reading
  cases groups with
  | nil =>
      simp only [frames, framesOf, finish, Query.ofTerms]
      split <;> simp
  | cons group outer => simp [frames, framesOf, finish, Classical.em]

/-- What is noticed at the end is no fault of a single token. -/
theorem finish_ne_blame (reading : Reading) (stack : List Frame) (token : Token) :
    reading.finish ≠ .error (Frame.blame stack token) := by
  unfold finish Query.ofTerms
  split
  · cases stack <;> simp [Frame.blame]
  · split <;> cases stack <;> simp [Frame.blame]

theorem groups_of_finish {reading : Reading} {e : QueryError} (h : reading.finish = .error e)
    (he : ∀ operator offset, e ≠ .unterminated operator offset) : reading.groups = [] := by
  unfold finish at h
  split at h
  · cases h
    exact absurd rfl (he _ _)
  · assumption

theorem finish_eq_empty_iff {terms : List Term} :
    (⟨[], terms⟩ : Reading).finish = .error .empty ↔ terms = [] := by
  simp only [finish, Query.ofTerms]
  split
  next hterms => simpa using hterms
  next hterms => simp [List.reverse_eq_iff.1 hterms]
  next hterms => simp [List.reverse_eq_iff.1 hterms]

theorem finish_eq_multipleTerms_iff {terms : List Term} {count offset : Nat} :
    (⟨[], terms⟩ : Reading).finish = .error (.multipleTerms count offset) ↔
      ∃ first others, (terms.map Term.offset).reverse = first :: offset :: others ∧
        count = others.length + 2 := by
  simp only [finish, Query.ofTerms, ← List.map_reverse]
  split
  next hterms => simp [hterms]
  next hterms => simp [hterms]
  next first second rest hterms =>
    simp only [hterms, List.map_cons, List.cons.injEq]
    constructor
    · intro h
      cases h
      exact ⟨_, _, ⟨rfl, rfl, rfl⟩, by simp⟩
    · rintro ⟨_, _, ⟨_, rfl, rfl⟩, rfl⟩
      simp

theorem exists_finish_eq_ok_iff {terms : List Term} :
    (∃ query, (⟨[], terms⟩ : Reading).finish = .ok query) ↔
      ∃ offset, (terms.map Term.offset).reverse = [offset] := by
  simp only [finish, Query.ofTerms, ← List.map_reverse]
  split
  next hterms => simp [hterms]
  next hterms => simp [hterms]
  next hterms => simp [hterms]

end Reading

namespace Query

theorem ofTokens_eq_error_iff {tokens : List Token} {e : QueryError} :
    ofTokens tokens = .error e ↔
      (∃ stack token, Frame.FirstOffence tokens stack token ∧ Frame.blame stack token = e) ∨
      ∃ reading, Reading.start.run tokens = .ok reading ∧ reading.finish = .error e := by
  rw [← Reading.run_start_eq_error_iff, ofTokens_eq_conclude, Reading.conclude]
  cases Reading.start.run tokens with
  | error e' => simp
  | ok reading => simp

/-- The error of the first token that does not fit is that of the query. -/
theorem ofTokens_eq_blame_iff {tokens : List Token} {stack : List Frame} {token : Token} :
    ofTokens tokens = .error (Frame.blame stack token) ↔
      ∃ stack' token', Frame.FirstOffence tokens stack' token' ∧
        Frame.blame stack' token' = Frame.blame stack token := by
  rw [ofTokens_eq_error_iff]
  simp [Reading.finish_ne_blame]

/-- An error that no token has is one of the end. -/
theorem ofTokens_eq_finish_iff {tokens : List Token} {e : QueryError}
    (he : ∀ stack token, Frame.blame stack token ≠ e) :
    ofTokens tokens = .error e ↔
      ∃ reading, Reading.start.run tokens = .ok reading ∧ reading.finish = .error e := by
  rw [ofTokens_eq_error_iff]
  simp [he]

theorem ofTokens_eq_unexpectedCloser_iff {tokens : List Token} {offset : Nat} :
    ofTokens tokens = .error (.unexpectedCloser offset) ↔
      ∃ token, Frame.FirstOffence tokens [] token ∧ token.text = closer ∧
        token.offset = offset := by
  have hblame : QueryError.unexpectedCloser offset = Frame.blame [] ⟨closer, offset⟩ := rfl
  rw [hblame, ofTokens_eq_blame_iff]
  constructor
  · rintro ⟨stack, token, hfirst, hsame⟩
    cases stack with
    | nil =>
        obtain ⟨hcloser, _⟩ := Frame.step_eq_none_iff.1 hfirst.step_eq_none
        exact ⟨token, hfirst, hcloser, by simpa [Frame.blame] using hsame⟩
    | cons frame outer => simp [Frame.blame] at hsame
  · rintro ⟨token, hfirst, _, rfl⟩
    exact ⟨[], token, hfirst, rfl⟩

theorem ofTokens_eq_emptyGroup_iff {tokens : List Token} {operator : Operator} {offset : Nat} :
    ofTokens tokens = .error (.emptyGroup operator offset) ↔
      ∃ token outer, Frame.FirstOffence tokens (⟨operator, offset, false⟩ :: outer) token ∧
        token.text = closer := by
  have hblame : QueryError.emptyGroup operator offset =
      Frame.blame [⟨operator, offset, false⟩] ⟨closer, offset⟩ := rfl
  rw [hblame, ofTokens_eq_blame_iff]
  constructor
  · rintro ⟨stack, token, hfirst, hsame⟩
    cases stack with
    | nil => simp [Frame.blame] at hsame
    | cons frame outer =>
        obtain ⟨operator', offset', filled⟩ := frame
        obtain ⟨rfl, rfl⟩ : operator' = operator ∧ offset' = offset := by
          simpa [Frame.blame] using hsame
        obtain ⟨hcloser, hstack⟩ := Frame.step_eq_none_iff.1 hfirst.step_eq_none
        obtain rfl : filled = false := by simpa using hstack
        exact ⟨token, outer, hfirst, hcloser⟩
  · rintro ⟨token, outer, hfirst, _⟩
    exact ⟨_, token, hfirst, rfl⟩

theorem ofTokens_eq_unterminated_iff {tokens : List Token} {operator : Operator} {offset : Nat} :
    ofTokens tokens = .error (.unterminated operator offset) ↔
      ∃ filled outer, Frame.scan [] tokens = some (⟨operator, offset, filled⟩ :: outer) := by
  rw [ofTokens_eq_finish_iff (by rintro (_ | _) token <;> simp [Frame.blame])]
  simp only [Reading.finish_eq_unterminated_iff, Reading.scan_eq_some_iff]
  constructor
  · rintro ⟨reading, hrun, filled, outer, hframes⟩
    exact ⟨filled, outer, reading, hrun, hframes⟩
  · rintro ⟨filled, outer, reading, hrun, hframes⟩
    exact ⟨reading, hrun, filled, outer, hframes⟩

theorem ofTokens_eq_empty_iff {tokens : List Token} :
    ofTokens tokens = .error .empty ↔ tokens = [] := by
  constructor
  · intro h
    rw [ofTokens_eq_finish_iff (by rintro (_ | _) token <;> simp [Frame.blame])] at h
    obtain ⟨⟨groups, terms⟩, hrun, hfinish⟩ := h
    obtain rfl : groups = [] := Reading.groups_of_finish hfinish (by simp)
    obtain rfl := Reading.finish_eq_empty_iff.1 hfinish
    cases Reading.beginAt_iff.2 ⟨[], hrun, rfl⟩
    rfl
  · rintro rfl
    rw [ofTokens, readTerms]
    rfl

theorem ofTokens_eq_multipleTerms_iff {tokens : List Token} {count offset : Nat} :
    ofTokens tokens = .error (.multipleTerms count offset) ↔
      ∃ first others, BeginAt tokens (first :: offset :: others) ∧ count = others.length + 2 := by
  rw [ofTokens_eq_finish_iff (by rintro (_ | _) token <;> simp [Frame.blame])]
  constructor
  · rintro ⟨⟨groups, terms⟩, hrun, hfinish⟩
    obtain rfl : groups = [] := Reading.groups_of_finish hfinish (by simp)
    obtain ⟨first, others, hoffsets, hcount⟩ := Reading.finish_eq_multipleTerms_iff.1 hfinish
    exact ⟨first, others, Reading.beginAt_iff.2 ⟨terms, hrun, hoffsets⟩, hcount⟩
  · rintro ⟨first, others, hbegin, hcount⟩
    obtain ⟨terms, hrun, hoffsets⟩ := Reading.beginAt_iff.1 hbegin
    exact ⟨_, hrun, Reading.finish_eq_multipleTerms_iff.2 ⟨first, others, hoffsets, hcount⟩⟩

theorem exists_ofTokens_eq_ok_iff {tokens : List Token} :
    (∃ query, ofTokens tokens = .ok query) ↔ ∃ offset, BeginAt tokens [offset] := by
  constructor
  · rintro ⟨query, h⟩
    rw [ofTokens_eq_conclude, Reading.conclude] at h
    split at h
    · contradiction
    next reading hrun =>
      obtain ⟨groups, terms⟩ := reading
      obtain ⟨rfl, _⟩ := Reading.finish_eq_ok_iff.1 h
      obtain ⟨offset, hoffset⟩ := Reading.exists_finish_eq_ok_iff.1 ⟨query, h⟩
      exact ⟨offset, Reading.beginAt_iff.2 ⟨terms, hrun, hoffset⟩⟩
  · rintro ⟨offset, hbegin⟩
    obtain ⟨terms, hrun, hoffsets⟩ := Reading.beginAt_iff.1 hbegin
    obtain ⟨query, hfinish⟩ := Reading.exists_finish_eq_ok_iff.2 ⟨offset, hoffsets⟩
    exact ⟨query, by rw [ofTokens_eq_conclude, Reading.conclude, hrun]; exact hfinish⟩

theorem ofTokens_ne_unclosedQuote (tokens : List Token) (offset : Nat) :
    ofTokens tokens ≠ .error (.unclosedQuote offset) := by
  intro h
  rw [ofTokens_eq_finish_iff (by rintro (_ | _) token <;> simp [Frame.blame])] at h
  obtain ⟨reading, _, hfinish⟩ := h
  unfold Reading.finish ofTerms at hfinish
  split at hfinish
  · cases hfinish
  · split at hfinish <;> cases hfinish

/-- Reading tokens fails at the first that does not fit into the open groups: a closing
word where nothing is open, or where the innermost group has no term. If all fit, it
fails for the innermost group that is left open, and then for a number of terms other
than one. It does not fail otherwise. -/
theorem parse_fails_at_first_offence {text : String} {tokens : List Token}
    (htokens : Token.tokenize text = .ok tokens) :
    (∀ offset, parse text = .error (.unexpectedCloser offset) ↔
      ∃ token, Frame.FirstOffence tokens [] token ∧ token.text = closer ∧
        token.offset = offset) ∧
    (∀ operator offset, parse text = .error (.emptyGroup operator offset) ↔
      ∃ token outer, Frame.FirstOffence tokens (⟨operator, offset, false⟩ :: outer) token ∧
        token.text = closer) ∧
    (∀ operator offset, parse text = .error (.unterminated operator offset) ↔
      ∃ filled outer, Frame.scan [] tokens = some (⟨operator, offset, filled⟩ :: outer)) ∧
    (parse text = .error .empty ↔ tokens = []) ∧
    (∀ count offset, parse text = .error (.multipleTerms count offset) ↔
      Frame.scan [] tokens = some [] ∧
        ∃ first others, BeginAt tokens (first :: offset :: others) ∧
          count = others.length + 2) ∧
    (∀ offset, parse text ≠ .error (.unclosedQuote offset)) ∧
    ((∃ query, parse text = .ok query) ↔
      Frame.scan [] tokens = some [] ∧ ∃ offset, BeginAt tokens [offset]) := by
  have hparse : parse text = ofTokens tokens := by
    rw [parse, htokens]
  simp only [hparse]
  refine ⟨fun _ => ofTokens_eq_unexpectedCloser_iff, fun _ _ => ofTokens_eq_emptyGroup_iff,
    fun _ _ => ofTokens_eq_unterminated_iff, ofTokens_eq_empty_iff, ?_,
    ofTokens_ne_unclosedQuote tokens, ?_⟩
  · intro count offset
    rw [ofTokens_eq_multipleTerms_iff]
    constructor
    · rintro ⟨first, others, hbegin, hcount⟩
      exact ⟨Reading.scan_of_beginAt hbegin, first, others, hbegin, hcount⟩
    · exact fun h => h.2
  · rw [exists_ofTokens_eq_ok_iff]
    constructor
    · rintro ⟨offset, hbegin⟩
      exact ⟨Reading.scan_of_beginAt hbegin, offset, hbegin⟩
    · exact fun h => h.2

/-- The empty group counts, and not the closing word after it that closes nothing. -/
theorem parse_fails_at_empty_group :
    Token.tokenize "AND 'é ' OR ) ) )" =
      .ok [⟨"AND", 0⟩, ⟨"é ", 4⟩, ⟨"OR", 10⟩, ⟨")", 13⟩, ⟨")", 15⟩, ⟨")", 17⟩] ∧
    parse "AND 'é ' OR ) ) )" = .error (.emptyGroup .any 10) := by
  have htokens : Token.tokenize "AND 'é ' OR ) ) )" =
      .ok [⟨"AND", 0⟩, ⟨"é ", 4⟩, ⟨"OR", 10⟩, ⟨")", 13⟩, ⟨")", 15⟩, ⟨")", 17⟩] := by
    rfl
  refine ⟨htokens, ((parse_fails_at_first_offence htokens).2.1 .any 10).2 ?_⟩
  exact ⟨⟨")", 13⟩, [⟨.all, 0, true⟩],
    ⟨[⟨"AND", 0⟩, ⟨"é ", 4⟩, ⟨"OR", 10⟩], [⟨")", 15⟩, ⟨")", 17⟩], rfl, by decide, by decide⟩, rfl⟩

end Query

end LinkTags
