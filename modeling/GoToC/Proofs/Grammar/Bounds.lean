import GoToC.Proofs.Grammar.Progress
import GoToC.Proofs.Token.LongestMatch

/-!
# Reading in bounds

Whatever the text, reading it comes to an end, and the cursor stays in the token list: it only
moves forward, no rule takes it past an error or the end of the file, and a loop that goes on
has moved it. A text that is read was read to its end.
-/

namespace GoToC

variable {α : Type} {c : Cursor} {source : String} {file : SourceFile}

open Grammar

namespace Cursor

/-- A cursor stands in a token list: the current token is the one at its position, and the one
before that was read last. -/
structure Within (tokens : List Token) (c : Cursor) : Prop where
  ahead : tokens.drop c.position = c.current :: c.rest
  behind : c.previous = ((tokens.take c.position).getLast?.map Token.span).getD Span.nowhere

/-- Whatever a cursor is asked for is in the token list, or known to lie past its end. -/
structure InBounds (tokens : List Token) (c : Cursor) : Prop where
  position_lt : c.position < tokens.length
  current : tokens[c.position]? = some c.current
  previous : 0 < c.position → ∃ token, tokens[c.position - 1]? = some token ∧
    token.span = c.previous
  peek : ∀ n, c.peek n = (tokens[c.position + n]?.map Token.kind).getD .eof

variable {tokens read : List Token} {c c' : Cursor}

namespace Within

theorem inBounds (h : c.Within tokens) : c.InBounds tokens where
  position_lt := by
    have hLength := congrArg List.length h.ahead
    simp only [List.length_drop, List.length_cons] at hLength
    omega
  current := by
    have hHead := congrArg List.head? h.ahead
    rwa [List.head?_drop, List.head?_cons] at hHead
  previous := by
    intro hPosition
    have hLength := congrArg List.length h.ahead
    simp only [List.length_drop, List.length_cons] at hLength
    have hLess : c.position - 1 < tokens.length := by omega
    refine ⟨tokens[c.position - 1], List.getElem?_eq_getElem hLess, ?_⟩
    rw [h.behind, List.getLast?_take, if_neg (by omega), List.getElem?_eq_getElem hLess]
    rfl
  peek := by
    intro n
    unfold Cursor.peek
    rw [← h.ahead, List.getElem?_drop]
    cases tokens[c.position + n]? <;> rfl

/-- Passing tokens keeps a cursor in the list. -/
theorem passes (h : c.Within tokens) (hRead : c.Passes read c') : c'.Within tokens where
  ahead := by
    rw [hRead.position, ← List.drop_drop, h.ahead, hRead.tokens, List.drop_left]
  behind := by
    rw [hRead.position, List.take_add, h.ahead, hRead.tokens, List.take_left, List.getLast?_append,
      hRead.previous, h.behind]
    cases read.getLast? <;> simp

/-- Going to the next token keeps a cursor in the list, whatever the token was. -/
theorem next (h : c.Within tokens) : c.next.Within tokens ∧ c.position ≤ c.next.position := by
  unfold Cursor.next
  split
  · exact ⟨h, Nat.le_refl _⟩
  · split
    · exact ⟨h, Nat.le_refl _⟩
    · next token rest hRest =>
        refine ⟨⟨?_, ?_⟩, Nat.le_succ _⟩
        · rw [← List.drop_drop, h.ahead, hRest]
          rfl
        · rw [List.take_add, h.ahead, List.take_one, List.head?_cons, Option.toList_some,
            List.getLast?_concat]
          rfl

/-- A token list that ends with the end of the file ends so wherever a cursor stands in it. -/
theorem ends (h : c.Within tokens) {init : List Token} {last : Token}
    (hTokens : tokens = init ++ [last]) (hLast : last.kind = .eof) : c.Ends := by
  have hLess := h.inBounds.position_lt
  rw [hTokens, List.length_append, List.length_singleton] at hLess
  refine ⟨init.drop c.position, last, ?_, hLast⟩
  rw [← h.ahead, hTokens, List.drop_append_of_le_length (by omega)]

/-- A parser that starts in a token list stays in it, and passes a token where it must. -/
theorem advances {must : α → Prop} {parser : Parser α} (h : c.Within tokens) (hc : c.Ends)
    (hParser : Advances must c parser) {count : Nat} {value : α} {after : State}
    (hRun : parser ⟨c, count⟩ = .ok (value, after)) :
    ∃ read, c.Passes read after.cursor ∧ after.cursor.Within tokens ∧ (must value → read ≠ []) := by
  obtain ⟨read, hRead, hMust⟩ := hParser hc count value after hRun
  exact ⟨read, hRead, h.passes hRead, hMust⟩

end Within

theorem ofTokens_tokens (hTokens : tokens ≠ []) :
    (ofTokens tokens).current :: (ofTokens tokens).rest = tokens := by
  cases tokens with
  | nil => exact absurd rfl hTokens
  | cons token rest => rfl

theorem ofTokens_within (hTokens : tokens ≠ []) : (ofTokens tokens).Within tokens := by
  cases tokens with
  | nil => exact absurd rfl hTokens
  | cons token rest => exact ⟨rfl, rfl⟩

/-- Skipping goes on from the next token, one place further, or stops where it is. -/
theorem skipWhile_step {skip : TokenKind → Bool} (hc : c.Ends)
    (hSkip : ∀ kind, skip kind = true → kind.isReadable = true) :
    if skip c.kind then
      c.skipWhile skip = c.next.skipWhile skip ∧ c.next.position = c.position + 1
    else c.skipWhile skip = c := by
  by_cases hKind : skip c.kind = true
  · have hReadable := hSkip _ hKind
    rw [if_pos hKind]
    exact ⟨skipWhile_of_eq_true hKind (hc.rest_ne_nil hReadable)
      (TokenKind.ne_eof_of_isReadable hReadable), (Passes.next hc hReadable).position⟩
  · rw [if_neg hKind]
    exact skipWhile_of_eq_false (Bool.eq_false_iff.mpr hKind)

end Cursor

/-- The end of the file is the last token of a text and no other. -/
theorem lex_ends (source : String) : ∃ init last, lex source = init ++ [last] ∧
    last.kind = .eof ∧ ∀ token ∈ init, token.kind ≠ .eof := by
  obtain ⟨init, hTokens, hInit⟩ := (tokensFrom_tokenises 0 source.toList).ends
  exact ⟨init, _, hTokens, rfl, hInit⟩

theorem lex_ne_nil (source : String) : lex source ≠ [] := by
  obtain ⟨init, last, hTokens, -⟩ := lex_ends source
  simp [hTokens]

/-- Reading a text comes to an end within the steps that it may take. -/
theorem parse_ne_exhausted (source : String) : parse source ≠ .error .exhausted := by
  intro hExhausted
  have hOutcome : ParseOutcome (fun _ => True) (parse source) := parse_outcome (by simp)
  rw [hExhausted] at hOutcome
  exact hOutcome

/-- Reading a text never runs out of steps, and never asks for a token that is not there: the
cursor starts in the token list and every move and every rule keeps it there. A rule that
succeeds has moved it forward over tokens none of which is the end of the file, and the rules
for expressions, types, statements and entries of parameter lists, like all that may not be
empty, have moved it by at least one. Each loop is a round followed by the loop, and a round
that goes on has moved the cursor. -/
theorem parse_in_bounds (source : String) : parse source ≠ .error .exhausted ∧
    (Cursor.ofTokens (lex source)).Within (lex source) ∧
    ∀ c : Cursor, c.Within (lex source) → c.InBounds (lex source) ∧
      (c.next.Within (lex source) ∧ c.position ≤ c.next.position ∧ (c.kind = .eof → c.next = c)) ∧
      (∀ skip : TokenKind → Bool, (∀ kind, skip kind = true → kind.isReadable = true) →
        (c.skipWhile skip).Within (lex source) ∧
        if skip c.kind then
          c.skipWhile skip = c.next.skipWhile skip ∧ c.next.position = c.position + 1
        else c.skipWhile skip = c) ∧
      (∀ {α : Type} (rule : Rule α) fuel count value after,
        rule.parser fuel ⟨c, count⟩ = .ok (value, after) →
        ∃ read, c.Passes read after.cursor ∧ after.cursor.Within (lex source) ∧
          (¬ rule.MayBeEmpty → read ≠ [])) ∧
      ∀ {σ α : Type} (loop : Loop σ α) fuel start,
        loop.run (fuel + 1) start = loop.round fuel start >>= Round.finish (loop.run fuel) ∧
        ∀ count outcome after, loop.round fuel start ⟨c, count⟩ = .ok (outcome, after) →
          ∃ read, c.Passes read after.cursor ∧ after.cursor.Within (lex source) ∧
            (outcome.GoesOn → read ≠ []) := by
  obtain ⟨init, last, hTokens, hLast, -⟩ := lex_ends source
  refine ⟨parse_ne_exhausted source, Cursor.ofTokens_within (lex_ne_nil source), ?_⟩
  intro c hWithin
  have hc := hWithin.ends hTokens hLast
  have hStays : c.kind = .eof → c.next = c := fun hEnd => if_pos (beq_iff_eq.mpr hEnd)
  refine ⟨hWithin.inBounds, ⟨hWithin.next.1, hWithin.next.2, hStays⟩, ?_, ?_, ?_⟩
  · intro skip hSkip
    obtain ⟨read, hRead, -⟩ := Cursor.Passes.skipWhile hc hSkip
    exact ⟨hWithin.passes hRead, Cursor.skipWhile_step hc hSkip⟩
  · intro α rule fuel count value after hRun
    exact hWithin.advances hc (rule.parser_advances fuel) hRun
  · intro σ α loop fuel start
    refine ⟨loop.run_succ fuel start, fun count outcome after hRun => ?_⟩
    exact hWithin.advances hc (loop.round_advances fuel start) hRun

/-! ## Texts that are read -/

namespace Grammar

theorem Gives.cursor_bind {bad : Failure → Prop} {next : Cursor → Parser α}
    {good : α → Cursor → Prop} (h : Gives bad c (next c) good) :
    Gives bad c (cursor >>= next) good := h

theorem Gives.any {parser : Parser α} : Gives (fun _ => True) c parser fun _ _ => True := by
  intro count
  split <;> trivial

/-- The round that leaves the declarations of a file is at its end. -/
theorem declsRound_atEnd (fuel : Nat) (file : SourceFile) (c : Cursor) :
    Gives (fun _ => True) c (declsRound fuel file) fun outcome c' =>
      outcome.GoesOn ∨ c'.kind = .eof := by
  apply Gives.skipTerminators_bind
  apply Gives.cursor_bind
  split
  · next hEnd => exact .pure (.inr (beq_iff_eq.mp hEnd))
  · apply Gives.any.bind
    intro file' c1 _
    apply Gives.any.bind
    intro _ c2 _
    apply Gives.checkSign_bind
    split
    · exact Gives.any.bind fun _ _ _ => .pure (.inl trivial)
    · exact .pure (.inl trivial)

/-- Declarations are read up to the end of the file. -/
theorem parseDecls_atEnd (fuel : Nat) (file : SourceFile) (c : Cursor) :
    Gives (fun _ => True) c (parseDecls fuel file) fun _ c' => c'.kind = .eof := by
  induction fuel generalizing file c with
  | zero => exact .throw trivial
  | succ fuel ih =>
      rw [parseDecls_eq]
      apply (declsRound_atEnd fuel file c).bind
      intro outcome c1 hOutcome
      cases outcome with
      | leave result => exact .pure (hOutcome.resolve_left id)
      | again start complete => exact .map (ih start c1)

end Grammar

/-- Where the tokens of a text are passed up to an end of the file, all but the last are passed. -/
theorem Cursor.Passes.eq_of_eof {read : List Token}
    (h : (Cursor.ofTokens (lex source)).Passes read c) (hEnd : c.kind = .eof) :
    lex source = read ++ [c.current] := by
  obtain ⟨init, last, hTokens, hLast, hInit⟩ := lex_ends source
  have hSplit : read ++ c.current :: c.rest = init ++ [last] := by
    rw [← h.tokens, ofTokens_tokens (lex_ne_nil source), hTokens]
  have hRest : c.rest = [] := by
    rcases List.append_eq_append_iff.mp hSplit with ⟨between, rfl, hLater⟩ | ⟨between, -, hLater⟩
    · cases between with
      | nil => exact (List.cons.inj hLater).2
      | cons token others =>
          have hSame : c.current = token := (List.cons.inj hLater).1
          exact absurd (hSame ▸ hEnd) (hInit token (by simp))
    · have hLength := congrArg List.length hLater
      simp only [List.length_append, List.length_cons, List.length_nil] at hLength
      exact List.length_eq_zero_iff.mp (by omega)
  rw [hTokens, ← hSplit, hRest]

/-- A text that is read holds no error, and all its tokens but the last were passed. -/
theorem parse_reads_all (h : parse source = .ok file) : ∃ decls after read,
      parseDecls (fuelFor (lex source)) SourceFile.empty ⟨Cursor.ofTokens (lex source), 0⟩ =
        .ok (decls, after) ∧
      file = { decls with exprCount := after.exprCount } ∧
      (Cursor.ofTokens (lex source)).Passes read after.cursor ∧ after.cursor.kind = .eof ∧
      lex source = read ++ [after.cursor.current] := by
  obtain ⟨init, last, hTokens, hLast, -⟩ := lex_ends source
  have hc := (Cursor.ofTokens_within (lex_ne_nil source)).ends hTokens hLast
  unfold parse parseTokens at h
  split at h
  · next decls after hRun =>
      obtain ⟨read, hRead, -⟩ := parseDecls_advances _ _ _ hc 0 decls after hRun
      have hEnd := parseDecls_atEnd (fuelFor (lex source)) SourceFile.empty
        (Cursor.ofTokens (lex source)) 0
      replace hRun : parseDecls (fuelFor (lex source)) SourceFile.empty
        ⟨Cursor.ofTokens (lex source), 0⟩ = .ok (decls, after) := hRun
      rw [hRun] at hEnd
      exact ⟨decls, after, read, hRun, (Except.ok.inj h).symm, hRead, hEnd, hRead.eq_of_eof hEnd⟩
  · cases h

/-- A text that is read holds no error. -/
theorem no_error_of_parse (h : parse source = .ok file) {token : Token}
    (hToken : token ∈ lex source) (cause : LexError) : token.kind ≠ .error cause := by
  obtain ⟨decls, after, read, -, -, hRead, hEnd, hTokens⟩ := parse_reads_all h
  intro hKind
  rw [hTokens] at hToken
  rcases List.mem_append.mp hToken with hToken | hToken
  · have hReadable := hRead.readable token hToken
    rw [hKind] at hReadable
    cases hReadable
  · rw [List.mem_singleton.mp hToken] at hKind
    cases hEnd.symm.trans hKind

end GoToC

/-!
## Tokens that are taken

A judgement on parsers that succeed: it tells the result together with the tokens that were passed
for it and the cursor behind them.
-/

namespace GoToC

variable {wanted : TokenKind}

/-- A token that stands between declarations or statements. -/
def TokenKind.isSeparator : TokenKind → Bool
  | .newline | .punct .semicolon => true
  | _ => false

namespace Grammar

variable {α β : Type} {c : Cursor}

/-- From a cursor on, a parser that succeeds has passed tokens, and of its result, of these tokens
and of the cursor behind them something is promised. -/
def Takes (c : Cursor) (parser : Parser α) (good : α → List Token → Cursor → Prop) : Prop :=
  c.Ends → ∀ count value after, parser ⟨c, count⟩ = .ok (value, after) →
    ∃ read, c.Passes read after.cursor ∧ good value read after.cursor

namespace Takes

variable {parser : Parser α} {good : α → List Token → Cursor → Prop}
  {good' : β → List Token → Cursor → Prop}

theorem pure {value : α} (h : good value [] c) : Takes c (pure value) good := by
  intro _ count found after hRun
  cases hRun
  exact ⟨[], .refl c, h⟩

theorem throw {failure : Failure} : Takes c (throw failure : Parser α) good := by
  intro _ count found after hRun
  cases hRun

theorem exhausted : Takes c (exhausted : Parser α) good := throw

theorem unexpected {wanted : ParseError.Wanted} : Takes c (unexpected wanted : Parser α) good := by
  intro _ count found after hRun
  cases hRun

theorem bind {next : α → Parser β} (h : Takes c parser good)
    (hNext : ∀ value read c', good value read c' →
      Takes c' (next value) fun result more c'' => good' result (read ++ more) c'') :
    Takes c (parser >>= next) good' := by
  intro hc count result after hRun
  replace hRun : (parser ⟨c, count⟩ >>= fun found => next found.1 found.2) =
    .ok (result, after) := hRun
  cases hFirst : parser ⟨c, count⟩ with
  | error failure =>
      rw [hFirst] at hRun
      cases hRun
  | ok found =>
      rw [hFirst] at hRun
      obtain ⟨read, hRead, hGood⟩ := h hc count found.1 found.2 hFirst
      obtain ⟨more, hMore, hGood'⟩ := hNext found.1 read found.2.cursor hGood (hRead.ends hc)
        found.2.exprCount result after hRun
      exact ⟨read ++ more, hRead.trans hMore, hGood'⟩

theorem mono {better : α → List Token → Cursor → Prop} (h : Takes c parser better)
    (imp : ∀ value read c', c.Passes read c' → better value read c' → good value read c') :
    Takes c parser good := by
  intro hc count value after hRun
  obtain ⟨read, hRead, hBetter⟩ := h hc count value after hRun
  exact ⟨read, hRead, imp _ _ _ hRead hBetter⟩

theorem of_advances {must : α → Prop} (h : Advances must c parser) :
    Takes c parser fun value read _ => must value → read ≠ [] := h

/-- What is known of the result and of the cursor behind it is known beside the tokens. -/
theorem and_gives {known : α → Cursor → Prop} (h : Takes c parser good)
    (hKnown : Gives (fun _ => True) c parser known) :
    Takes c parser fun value read c' => good value read c' ∧ known value c' := by
  intro hc count value after hRun
  obtain ⟨read, hRead, hGood⟩ := h hc count value after hRun
  have hGives := hKnown count
  rw [hRun] at hGives
  exact ⟨read, hRead, hGood, hGives⟩

/-- What a parser reads where the words ahead are of some kind is known beside the tokens. -/
theorem and_reads {enough : Prop} {known : (String → Prop) → α → Cursor → Prop}
    (h : Takes c parser good) (hReads : ∀ word, Reads enough word c parser (known word)) :
    Takes c parser fun value read c' =>
      good value read c' ∧ ∀ word, c.Sound word → known word value c' := by
  intro hc count value after hRun
  obtain ⟨read, hRead, hGood⟩ := h hc count value after hRun
  refine ⟨read, hRead, hGood, fun word hSound => ?_⟩
  have hKnown := hReads word hSound count
  rw [hRun] at hKnown
  exact hKnown.2

theorem within (context : String) (h : Takes c parser good) :
    Takes c (within context parser) good := by
  intro hc count value after hRun
  apply h hc count value after
  unfold Grammar.within at hRun
  split at hRun
  · cases hRun
  · exact hRun

/-- A check that ends reading or lets it go on. -/
theorem stopIf {check : Bool} {stop : ParseError.Wanted} (h : check = false → Takes c parser good) :
    Takes c (do
      if check then Grammar.unexpected stop
      parser) good := by
  cases check with
  | true =>
      intro _ count found after hRun
      cases hRun
  | false => exact h rfl

/-! ## Looking ahead -/

theorem cursor_bind {next : Cursor → Parser β} (h : Takes c (next c) good') :
    Takes c (cursor >>= next) good' := h

theorem kind_bind {next : TokenKind → Parser β} (h : Takes c (next c.kind) good') :
    Takes c (kind >>= next) good' := h

theorem span_bind {next : Span → Parser β} (h : Takes c (next c.span) good') :
    Takes c (span >>= next) good' := h

theorem check_bind {next : Bool → Parser β} (h : Takes c (next (c.check wanted)) good') :
    Takes c (check wanted >>= next) good' := h

theorem checkSign_bind {sign : Punct} {next : Bool → Parser β}
    (h : Takes c (next (c.check (.punct sign))) good') :
    Takes c (checkSign sign >>= next) good' := h

theorem node {e : Expr} : Takes c (node e) fun found read _ => found = e ∧ read = [] := by
  intro _ count value after hRun
  cases hRun
  exact ⟨[], .refl c, rfl, rfl⟩

/-! ## Reading tokens -/

theorem advance (h : c.kind.isReadable = true) :
    Takes c advance fun token read _ => token = c.current ∧ read = [c.current] := by
  intro hc count value after hRun
  cases hRun
  exact ⟨[c.current], .next hc h, rfl, rfl⟩

/-- The sign was read if it was there, and nothing was read otherwise. -/
theorem eatSign_exact (sign : Punct) : Takes c (Grammar.eatSign sign) fun eaten read _ =>
    (eaten = true ∧ c.kind = .punct sign ∧ read = [c.current]) ∨ (eaten = false ∧ read = []) := by
  intro hc count eaten after hRun
  replace hRun : (.ok ((c.eat (.punct sign)).1, ⟨(c.eat (.punct sign)).2, count⟩) :
    Except Failure (Bool × State)) = .ok (eaten, after) := hRun
  cases hRun
  unfold Cursor.eat
  by_cases hCheck : c.check (.punct sign) = true
  · have hKind : c.kind = .punct sign := beq_iff_eq.mp hCheck
    rw [if_pos hCheck]
    exact ⟨[c.current], .next hc (by rw [hKind]; rfl), .inl ⟨rfl, hKind, rfl⟩⟩
  · rw [if_neg hCheck]
    exact ⟨[], .refl c, .inr ⟨rfl, rfl⟩⟩

theorem eatSign (sign : Punct) : Takes c (Grammar.eatSign sign) fun _ read _ =>
    ∀ token ∈ read, token.kind = .punct sign := by
  refine (eatSign_exact sign).mono fun eaten read c' _ hEaten token hToken => ?_
  rcases hEaten with ⟨-, hKind, rfl⟩ | ⟨-, rfl⟩
  · exact List.mem_singleton.mp hToken ▸ hKind
  · cases hToken

theorem skipNewlines : Takes c skipNewlines fun _ read _ =>
    ∀ token ∈ read, token.kind = .newline := by
  intro hc count value after hRun
  cases hRun
  obtain ⟨read, hRead, hSkipped, -⟩ := Cursor.Passes.skipNewlines hc
  exact ⟨read, hRead, hSkipped⟩

theorem skipTerminators : Takes c skipTerminators fun _ read _ =>
    ∀ token ∈ read, token.kind.isSeparator = true := by
  intro hc count value after hRun
  cases hRun
  obtain ⟨read, hRead, hSkipped, -⟩ := Cursor.Passes.skipTerminators hc
  refine ⟨read, hRead, fun token hToken => ?_⟩
  rcases hSkipped token hToken with hKind | hKind
  · rw [hKind]
    rfl
  · rw [hKind]
    rfl

theorem expect (h : wanted.isReadable = true) : Takes c (expect wanted) fun span read _ =>
      c.kind = wanted ∧ read = [c.current] ∧ span = c.span := by
  apply check_bind
  split
  · next hCheck =>
      have hKind : c.kind = wanted := beq_iff_eq.mp hCheck
      apply (advance (hKind ▸ h)).bind
      rintro token read c' ⟨rfl, rfl⟩
      exact pure ⟨hKind, rfl, rfl⟩
  · exact unexpected

theorem expectSign (sign : Punct) : Takes c (expectSign sign) fun span read _ =>
    c.kind = .punct sign ∧ read = [c.current] ∧ span = c.span := expect rfl

theorem expectWord (word : Keyword) : Takes c (expectWord word) fun span read _ =>
    c.kind = .keyword word ∧ read = [c.current] ∧ span = c.span := expect rfl

theorem expectIdent : Takes c expectIdent fun found read _ =>
    c.kind = .ident found.1 ∧ read = [c.current] := by
  apply kind_bind
  split
  · next name hKind =>
      apply (advance (by rw [hKind]; rfl)).bind
      rintro token read c' ⟨-, rfl⟩
      exact pure ⟨hKind, rfl⟩
  · exact span_bind throw

/-- Nothing is read, but what comes next ends a declaration or closes a block. -/
theorem expectTerminator : Takes c expectTerminator fun _ read c' =>
    read = [] ∧ c' = c ∧ (c.kind = .punct .rbrace ∨ c.kind.isTerminator = true) := by
  apply kind_bind
  split
  · next hKind => exact pure ⟨rfl, rfl, .inl hKind⟩
  · exact span_bind throw
  · split
    · next hKind => exact pure ⟨rfl, rfl, .inr hKind⟩
    · exact span_bind throw

end Takes

end Grammar

end GoToC
