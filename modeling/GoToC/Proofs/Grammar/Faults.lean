import GoToC.Proofs.Grammar.FileSpans

/-!
# Errors at faults of the lexer

An error that stands at a fault of the lexer tells that fault, whichever rule met it, or it tells
that no identifier was found, where one was wanted.
-/

namespace GoToC

variable {source : String} {cause : ParseError}

/-- Tokens of a text start one behind the other. -/
theorem lex_starts_lt (source : String) :
    (lex source).Pairwise fun a b => a.span.start < b.span.start := by
  obtain ⟨init, last, hTokens, -, hInit⟩ := lex_ends source
  have hOrdered := (lex_tokenisation source).ordered
  have hFilled {token : Token} (hToken : token ∈ init) : token.span.start < token.span.stop :=
    filled_of_mem_lex (hTokens ▸ List.mem_append_left _ hToken) (hInit token hToken)
  rw [hTokens] at hOrdered ⊢
  obtain ⟨hBefore, -, hBehind⟩ := List.pairwise_append.mp hOrdered
  refine List.pairwise_append.mpr ⟨?_, List.pairwise_singleton _ _, fun a ha b hb => ?_⟩
  · exact hBefore.imp_of_mem fun ha _ hStop => Nat.lt_of_lt_of_le (hFilled ha) hStop
  · exact Nat.lt_of_lt_of_le (hFilled ha) (hBehind a ha b hb)

/-- Where tokens start one behind the other, a token is found by where it starts. -/
theorem split_unique {before before' after after' : List Token} {token token' : Token}
    (h : (before ++ token :: after).Pairwise fun a b => a.span.start < b.span.start)
    (hTokens : before ++ token :: after = before' ++ token' :: after')
    (hStart : token.span.start = token'.span.start) : before = before' ∧ token = token' := by
  rcases List.append_eq_append_iff.mp hTokens with ⟨between, rfl, hLater⟩ | ⟨between, rfl, hLater⟩
  · cases between with
    | nil => exact ⟨(List.append_nil before).symm, (List.cons.inj hLater).1⟩
    | cons first rest =>
        obtain ⟨rfl, rfl⟩ := List.cons.inj hLater
        have hApart := (List.pairwise_append.mp h).2.1
        have hLess := (List.pairwise_cons.mp hApart).1 token' (by simp)
        omega
  · cases between with
    | nil => exact ⟨List.append_nil before', (List.cons.inj hLater).1.symm⟩
    | cons first rest =>
        obtain ⟨rfl, rfl⟩ := List.cons.inj hLater
        rw [List.append_assoc] at h
        have hApart := (List.pairwise_append.mp h).2.1
        have hLess := (List.pairwise_cons.mp hApart).1 token (by simp)
        omega

/-- An error of a text stands at one of its tokens. -/
theorem parse_reports (h : parse source = .error (.error cause)) : cause.At (lex source) := by
  have hTravels := parse_travels source
  rw [h] at hTravels
  exact hTravels.told

/-- A text that fails at a fault of the lexer is reported with the code and the message of that
fault, whichever rule met it, unless it was the rule for identifiers: that one reports a missing
identifier. It does so for sure behind a token that wants a name, and elsewhere at most behind a
token that may want one. -/
theorem error_at_fault {source : String} {cause : ParseError} {before after : List Token}
    {token : Token} {fault : LexError} (h : parse source = .error (.error cause))
    (hTokens : lex source = before ++ token :: after) (hKind : token.kind = .error fault)
    (hStart : cause.span.start = token.span.start) :
    cause.span = token.span ∧ ((cause.code = fault.code ∧ cause.message = fault.message ∧
          ∀ last ∈ before.getLast?, last.kind.wantsName = false) ∨
        (cause.code = .expectedIdentifier ∧ cause.message = "expected identifier, found error" ∧
          ∃ last ∈ before.getLast?, last.kind.mayWantName = true)) := by
  have hUnique {before' after' : List Token} {token' : Token}
      (hTokens' : lex source = before' ++ token' :: after')
      (hStart' : cause.span.start = token'.span.start) : before = before' ∧ token = token' :=
    split_unique (hTokens ▸ lex_starts_lt source) (hTokens.symm.trans hTokens')
      (hStart.symm.trans hStart')
  cases parse_reports h with
  | sound hTokens' hSound hStart' =>
      obtain ⟨-, rfl⟩ := hUnique hTokens' hStart'
      rw [hKind] at hSound
      cases hSound
  | fault hTokens' hKind' hSpan hCode hMessage hBefore =>
      obtain ⟨rfl, rfl⟩ := hUnique hTokens' (congrArg Span.start hSpan)
      cases hKind.symm.trans hKind'
      exact ⟨hSpan, .inl ⟨hCode, hMessage, hBefore⟩⟩
  | name hTokens' hKind' hSpan hCode hMessage hBefore =>
      obtain ⟨rfl, rfl⟩ := hUnique hTokens' (congrArg Span.start hSpan)
      exact ⟨hSpan, .inr ⟨hCode, hMessage, hBefore⟩⟩

/-- The error of a text that is refused. -/
def refusal? (source : String) : Option ParseError :=
  match parse source with
  | .error (.error cause) => some cause
  | _ => none

theorem parse_of_refusal? (h : refusal? source = some cause) :
    parse source = .error (.error cause) := by
  unfold refusal? at h
  split at h
  · next hParse => rw [hParse, Option.some.inj h]
  · cases h

/-- A character that starts no token in the place of a type. -/
theorem error_at_fault_type : ∃ cause, parse "var x $\n" = .error (.error cause) ∧
      cause.span = ⟨6, 7⟩ ∧ cause.code = .invalidCharacter ∧
        cause.message = "invalid character" := by
  have hTokens : lex "var x $\n" = [⟨.keyword .var, ⟨0, 3⟩⟩, ⟨.ident "x", ⟨4, 5⟩⟩] ++
      ⟨.error .invalidCharacter, ⟨6, 7⟩⟩ :: [⟨.newline, ⟨7, 8⟩⟩, ⟨.eof, ⟨8, 8⟩⟩] := by
        decide +kernel
  have hStart : (refusal? "var x $\n").map (·.span.start) = some 6 := by decide +kernel
  obtain ⟨cause, hRefused, hStart⟩ := Option.map_eq_some_iff.mp hStart
  have hParse := parse_of_refusal? hRefused
  obtain ⟨hSpan, ⟨hCode, hMessage, -⟩ | ⟨-, -, last, hLast, hMay⟩⟩ :=
    error_at_fault hParse hTokens rfl hStart
  · exact ⟨cause, hParse, hSpan, hCode, hMessage⟩
  · cases hLast
    cases hMay

/-- The same character in the place of a name is not reported as what it is. -/
theorem error_at_fault_name : (⟨.error .invalidCharacter, ⟨4, 5⟩⟩ : Token) ∈ lex "var $ int\n" ∧
      ∃ cause, parse "var $ int\n" = .error (.error cause) ∧ cause.span = ⟨4, 5⟩ ∧
        cause.code ≠ LexError.invalidCharacter.code ∧
        cause.message ≠ LexError.invalidCharacter.message ∧
        cause.message = "expected identifier, found error" := by
  have hRefused : refusal? "var $ int\n" = some ⟨.expectedIdentifier,
      "expected identifier, found error", ⟨4, 5⟩, some "var declaration"⟩ := by decide +kernel
  exact ⟨by decide +kernel, _, parse_of_refusal? hRefused, rfl, by decide, by decide, rfl⟩

end GoToC
