import GoToC.Proofs.Token.Patterns

/-!
# Longest matches

A text is read piece by piece, and each piece is the longest one that a pattern matches there.
Where no pattern matches, at least one character becomes an error. So the tokens of a text lie
in order, between them stand only blanks and comments, and no line end is lost.
-/

namespace GoToC

variable {piece rest : List Char} {pattern : Pattern}

open Computability

/-! ## One piece -/

namespace Pattern

variable {pattern other : Pattern} {piece rest text : List Char}

/-- Two patterns that match at the same place agree on the first character. -/
theorem start_eq {longer : List Char} (h : piece ∈ pattern.language) (hPiece : piece <+: text)
    (hOther : longer ∈ other.language) (hLonger : longer <+: text) :
    other.start = pattern.start := by
  have hFirst := start_of_mem h
  have hSecond := start_of_mem hOther
  obtain ⟨_, rfl⟩ := hPiece
  cases piece with
  | nil => simp at hFirst
  | cons c piece =>
      cases longer with
      | nil => simp at hSecond
      | cons d longer =>
          obtain ⟨_, hText⟩ := hLonger
          simp only [List.cons_append, List.cons.injEq] at hText
          simp_all

theorem takes_of_start (hMatched : piece ∈ pattern.language)
    (hLongest : ∀ other : Pattern, other.start = pattern.start → ∀ longer ∈ other.language,
      longer <+: piece ++ rest → longer.length ≤ piece.length)
    (hPreferred : ∀ other : Pattern, other.start = pattern.start → piece ∈ other.language →
      other = pattern ∨ other = .ident ∧ ∃ word, pattern = .keyword word) :
    pattern.Takes piece rest where
  matched := hMatched
  longest other longer hOther hLonger :=
    hLongest other (start_eq hMatched (List.prefix_append _ _) hOther hLonger) longer hOther hLonger
  preferred other hOther :=
    hPreferred other (start_eq hMatched (List.prefix_rfl) hOther (List.prefix_rfl)) hOther

/-- A run of characters of one class, where no other pattern starts. -/
theorem takes_run {first test : Char → Bool} {c : Char}
    (hLanguage : pattern.language = oneOf first * (oneOf test)∗)
    (hAlone : ∀ other : Pattern, other.start = pattern.start → other = pattern)
    (hFirst : ∀ d, first d = true → test d = true) (hc : first c = true) :
    pattern.Takes ((c :: rest).takeWhile test) ((c :: rest).dropWhile test) := by
  have hMember : (c :: rest).takeWhile test ∈ pattern.language := by
    rw [hLanguage, List.takeWhile_cons, if_pos (hFirst c hc), cons_mem_oneOf_mul_kstar]
    exact ⟨hc, fun d hd => List.all_eq_true.mp List.all_takeWhile d hd⟩
  refine takes_of_start hMember ?_ fun other hStart _ => .inl (hAlone other hStart)
  intro other hStart longer hOther hLonger
  rw [List.takeWhile_append_dropWhile] at hLonger
  rw [hAlone other hStart, hLanguage] at hOther
  obtain ⟨_, ⟨d, rfl, hd⟩, others, hOthers, rfl⟩ := hOther
  refine Lexeme.length_le_takeWhile hLonger fun e he => ?_
  rcases List.mem_cons.mp he with rfl | he
  · exact hFirst _ hd
  · exact mem_kstar_oneOf.mp hOthers e he

end Pattern

/-- Keywords are written in letters. -/
theorem Keyword.chars_mem (word : Keyword) : word.chars ∈ Pattern.ident.language := by
  have hChars : ∃ c rest, word.chars = c :: rest ∧ Lexeme.isWordStart c = true ∧
      rest.all Lexeme.isWordPart = true := by
    cases word <;> exact ⟨_, _, rfl, by decide, by decide⟩
  obtain ⟨c, rest, hChars, hStart, hRest⟩ := hChars
  rw [hChars]
  exact cons_mem_oneOf_mul_kstar.mpr ⟨hStart, List.all_eq_true.mp hRest⟩

namespace Lexeme

/-- The pattern that a lexeme with its text is a match of. -/
def pattern? (text : List Char) : Lexeme → Option Pattern
  | blank => some .blank
  | comment => some .comment
  | newline => some .newline
  | int => some .int
  | str => some .str
  | char => some .char
  | word =>
      match Keyword.all.find? (·.chars == text) with
      | some found => some (.keyword found)
      | none => some .ident
  | punct sign => some (.punct sign)
  | invalid => none

/-- A match becomes what its pattern says, and what matches nothing becomes an error. -/
theorem kind?_eq (lexeme : Lexeme) (text : List Char) :
    lexeme.kind? text =
      match lexeme.pattern? text with
      | some pattern => pattern.kind? text
      | none => some (.error .invalidCharacter) := by
  cases lexeme with
  | word =>
      simp only [kind?, wordKind, pattern?]
      cases Keyword.all.find? (·.chars == text) <;> rfl
  | _ => rfl

/-- What is scanned at the front of `piece ++ rest`: a match, or no pattern has one. -/
def Scans (lexeme : Lexeme) (piece rest : List Char) : Prop :=
  match lexeme.pattern? piece with
  | some pattern => pattern.Takes piece rest
  | none => Unmatched (piece ++ rest) ∧ piece ≠ [] ∧ '\n' ∉ piece

variable {c : Char} {rest : List Char}

theorem word_scans (hc : isWordStart c = true) :
    Scans .word ((c :: rest).takeWhile isWordPart) ((c :: rest).dropWhile isWordPart) := by
  have hMember : (c :: rest).takeWhile isWordPart ∈ Pattern.ident.language := by
    rw [List.takeWhile_cons, if_pos (isWordPart_of_isWordStart hc)]
    exact cons_mem_oneOf_mul_kstar.mpr
      ⟨hc, fun d hd => List.all_eq_true.mp List.all_takeWhile d hd⟩
  -- Keywords are written like identifiers, so what is longest among these is longest.
  have hLetters (other : Pattern) (hStart : other.start = .letter) :
      other.language ≤ Pattern.ident.language := by
    intro longer hLonger
    cases other with
    | ident => exact hLonger
    | keyword word =>
        cases hLonger
        exact word.chars_mem
    | _ => simp [Pattern.start] at hStart
  have hLongest (other : Pattern) (hStart : other.start = .letter) (longer : List Char)
      (hOther : longer ∈ other.language) (hLonger : longer <+: c :: rest) :
      longer.length ≤ ((c :: rest).takeWhile isWordPart).length := by
    obtain ⟨_, ⟨d, rfl, hd⟩, others, hOthers, rfl⟩ := hLetters other hStart hOther
    refine length_le_takeWhile hLonger fun e he => ?_
    rcases List.mem_cons.mp he with rfl | he
    · exact isWordPart_of_isWordStart hd
    · exact mem_kstar_oneOf.mp hOthers e he
  simp only [Scans, pattern?]
  cases hFound : Keyword.all.find? (·.chars == (c :: rest).takeWhile isWordPart) with
  | none =>
      refine Pattern.takes_of_start hMember ?_ fun other hStart hOther => ?_
      · rw [List.takeWhile_append_dropWhile]
        exact hLongest
      · cases other with
        | ident => simp
        | keyword word =>
            rw [show (c :: rest).takeWhile isWordPart = word.chars from hOther,
              word.find?_chars] at hFound
            cases hFound
        | _ => simp [Pattern.start] at hStart
  | some word =>
      have hChars : (c :: rest).takeWhile isWordPart = word.chars := by
        have hEq := List.find?_some hFound
        exact (beq_iff_eq.mp hEq).symm
      refine Pattern.takes_of_start hChars ?_ fun other hStart hOther => ?_
      · rw [List.takeWhile_append_dropWhile]
        exact hLongest
      · cases other with
        | ident => exact .inr ⟨rfl, word, rfl⟩
        | keyword other =>
            rw [hChars] at hOther
            rw [Keyword.chars_injective hOther]
            exact .inl rfl
        | _ => simp [Pattern.start] at hStart

/-- A literal is scanned to its closing quote, which is where any literal would end. -/
theorem scanQuoted_cases {quote : Char} (closed : Lexeme) (hQuote : quote ≠ Literal.backslash)
    (rest : List Char) :
    (∃ after, rest = quotedUnits quote rest ++ quote :: after ∧
      scanQuoted quote closed rest = (closed, quote :: (quotedUnits quote rest ++ [quote]))) ∨
    ((∀ body ∈ (quotedUnit quote)∗, ∀ after, rest ≠ body ++ quote :: after) ∧
      scanQuoted quote closed rest = (.invalid, quote :: quotedUnits quote rest)) := by
  obtain ⟨after, hRest⟩ : quotedUnits quote rest <+: rest := quotedUnits_prefix_text rest
  have hDrop : rest.drop (quotedUnits quote rest).length = after := by
    conv_lhs => rw [← hRest]
    exact List.drop_left' (by rw [hRest])
  unfold scanQuoted
  simp only [hDrop]
  by_cases hHead : after.head? = some quote
  · left
    obtain ⟨tail, rfl⟩ : ∃ tail, after = quote :: tail := by
      cases after <;> simp_all
    exact ⟨tail, hRest.symm, by simp⟩
  · right
    refine ⟨fun body hBody tail hTail => hHead ?_, if_neg hHead⟩
    have hUnits : quotedUnits quote rest = body := by
      rw [hTail, quotedUnits_closed hBody hQuote]
    rw [hUnits, hTail] at hRest
    simp [List.append_cancel_left hRest]

theorem quoted_scans {quote : Char} {closed : Lexeme} {pattern : Pattern}
    (hStart : Start.ofChar quote = pattern.start)
    (hAlone : ∀ other : Pattern, other.start = pattern.start → other = pattern)
    (hLanguage : pattern.language = quotedText quote) (hQuote : quote ≠ Literal.backslash)
    (hNewline : quote ≠ '\n') (hClosed : ∀ text, closed.pattern? text = some pattern)
    (rest : List Char) :
    ∃ after, quote :: rest = (scanQuoted quote closed rest).2 ++ after ∧
      (scanQuoted quote closed rest).1.Scans (scanQuoted quote closed rest).2 after := by
  rcases scanQuoted_cases closed hQuote rest with ⟨after, hRest, hScan⟩ | ⟨hOpen, hScan⟩
  · refine ⟨after, by rw [hScan]; simpa using hRest, ?_⟩
    rw [hScan, Scans]
    simp only [hClosed]
    have hMember : quote :: (quotedUnits quote rest ++ [quote]) ∈ pattern.language := by
      rw [hLanguage, mem_quotedText]
      exact ⟨_, quotedUnits_mem rest, rfl⟩
    refine Pattern.takes_of_start hMember ?_ fun other hOther _ => .inl (hAlone other hOther)
    intro other hOther longer hLonger hPrefix
    rw [hAlone other hOther, hLanguage, mem_quotedText] at hLonger
    obtain ⟨body, hBody, rfl⟩ := hLonger
    obtain ⟨tail, hTail⟩ := hPrefix
    have hText : rest = body ++ quote :: tail := by
      rw [hRest]
      simpa using hTail.symm
    rw [hText, quotedUnits_closed hBody hQuote]
  · obtain ⟨after, hRest⟩ : quotedUnits quote rest <+: rest := quotedUnits_prefix_text rest
    refine ⟨after, by rw [hScan]; simpa using hRest.symm, ?_⟩
    rw [hScan]
    simp only [Scans, pattern?, List.cons_append, hRest]
    refine ⟨fun other piece hPiece hPrefix => ?_, by simp, ?_⟩
    · have hOther : other.start = pattern.start := by
        have hFirst := Pattern.start_of_mem hPiece
        obtain ⟨tail, hTail⟩ := hPrefix
        cases piece <;> simp_all
      rw [hAlone other hOther, hLanguage, mem_quotedText] at hPiece
      obtain ⟨body, hBody, rfl⟩ := hPiece
      obtain ⟨tail, hTail⟩ := hPrefix
      exact hOpen body hBody tail (by simpa using hTail.symm)
    · simp [newline_notMem_quotedUnits, hNewline.symm]

theorem newline_scans (rest : List Char) : Scans .newline ['\n'] rest := by
  have hAlone (other : Pattern) (h : other.start = .newline) : other = .newline := by
    cases other <;> simp_all [Pattern.start]
  refine Pattern.takes_of_start rfl ?_ fun other hOther _ => .inl (hAlone other hOther)
  intro other hOther longer hLonger hPrefix
  rw [hAlone other hOther] at hLonger
  rw [show longer = ['\n'] from hLonger]

theorem comment_scans (h : rest.head? = some '/') :
    Scans .comment (('/' :: rest).takeWhile (· != '\n')) (('/' :: rest).dropWhile (· != '\n')) := by
  obtain ⟨rest, rfl⟩ : ∃ tail, rest = '/' :: tail := by
    cases rest <;> simp_all
  have hMember : ('/' :: '/' :: rest).takeWhile (· != '\n') ∈ Pattern.comment.language :=
    ⟨['/', '/'], rfl, rest.takeWhile (· != '\n'),
      mem_kstar_oneOf.mpr fun d hd => List.all_eq_true.mp List.all_takeWhile d hd, by simp⟩
  have hLongest (longer : List Char) (hAll : ∀ d ∈ longer, (d != '\n') = true)
      (hPrefix : longer <+: '/' :: '/' :: rest) :
      longer.length ≤ (('/' :: '/' :: rest).takeWhile (· != '\n')).length :=
    length_le_takeWhile hPrefix hAll
  have hSigns (sign : Punct) : ∀ d ∈ sign.chars, (d != '\n') = true := by
    refine List.all_eq_true.mp ?_
    cases sign <;> decide
  refine Pattern.takes_of_start hMember ?_ fun other hStart hOther => ?_
  · intro other hStart longer hLonger hPrefix
    rw [List.takeWhile_append_dropWhile] at hPrefix
    cases other with
    | comment =>
        obtain ⟨_, rfl, text, hText, rfl⟩ := hLonger
        refine hLongest _ (fun d hd => ?_) hPrefix
        simp only [List.cons_append, List.nil_append, List.mem_cons] at hd
        rcases hd with rfl | rfl | hd
        · decide
        · decide
        · exact mem_kstar_oneOf.mp hText d hd
    | punct sign =>
        cases hLonger
        exact hLongest _ (hSigns sign) hPrefix
    | _ => simp [Pattern.start] at hStart
  · cases other with
    | comment => exact .inl rfl
    | punct sign =>
        -- No sign begins with two slashes.
        have hSlashes : ∀ sign : Punct, ¬ ['/', '/'] <+: sign.chars := by
          intro sign
          cases sign <;> decide
        refine absurd ⟨rest.takeWhile (· != '\n'), ?_⟩ (hSlashes sign)
        rw [← show _ = sign.chars from hOther]
        simp
    | _ => simp [Pattern.start] at hStart

theorem sign_scans (hSlash : c = '/' → rest.head? ≠ some '/') {sign : Punct}
    (h : longestSign (c :: rest) = some sign) :
    Scans (.punct sign) sign.chars ((c :: rest).drop sign.chars.length) := by
  have hText := List.prefix_iff_eq_append.mp (longestSign_prefix_text h)
  refine Pattern.takes_of_start rfl ?_ fun other hStart hOther => ?_
  · intro other hStart longer hLonger hPrefix
    rw [hText] at hPrefix
    cases other with
    | comment =>
        obtain ⟨_, rfl, text, -, rfl⟩ := hLonger
        obtain ⟨tail, hTail⟩ := hPrefix
        simp only [List.cons_append, List.cons.injEq] at hTail
        exact absurd (by simp [← hTail.2]) (hSlash hTail.1.symm)
    | punct other =>
        cases hLonger
        obtain ⟨found, hFound, hLength⟩ := longestSign_length hPrefix
        rw [h] at hFound
        rwa [← Option.some.inj hFound] at hLength
    | _ => simp [Pattern.start] at hStart
  · cases other with
    | comment =>
        obtain ⟨_, rfl, text, -, hText⟩ := hOther
        cases sign <;> simp [Punct.chars] at hText
    | punct other =>
        rw [Punct.chars_injective hOther]
        exact .inl rfl
    | _ => simp [Pattern.start] at hStart

theorem stray_scans (hc : Start.ofChar c = .sign) (hSlash : c = '/' → rest.head? ≠ some '/')
    (h : longestSign (c :: rest) = none) : Scans .invalid [c] rest := by
  refine ⟨fun pattern piece hPiece hPrefix => ?_, by simp, ?_⟩
  · have hStart : pattern.start = .sign := by
      have hFirst := Pattern.start_of_mem hPiece
      obtain ⟨tail, hTail⟩ := hPrefix
      cases piece <;> simp_all
    cases pattern with
    | comment =>
        obtain ⟨_, rfl, text, -, rfl⟩ := hPiece
        obtain ⟨tail, hTail⟩ := hPrefix
        simp only [List.cons_append, List.nil_append, List.cons.injEq] at hTail
        exact absurd (by simp [← hTail.2]) (hSlash hTail.1.symm)
    | punct sign =>
        cases hPiece
        obtain ⟨found, hFound, -⟩ := longestSign_length hPrefix
        rw [show [c] ++ rest = c :: rest from rfl, h] at hFound
        cases hFound
    | _ => simp [Pattern.start] at hStart
  · rintro hNewline
    rw [List.mem_singleton] at hNewline
    subst hNewline
    simp [Start.ofChar, isBlank] at hc

/-- Whatever stands at the front of a text is scanned as its longest match. -/
theorem scan_scans (c : Char) (rest : List Char) :
    ∃ after, c :: rest = (scan (c :: rest)).2 ++ after ∧
      (scan (c :: rest)).1.Scans (scan (c :: rest)).2 after := by
  have hRun (test : Char → Bool) :
      c :: rest = (c :: rest).takeWhile test ++ (c :: rest).dropWhile test :=
    List.takeWhile_append_dropWhile.symm
  unfold scan
  dsimp only
  by_cases hBlank : isBlank c = true
  · rw [if_pos hBlank]
    refine ⟨_, hRun isBlank, Pattern.takes_run rfl (fun other h => ?_) (fun d hd => hd) hBlank⟩
    cases other <;> simp_all [Pattern.start]
  rw [if_neg hBlank]
  by_cases hNewline : c = '\n'
  · rw [if_pos hNewline]
    subst hNewline
    exact ⟨rest, rfl, newline_scans rest⟩
  rw [if_neg hNewline]
  by_cases hDigit : c.isDigit = true
  · rw [if_pos hDigit]
    refine ⟨_, hRun isIntPart, Pattern.takes_run rfl (fun other h => ?_) (fun d hd => ?_) hDigit⟩
    · cases other <;> simp_all [Pattern.start]
    · simp [isIntPart, hd]
  rw [if_neg hDigit]
  by_cases hWord : isWordStart c = true
  · rw [if_pos hWord]
    exact ⟨_, hRun isWordPart, word_scans hWord⟩
  rw [if_neg hWord]
  by_cases hDouble : c = doubleQuote
  · rw [if_pos hDouble]
    subst hDouble
    refine @quoted_scans _ _ .str (by decide) (fun other h => ?_) rfl (by decide)
      (by decide) (fun _ => rfl) rest
    cases other <;> simp_all [Pattern.start]
  rw [if_neg hDouble]
  by_cases hSingle : c = singleQuote
  · rw [if_pos hSingle]
    subst hSingle
    refine @quoted_scans _ _ .char (by decide) (fun other h => ?_) rfl (by decide)
      (by decide) (fun _ => rfl) rest
    cases other <;> simp_all [Pattern.start]
  rw [if_neg hSingle]
  have hStart : Start.ofChar c = .sign := by
    simp [Start.ofChar, hBlank, hNewline, hDigit, hWord, hDouble, hSingle]
  by_cases hComment : (c = '/' && rest.head? = some '/') = true
  · rw [if_pos hComment]
    simp only [Bool.and_eq_true, decide_eq_true_eq] at hComment
    obtain ⟨rfl, hSlash⟩ := hComment
    exact ⟨_, hRun (· != '\n'), comment_scans hSlash⟩
  rw [if_neg hComment]
  have hSlash : c = '/' → rest.head? ≠ some '/' := by
    simpa using hComment
  cases hSign : longestSign (c :: rest) with
  | some sign =>
      exact ⟨_, List.prefix_iff_eq_append.mp (longestSign_prefix_text hSign) |>.symm,
        sign_scans hSlash hSign⟩
  | none => exact ⟨rest, rfl, stray_scans hStart hSlash hSign⟩

end Lexeme

/-! ## All pieces -/

/-- The tokens of a text whose first character stands at byte `offset`: piece after piece is the
longest match, which may be one that becomes no token, or an error where nothing matches. -/
inductive Tokenises : Nat → List Char → List Token → Prop
  | eof (offset : Nat) : Tokenises offset [] [⟨.eof, .point offset⟩]
  | skip {offset : Nat} {piece rest : List Char} {tokens : List Token} {pattern : Pattern} :
      pattern.Takes piece rest → pattern.kind? piece = none →
      Tokenises (offset + byteLength piece) rest tokens → Tokenises offset (piece ++ rest) tokens
  | token {offset : Nat} {piece rest : List Char} {tokens : List Token} {pattern : Pattern}
      {kind : TokenKind} :
      pattern.Takes piece rest → pattern.kind? piece = some kind →
      Tokenises (offset + byteLength piece) rest tokens →
      Tokenises offset (piece ++ rest) (⟨kind, offset, offset + byteLength piece⟩ :: tokens)
  | stray {offset piece rest tokens} :
      Unmatched (piece ++ rest) → piece ≠ [] → '\n' ∉ piece →
      Tokenises (offset + byteLength piece) rest tokens →
      Tokenises offset (piece ++ rest)
        (⟨.error .invalidCharacter, offset, offset + byteLength piece⟩ :: tokens)

theorem tokensFrom_skip (offset : Nat) (piece rest : List Char) :
    tokensFrom offset piece.length (piece ++ rest) =
      tokensFrom (offset + byteLength piece) 0 rest := by
  induction piece generalizing offset with
  | nil => rfl
  | cons c piece ih =>
      rw [List.length_cons, List.cons_append, tokensFrom, ih, byteLength_cons, Nat.add_assoc]

theorem Pattern.ne_nil (h : piece ∈ pattern.language) : piece ≠ [] := by
  rintro rfl
  have hStart := Pattern.start_of_mem h
  simp at hStart

/-- After one piece the tokens of the rest follow. -/
theorem tokensFrom_piece {lexeme : Lexeme} (offset : Nat)
    (hScan : Lexeme.scan (piece ++ rest) = (lexeme, piece)) (hPiece : piece ≠ []) :
    tokensFrom offset 0 (piece ++ rest) =
      match lexeme.kind? piece with
      | none => tokensFrom (offset + byteLength piece) 0 rest
      | some kind =>
          ⟨kind, offset, offset + byteLength piece⟩ ::
            tokensFrom (offset + byteLength piece) 0 rest := by
  cases piece with
  | nil => exact absurd rfl hPiece
  | cons c piece =>
      rw [List.cons_append] at hScan ⊢
      have hOthers : tokensFrom (offset + c.utf8Size) piece.length (piece ++ rest) =
          tokensFrom (offset + byteLength (c :: piece)) 0 rest := by
        rw [tokensFrom_skip, byteLength_cons, Nat.add_assoc]
      rw [tokensFrom, hScan]
      cases hKind : lexeme.kind? (c :: piece) with
      | none => simp only [hKind, List.length_cons, Nat.add_sub_cancel, hOthers]
      | some kind => simp only [hKind, List.length_cons, Nat.add_sub_cancel, hOthers]

theorem tokensFrom_tokenises (offset : Nat) (text : List Char) :
    Tokenises offset text (tokensFrom offset 0 text) := by
  induction hLength : text.length using Nat.strong_induction_on generalizing offset text with
  | _ length ih =>
      cases text with
      | nil =>
          rw [tokensFrom]
          exact .eof offset
      | cons c tail =>
          obtain ⟨rest, hText, hScans⟩ := Lexeme.scan_scans c tail
          cases hScan : Lexeme.scan (c :: tail) with
          | mk lexeme piece =>
              rw [hScan] at hText hScans
              dsimp only at hText hScans
              rw [hText] at hScan hLength ⊢
              have hRest (hPiece : piece ≠ []) :
                  Tokenises (offset + byteLength piece) rest
                    (tokensFrom (offset + byteLength piece) 0 rest) := by
                have hLess : 0 < piece.length := List.length_pos_iff.mpr hPiece
                exact ih rest.length (by simp at hLength; omega) _ rest rfl
              have hKind := lexeme.kind?_eq piece
              unfold Lexeme.Scans at hScans
              cases hPattern : lexeme.pattern? piece with
              | none =>
                  rw [hPattern] at hScans hKind
                  obtain ⟨hUnmatched, hPiece, hNewline⟩ := hScans
                  rw [tokensFrom_piece offset hScan hPiece, hKind]
                  exact .stray hUnmatched hPiece hNewline (hRest hPiece)
              | some pattern =>
                  rw [hPattern] at hScans hKind
                  have hPiece := Pattern.ne_nil hScans.matched
                  rw [tokensFrom_piece offset hScan hPiece, hKind]
                  dsimp only
                  cases hToken : pattern.kind? piece with
                  | none => exact .skip hScans hToken (hRest hPiece)
                  | some kind => exact .token hScans hToken (hRest hPiece)

/-! ## What the tokens of a text look like -/

/-- What a token may be that stands for `piece`, with `rest` behind it. -/
def TokenKind.Reads (piece rest : List Char) : TokenKind → Prop
  | .eof => piece = [] ∧ rest = []
  | .error .invalidCharacter => piece ≠ [] ∧ Unmatched (piece ++ rest)
  | kind => ∃ pattern : Pattern, pattern.Takes piece rest ∧ pattern.kind? piece = some kind

/-- Text between tokens: blanks, and at most one comment, which ends before a line end or
the end of the text. -/
def IsGap (gap rest : List Char) : Prop :=
  ∃ blanks comment, gap = blanks ++ comment ∧ (∀ c ∈ blanks, Lexeme.isBlank c = true) ∧
    (comment = [] ∨ comment ∈ Pattern.comment.language ∧ ∀ c ∈ rest.head?, c = '\n')

/-- Where the last of the tokens before a place ends; the start of the text if there is none. -/
def lastStop (start : Nat) (tokens : List Token) : Nat :=
  (tokens.getLast?.map (·.span.stop)).getD start

theorem lastStop_cons (start : Nat) (token : Token) (tokens : List Token) :
    lastStop start (token :: tokens) = lastStop token.span.stop tokens := by
  cases tokens <;> simp [lastStop, List.getLast?_cons]

/-! A literal is never called a stray character. -/

theorem Literal.integer_ne_error (text : List Char) :
    Literal.integer text ≠ .error .invalidCharacter := by
  unfold Literal.integer
  split
  · simp
  · split <;> simp

theorem Literal.string_ne_error (body : List Char) :
    Literal.string body ≠ .error .invalidCharacter := by
  unfold Literal.string
  split <;> simp

theorem Literal.character_ne_error (body : List Char) :
    Literal.character body ≠ .error .invalidCharacter := by
  unfold Literal.character
  split <;> simp

/-- A pattern that becomes a token becomes neither the end of the file nor an error for a
stray character. -/
theorem Pattern.kind?_reads {kind : TokenKind} (hTakes : pattern.Takes piece rest)
    (h : pattern.kind? piece = some kind) : kind.Reads piece rest ∧ kind ≠ .eof := by
  have hKind : kind ≠ .eof ∧ kind ≠ .error .invalidCharacter := by
    have hLiteral {α : Type} {make : α → TokenKind} {result : Except LexError α}
        (hMake : ∀ value, make value ≠ .eof ∧ make value ≠ .error .invalidCharacter)
        (hResult : result ≠ .error .invalidCharacter) :
        Lexeme.literalKind make result ≠ .eof ∧
          Lexeme.literalKind make result ≠ .error .invalidCharacter := by
      cases result with
      | ok value => exact hMake value
      | error cause => simp_all [Lexeme.literalKind]
    cases pattern with
    | int =>
        cases h
        exact hLiteral (by simp) (Literal.integer_ne_error piece)
    | str =>
        cases h
        exact hLiteral (by simp) (Literal.string_ne_error _)
    | char =>
        cases h
        exact hLiteral (by simp) (Literal.character_ne_error _)
    | blank => cases h
    | comment => cases h
    | _ =>
        cases h
        simp
  refine ⟨?_, hKind.1⟩
  unfold TokenKind.Reads
  split
  · exact absurd rfl hKind.1
  · exact absurd rfl hKind.2
  · exact ⟨pattern, hTakes, h⟩

/-- A piece with a line end in it is a line end. -/
theorem Pattern.eq_newline (h : piece ∈ pattern.language) (hNewline : '\n' ∈ piece) :
    pattern = .newline := by
  have hPlus {first test : Char → Bool} (hPiece : piece ∈ oneOf first * (oneOf test)∗)
      (hFirst : first '\n' = false) (hTest : test '\n' = false) : False := by
    obtain ⟨_, ⟨c, rfl, hc⟩, rest, hRest, rfl⟩ := hPiece
    rcases List.mem_cons.mp hNewline with rfl | hNewline
    · simp [hFirst] at hc
    · simp [mem_kstar_oneOf.mp hRest _ hNewline] at hTest
  have hQuoted {quote : Char} (hPiece : piece ∈ quotedText quote) (hQuote : quote ≠ '\n')
      (hBackslash : quote ≠ Literal.backslash) : False := by
    obtain ⟨body, hBody, rfl⟩ := mem_quotedText.mp hPiece
    have hUnits : '\n' ∉ Lexeme.quotedUnits quote (body ++ [quote]) :=
      Lexeme.newline_notMem_quotedUnits _
    rw [Lexeme.quotedUnits_closed hBody hBackslash] at hUnits
    simp_all [eq_comm]
  cases pattern with
  | newline => rfl
  | blank => exact (hPlus h (by decide) (by decide)).elim
  | int => exact (hPlus h (by decide) (by decide)).elim
  | ident => exact (hPlus h (by decide) (by decide)).elim
  | str => exact (hQuoted h (by decide) (by decide)).elim
  | char => exact (hQuoted h (by decide) (by decide)).elim
  | comment =>
      obtain ⟨_, rfl, text, hText, rfl⟩ := h
      have hText := mem_kstar_oneOf.mp hText '\n'
      simp_all
  | keyword word =>
      cases h
      cases word <;> simp [Keyword.chars] at hNewline
  | punct sign =>
      cases h
      cases sign <;> simp [Punct.chars] at hNewline

/-- Blanks and comments in front of a gap make a longer gap. -/
theorem Pattern.Takes.gap_append {gap : List Char} (h : pattern.Takes piece (gap ++ rest))
    (hKind : pattern.kind? piece = none) (hGap : IsGap gap rest) : IsGap (piece ++ gap) rest := by
  obtain ⟨blanks, comment, rfl, hBlanks, hComment⟩ := hGap
  have hMatched := h.matched
  cases pattern with
  | blank =>
      refine ⟨piece ++ blanks, comment, by simp, ?_, hComment⟩
      obtain ⟨_, ⟨c, rfl, hc⟩, others, hOthers, rfl⟩ := hMatched
      have hOthers := mem_kstar_oneOf.mp hOthers
      simp only [List.cons_append, List.nil_append, List.mem_cons, List.mem_append]
      rintro d (rfl | hd | hd)
      · exact hc
      · exact hOthers d hd
      · exact hBlanks d hd
  | comment =>
      -- A comment that ends before a character other than a line end could be longer.
      have hNext : ∀ c ∈ (blanks ++ comment ++ rest).head?, c = '\n' := by
        intro c hc
        by_contra hNewline
        obtain ⟨tail, hTail⟩ : ∃ tail, blanks ++ comment ++ rest = c :: tail := by
          cases hText : blanks ++ comment ++ rest <;> simp_all
        obtain ⟨_, rfl, text, hText, rfl⟩ := hMatched
        have hLonger : ['/', '/'] ++ (text ++ [c]) ∈ Pattern.comment.language := by
          refine ⟨['/', '/'], rfl, text ++ [c], mem_kstar_oneOf.mpr ?_, rfl⟩
          have hText := mem_kstar_oneOf.mp hText
          simp only [List.mem_append, List.mem_singleton]
          rintro d (hd | rfl)
          · exact hText d hd
          · simpa using hNewline
        have hLength := h.longest .comment _ hLonger ⟨tail, by simp [hTail]⟩
        simp only [List.length_append, List.length_singleton] at hLength
        omega
      have hBlank : blanks = [] := by
        cases blanks with
        | nil => rfl
        | cons c blanks =>
            have hBlank := hBlanks c List.mem_cons_self
            rw [hNext c (by simp)] at hBlank
            simp [Lexeme.isBlank] at hBlank
      subst hBlank
      have hEmpty : comment = [] := by
        rcases hComment with hComment | ⟨⟨_, rfl, text, -, rfl⟩, -⟩
        · exact hComment
        · have hSlash := hNext '/' (by simp)
          simp at hSlash
      subst hEmpty
      exact ⟨[], piece, by simp, by simp, .inr ⟨hMatched, by simpa using hNext⟩⟩
  | _ => simp [kind?] at hKind

namespace Tokenises

variable {offset : Nat} {text : List Char} {tokens : List Token}

theorem le_start (h : Tokenises offset text tokens) :
    ∀ token ∈ tokens, offset ≤ token.span.start := by
  induction h with
  | eof offset => simp [Span.point]
  | skip _ _ _ ih =>
      intro token hToken
      have := ih token hToken
      omega
  | token _ _ _ ih | stray _ _ _ _ ih =>
      intro token hToken
      rcases List.mem_cons.mp hToken with rfl | hToken
      · exact Nat.le_refl _
      · have := ih token hToken
        omega

theorem ordered (h : Tokenises offset text tokens) :
    tokens.Pairwise fun a b => a.span.stop ≤ b.span.start := by
  induction h with
  | eof => simp
  | skip _ _ _ ih => exact ih
  | token _ _ hRest ih | stray _ _ _ hRest ih => exact List.pairwise_cons.mpr ⟨hRest.le_start, ih⟩

theorem pieces (h : Tokenises offset text tokens) :
    ∀ token ∈ tokens, ∃ before piece after, text = before ++ piece ++ after ∧
      token.span = ⟨offset + byteLength before, offset + byteLength (before ++ piece)⟩ ∧
      token.kind.Reads piece after := by
  have hLater {offset : Nat} {piece rest : List Char} {tokens : List Token}
      (ih : ∀ token ∈ tokens, ∃ before after' after, rest = before ++ after' ++ after ∧
        token.span = ⟨offset + byteLength piece + byteLength before,
          offset + byteLength piece + byteLength (before ++ after')⟩ ∧
        token.kind.Reads after' after) (token : Token) (hToken : token ∈ tokens) :
      ∃ before after' after, piece ++ rest = before ++ after' ++ after ∧
        token.span = ⟨offset + byteLength before, offset + byteLength (before ++ after')⟩ ∧
        token.kind.Reads after' after := by
    obtain ⟨before, middle, after, rfl, hSpan, hReads⟩ := ih token hToken
    refine ⟨piece ++ before, middle, after, by simp, ?_, hReads⟩
    simp [hSpan, byteLength_append, Nat.add_assoc]
  induction h with
  | eof offset =>
      intro token hToken
      rw [List.mem_singleton.mp hToken]
      exact ⟨[], [], [], rfl, rfl, rfl, rfl⟩
  | skip _ _ _ ih => exact hLater ih
  | @token offset piece rest tokens pattern kind hTakes hKind _ ih =>
      intro token hToken
      rcases List.mem_cons.mp hToken with rfl | hToken
      · exact ⟨[], piece, rest, rfl, rfl, (Pattern.kind?_reads hTakes hKind).1⟩
      · exact hLater ih token hToken
  | @stray offset piece rest tokens hUnmatched hPiece _ _ ih =>
      intro token hToken
      rcases List.mem_cons.mp hToken with rfl | hToken
      · exact ⟨[], piece, rest, rfl, rfl, hPiece, hUnmatched⟩
      · exact hLater ih token hToken

theorem ends (h : Tokenises offset text tokens) :
    ∃ init, tokens = init ++ [⟨.eof, .point (offset + byteLength text)⟩] ∧
      ∀ token ∈ init, token.kind ≠ .eof := by
  induction h with
  | eof offset => exact ⟨[], rfl, by simp⟩
  | skip _ _ _ ih =>
      obtain ⟨init, rfl, hInit⟩ := ih
      exact ⟨init, by simp [byteLength_append, Nat.add_assoc], hInit⟩
  | @token offset piece rest tokens pattern kind hTakes hKind _ ih =>
      obtain ⟨init, rfl, hInit⟩ := ih
      refine ⟨⟨kind, offset, offset + byteLength piece⟩ :: init, ?_, ?_⟩
      · simp [byteLength_append, Nat.add_assoc]
      · exact List.forall_mem_cons.mpr ⟨(Pattern.kind?_reads hTakes hKind).2, hInit⟩
  | @stray offset piece rest tokens _ _ _ _ ih =>
      obtain ⟨init, rfl, hInit⟩ := ih
      refine ⟨⟨.error .invalidCharacter, offset, offset + byteLength piece⟩ :: init, ?_, ?_⟩
      · simp [byteLength_append, Nat.add_assoc]
      · simpa using hInit

/-! A text is followed to its first token, and from one token to the next. -/

theorem gap_before (h : Tokenises offset text tokens) :
    ∃ token later gap after, tokens = token :: later ∧ text = gap ++ after ∧
      token.span.start = offset + byteLength gap ∧ IsGap gap after := by
  induction h with
  | eof offset =>
      exact ⟨_, [], [], [], rfl, rfl, rfl, [], [], rfl, by simp, .inl rfl⟩
  | @skip offset piece rest tokens pattern hTakes hKind _ ih =>
      obtain ⟨token, later, gap, after, hTokens, rfl, hStart, hGap⟩ := ih
      refine ⟨token, later, piece ++ gap, after, hTokens, by simp, ?_, hTakes.gap_append hKind hGap⟩
      rw [hStart, byteLength_append, Nat.add_assoc]
  | @token offset piece rest tokens pattern kind _ _ _ _ =>
      exact ⟨_, tokens, [], piece ++ rest, rfl, rfl, rfl, [], [], rfl, by simp, .inl rfl⟩
  | @stray offset piece rest tokens _ _ _ _ _ =>
      exact ⟨_, tokens, [], piece ++ rest, rfl, rfl, rfl, [], [], rfl, by simp, .inl rfl⟩

theorem gaps (h : Tokenises offset text tokens) :
    ∀ init token later, tokens = init ++ token :: later → ∃ before gap after,
      text = before ++ gap ++ after ∧ lastStop offset init = offset + byteLength before ∧
      token.span.start = offset + byteLength (before ++ gap) ∧ IsGap gap after := by
  have hNil {offset : Nat} {text : List Char} {tokens : List Token} {token : Token}
      {later : List Token} (h : Tokenises offset text tokens) (hTokens : tokens = token :: later) :
      ∃ before gap after, text = before ++ gap ++ after ∧
        lastStop offset [] = offset + byteLength before ∧
        token.span.start = offset + byteLength (before ++ gap) ∧ IsGap gap after := by
    obtain ⟨first, _, gap, after, rfl, rfl, hStart, hGap⟩ := h.gap_before
    cases hTokens
    exact ⟨[], gap, after, by simp, rfl, by simpa using hStart, hGap⟩
  -- Where a piece was read before, everything lies behind it.
  have hShift {offset : Nat} {piece rest : List Char} {token : Token} {init : List Token}
      {stop : Nat} (hStop : stop = lastStop (offset + byteLength piece) init)
      (ih : ∃ before gap after, rest = before ++ gap ++ after ∧
        lastStop (offset + byteLength piece) init = offset + byteLength piece + byteLength before ∧
        token.span.start = offset + byteLength piece + byteLength (before ++ gap) ∧
        IsGap gap after) :
      ∃ before gap after, piece ++ rest = before ++ gap ++ after ∧
        stop = offset + byteLength before ∧
        token.span.start = offset + byteLength (before ++ gap) ∧ IsGap gap after := by
    obtain ⟨before, gap, after, rfl, hLast, hStart, hGap⟩ := ih
    refine ⟨piece ++ before, gap, after, by simp, ?_, ?_, hGap⟩
    · simp [hStop, hLast, byteLength_append, Nat.add_assoc]
    · simp [hStart, byteLength_append, Nat.add_assoc]
  induction h with
  | eof offset =>
      intro init token later hTokens
      cases init with
      | nil => exact hNil (.eof offset) hTokens
      | cons first init => simp at hTokens
  | skip hTakes hKind hRest ih =>
      intro init token later hTokens
      cases init with
      | nil => exact hNil (.skip hTakes hKind hRest) hTokens
      | cons first init => exact hShift (by simp [lastStop_cons]) (ih _ token later hTokens)
  | token hTakes hKind hRest ih =>
      intro init token later hTokens
      cases init with
      | nil => exact hNil (.token hTakes hKind hRest) hTokens
      | cons first init =>
          obtain ⟨hFirst, hTail⟩ := List.cons.inj hTokens
          subst hFirst
          exact hShift (lastStop_cons _ _ _) (ih init token later hTail)
  | stray hUnmatched hPiece hNewline hRest ih =>
      intro init token later hTokens
      cases init with
      | nil => exact hNil (.stray hUnmatched hPiece hNewline hRest) hTokens
      | cons first init =>
          obtain ⟨hFirst, hTail⟩ := List.cons.inj hTokens
          subst hFirst
          exact hShift (lastStop_cons _ _ _) (ih init token later hTail)

theorem newlines (h : Tokenises offset text tokens) :
    ∀ before after, text = before ++ '\n' :: after →
      ⟨.newline, offset + byteLength before, offset + byteLength before + 1⟩ ∈ tokens := by
  -- A line end stands in the piece that is read first, or behind it.
  have hSplit {piece rest before after : List Char} (hNewline : '\n' ∉ piece)
      (hText : piece ++ rest = before ++ '\n' :: after) :
      ∃ between, before = piece ++ between ∧ rest = between ++ '\n' :: after := by
    rcases List.append_eq_append_iff.mp hText with ⟨between, hBefore, hRest⟩ | ⟨tail, hPiece, hTail⟩
    · exact ⟨between, hBefore, hRest⟩
    · cases tail with
      | nil => exact ⟨[], by simp_all, by simpa using hTail.symm⟩
      | cons c tail =>
          obtain ⟨rfl, -⟩ := List.cons.inj hTail
          exact absurd (by simp [hPiece]) hNewline
  have hShift {offset : Nat} {piece rest before after : List Char} {tokens : List Token}
      (hNewline : '\n' ∉ piece) (hText : piece ++ rest = before ++ '\n' :: after)
      (ih : ∀ before after, rest = before ++ '\n' :: after →
        ⟨.newline, offset + byteLength piece + byteLength before,
          offset + byteLength piece + byteLength before + 1⟩ ∈ tokens) :
      ⟨.newline, offset + byteLength before, offset + byteLength before + 1⟩ ∈ tokens := by
    obtain ⟨between, rfl, hRest⟩ := hSplit hNewline hText
    have hMem := ih between after hRest
    rwa [Nat.add_assoc offset, ← byteLength_append] at hMem
  induction h with
  | eof offset => simp
  | @skip offset piece rest tokens pattern hTakes hKind _ ih =>
      intro before after hText
      refine hShift (fun hNewline => ?_) hText ih
      rw [Pattern.eq_newline hTakes.matched hNewline] at hKind
      cases hKind
  | @token offset piece rest tokens pattern kind hTakes hKind _ ih =>
      intro before after hText
      by_cases hNewline : '\n' ∈ piece
      · have hPattern := Pattern.eq_newline hTakes.matched hNewline
        subst hPattern
        have hPiece : piece = ['\n'] := hTakes.matched
        subst hPiece
        cases before with
        | nil =>
            cases hKind
            exact List.mem_cons_self
        | cons c before =>
            obtain ⟨rfl, hRest⟩ := List.cons.inj hText
            have hMem := ih before after hRest
            rw [Nat.add_assoc offset, ← byteLength_append] at hMem
            exact List.mem_cons_of_mem _ hMem
      · exact List.mem_cons_of_mem _ (hShift hNewline hText ih)
  | stray _ _ hNewline _ ih =>
      intro before after hText
      exact List.mem_cons_of_mem _ (hShift hNewline hText ih)

end Tokenises

/-- The tokens of a source text account for all of it. -/
structure Tokenisation (source : String) (tokens : List Token) : Prop where
  /-- Tokens stand one after another and do not overlap. -/
  ordered : tokens.Pairwise fun a b => a.span.stop ≤ b.span.start
  /-- A token stands for a piece of the text: the longest match at its place, unless it is the
  end of the file or stands where nothing matches. -/
  pieces : ∀ token ∈ tokens, ∃ before piece after, source.toList = before ++ piece ++ after ∧
    token.span = ⟨byteLength before, byteLength (before ++ piece)⟩ ∧ token.kind.Reads piece after
  /-- Only blanks and comments stand in front of a token. -/
  gaps : ∀ init token later, tokens = init ++ token :: later → ∃ before gap after,
    source.toList = before ++ gap ++ after ∧ lastStop 0 init = byteLength before ∧
    token.span.start = byteLength (before ++ gap) ∧ IsGap gap after
  newlines : ∀ before after, source.toList = before ++ '\n' :: after →
    ⟨.newline, byteLength before, byteLength before + 1⟩ ∈ tokens
  ends : ∃ init, tokens = init ++ [⟨.eof, .point source.utf8ByteSize⟩] ∧
    ∀ token ∈ init, token.kind ≠ .eof

/-- Reading a text takes the longest match everywhere and loses nothing. -/
theorem lex_tokenisation (source : String) : Tokenisation source (lex source) := by
  have h : Tokenises 0 source.toList (lex source) := tokensFrom_tokenises 0 source.toList
  exact {
    ordered := h.ordered
    pieces := by simpa using h.pieces
    gaps := by simpa using h.gaps
    newlines := by simpa using h.newlines
    ends := by simpa [byteLength_toList] using h.ends }

end GoToC
