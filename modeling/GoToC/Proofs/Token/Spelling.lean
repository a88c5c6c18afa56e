import GoToC.Proofs.C.Identifier
import GoToC.Proofs.Token.LongestMatch

/-!
# Spelling tokens

Token kinds are written as source text: integers in decimal, text between quotes with the
quote, the backslash and the line feed escaped, all else as it is spelled. A text written so,
with single blanks between its tokens, is read back as the same kinds.
-/

namespace GoToC

variable {kind : TokenKind} {value : Nat}

namespace Literal

/-- A character as it is written between quotes of one kind. -/
def escape (quote c : Char) : List Char :=
  if c = '\n' then [backslash, 'n']
  else if c = quote || c = backslash then [backslash, c]
  else [c]

/-- The literal that stands for a text. -/
def quoted (quote : Char) (text : List Char) : List Char :=
  quote :: (text.flatMap (escape quote) ++ [quote])

end Literal

namespace TokenKind

/-- The source text of a token kind; errors and the end of the file have none. -/
def chars : TokenKind → List Char
  | int value => Nat.toDigits 10 value
  | str text => Literal.quoted Lexeme.doubleQuote text.toList
  | char code => Literal.quoted Lexeme.singleQuote [Char.ofNat code]
  | ident name => name.toList
  | keyword word => word.chars
  | punct sign => sign.chars
  | newline => ['\n']
  | error _ => []
  | eof => []

/-- The token kinds that source text can stand for: integers of 63 bits, characters that are
Unicode scalar values, identifiers that are no keywords, and whatever strings and fixed text. -/
def Writable : TokenKind → Prop
  | int value => value ≤ Literal.maxInt
  | char code => code.isValidChar
  | ident name => isIdentifier name = true ∧ ∀ word ∈ Keyword.all, name ≠ word.spelling
  | error _ => False
  | eof => False
  | _ => True

/-- A source text for token kinds, with single blanks between them. -/
def sourceText (kinds : List TokenKind) : String :=
  String.ofList ([' '].intercalate (kinds.map chars))

end TokenKind

/-! ## Literals -/

namespace Literal

theorem decimal_toDigits (value : Nat) : decimal (Nat.toDigits 10 value) = value :=
  Nat.ofDigitChars_toDigits (by decide) (by decide)

/-- Only the number zero starts with a zero. -/
theorem head_toDigits (h : 0 < value) : (Nat.toDigits 10 value).head? ≠ some '0' := by
  induction value using Nat.strong_induction_on with
  | _ value ih =>
      by_cases hSmall : value < 10
      · rw [Nat.toDigits_of_lt_base hSmall]
        have hDigit : ∀ digit < 10, 0 < digit → [digit.digitChar].head? ≠ some '0' := by decide
        exact hDigit value hSmall h
      · have hFront := ih (value / 10) (by omega) (by omega)
        rw [Nat.toDigits_of_base_le (by decide) (by omega)]
        cases hDigits : Nat.toDigits 10 (value / 10) with
        | nil => exact absurd hDigits Nat.toDigits_ne_nil
        | cons c digits =>
            rw [hDigits] at hFront
            exact hFront

theorem integer_toDigits (h : value ≤ maxInt) : integer (Nat.toDigits 10 value) = .ok value := by
  have hFilter : (Nat.toDigits 10 value).filter (· != '_') = Nat.toDigits 10 value := by
    rw [List.filter_eq_self]
    intro c hc
    have hDigit := Nat.isDigit_of_mem_toDigits (by decide) (by decide) hc
    rw [bne_iff_ne]
    rintro rfl
    simp at hDigit
  unfold integer
  rw [hFilter]
  split
  · next digits hDigits =>
      by_cases hZero : value = 0
      · subst hZero
        simp at hDigits
      · exact absurd (by simp [hDigits]) (head_toDigits (Nat.pos_of_ne_zero hZero))
  · simp [decimal_toDigits, h]

section Quoted

variable {quote : Char}

/-- A backslash in front of such a quote stands for the quote itself. -/
def IsQuote (quote : Char) : Prop :=
  isOctal quote = false ∧ simpleEscape quote = quote ∧ quote ≠ backslash

instance (quote : Char) : Decidable (IsQuote quote) := inferInstanceAs (Decidable (_ ∧ _ ∧ _))

theorem unescape_escape (hQuote : IsQuote quote) (text : List Char) :
    unescape (text.flatMap (escape quote)) = some text := by
  obtain ⟨hOctal, hSimple, -⟩ := hQuote
  have hEscaped {d : Char} (hd : isOctal d = false) (rest : List Char) :
      unescape (backslash :: d :: rest) = (unescape rest).map (simpleEscape d :: ·) := by
    rw [unescape.eq_def]
    simp [hd]
  induction text with
  | nil => rfl
  | cons c text ih =>
      rw [List.flatMap_cons]
      by_cases hNewline : c = '\n'
      · subst hNewline
        rw [escape, if_pos rfl, List.cons_append, List.cons_append, hEscaped (by decide),
          List.nil_append, ih]
        rfl
      by_cases hSpecial : c = quote ∨ c = backslash
      · have hc : isOctal c = false ∧ simpleEscape c = c := by
          rcases hSpecial with rfl | rfl
          · exact ⟨hOctal, hSimple⟩
          · decide
        rw [escape, if_neg hNewline, if_pos (by simpa using hSpecial), List.cons_append,
          List.cons_append, hEscaped hc.1]
        simp [ih, hc.2]
      · rw [escape, if_neg hNewline, if_neg (by simpa using hSpecial), List.cons_append]
        rw [not_or] at hSpecial
        rw [unescape.eq_def]
        simp [hSpecial.2, ih]

theorem escape_mem (c : Char) : escape quote c ∈ quotedUnit quote := by
  have hEscaped {d : Char} (hd : d ≠ '\n') : [backslash, d] ∈ quotedUnit quote :=
    .inr ⟨[backslash], rfl, [d], ⟨d, rfl, by simpa using hd⟩, rfl⟩
  unfold escape
  by_cases hNewline : c = '\n'
  · rw [if_pos hNewline]
    exact hEscaped (by decide)
  rw [if_neg hNewline]
  by_cases hSpecial : (c = quote || c = backslash) = true
  · rw [if_pos hSpecial]
    exact hEscaped hNewline
  · rw [if_neg hSpecial]
    exact .inl ⟨c, rfl, by simp_all [Lexeme.isPlain]⟩

theorem flatMap_escape_mem (text : List Char) :
    text.flatMap (escape quote) ∈ KStar.kstar (quotedUnit quote) := by
  induction text with
  | nil => exact Language.nil_mem_kstar _
  | cons c text ih => exact cons_mem_kstar (escape_mem c) ih

theorem quotedBody_quoted (text : List Char) :
    Lexeme.quotedBody (quoted quote text) = text.flatMap (escape quote) := by
  simp [Lexeme.quotedBody, quoted]

end Quoted

end Literal

/-! ## Reading what was written -/

namespace Lexeme

variable {rest : List Char}

/-- What is scanned goes by the first character. -/
theorem scan_eq (c : Char) (rest : List Char) : scan (c :: rest) =
      match Start.ofChar c with
      | .blank => (.blank, (c :: rest).takeWhile isBlank)
      | .newline => (.newline, [c])
      | .digit => (.int, (c :: rest).takeWhile isIntPart)
      | .letter => (.word, (c :: rest).takeWhile isWordPart)
      | .doubleQuote => scanQuoted c .str rest
      | .singleQuote => scanQuoted c .char rest
      | .sign =>
          if c = '/' && rest.head? = some '/' then (.comment, (c :: rest).takeWhile (· != '\n'))
          else
            match longestSign (c :: rest) with
            | some sign => (.punct sign, sign.chars)
            | none => (.invalid, [c]) := by
  unfold scan Start.ofChar
  dsimp only
  by_cases hBlank : isBlank c = true
  · rw [if_pos hBlank, if_pos hBlank]
  rw [if_neg hBlank, if_neg hBlank]
  by_cases hNewline : c = '\n'
  · rw [if_pos hNewline, if_pos hNewline]
  rw [if_neg hNewline, if_neg hNewline]
  by_cases hDigit : c.isDigit = true
  · rw [if_pos hDigit, if_pos hDigit]
  rw [if_neg hDigit, if_neg hDigit]
  by_cases hWord : isWordStart c = true
  · rw [if_pos hWord, if_pos hWord]
  rw [if_neg hWord, if_neg hWord]
  by_cases hDouble : c = doubleQuote
  · rw [if_pos hDouble, if_pos hDouble]
  rw [if_neg hDouble, if_neg hDouble]
  by_cases hSingle : c = singleQuote
  · rw [if_pos hSingle, if_pos hSingle]
  have hSign : (if c = singleQuote then Start.singleQuote else Start.sign) = Start.sign :=
    if_neg hSingle
  rw [hSign]
  exact if_neg hSingle

theorem scanQuoted_closed {quote : Char} (closed : Lexeme) {body : List Char}
    (hQuote : quote ≠ Literal.backslash) (hBody : body ∈ KStar.kstar (quotedUnit quote)) :
    scanQuoted quote closed (body ++ quote :: rest) = (closed, quote :: (body ++ [quote])) := by
  simp [scanQuoted, quotedUnits_closed hBody hQuote]

/-- A sign is taken whole where no sign goes on. -/
theorem longestSign_chars (sign : Punct) (hRest : ∀ c ∈ rest.head?, c = ' ') :
    longestSign (sign.chars ++ rest) = some sign := by
  have hBlank : ∀ found : Punct, ' ' ∉ found.chars := by
    intro found
    cases found <;> decide
  obtain ⟨found, hFound, hLength⟩ := longestSign_length (List.prefix_append sign.chars rest)
  have hPrefix := longestSign_prefix_text hFound
  obtain ⟨tail, hTail⟩ := List.prefix_of_prefix_length_le (List.prefix_append _ _) hPrefix hLength
  cases tail with
  | nil =>
      rw [List.append_nil] at hTail
      rw [hFound, Punct.chars_injective hTail]
  | cons c tail =>
      -- A longer sign would hold the blank behind this one.
      rw [← hTail, List.prefix_append_right_inj] at hPrefix
      obtain ⟨_, rfl⟩ := hPrefix
      have hc := hRest c (by simp)
      subst hc
      exact absurd (by simp [← hTail]) (hBlank found)

end Lexeme

namespace TokenKind

variable {rest : List Char}

theorem scan_int (hRest : ∀ c ∈ rest.head?, c = ' ') :
    Lexeme.scan ((int value).chars ++ rest) = (.int, (int value).chars) := by
  have hDigits : ∀ c ∈ (int value).chars, c.isDigit = true := fun c hc =>
    Nat.isDigit_of_mem_toDigits (by decide) (by decide) hc
  have hRun : ((int value).chars ++ rest).takeWhile Lexeme.isIntPart = (int value).chars := by
    refine Lexeme.takeWhile_run (fun c hc => ?_) fun c hc => ?_
    · simp [Lexeme.isIntPart, hDigits c hc]
    · rw [hRest c hc]
      decide
  cases hChars : (int value).chars with
  | nil => exact absurd hChars Nat.toDigits_ne_nil
  | cons c digits =>
      rw [hChars] at hRun hDigits
      rw [List.cons_append, Lexeme.scan_eq, Start.ofChar_digit (hDigits c List.mem_cons_self)]
      dsimp only
      rw [← List.cons_append, hRun]

theorem scan_word {c : Char} {tail : List Char} (hStart : Lexeme.isWordStart c = true)
    (hTail : ∀ d ∈ tail, Lexeme.isWordPart d = true) (hRest : ∀ c ∈ rest.head?, c = ' ') :
    Lexeme.scan (c :: tail ++ rest) = (.word, c :: tail) := by
  have hRun : (c :: tail ++ rest).takeWhile Lexeme.isWordPart = c :: tail := by
    refine Lexeme.takeWhile_run (List.forall_mem_cons.mpr ⟨?_, hTail⟩) fun c hc => ?_
    · exact isWordPart_of_isWordStart hStart
    · rw [hRest c hc]
      decide
  rw [List.cons_append, Lexeme.scan_eq, Start.ofChar_letter hStart]
  dsimp only
  rw [← List.cons_append, hRun]

theorem scan_punct (sign : Punct) (hRest : ∀ c ∈ rest.head?, c = ' ') :
    Lexeme.scan (sign.chars ++ rest) = (.punct sign, sign.chars) := by
  have hSign := Lexeme.longestSign_chars sign hRest
  have hStart := Start.ofChar_sign sign
  have hSlashes : ∀ tail, sign.chars ≠ '/' :: '/' :: tail := by
    cases sign <;> simp [Punct.chars]
  cases hChars : sign.chars with
  | nil => simp [hChars] at hStart
  | cons c tail =>
      rw [hChars] at hStart hSign
      have hOpen : ¬ (c = '/' && (tail ++ rest).head? = some '/') = true := by
        simp only [Bool.and_eq_true, decide_eq_true_eq]
        rintro ⟨rfl, hSlash⟩
        cases tail with
        | nil => exact absurd (hRest '/' hSlash) (by decide)
        | cons d tail => exact hSlashes tail (by simp_all)
      rw [List.cons_append, Lexeme.scan_eq, Option.some.inj hStart]
      dsimp only
      rw [if_neg hOpen, ← List.cons_append, hSign]
      simp [hChars]

/-- A token is read back where the end of the text or a blank follows. -/
theorem Writable.scan (h : kind.Writable) (hRest : ∀ c ∈ rest.head?, c = ' ') :
    ∃ lexeme, Lexeme.scan (kind.chars ++ rest) = (lexeme, kind.chars) ∧
      lexeme.kind? kind.chars = some kind := by
  cases kind with
  | int value =>
      refine ⟨.int, scan_int hRest, ?_⟩
      rw [Lexeme.kind?, chars, Literal.integer_toDigits h]
      rfl
  | str text =>
      refine ⟨.str, ?_, ?_⟩
      · rw [chars, Literal.quoted, List.cons_append, Lexeme.scan_eq, List.append_assoc]
        exact Lexeme.scanQuoted_closed .str (by decide) (Literal.flatMap_escape_mem _)
      · rw [Lexeme.kind?, chars, Literal.quotedBody_quoted, Literal.string,
          Literal.unescape_escape (by decide)]
        simp [Lexeme.literalKind]
  | char code =>
      have hCode : (Char.ofNat code).toNat = code := by
        rw [Char.ofNat, dif_pos (show code.isValidChar from h)]
        rfl
      refine ⟨.char, ?_, ?_⟩
      · rw [chars, Literal.quoted, List.cons_append, Lexeme.scan_eq, List.append_assoc]
        exact Lexeme.scanQuoted_closed .char (by decide) (Literal.flatMap_escape_mem _)
      · rw [Lexeme.kind?, chars, Literal.quotedBody_quoted, Literal.character,
          Literal.unescape_escape (by decide)]
        simp [Lexeme.literalKind, hCode]
  | ident name =>
      obtain ⟨hName, hKeyword⟩ := h
      obtain ⟨c, tail, hChars, hStart, hTail⟩ := isIdentifier_eq_true.mp hName
      refine ⟨.word, ?_, ?_⟩
      · rw [chars, hChars]
        exact scan_word hStart (List.all_eq_true.mp hTail) hRest
      · have hFind : Keyword.all.find? (·.chars == name.toList) = none := by
          rw [List.find?_eq_none]
          intro word hWord hEq
          refine hKeyword word hWord ?_
          rw [Keyword.spelling, beq_iff_eq.mp hEq, String.ofList_toList]
        rw [Lexeme.kind?, chars, Lexeme.wordKind, hFind, String.ofList_toList]
  | keyword word =>
      refine ⟨.word, ?_, ?_⟩
      · rw [chars]
        obtain ⟨_, ⟨c, rfl, hStart⟩, tail, hTail, hChars⟩ := word.chars_mem
        rw [← hChars]
        exact scan_word hStart (mem_kstar_oneOf.mp hTail) hRest
      · rw [Lexeme.kind?, chars, Lexeme.wordKind, word.find?_chars]
  | punct sign => exact ⟨.punct sign, scan_punct sign hRest, rfl⟩
  | newline => exact ⟨.newline, rfl, rfl⟩
  | error cause => exact h.elim
  | eof => exact h.elim

/-- What can be written starts with a character that is no blank. -/
theorem Writable.chars_eq_cons (h : kind.Writable) :
    ∃ c tail, kind.chars = c :: tail ∧ Lexeme.isBlank c = false := by
  have hEnd : ∀ c ∈ ([] : List Char).head?, c = ' ' := by simp
  obtain ⟨lexeme, hScan, hKind⟩ := h.scan hEnd
  cases hChars : kind.chars with
  | nil =>
      rw [hChars] at hScan hKind
      cases hScan
      cases hKind
      exact h.elim
  | cons c tail =>
      refine ⟨c, tail, rfl, ?_⟩
      by_contra hBlank
      rw [hChars] at hScan hKind
      simp only [List.append_nil, Lexeme.scan, hBlank, if_true, Prod.mk.injEq] at hScan
      rw [← hScan.1] at hKind
      cases hKind

theorem Writable.tokensFrom_chars (h : kind.Writable) (offset : Nat)
    (hRest : ∀ c ∈ rest.head?, c = ' ') :
    tokensFrom offset 0 (kind.chars ++ rest) = ⟨kind, offset, offset + byteLength kind.chars⟩ ::
        tokensFrom (offset + byteLength kind.chars) 0 rest := by
  obtain ⟨lexeme, hScan, hKind⟩ := h.scan hRest
  obtain ⟨c, tail, hChars, -⟩ := h.chars_eq_cons
  rw [tokensFrom_piece offset hScan (by simp [hChars]), hKind]

/-- The blank in front of a token is passed over. -/
theorem Writable.tokensFrom_blank (h : kind.Writable) (offset : Nat) (rest : List Char) :
    tokensFrom offset 0 (' ' :: (kind.chars ++ rest)) =
      tokensFrom (offset + 1) 0 (kind.chars ++ rest) := by
  obtain ⟨c, tail, hChars, hBlank⟩ := h.chars_eq_cons
  have hScan : Lexeme.scan ([' '] ++ (kind.chars ++ rest)) = (.blank, [' ']) := by
    rw [List.cons_append, Lexeme.scan_eq, hChars, List.nil_append, List.cons_append]
    simp [Start.ofChar, hBlank, show Lexeme.isBlank ' ' = true from rfl]
  have hPiece := tokensFrom_piece offset hScan (by simp)
  exact hPiece

/-- Source text for token kinds behind another token. -/
def spaced (kinds : List TokenKind) : List Char := kinds.flatMap fun kind => ' ' :: kind.chars

theorem spaced_cons (kind : TokenKind) (kinds : List TokenKind) :
    spaced (kind :: kinds) = ' ' :: (kind.chars ++ spaced kinds) := rfl

theorem head_spaced (kinds : List TokenKind) : ∀ c ∈ (spaced kinds).head?, c = ' ' := by
  cases kinds <;> simp [spaced]

theorem intercalate_chars (kind : TokenKind) (kinds : List TokenKind) :
    [' '].intercalate ((kind :: kinds).map chars) = kind.chars ++ spaced kinds := by
  induction kinds generalizing kind with
  | nil => simp [spaced, List.intercalate]
  | cons next kinds ih =>
      have hNext := ih next
      rw [List.map_cons] at hNext
      rw [List.map_cons, List.map_cons, List.intercalate_cons_cons, hNext]
      simp [spaced]

theorem tokensFrom_spaced {kinds : List TokenKind} (h : ∀ kind ∈ kinds, kind.Writable)
    (offset : Nat) : (tokensFrom offset 0 (spaced kinds)).map (·.kind) = kinds ++ [.eof] := by
  induction kinds generalizing offset with
  | nil => rfl
  | cons kind kinds ih =>
      obtain ⟨hKind, hKinds⟩ := List.forall_mem_cons.mp h
      rw [spaced_cons, hKind.tokensFrom_blank,
        hKind.tokensFrom_chars _ (head_spaced kinds), List.map_cons]
      exact congrArg (kind :: ·) (ih hKinds _)

end TokenKind

/-- What was written is read back, token for token. -/
theorem lex_sourceText (kinds : List TokenKind) (h : ∀ kind ∈ kinds, kind.Writable) :
    (lex (TokenKind.sourceText kinds)).map (·.kind) = kinds ++ [.eof] := by
  rw [lex, TokenKind.sourceText, String.toList_ofList]
  cases kinds with
  | nil => rfl
  | cons kind kinds =>
      obtain ⟨hKind, hKinds⟩ := List.forall_mem_cons.mp h
      rw [TokenKind.intercalate_chars, hKind.tokensFrom_chars 0 (TokenKind.head_spaced kinds),
        List.map_cons]
      exact congrArg (kind :: ·) (TokenKind.tokensFrom_spaced hKinds _)

/-- A declaration with a literal of each sort, over two lines. -/
theorem lex_sourceText_declaration :
    (lex (TokenKind.sourceText [.keyword .func, .ident "funcs", .punct .ampCaret, .punct .amp,
        .newline, .int 9223372036854775807, .str "a\x22\x5c\n", .char 39])).map (·.kind) =
      [.keyword .func, .ident "funcs", .punct .ampCaret, .punct .amp,
        .newline, .int 9223372036854775807, .str "a\x22\x5c\n", .char 39, .eof] :=
  lex_sourceText _ (by simp [TokenKind.Writable]; decide)

end GoToC
