import GoToC.Proofs.Token.Lexemes
import Mathlib.Computability.Language

/-!
# Patterns of the token table

The pieces that a text is cut into are described by patterns, each a regular language. A
pattern takes a piece off the front of a text if the piece belongs to its language and no
pattern has a longer piece to offer; of the patterns that share a piece, keywords come before
identifiers. What the lexer scans is taken in this sense, and where it scans nothing that makes
sense, no pattern matches.
-/

namespace GoToC

variable {c : Char}

open Computability

/-- The rows of the token table, with the two kinds of text that become no token. -/
inductive Pattern where
  | blank
  | comment
  | newline
  | int
  | str
  | char
  | ident
  | keyword (word : Keyword)
  | punct (sign : Punct)
  deriving DecidableEq

/-- The texts of a single character that satisfies a test. -/
def oneOf (test : Char → Bool) : Language Char := {text | ∃ c, text = [c] ∧ test c = true}

/-- What stands between quotes: a character that is neither the quote nor a backslash nor a
line feed, or a backslash with any character but a line feed. -/
def quotedUnit (quote : Char) : Language Char :=
  oneOf (Lexeme.isPlain quote) + {[Literal.backslash]} * oneOf (· != '\n')

/-- Literals between quotes of one kind. -/
def quotedText (quote : Char) : Language Char := {[quote]} * (quotedUnit quote)∗ * {[quote]}

namespace Pattern

def language : Pattern → Language Char
  | blank => oneOf Lexeme.isBlank * (oneOf Lexeme.isBlank)∗
  | comment => {['/', '/']} * (oneOf (· != '\n'))∗
  | newline => {['\n']}
  | int => oneOf Char.isDigit * (oneOf Lexeme.isIntPart)∗
  | str => quotedText Lexeme.doubleQuote
  | char => quotedText Lexeme.singleQuote
  | ident => oneOf Lexeme.isWordStart * (oneOf Lexeme.isWordPart)∗
  | keyword word => {word.chars}
  | punct sign => {sign.chars}

/-- The token that a piece of text becomes; blanks and comments become none. -/
def kind? (text : List Char) : Pattern → Option TokenKind
  | blank => none
  | comment => none
  | newline => some .newline
  | int => some (Lexeme.literalKind .int (Literal.integer text))
  | str => some (Lexeme.literalKind .str (Literal.string (Lexeme.quotedBody text)))
  | char => some (Lexeme.literalKind .char (Literal.character (Lexeme.quotedBody text)))
  | ident => some (.ident (String.ofList text))
  | keyword word => some (.keyword word)
  | punct sign => some (.punct sign)

/-- A pattern takes `piece` where `piece ++ rest` is left to read. -/
structure Takes (pattern : Pattern) (piece rest : List Char) : Prop where
  matched : piece ∈ pattern.language
  longest : ∀ other : Pattern, ∀ longer ∈ other.language, longer <+: piece ++ rest →
    longer.length ≤ piece.length
  preferred : ∀ other : Pattern, piece ∈ other.language →
    other = pattern ∨ other = .ident ∧ ∃ word, pattern = .keyword word

end Pattern

/-- No pattern matches the front of a text. -/
def Unmatched (text : List Char) : Prop :=
  ∀ pattern : Pattern, ∀ piece ∈ pattern.language, ¬ piece <+: text

/-! ## Members of the languages -/

section Languages

variable {test first : Char → Bool} {text : List Char} {quote : Char}

theorem mem_kstar_oneOf : text ∈ (oneOf test)∗ ↔ ∀ c ∈ text, test c = true := by
  constructor
  · rintro ⟨pieces, rfl, h⟩ c hc
    obtain ⟨piece, hPiece, hc⟩ := List.mem_flatten.mp hc
    obtain ⟨d, rfl, hd⟩ := h piece hPiece
    rw [List.mem_singleton.mp hc]
    exact hd
  · intro h
    refine ⟨text.map fun c => [c], by rw [← List.flatMap_def, List.flatMap_singleton'],
      fun piece hPiece => ?_⟩
    obtain ⟨c, hc, rfl⟩ := List.mem_map.mp hPiece
    exact ⟨c, rfl, h c hc⟩

theorem cons_mem_oneOf_mul_kstar :
    c :: text ∈ oneOf first * (oneOf test)∗ ↔ first c = true ∧ ∀ d ∈ text, test d = true := by
  constructor
  · rintro ⟨_, ⟨d, rfl, hd⟩, rest, hRest, h⟩
    simp only [List.cons_append, List.nil_append, List.cons.injEq] at h
    obtain ⟨rfl, rfl⟩ := h
    exact ⟨hd, mem_kstar_oneOf.mp hRest⟩
  · rintro ⟨hc, hRest⟩
    exact ⟨[c], ⟨c, rfl, hc⟩, text, mem_kstar_oneOf.mpr hRest, rfl⟩

theorem mem_quotedText :
    text ∈ quotedText quote ↔ ∃ body ∈ (quotedUnit quote)∗, text = quote :: (body ++ [quote]) := by
  constructor
  · rintro ⟨_, ⟨_, rfl, body, hBody, rfl⟩, _, rfl, rfl⟩
    exact ⟨body, hBody, by simp⟩
  · rintro ⟨body, hBody, rfl⟩
    exact ⟨quote :: body, ⟨[quote], rfl, body, hBody, rfl⟩, [quote], rfl, by simp⟩

theorem cons_mem_kstar {language : Language Char} {piece : List Char} (hPiece : piece ∈ language)
    (h : text ∈ language∗) : piece ++ text ∈ language∗ := by
  obtain ⟨pieces, rfl, hPieces⟩ := h
  exact ⟨piece :: pieces, rfl, by simpa using ⟨hPiece, hPieces⟩⟩

end Languages

/-! ## Quoted text -/

namespace Lexeme

variable {quote : Char}

theorem quotedUnits_mem (text : List Char) : quotedUnits quote text ∈ (quotedUnit quote)∗ := by
  fun_induction quotedUnits quote text with
  | case1 => exact Language.nil_mem_kstar _
  | case2 => exact Language.nil_mem_kstar _
  | case3 => exact Language.nil_mem_kstar _
  | case4 d rest h ih =>
      have hUnit : [Literal.backslash, d] ∈ quotedUnit quote :=
        .inr ⟨[Literal.backslash], rfl, [d], ⟨d, rfl, by simpa using h⟩, rfl⟩
      exact cons_mem_kstar hUnit ih
  | case5 => exact Language.nil_mem_kstar _
  | case6 c rest hBackslash h ih =>
      have hUnit : [c] ∈ quotedUnit quote := .inl ⟨c, rfl, by simp_all [isPlain]⟩
      exact cons_mem_kstar hUnit ih

/-- The units of a literal end where its closing quote stands. -/
theorem quotedUnits_closed {body : List Char} (h : body ∈ (quotedUnit quote)∗)
    (hQuote : quote ≠ Literal.backslash) (text : List Char) :
    quotedUnits quote (body ++ quote :: text) = body := by
  obtain ⟨pieces, rfl, hPieces⟩ := h
  induction pieces with
  | nil => exact quotedUnits_quote hQuote text
  | cons piece rest ih =>
      have hRest := ih (List.forall_mem_cons.mp hPieces).2
      rcases hPieces piece List.mem_cons_self with ⟨c, rfl, hc⟩ | ⟨_, rfl, _, ⟨d, rfl, hd⟩, rfl⟩
      · simp only [List.flatten_cons, List.cons_append, List.nil_append]
        rw [quotedUnits_plain hc, hRest]
      · simp only [List.flatten_cons, List.cons_append, List.nil_append]
        rw [quotedUnits_escaped (by simpa using hd), hRest]

end Lexeme

/-! ## First characters -/

/-- What the first character of a piece says about its pattern. -/
inductive Start where
  | blank
  | newline
  | digit
  | letter
  | doubleQuote
  | singleQuote
  | sign
  deriving DecidableEq

def Start.ofChar (c : Char) : Start :=
  if Lexeme.isBlank c then .blank
  else if c = '\n' then .newline
  else if c.isDigit then .digit
  else if Lexeme.isWordStart c then .letter
  else if c = Lexeme.doubleQuote then .doubleQuote
  else if c = Lexeme.singleQuote then .singleQuote
  else .sign

def Pattern.start : Pattern → Start
  | blank => .blank
  | comment => .sign
  | newline => .newline
  | int => .digit
  | str => .doubleQuote
  | char => .singleQuote
  | ident => .letter
  | keyword _ => .letter
  | punct _ => .sign

theorem Start.ofChar_digit (h : c.isDigit = true) : Start.ofChar c = .digit := by
  have hNewline : c ≠ '\n' := by
    rintro rfl
    simp at h
  simp [Start.ofChar, Lexeme.isBlank_eq_false h (by decide), hNewline, h]

theorem Start.ofChar_letter (h : Lexeme.isWordStart c = true) : Start.ofChar c = .letter := by
  have hNewline : c ≠ '\n' := by
    rintro rfl
    simp [Lexeme.isWordStart] at h
  have hDigit : c.isDigit = false := by
    by_contra hDigit
    simp [Lexeme.isWordStart_of_isDigit (by simpa using hDigit)] at h
  simp [Start.ofChar, Lexeme.isBlank_eq_false h (by decide), hNewline, hDigit, h]

/-- Signs and keywords start as their patterns say. -/
theorem Start.ofChar_sign (sign : Punct) : sign.chars.head?.map Start.ofChar = some .sign := by
  cases sign <;> decide

theorem Start.ofChar_keyword (word : Keyword) :
    word.chars.head?.map Start.ofChar = some .letter := by
  cases word <;> decide

/-- A piece is not empty, and its first character goes with its pattern. -/
theorem Pattern.start_of_mem {pattern : Pattern} {text : List Char} (h : text ∈ pattern.language) :
    text.head?.map Start.ofChar = some pattern.start := by
  have hPlus {first test : Char → Bool} {start : Start} (hText : text ∈ oneOf first * (oneOf test)∗)
      (hStart : ∀ c, first c = true → Start.ofChar c = start) :
      text.head?.map Start.ofChar = some start := by
    obtain ⟨_, ⟨c, rfl, hc⟩, rest, -, rfl⟩ := hText
    simp [hStart c hc]
  cases pattern with
  | blank => exact hPlus h fun c hc => by simp [Start.ofChar, hc, start]
  | comment =>
      obtain ⟨_, rfl, rest, -, rfl⟩ := h
      rfl
  | newline =>
      cases h
      decide
  | int => exact hPlus h fun c hc => Start.ofChar_digit hc
  | str =>
      obtain ⟨body, -, rfl⟩ := mem_quotedText.mp h
      rfl
  | char =>
      obtain ⟨body, -, rfl⟩ := mem_quotedText.mp h
      rfl
  | ident => exact hPlus h fun c hc => Start.ofChar_letter hc
  | keyword word =>
      cases h
      exact Start.ofChar_keyword word
  | punct sign =>
      cases h
      exact Start.ofChar_sign sign

end GoToC
