import GoToC.Names
import GoToC.Token.Literal

/-!
# Lexer

A text is read from the front. At each place the longest piece that some lexeme
class matches is taken; blanks and comments are dropped, every other piece becomes
one token. A character that starts no lexeme, and a literal that is not closed on
its line, become error tokens, so that reading always goes on to the end.
-/

namespace GoToC

/-- The classes of text that the lexer tells apart. -/
inductive Lexeme where
  | blank
  | comment
  | newline
  | int
  | str
  | char
  | word
  | punct (sign : Punct)
  | invalid
  deriving Repr, DecidableEq, Inhabited

namespace Lexeme

def isBlank (c : Char) : Bool := c == ' ' || c == '\t' || c == '\r'

def isIntPart (c : Char) : Bool := c.isDigit || c == '_'

def isWordStart (c : Char) : Bool := c.isAlpha || c == '_'

def isWordPart (c : Char) : Bool := c.isAlphanum || c == '_'

def doubleQuote : Char := '\x22'

def singleQuote : Char := '\x27'

/--
The longest run of complete units inside a literal closed by `quote`: a unit is a
backslash with the character after it, or one other character that is not the
quote. No unit holds a line feed.
-/
def quotedUnits (quote : Char) : List Char → List Char
  | [] => []
  | c :: rest =>
      if c = Literal.backslash then
        match rest with
        | [] => []
        | d :: rest => if d = '\n' then [] else c :: d :: quotedUnits quote rest
      else if c = quote || c = '\n' then [] else c :: quotedUnits quote rest

/-- A literal after its opening quote: the whole of it if it is closed, an error if not. -/
def scanQuoted (quote : Char) (closed : Lexeme) (rest : List Char) : Lexeme × List Char :=
  let units := quotedUnits quote rest
  if (rest.drop units.length).head? = some quote then
    (closed, quote :: (units ++ [quote]))
  else (.invalid, quote :: units)

/-- The longer of a sign found so far and another that also stands at the front. -/
def longerSign (text : List Char) (best : Option Punct) (sign : Punct) : Option Punct :=
  if sign.chars.isPrefixOf text then
    match best with
    | none => some sign
    | some other => if other.chars.length < sign.chars.length then some sign else best
  else best

/-- The longest sign that stands at the front of a text. -/
def longestSign (text : List Char) : Option Punct :=
  Punct.all.foldl (longerSign text) none

/-- The lexeme at the front of a text and the characters it takes. -/
def scan (text : List Char) : Lexeme × List Char :=
  match text with
  | [] => (.invalid, [])
  | c :: rest =>
      if isBlank c then (.blank, text.takeWhile isBlank)
      else if c = '\n' then (.newline, [c])
      else if c.isDigit then (.int, text.takeWhile isIntPart)
      else if isWordStart c then (.word, text.takeWhile isWordPart)
      else if c = doubleQuote then scanQuoted c .str rest
      else if c = singleQuote then scanQuoted c .char rest
      else if c = '/' && rest.head? = some '/' then (.comment, text.takeWhile (· != '\n'))
      else
        match longestSign text with
        | some sign => (.punct sign, sign.chars)
        | none => (.invalid, [c])

/-- A word is a keyword if it is spelled like one. -/
def wordKind (text : List Char) : TokenKind :=
  match Keyword.all.find? (·.chars == text) with
  | some found => .keyword found
  | none => .ident (String.ofList text)

/-- A literal's token: its value, or the reason why it has none. -/
def literalKind {α : Type} (kind : α → TokenKind) : Except LexError α → TokenKind
  | .ok value => kind value
  | .error cause => .error cause

/-- The text between the quotes of a closed literal. -/
def quotedBody (text : List Char) : List Char := text.tail.dropLast

/-- The token kind that a lexeme with its text becomes; none for blanks and comments. -/
def kind? (text : List Char) : Lexeme → Option TokenKind
  | .blank => none
  | .comment => none
  | .newline => some .newline
  | .int => some (literalKind .int (Literal.integer text))
  | .str => some (literalKind .str (Literal.string (quotedBody text)))
  | .char => some (literalKind .char (Literal.character (quotedBody text)))
  | .word => some (wordKind text)
  | .punct sign => some (.punct sign)
  | .invalid => some (.error .invalidCharacter)

end Lexeme

/--
The tokens of a text whose first character stands at byte `offset`. The first
`taken` characters belong to a lexeme that was read already and are passed over.
-/
def tokensFrom (offset : Nat) : Nat → List Char → List Token
  | _, [] => [⟨.eof, Span.point offset⟩]
  | taken + 1, c :: rest => tokensFrom (offset + c.utf8Size) taken rest
  | 0, c :: rest =>
      let (lexeme, text) := Lexeme.scan (c :: rest)
      let others := tokensFrom (offset + c.utf8Size) (text.length - 1) rest
      match lexeme.kind? text with
      | none => others
      | some kind => ⟨kind, ⟨offset, offset + byteLength text⟩⟩ :: others

/-- The tokens of a source text, the last of which is the end of the file. -/
def lex (source : String) : List Token := tokensFrom 0 0 source.toList

/-- Enters the identifiers and string values of tokens into a name table, in order. -/
def NameTable.addTokens (table : NameTable) (tokens : List Token) : Except NameFault NameTable :=
  Prod.snd <$> table.internAll (tokens.filterMap (·.kind.internedText?))

end GoToC
