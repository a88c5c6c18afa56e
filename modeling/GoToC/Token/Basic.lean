import GoToC.Source.Span

/-!
# Tokens

A token is a literal, an identifier, a piece of fixed text (keyword or punctuation),
the end of a line, the end of the file, or an error for text that is none of these.
Line ends are tokens because they end statements and declarations.
-/

namespace GoToC

/-- Why a piece of text is no token. -/
inductive LexError where
  /-- A character that starts no token, or a literal without its closing quote. -/
  | invalidCharacter
  /-- A zero followed by more digits. -/
  | octalLiteral
  /-- An integer above the largest 64-bit signed one. -/
  | integerOverflow
  /-- A character literal that does not hold exactly one character. -/
  | badCharLiteral
  /-- An escape that is cut short or stands for no byte. -/
  | badEscape
  deriving Repr, DecidableEq, Inhabited

namespace LexError

def message : LexError → String
  | invalidCharacter => "invalid character"
  | octalLiteral => "octal literals are not supported"
  | integerOverflow => "integer literal is too large"
  | badCharLiteral => "char literal must hold exactly one character"
  | badEscape => "invalid escape sequence in literal"

end LexError

/-- Words that are not identifiers. -/
inductive Keyword where
  | package | «import» | const | var | type | func | struct | interface | map
  | «if» | «else» | «for» | range | switch | case | default | «return» | «break» | «continue»
  deriving Repr, DecidableEq, Inhabited

namespace Keyword

def all : List Keyword :=
  [package, «import», const, var, type, func, struct, interface, map,
    «if», «else», «for», range, switch, case, default, «return», «break», «continue»]

/-- The characters it is written with. -/
def chars : Keyword → List Char
  | package => ['p', 'a', 'c', 'k', 'a', 'g', 'e']
  | «import» => ['i', 'm', 'p', 'o', 'r', 't']
  | const => ['c', 'o', 'n', 's', 't']
  | var => ['v', 'a', 'r']
  | type => ['t', 'y', 'p', 'e']
  | func => ['f', 'u', 'n', 'c']
  | struct => ['s', 't', 'r', 'u', 'c', 't']
  | interface => ['i', 'n', 't', 'e', 'r', 'f', 'a', 'c', 'e']
  | map => ['m', 'a', 'p']
  | «if» => ['i', 'f']
  | «else» => ['e', 'l', 's', 'e']
  | «for» => ['f', 'o', 'r']
  | range => ['r', 'a', 'n', 'g', 'e']
  | switch => ['s', 'w', 'i', 't', 'c', 'h']
  | case => ['c', 'a', 's', 'e']
  | default => ['d', 'e', 'f', 'a', 'u', 'l', 't']
  | «return» => ['r', 'e', 't', 'u', 'r', 'n']
  | «break» => ['b', 'r', 'e', 'a', 'k']
  | «continue» => ['c', 'o', 'n', 't', 'i', 'n', 'u', 'e']

def spelling (word : Keyword) : String := String.ofList word.chars

end Keyword

/-- Punctuation, assignment signs and operators. -/
inductive Punct where
  | lparen | rparen | lbrace | rbrace | lbracket | rbracket
  | comma | colon | semicolon | dot | ellipsis
  | eq | colonEq | plusEq | minusEq | starEq | plusPlus | minusMinus
  | plus | minus | star | slash | percent | amp | pipe | caret | ampCaret | shl | shr
  | eqEq | notEq | lt | gt | ltEq | gtEq | ampAmp | pipePipe | bang
  deriving Repr, DecidableEq, Inhabited

namespace Punct

def all : List Punct :=
  [lparen, rparen, lbrace, rbrace, lbracket, rbracket,
    comma, colon, semicolon, dot, ellipsis,
    eq, colonEq, plusEq, minusEq, starEq, plusPlus, minusMinus,
    plus, minus, star, slash, percent, amp, pipe, caret, ampCaret, shl, shr,
    eqEq, notEq, lt, gt, ltEq, gtEq, ampAmp, pipePipe, bang]

/-- The characters it is written with. -/
def chars : Punct → List Char
  | lparen => ['(']
  | rparen => [')']
  | lbrace => ['\x7b']
  | rbrace => ['\x7d']
  | lbracket => ['[']
  | rbracket => [']']
  | comma => [',']
  | colon => [':']
  | semicolon => [';']
  | dot => ['.']
  | ellipsis => ['.', '.', '.']
  | eq => ['=']
  | colonEq => [':', '=']
  | plusEq => ['+', '=']
  | minusEq => ['-', '=']
  | starEq => ['*', '=']
  | plusPlus => ['+', '+']
  | minusMinus => ['-', '-']
  | plus => ['+']
  | minus => ['-']
  | star => ['*']
  | slash => ['/']
  | percent => ['%']
  | amp => ['&']
  | pipe => ['|']
  | caret => ['^']
  | ampCaret => ['&', '^']
  | shl => ['<', '<']
  | shr => ['>', '>']
  | eqEq => ['=', '=']
  | notEq => ['!', '=']
  | lt => ['<']
  | gt => ['>']
  | ltEq => ['<', '=']
  | gtEq => ['>', '=']
  | ampAmp => ['&', '&']
  | pipePipe => ['|', '|']
  | bang => ['!']

def spelling (sign : Punct) : String := String.ofList sign.chars

end Punct

/-- What a token is. Two kinds are equal only if the values they carry are. -/
inductive TokenKind where
  | int (value : Nat)
  /-- A string literal, escapes decoded. -/
  | str (text : String)
  /-- A character literal, as its code point. -/
  | char (code : Nat)
  | ident (name : String)
  | keyword (word : Keyword)
  | punct (sign : Punct)
  | newline
  | error (cause : LexError)
  | eof
  deriving Repr, DecidableEq, Inhabited

namespace TokenKind

/-- The text of a fixed token; for the others, what they are called in messages. -/
def displayName : TokenKind → String
  | int _ => "integer"
  | str _ => "string"
  | char _ => "char"
  | ident _ => "identifier"
  | keyword word => word.spelling
  | punct sign => sign.spelling
  | newline => "end of line"
  | error _ => "error"
  | eof => "end of file"

/-- How a message mentions a token that was found: fixed text stands in backquotes. -/
def describe : TokenKind → String
  | keyword word => s!"`{word.spelling}`"
  | punct sign => s!"`{sign.spelling}`"
  | kind => kind.displayName

/-- Whether the token ends a declaration or a statement. -/
def isTerminator : TokenKind → Bool
  | newline => true
  | punct .semicolon => true
  | eof => true
  | _ => false

def isIdent : TokenKind → Bool
  | ident _ => true
  | _ => false

/-- The text that a token brings into a name table, if it brings one. -/
def internedText? : TokenKind → Option String
  | str text => some text
  | ident name => some name
  | _ => none

end TokenKind

/-- A token kind and where it stands. -/
structure Token where
  kind : TokenKind
  span : Span
  deriving Repr, DecidableEq, Inhabited

end GoToC
