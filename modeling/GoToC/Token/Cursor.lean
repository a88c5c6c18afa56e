import GoToC.Token.Basic

/-!
# Token cursor

A place in a token list. There is always a current token: the cursor stops at the
end-of-file token and never moves past it.
-/

namespace GoToC

/-- A place in a token list: what was read last, what is read next, and what follows. -/
structure Cursor where
  /-- The number of tokens before the current one. -/
  position : Nat
  /-- The span of the token before the current one. -/
  previous : Span
  current : Token
  rest : List Token
  deriving Repr, Inhabited

namespace Cursor

/-- The cursor at the first token; an empty list counts as one that holds the end of file. -/
def ofTokens : List Token → Cursor
  | [] => ⟨0, Span.nowhere, ⟨.eof, Span.nowhere⟩, []⟩
  | token :: rest => ⟨0, Span.nowhere, token, rest⟩

def kind (cursor : Cursor) : TokenKind := cursor.current.kind

def span (cursor : Cursor) : Span := cursor.current.span

/-- The kind of the token `n` places ahead; past the last token, the end of file. -/
def peek (cursor : Cursor) (n : Nat) : TokenKind :=
  match (cursor.current :: cursor.rest)[n]? with
  | some token => token.kind
  | none => .eof

def check (cursor : Cursor) (kind : TokenKind) : Bool := cursor.kind == kind

def atEnd (cursor : Cursor) : Bool := cursor.check .eof

/-- Moves past the current token, unless it is the end of file. -/
def next (cursor : Cursor) : Cursor :=
  if cursor.atEnd then cursor
  else
    match cursor.rest with
    | [] => cursor
    | token :: rest => ⟨cursor.position + 1, cursor.current.span, token, rest⟩

/-- Moves past the current token if it is of the given kind, and tells whether it was. -/
def eat (cursor : Cursor) (kind : TokenKind) : Bool × Cursor :=
  if cursor.check kind then (true, cursor.next) else (false, cursor)

/-- The place of the first token that does not satisfy `skip`; the last token always stays. -/
def skipFrom (skip : TokenKind → Bool) (position : Nat) (previous : Span) (current : Token) :
    List Token → Cursor
  | [] => ⟨position, previous, current, []⟩
  | token :: rest =>
      if skip current.kind then skipFrom skip (position + 1) current.span token rest
      else ⟨position, previous, current, token :: rest⟩

/-- Moves to the first token, from here on, that does not satisfy `skip`. -/
def skipWhile (skip : TokenKind → Bool) (cursor : Cursor) : Cursor :=
  skipFrom skip cursor.position cursor.previous cursor.current cursor.rest

def skipNewlines (cursor : Cursor) : Cursor := cursor.skipWhile (· == .newline)

/-- Moves past line ends and semicolons. -/
def skipTerminators (cursor : Cursor) : Cursor :=
  cursor.skipWhile fun kind => kind == .newline || kind == .punct .semicolon

end Cursor

end GoToC
