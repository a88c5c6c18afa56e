import GoToC.Grammar.Error
import GoToC.Token.Cursor
import GoToC.Tree.Basic

/-!
# Parsers

A parser reads tokens at a cursor and gives a result or the first error. The rules of
the grammar call each other with a number of steps that they may take; `exhausted` is
the answer of a rule that has none left, and is kept apart from every error.
-/

namespace GoToC.Grammar

/-- Why a parser gives no result. -/
inductive Failure where
  | error (cause : ParseError)
  | exhausted
  deriving Repr, DecidableEq, Inhabited

/-- Where a parser is, and how many expression nodes were made so far. -/
structure State where
  cursor : Cursor
  exprCount : Nat
  deriving Repr, Inhabited

abbrev Parser (α : Type) := StateT State (Except Failure) α

def fail {α : Type} (cause : ParseError) : Parser α := throw (.error cause)

/-- The answer of a rule that may take no more steps. -/
def exhausted {α : Type} : Parser α := throw .exhausted

def cursor : Parser Cursor := do return (← get).cursor

def kind : Parser TokenKind := do return (← cursor).kind

def span : Parser Span := do return (← cursor).span

/-- The span of the token that was read last. -/
def previousSpan : Parser Span := do return (← cursor).previous

def setCursor (cursor : Cursor) : Parser Unit :=
  modify fun state => { state with cursor := cursor }

/-- Reads the current token, whatever it is. -/
def advance : Parser Token := do
  let at_ ← cursor
  setCursor at_.next
  return at_.current

def check (wanted : TokenKind) : Parser Bool := do return (← cursor).check wanted

def checkSign (sign : Punct) : Parser Bool := check (.punct sign)

/-- Reads the current token if it is the given sign, and tells whether it was. -/
def eatSign (sign : Punct) : Parser Bool := do
  let (eaten, next) := (← cursor).eat (.punct sign)
  setCursor next
  return eaten

def skipNewlines : Parser Unit := do setCursor (← cursor).skipNewlines

def skipTerminators : Parser Unit := do setCursor (← cursor).skipTerminators

/-- Fails at the current token, where something else was wanted. -/
def unexpected {α : Type} (wanted : ParseError.Wanted) : Parser α := do
  fail (ParseError.unexpected wanted (← kind) (← span))

/-- Reads a token of the given kind and gives its span. -/
def expect (wanted : TokenKind) : Parser Span := do
  if ← check wanted then
    return (← advance).span
  else
    unexpected (.token ("`" ++ wanted.displayName ++ "`"))

def expectSign (sign : Punct) : Parser Span := expect (.punct sign)

def expectWord (word : Keyword) : Parser Span := expect (.keyword word)

/-- Reads an identifier. -/
def expectIdent : Parser (String × Span) := do
  match ← kind with
  | .ident name =>
      let token ← advance
      return (name, token.span)
  | found =>
      fail ⟨.expectedIdentifier, "expected identifier, found " ++ found.describe, ← span, none⟩

/-- A declaration or statement is followed by a line end, a semicolon, the end of the
file or, in a block, its closing brace; none of them is read. -/
def expectTerminator : Parser Unit := do
  match ← kind with
  | .punct .rbrace => return
  | .error cause => fail (ParseError.lexical cause (← span))
  | found =>
      if found.isTerminator then return
      else fail ⟨.expectedLineEnd, "expected end of line, found " ++ found.describe, ← span, none⟩

/-- Makes an expression node, which is counted. -/
def node (expr : Expr) : Parser Expr := do
  modify fun state => { state with exprCount := state.exprCount + 1 }
  return expr

/-- Says of any error what was being read. -/
def within {α : Type} (context : String) (parser : Parser α) : Parser α := fun state =>
  match parser state with
  | .error (.error cause) => .error (.error (cause.within context))
  | other => other

end GoToC.Grammar
