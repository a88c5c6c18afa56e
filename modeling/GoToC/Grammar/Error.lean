import GoToC.Diagnostic.Basic
import GoToC.Token.Basic

/-!
# Errors of the grammar

Reading a source file stops at the first token that fits no rule. A token that is
itself an error of the lexer is reported as that.
-/

namespace GoToC

/-- The first place where a source file departs from the grammar. -/
structure ParseError where
  code : ErrorCode
  message : String
  span : Span
  /-- What was being read, as in "function signature". -/
  context : Option String
  deriving Repr, DecidableEq, Inhabited

/-- The code under which an error of the lexer is reported. -/
def LexError.code : LexError → ErrorCode
  | .invalidCharacter => .invalidCharacter
  | .octalLiteral => .invalidInteger
  | .integerOverflow => .invalidInteger
  | .badCharLiteral => .invalidChar
  | .badEscape => .invalidEscape

namespace ParseError

/-- The report of an error token. -/
def lexical (cause : LexError) (span : Span) : ParseError :=
  ⟨cause.code, cause.message, span, none⟩

/-- What a rule wants next: a fixed token, or something that only words describe. -/
inductive Wanted where
  | token (text : String)
  | thing (text : String)
  deriving Repr, DecidableEq, Inhabited

def Wanted.text : Wanted → String
  | .token text => text
  | .thing text => text

/--
Something was wanted and something else found. Where a fixed token is missing at
the end of a line or of the file, a delimiter was left open.
-/
def unexpected (wanted : Wanted) (found : TokenKind) (span : Span) : ParseError :=
  match found with
  | .error cause => lexical cause span
  | _ =>
      let code := match wanted with
        | .token _ => if found.isTerminator then .unclosedDelimiter else .unexpectedToken
        | .thing _ => .unexpectedToken
      ⟨code, "expected " ++ wanted.text ++ ", found " ++ found.describe, span, none⟩

/-- Records what was being read, unless an inner rule has done so already. -/
def within (error : ParseError) (context : String) : ParseError :=
  match error.context with
  | some _ => error
  | none => { error with context := some context }

/-- The remark at the place of the error. -/
def remark (error : ParseError) : String :=
  if error.code = .unclosedDelimiter then "unclosed here"
  else if error.code.phase = .lex then "invalid token"
  else "unexpected token"

def toDiagnostic (error : ParseError) : Diagnostic :=
  let diagnostic := (Diagnostic.ofCode error.code).withMessage error.message
    |>.withSite error.span error.remark
  match error.context with
  | some context => diagnostic.withNote ("while parsing " ++ context)
  | none => diagnostic

end ParseError

end GoToC
