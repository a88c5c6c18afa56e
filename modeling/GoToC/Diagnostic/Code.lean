/-!
# Error codes

A code is the letter E and four digits, the first of which tells the phase that
reports it. A code keeps its meaning, so that tests and tools may rely on it.
-/

namespace GoToC

/-- The part of the compiler that reports an error. -/
inductive Phase where
  | lex
  | parse
  | check
  | load
  deriving Repr, DecidableEq, Inhabited

/-- What is wrong, apart from where and with which names. -/
inductive ErrorCode where
  | invalidCharacter | invalidInteger | invalidChar | invalidEscape
  | unexpectedToken | expectedExpression | unclosedDelimiter | expectedIdentifier
  | expectedType | expectedLineEnd
  | typeMismatch | notAType | unknownIdentifier | argumentCount | resultCount
  | redefinition | unknownMember | unresolvedType | notCallable | invalidReceiver
  | invalidStatement | typedConstant | invalidTarget | notAValue | notStorable
  | moduleNotFound | moduleUnreadable
  deriving Repr, DecidableEq, Inhabited

namespace ErrorCode

/-- Every code, in the order of its number. -/
def all : List ErrorCode :=
  [invalidCharacter, invalidInteger, invalidChar, invalidEscape,
    unexpectedToken, expectedExpression, unclosedDelimiter, expectedIdentifier,
    expectedType, expectedLineEnd,
    typeMismatch, notAType, unknownIdentifier, argumentCount, resultCount,
    redefinition, unknownMember, unresolvedType, notCallable, invalidReceiver,
    invalidStatement, typedConstant, invalidTarget, notAValue, notStorable,
    moduleNotFound, moduleUnreadable]

def text : ErrorCode → String
  | invalidCharacter => "E0001"
  | invalidInteger => "E0002"
  | invalidChar => "E0003"
  | invalidEscape => "E0004"
  | unexpectedToken => "E1001"
  | expectedExpression => "E1002"
  | unclosedDelimiter => "E1003"
  | expectedIdentifier => "E1004"
  | expectedType => "E1005"
  | expectedLineEnd => "E1006"
  | typeMismatch => "E2001"
  | notAType => "E2002"
  | unknownIdentifier => "E2003"
  | argumentCount => "E2004"
  | resultCount => "E2005"
  | redefinition => "E2006"
  | unknownMember => "E2007"
  | unresolvedType => "E2008"
  | notCallable => "E2009"
  | invalidReceiver => "E2010"
  | invalidStatement => "E2011"
  | typedConstant => "E2012"
  | invalidTarget => "E2013"
  | notAValue => "E2014"
  | notStorable => "E2015"
  | moduleNotFound => "E3001"
  | moduleUnreadable => "E3002"

/-- The meaning of a code in one line: the headline when nothing more is known. -/
def description : ErrorCode → String
  | invalidCharacter => "invalid character in source"
  | invalidInteger => "invalid integer literal"
  | invalidChar => "invalid char literal"
  | invalidEscape => "invalid escape sequence"
  | unexpectedToken => "unexpected token"
  | expectedExpression => "expected expression"
  | unclosedDelimiter => "unclosed delimiter"
  | expectedIdentifier => "expected identifier"
  | expectedType => "expected type"
  | expectedLineEnd => "expected end of line"
  | typeMismatch => "type mismatch"
  | notAType => "expression is not a type"
  | unknownIdentifier => "unknown identifier"
  | argumentCount => "wrong number of call arguments"
  | resultCount => "wrong number of results"
  | redefinition => "name defined more than once"
  | unknownMember => "unknown member"
  | unresolvedType => "type cannot be resolved"
  | notCallable => "value is not callable"
  | invalidReceiver => "invalid method receiver"
  | invalidStatement => "invalid statement"
  | typedConstant => "constants cannot declare a type"
  | invalidTarget => "invalid assignment target"
  | notAValue => "expected a value"
  | notStorable => "type cannot be stored in a variable"
  | moduleNotFound => "module not found"
  | moduleUnreadable => "module could not be read"

def phase : ErrorCode → Phase
  | invalidCharacter | invalidInteger | invalidChar | invalidEscape => .lex
  | unexpectedToken | expectedExpression | unclosedDelimiter | expectedIdentifier
  | expectedType | expectedLineEnd => .parse
  | moduleNotFound | moduleUnreadable => .load
  | _ => .check

end ErrorCode

end GoToC
