import GoToC.Token.Basic

/-!
# Literals

What the text of an integer, string or character literal stands for. Integers are
decimal and may be broken up by underscores. In quoted text a backslash is followed
by `n`, `t`, `r`, by three octal digits naming a byte value, or by a character that
stands for itself.
-/

namespace GoToC.Literal

/-- The largest integer that a literal may denote. -/
def maxInt : Nat := 0x7fffffffffffffff

/-- The value of a digit, counted from the character zero. -/
def digitValue (c : Char) : Nat := c.toNat - 48

/-- The number that decimal digits denote. -/
def decimal (digits : List Char) : Nat :=
  digits.foldl (fun value c => 10 * value + digitValue c) 0

/-- The value of an integer literal; underscores between its digits do not count. -/
def integer (text : List Char) : Except LexError Nat :=
  match text.filter (· != '_') with
  | '0' :: _ :: _ => .error .octalLiteral
  | digits =>
      if decimal digits ≤ maxInt then .ok (decimal digits) else .error .integerOverflow

def backslash : Char := '\x5c'

def isOctal (c : Char) : Bool := '0' ≤ c && c ≤ '7'

/-- The character that a backslash and a following non-octal character stand for. -/
def simpleEscape (c : Char) : Char :=
  if c = 'n' then '\n' else if c = 't' then '\t' else if c = 'r' then '\r' else c

/-- The character that three octal digits stand for, if they name a byte. -/
def octalEscape (a b c : Char) : Option Char :=
  let value := 64 * digitValue a + 8 * digitValue b + digitValue c
  if isOctal b && isOctal c && value ≤ 255 then some (Char.ofNat value) else none

/-- Decodes the text between the quotes of a literal. -/
def unescape : List Char → Option (List Char)
  | [] => some []
  | c :: rest =>
      if c = backslash then
        match rest with
        | [] => none
        | d :: rest =>
            if isOctal d then
              match rest with
              | e :: f :: rest =>
                  (octalEscape d e f).bind fun decoded => (unescape rest).map (decoded :: ·)
              | _ => none
            else (unescape rest).map (simpleEscape d :: ·)
      else (unescape rest).map (c :: ·)

/-- The value of a string literal, given the text between its quotes. -/
def string (body : List Char) : Except LexError String :=
  match unescape body with
  | none => .error .badEscape
  | some text => .ok (String.ofList text)

/-- The code point of a character literal, given the text between its quotes. -/
def character (body : List Char) : Except LexError Nat :=
  match unescape body with
  | none => .error .badEscape
  | some [c] => .ok c.toNat
  | some _ => .error .badCharLiteral

end GoToC.Literal
