/-!
# Text in C string literals

A text is written byte by byte in UTF-8. Printable bytes stand for themselves, except
that quotes and backslashes are marked; line feeds, tabs and carriage returns have
escapes of their own, and every other byte is three octal digits.
-/

namespace GoToC.CText

/-- The bytes of a text in UTF-8. -/
def utf8Bytes (text : List Char) : List UInt8 := text.flatMap String.utf8EncodeChar

/-- The octal digit of a value below eight. -/
def octalDigit (value : Nat) : Char := Char.ofNat (48 + value)

/-- A byte as a backslash and three octal digits. -/
def octalEscape (byte : Nat) : List Char :=
  ['\x5c', octalDigit (byte / 64), octalDigit (byte / 8 % 8), octalDigit (byte % 8)]

/-- A byte inside a string literal. -/
def escapeByte (byte : UInt8) : List Char :=
  let code := byte.toNat
  if code = 0x22 then ['\x5c', '\x22']
  else if code = 0x5c then ['\x5c', '\x5c']
  else if code = 0x0a then ['\x5c', 'n']
  else if code = 0x09 then ['\x5c', 't']
  else if code = 0x0d then ['\x5c', 'r']
  else if 0x20 ≤ code && code ≤ 0x7e then [Char.ofNat code]
  else octalEscape code

/-- A text as it stands between the quotes of a string literal. -/
def escape (text : List Char) : List Char := (utf8Bytes text).flatMap escapeByte

end GoToC.CText
