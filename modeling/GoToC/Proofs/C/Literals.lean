import GoToC.Proofs.C.Reading
import GoToC.Proofs.Token.Patterns
import Mathlib.Data.Bool.AllAny

/-!
# String literals of C

A reader for string literals that goes by the rules of C: behind a backslash stands one of the
letters and signs that name a byte, or one to three octal digits; every other character stands for
its bytes in UTF-8. A text that is escaped is read back as its own bytes, whatever stands behind
the literal.
-/

namespace GoToC.CText

open Lexeme (doubleQuote)
open Literal (backslash)
open scoped Computability

/-- The bytes that are named by a single character behind a backslash. -/
def simpleEscapes : List (Char × UInt8) :=
  [('\x27', 0x27), ('\x22', 0x22), ('?', 0x3f), ('\x5c', 0x5c), ('a', 0x07), ('b', 0x08),
    ('f', 0x0c), ('n', 0x0a), ('r', 0x0d), ('t', 0x09), ('v', 0x0b)]

/-- The octal digits at the front of a text, three at most. -/
def octalRun (text : List Char) : List Char := (text.takeWhile Literal.isOctal).take 3

def octalValue (digits : List Char) : Nat :=
  digits.foldl (fun value digit => 8 * value + Literal.digitValue digit) 0

/-- Puts bytes in front of those that are read from the rest. -/
def withBytes (bytes : List UInt8) (found : Option (List UInt8 × List Char)) :
    Option (List UInt8 × List Char) :=
  found.map fun result => (bytes ++ result.1, result.2)

/-- Reads a literal from behind its opening quote: its bytes and what stands behind its closing
quote. A literal that is not closed on its line or has any other escape is not read. -/
def readLiteral : List Char → Option (List UInt8 × List Char)
  | [] => none
  | c :: rest =>
      if c = doubleQuote then some ([], rest)
      else if c = '\n' then none
      else if c = backslash then
        let digits := octalRun rest
        if digits = [] then
          match rest with
          | [] => none
          | d :: rest =>
              (simpleEscapes.lookup d).bind fun byte => withBytes [byte] (readLiteral rest)
        else if octalValue digits ≤ 255 then
          withBytes [UInt8.ofNat (octalValue digits)] (readLiteral (rest.drop digits.length))
        else none
      else withBytes (String.utf8EncodeChar c) (readLiteral rest)
termination_by text => text.length
decreasing_by all_goals simp_wf; try omega

/-! ## How bytes are escaped -/

/-- Whether a character is printable ASCII. -/
def isPrintable (c : Char) : Bool := 0x20 ≤ c.toNat && c.toNat ≤ 0x7e

/-- A byte stands for itself, is named by a character behind a backslash, or is given by three octal
digits. -/
inductive Escapes (byte : UInt8) : List Char → Prop where
  | plain (c : Char) (hPrintable : isPrintable c = true)
      (hPlain : Lexeme.isPlain doubleQuote c = true) (hCode : c.toNat = byte.toNat) :
      Escapes byte [c]
  | simple (d : Char) (hPrintable : isPrintable d = true) (hOctal : Literal.isOctal d = false)
      (hByte : simpleEscapes.lookup d = some byte)
      (hChar : Literal.simpleEscape d = Char.ofNat byte.toNat) : Escapes byte [backslash, d]
  | octal (hundreds tens ones : Nat) (hHundreds : hundreds < 8) (hTens : tens < 8)
      (hOnes : ones < 8) (hByte : 64 * hundreds + 8 * tens + ones = byte.toNat) :
      Escapes byte [backslash, octalDigit hundreds, octalDigit tens, octalDigit ones]

theorem plain_ofNat : ∀ code < 127, 32 ≤ code → code ≠ 34 → code ≠ 92 →
    isPrintable (Char.ofNat code) = true ∧ Lexeme.isPlain doubleQuote (Char.ofNat code) = true ∧
      (Char.ofNat code).toNat = code := by decide +kernel

theorem octalDigit_spec : ∀ value < 8, isPrintable (octalDigit value) = true ∧
    Literal.isOctal (octalDigit value) = true ∧ Literal.digitValue (octalDigit value) = value := by
  decide

theorem escapeByte_escapes (byte : UInt8) : Escapes byte (escapeByte byte) := by
  have hByte : byte.toNat < 256 := byte.toNat_lt
  have named (code : UInt8) (h : byte.toNat = code.toNat) : byte = code := UInt8.toNat_inj.mp h
  unfold escapeByte
  dsimp only
  split
  · next h =>
      cases named 0x22 h
      exact .simple _ rfl rfl rfl rfl
  split
  · next h =>
      cases named 0x5c h
      exact .simple _ rfl rfl rfl rfl
  split
  · next h =>
      cases named 0x0a h
      exact .simple _ rfl rfl rfl rfl
  split
  · next h =>
      cases named 0x09 h
      exact .simple _ rfl rfl rfl rfl
  split
  · next h =>
      cases named 0x0d h
      exact .simple _ rfl rfl rfl rfl
  split
  · next hQuote hBackslash _ _ _ hPrintable =>
      rw [Bool.and_eq_true, decide_eq_true_eq, decide_eq_true_eq] at hPrintable
      obtain ⟨hChar, hPlain, hCode⟩ :=
        plain_ofNat byte.toNat (by omega) hPrintable.1 hQuote hBackslash
      exact .plain _ hChar hPlain hCode
  · exact .octal _ _ _ (by omega) (by omega) (by omega) (by omega)

/-! ## Reading escaped text -/

/-- Three octal digits are read as they are, whatever follows them. -/
theorem octalRun_digits {a b c : Nat} (ha : a < 8) (hb : b < 8) (hc : c < 8) (later : List Char) :
    octalRun (octalDigit a :: octalDigit b :: octalDigit c :: later) =
      [octalDigit a, octalDigit b, octalDigit c] := by
  simp [octalRun, (octalDigit_spec a ha).2.1, (octalDigit_spec b hb).2.1,
    (octalDigit_spec c hc).2.1]

theorem utf8EncodeChar_ascii {c : Char} (h : c.toNat < 0x80) :
    String.utf8EncodeChar c = [UInt8.ofNat c.toNat] := by
  have hSize : c.utf8Size = 1 := by
    rw [Char.utf8Size_eq_one_iff, UInt32.le_iff_toNat_le]
    exact Nat.le_of_lt_succ h
  rw [String.utf8EncodeChar_eq_singleton hSize]
  rfl

namespace Escapes

variable {byte : UInt8} {escaped : List Char}

theorem printable (h : Escapes byte escaped) : ∀ c ∈ escaped, isPrintable c = true := by
  cases h with
  | plain c hPrintable => simpa using hPrintable
  | simple d hPrintable => simpa using ⟨rfl, hPrintable⟩
  | octal a b c ha hb hc =>
      simpa using
        ⟨rfl, (octalDigit_spec a ha).1, (octalDigit_spec b hb).1, (octalDigit_spec c hc).1⟩

/-- An escaped byte is read back in front of anything. -/
theorem readLiteral (h : Escapes byte escaped) (later : List Char) :
    readLiteral (escaped ++ later) = withBytes [byte] (CText.readLiteral later) := by
  cases h with
  | plain c hPrintable hPlain hCode =>
      simp only [Lexeme.isPlain, Bool.and_eq_true, bne_iff_ne] at hPlain
      simp only [isPrintable, Bool.and_eq_true, decide_eq_true_eq] at hPrintable
      have hBytes := utf8EncodeChar_ascii (c := c) (by omega)
      rw [hCode, UInt8.ofNat_toNat] at hBytes
      rw [List.singleton_append, CText.readLiteral.eq_def]
      dsimp only
      rw [if_neg hPlain.1.1, if_neg hPlain.2, if_neg hPlain.1.2, hBytes]
  | simple d hPrintable hOctal hByte =>
      have hRun : octalRun (d :: later) = [] := by simp [octalRun, hOctal]
      rw [List.cons_append, List.singleton_append, CText.readLiteral.eq_def]
      dsimp only
      rw [if_neg (by decide), if_neg (by decide), if_pos rfl, if_pos hRun, hByte, Option.bind_some]
  | octal a b c ha hb hc hByte =>
      have hValue : octalValue [octalDigit a, octalDigit b, octalDigit c] = byte.toNat := by
        simp only [octalValue, List.foldl_cons, List.foldl_nil, (octalDigit_spec a ha).2.2,
          (octalDigit_spec b hb).2.2, (octalDigit_spec c hc).2.2]
        omega
      have hLimit : byte.toNat ≤ 255 := Nat.le_of_lt_succ byte.toNat_lt
      simp only [List.cons_append, List.nil_append]
      rw [CText.readLiteral.eq_def]
      dsimp only
      rw [if_neg (by decide), if_neg (by decide), if_pos rfl, octalRun_digits ha hb hc,
        if_neg (by simp), hValue, if_pos hLimit, UInt8.ofNat_toNat]
      rfl

/-- The escapes of source text name the same byte, as the character of that code. -/
theorem unescape (h : Escapes byte escaped) (later : List Char) :
    Literal.unescape (escaped ++ later) =
      (Literal.unescape later).map (Char.ofNat byte.toNat :: ·) := by
  cases h with
  | plain c hPrintable hPlain hCode =>
      simp only [Lexeme.isPlain, Bool.and_eq_true, bne_iff_ne] at hPlain
      rw [List.singleton_append, Literal.unescape.eq_def, ← hCode, Char.ofNat_toNat]
      dsimp only
      rw [if_neg hPlain.1.2]
  | simple d hPrintable hOctal hByte hChar =>
      rw [List.cons_append, List.singleton_append, Literal.unescape.eq_def]
      dsimp only
      rw [if_pos rfl, hOctal, if_neg (by simp), hChar]
  | octal a b c ha hb hc hByte =>
      have hLimit : byte.toNat < 256 := byte.toNat_lt
      have hDecoded : Literal.octalEscape (octalDigit a) (octalDigit b) (octalDigit c) =
          some (Char.ofNat byte.toNat) := by
        simp only [Literal.octalEscape, (octalDigit_spec a ha).2.2, (octalDigit_spec b hb).2,
          (octalDigit_spec c hc).2, hByte, Bool.and_self, Bool.true_and, decide_eq_true_eq]
        rw [if_pos (by omega)]
      simp only [List.cons_append, List.nil_append]
      rw [Literal.unescape, if_pos rfl, (octalDigit_spec a ha).2.1, if_pos rfl, hDecoded,
        Option.bind_some]

end Escapes

/-! ## Whole texts -/

theorem isPrintable_of_mem_escape {text : List Char} {c : Char} (h : c ∈ escape text) :
    isPrintable c = true := by
  obtain ⟨byte, -, hMem⟩ := List.mem_flatMap.mp h
  exact (escapeByte_escapes byte).printable c hMem

theorem readLiteral_escape (text later : List Char) :
    readLiteral (escape text ++ doubleQuote :: later) = some (utf8Bytes text, later) := by
  unfold escape
  induction utf8Bytes text with
  | nil =>
      rw [List.flatMap_nil, List.nil_append, readLiteral.eq_def]
      dsimp only
      rw [if_pos rfl]
  | cons byte rest ih =>
      rw [List.flatMap_cons, List.append_assoc, (escapeByte_escapes byte).readLiteral, ih]
      rfl

/-- The lexer reads an escaped text as the characters whose codes are its bytes. -/
theorem unescape_escape (text : List Char) : Literal.unescape (escape text) =
      some ((utf8Bytes text).map fun byte => Char.ofNat byte.toNat) := by
  unfold escape
  induction utf8Bytes text with
  | nil => rfl
  | cons byte rest ih =>
      rw [List.flatMap_cons, (escapeByte_escapes byte).unescape, ih]
      rfl

/-- The bytes of ASCII text are the codes of its characters. -/
theorem map_utf8Bytes_ascii {text : List Char} (h : ∀ c ∈ text, c.toNat < 0x80) :
    ((utf8Bytes text).map fun byte => Char.ofNat byte.toNat) = text := by
  induction text with
  | nil => rfl
  | cons c rest ih =>
      obtain ⟨hc, hRest⟩ := List.forall_mem_cons.mp h
      have hByte : (UInt8.ofNat c.toNat).toNat = c.toNat :=
        UInt8.toNat_ofNat_of_lt' (Nat.lt_trans hc (by decide))
      rw [utf8Bytes, List.flatMap_cons, utf8EncodeChar_ascii hc, List.singleton_append,
        List.map_cons, hByte, Char.ofNat_toNat]
      exact congrArg (c :: ·) (ih hRest)

theorem utf8Bytes_toList (text : String) : utf8Bytes text.toList = text.toUTF8.data.toList := by
  have hBytes : text.toUTF8 = (utf8Bytes text.toList).toByteArray := by
    rw [String.toUTF8, ← String.utf8Encode_toList, List.utf8Encode, utf8Bytes]
  rw [hBytes]
  simp

/-- An escaped text is printable and stands between the quotes of a literal as whole units: none of
its quotes is bare, and no backslash is left at its end. C reads the literal as the bytes of the
text, up to its closing quote and no further. The lexer of source text reads escaped ASCII back. -/
theorem escaped_text_read_back (text : String) :
    (∀ later, readLiteral (escape text.toList ++ doubleQuote :: later) =
      some (text.toUTF8.data.toList, later)) ∧
    (∀ c ∈ escape text.toList, isPrintable c = true) ∧
    escape text.toList ∈ (quotedUnit doubleQuote)∗ ∧
    ((∀ c ∈ text.toList, c.toNat < 0x80) →
      Literal.unescape (escape text.toList) = some text.toList) := by
  refine ⟨fun later => ?_, fun c => isPrintable_of_mem_escape, ?_, fun hAscii => ?_⟩
  · rw [readLiteral_escape, utf8Bytes_toList]
  · have hUnits : Lexeme.quotedUnits doubleQuote (escape text.toList ++ [doubleQuote]) ∈
        (quotedUnit doubleQuote)∗ := Lexeme.quotedUnits_mem _
    rwa [CToken.quotedUnits_escape] at hUnits
  · rw [unescape_escape, map_utf8Bytes_ascii hAscii]

theorem escaped_text_read_back_quoted : (∀ c ∈ "say \"1\\2\"\n".toList, c.toNat < 0x80) ∧
      Literal.unescape (escape "say \"1\\2\"\n".toList) = some "say \"1\\2\"\n".toList := by
  have hAscii : ∀ c ∈ "say \"1\\2\"\n".toList, c.toNat < 0x80 :=
    List.all_iff_forall_prop.mp (by decide +kernel)
  exact ⟨hAscii, (escaped_text_read_back _).2.2.2 hAscii⟩

/-- Behind an octal escape a digit stands for itself. -/
example : readLiteral ('\x5c' :: '0' :: '0' :: '1' :: '7' :: doubleQuote :: []) =
    some ([0x01, 0x37], []) := by
  decide +kernel

end GoToC.CText
