import GoToC.Proofs.C.Identifier

/-!
# Reading C expressions

A reader for C expressions that knows nothing of how fragments are made: it takes a text
apart into tokens and groups them by the rules of C. What stands after an operand binds
first, then signs and casts before it, then binary signs by their levels, each grouped to
the left.
-/

namespace GoToC

variable {text name : String} {e right index other : CExpr} {tail : List Char} {c : Char}
  {args : List CExpr}

/-- A C expression as its operators group it; parentheses leave no trace. -/
inductive CTree where
  | number (digits : String)
  /-- A string literal as it stands between its quotes. -/
  | string (text : String)
  | name (text : String)
  | unary (sign : String) (operand : CTree)
  | binary (sign : String) (left right : CTree)
  | cast (type : String) (operand : CTree)
  | sizeof (type : String)
  | member (operand : CTree) (name : String)
  | index (operand position : CTree)
  | call (callee : CTree) (args : List CTree)
  deriving Repr, Inhabited

inductive CToken where
  | number (digits : String)
  | string (text : String)
  | word (text : String)
  | lparen
  | rparen
  | lbracket
  | rbracket
  | comma
  | dot
  /-- Any other sign. -/
  | sign (text : String)
  deriving Repr, DecidableEq, Inhabited

namespace CToken

/-- The signs of two characters. -/
def longSigns : List (List Char) :=
  ["<<", ">>", "<=", ">=", "==", "!=", "&&", "||", "++", "--", "->"].map (·.toList)

def ofSign (c : Char) : CToken :=
  if c = '(' then .lparen
  else if c = ')' then .rparen
  else if c = '[' then .lbracket
  else if c = ']' then .rbracket
  else if c = ',' then .comma
  else if c = '.' then .dot
  else .sign (String.ofList [c])

/-- The token at the front of a text and the number of characters it takes; none for a
blank. -/
def scan (c : Char) (rest : List Char) : Option CToken × Nat :=
  if c = ' ' then (none, 1)
  else if Lexeme.isWordStart c then
    let text := (c :: rest).takeWhile Lexeme.isWordPart
    (some (.word (String.ofList text)), text.length)
  else if c.isDigit then
    let text := (c :: rest).takeWhile Lexeme.isWordPart
    (some (.number (String.ofList text)), text.length)
  else if c = Lexeme.doubleQuote then
    let text := Lexeme.quotedUnits c rest
    (some (.string (String.ofList text)), text.length + 2)
  else if longSigns.contains ((c :: rest).take 2) then
    (some (.sign (String.ofList ((c :: rest).take 2))), 2)
  else (some (ofSign c), 1)

/-- The tokens of a text, the first characters of which are passed over. -/
def ofChars : Nat → List Char → List CToken
  | _, [] => []
  | taken + 1, _ :: rest => ofChars taken rest
  | 0, c :: rest => (scan c rest).1.toList ++ ofChars ((scan c rest).2 - 1) rest

end CToken

namespace CReader

/-- The words that begin a cast when they stand alone in parentheses. -/
def isTypeWord (text : String) : Bool := text != "sizeof" && reservedWords.contains text

def unarySigns : List String := ["-", "!", "~", "*", "&"]

/-- How tightly a binary sign binds. -/
def levels : List (String × Nat) :=
  [("||", 1), ("&&", 2), ("|", 3), ("^", 4), ("&", 5), ("==", 6), ("!=", 6), ("<", 7), (">", 7),
    ("<=", 7), (">=", 7), ("<<", 8), (">>", 8), ("+", 9), ("-", 9), ("*", 10), ("/", 10), ("%", 10)]

mutual

/-- An operand with the signs and casts before it. -/
def readCast : Nat → List CToken → Option (CTree × List CToken)
  | 0, _ => none
  | fuel + 1, tokens =>
      match tokens with
      | .lparen :: .word type :: .rparen :: rest =>
          if isTypeWord type then do
            let (operand, rest) ← readCast fuel rest
            return (.cast type operand, rest)
          else readPrimary fuel tokens
      | .lparen :: .word type :: .sign star :: .rparen :: rest =>
          if isTypeWord type && star = "*" then do
            let (operand, rest) ← readCast fuel rest
            return (.cast (type ++ "*") operand, rest)
          else readPrimary fuel tokens
      | .word text :: .lparen :: .word type :: .rparen :: rest =>
          if text = "sizeof" then some (.sizeof type, rest) else readPrimary fuel tokens
      | .sign text :: rest =>
          if unarySigns.contains text then do
            let (operand, rest) ← readCast fuel rest
            return (.unary text operand, rest)
          else none
      | _ => readPrimary fuel tokens

/-- A name, a literal or an expression in parentheses, with what stands after it. -/
def readPrimary : Nat → List CToken → Option (CTree × List CToken)
  | 0, _ => none
  | fuel + 1, tokens =>
      match tokens with
      | .number digits :: rest => readPostfix fuel (.number digits) rest
      | .string text :: rest => readPostfix fuel (.string text) rest
      | .word text :: rest => readPostfix fuel (.name text) rest
      | .lparen :: rest => do
          let (inner, rest) ← readBinary fuel 0 rest
          match rest with
          | .rparen :: rest => readPostfix fuel inner rest
          | _ => none
      | _ => none

/-- Members, subscripts and calls after an operand. -/
def readPostfix : Nat → CTree → List CToken → Option (CTree × List CToken)
  | 0, _, _ => none
  | fuel + 1, operand, tokens =>
      match tokens with
      | .dot :: .word name :: rest => readPostfix fuel (.member operand name) rest
      | .lbracket :: rest => do
          let (position, rest) ← readBinary fuel 0 rest
          match rest with
          | .rbracket :: rest => readPostfix fuel (.index operand position) rest
          | _ => none
      | .lparen :: .rparen :: rest => readPostfix fuel (.call operand []) rest
      | .lparen :: rest => do
          let (args, rest) ← readArgs fuel rest
          readPostfix fuel (.call operand args) rest
      | _ => some (operand, tokens)

/-- One or more arguments, up to and with the closing parenthesis. -/
def readArgs : Nat → List CToken → Option (List CTree × List CToken)
  | 0, _ => none
  | fuel + 1, tokens => do
      let (arg, rest) ← readBinary fuel 0 tokens
      match rest with
      | .comma :: rest => do
          let (others, rest) ← readArgs fuel rest
          return (arg :: others, rest)
      | .rparen :: rest => return ([arg], rest)
      | _ => none

/-- Operands with binary signs of at least the given level between them. -/
def readBinary : Nat → Nat → List CToken → Option (CTree × List CToken)
  | 0, _, _ => none
  | fuel + 1, level, tokens => do
      let (left, rest) ← readCast fuel tokens
      readOperators fuel level left rest

/-- The binary signs, with operands on their right, that take what was read so far as
their left operand. -/
def readOperators : Nat → Nat → CTree → List CToken → Option (CTree × List CToken)
  | 0, _, _, _ => none
  | fuel + 1, level, left, tokens =>
      match tokens with
      | .sign text :: rest =>
          match levels.lookup text with
          | none => none
          | some found =>
              if found < level then some (left, tokens)
              else do
                let (right, rest) ← readBinary fuel (found + 1) rest
                readOperators fuel level (.binary text left right) rest
      | _ => some (left, tokens)

end

/-- Reads a whole text as one expression. -/
def read (text : String) : Option CTree :=
  let tokens := CToken.ofChars 0 text.toList
  match readBinary (16 * tokens.length + 16) 0 tokens with
  | some (tree, []) => some tree
  | _ => none

end CReader

/-! ## The trees of fragments -/

mutual

/-- The tree that a fragment stands for. -/
def CExpr.tree : CExpr → CTree
  | .int value => .number (toString value)
  | .nil => .cast "void*" (.number "0")
  | .string text =>
      .call (.name "MakeStringFromC") [.string (String.ofList (CText.escape text.toList))]
  | .localVar name => .name name
  | .param name => .name name
  | .result name => .unary "*" (.name name)
  | .global name => .name name
  | .dispatch method => .name ("I_" ++ method)
  | .unary op operand => .unary op.cSign operand.tree
  | .binary op left right =>
      .binary op.cSign left.tree (if op = .andNot then .unary "~" right.tree else right.tree)
  | .field receiver name => .member receiver.tree name
  | .subscript receiver index => .index receiver.tree index.tree
  | .call callee args => .call callee.tree (CExpr.trees args)
  | .addressOf name => .unary "&" (.name name)
  | .toInterface operand => .call (.name "HandleToInterface") [operand.tree]
  | .cast prim operand => .cast prim.cType operand.tree
  | .byteCount operand => .member operand.tree "len"
  | .elementCount operand elem => .binary "/" (.member operand.tree "len") (.sizeof elem)

def CExpr.trees : List CExpr → List CTree
  | [] => []
  | e :: rest => e.tree :: CExpr.trees rest

end

/-! ## The tokens of fragments -/

mutual

/-- The tokens that a fragment is written with. -/
def CExpr.tokens : CExpr → List CToken
  | .int value => [.number (toString value)]
  | .nil => [.lparen, .word "void", .sign "*", .rparen, .number "0"]
  | .string text =>
      [.word "MakeStringFromC", .lparen, .string
        (String.ofList (CText.escape text.toList)), .rparen]
  | .localVar name => [.word name]
  | .param name => [.word name]
  | .result name => [.lparen, .sign "*", .word name, .rparen]
  | .global name => [.word name]
  | .dispatch method => [.word ("I_" ++ method)]
  | .unary op operand =>
      [.lparen, .sign op.cSign, .lparen] ++ operand.tokens ++ [.rparen, .rparen]
  | .binary op left right =>
      [.lparen] ++ left.tokens ++ [.sign op.cSign] ++ (if op = .andNot then [.sign "~"] else [])
        ++ right.tokens ++ [.rparen]
  | .field receiver name => [.lparen] ++ receiver.tokens ++ [.rparen, .dot, .word name]
  | .subscript receiver index =>
      [.lparen] ++ receiver.tokens ++ [.rparen, .lbracket, .lparen] ++ index.tokens
        ++ [.rparen, .rbracket]
  | .call callee args => callee.tokens ++ [.lparen] ++ CExpr.argTokens args ++ [.rparen]
  | .addressOf name => [.sign "&", .word name]
  | .toInterface operand => [.word "HandleToInterface", .lparen] ++ operand.tokens ++ [.rparen]
  | .cast prim operand =>
      [.lparen, .word prim.cType, .rparen, .lparen] ++ operand.tokens ++ [.rparen]
  | .byteCount operand => [.lparen] ++ operand.tokens ++ [.rparen, .dot, .word "len"]
  | .elementCount operand elem =>
      [.lparen, .lparen] ++ operand.tokens
        ++ [.rparen, .dot, .word "len", .sign "/", .word "sizeof", .lparen, .word elem, .rparen,
          .rparen]

/-- The tokens of arguments with commas between them. -/
def CExpr.argTokens : List CExpr → List CToken
  | [] => []
  | e :: rest =>
      e.tokens ++ (match rest with
        | [] => []
        | _ :: _ => [.comma]) ++ CExpr.argTokens rest

end

namespace CToken

/-- No word goes on in a text. -/
def Ends (text : List Char) : Prop := ∀ c ∈ text.head?, Lexeme.isWordPart c = false

theorem ofChars_skip (taken tail : List Char) :
    ofChars taken.length (taken ++ tail) = ofChars 0 tail := by
  induction taken with
  | nil => rfl
  | cons c rest ih => exact ih

/-- A token that takes a piece of text is followed by the tokens of the rest. -/
theorem ofChars_scan {piece : List Char} {token : Option CToken}
    (h : scan c (piece ++ tail) = (token, piece.length + 1)) :
    ofChars 0 (c :: (piece ++ tail)) = token.toList ++ ofChars 0 tail := by
  rw [ofChars, h]
  show token.toList ++ ofChars piece.length (piece ++ tail) = _
  rw [ofChars_skip]

@[simp] theorem ofChars_space (tail : List Char) : ofChars 0 (' ' :: tail) = ofChars 0 tail := rfl

theorem ofChars_word (h : isIdentifier text = true) (hTail : Ends tail) :
    ofChars 0 (text.toList ++ tail) = .word text :: ofChars 0 tail := by
  obtain ⟨c, rest, hText, hStart, hRest⟩ := isIdentifier_eq_true.mp h
  have hAll : (c :: rest).all Lexeme.isWordPart = true := by
    rw [List.all_cons, isWordPart_of_isWordStart hStart, hRest]
    rfl
  have hTake : (c :: (rest ++ tail)).takeWhile Lexeme.isWordPart = c :: rest :=
    Lexeme.takeWhile_run (List.all_eq_true.mp hAll) hTail
  have hBlank : c ≠ ' ' := by
    rintro rfl
    exact absurd hStart (by decide)
  have hScan : scan c (rest ++ tail) = (some (.word text), rest.length + 1) := by
    rw [scan, if_neg hBlank, if_pos hStart, hTake, ← hText]
    show (some (CToken.word (String.ofList text.toList)), text.toList.length) = _
    rw [String.ofList_toList, hText]
    rfl
  rw [hText, List.cons_append, ofChars_scan hScan]
  rfl

theorem ofChars_number (value : Nat) (hTail : Ends tail) :
    ofChars 0 ((toString value).toList ++ tail) = .number (toString value) :: ofChars 0 tail := by
  have hTailWord := isWordTail_toString value
  rw [isWordTail] at hTailWord
  cases hText : (toString value).toList with
  | nil =>
      rw [Nat.toString_eq_repr, Nat.toList_repr] at hText
      exact absurd hText (Nat.toDigits_ne_nil)
  | cons c rest =>
      rw [hText] at hTailWord
      have hDigit : c.isDigit = true := by
        have hMem : c ∈ (toString value).toList := hText ▸ List.mem_cons_self
        rw [Nat.toString_eq_repr, Nat.toList_repr] at hMem
        exact Nat.isDigit_of_mem_toDigits (by decide) (by decide) hMem
      have hTake : (c :: (rest ++ tail)).takeWhile Lexeme.isWordPart = c :: rest :=
        Lexeme.takeWhile_run (List.all_eq_true.mp hTailWord) hTail
      have hBlank : c ≠ ' ' := by
        rintro rfl
        exact absurd hDigit (by decide)
      have hStart := Lexeme.isWordStart_of_isDigit hDigit
      have hScan : scan c (rest ++ tail) = (some (.number (toString value)), rest.length + 1) := by
        rw [scan, if_neg hBlank, hStart, if_neg (by simp), if_pos hDigit, hTake, ← hText]
        show (some (CToken.number (String.ofList (toString value).toList)),
          (toString value).toList.length) = _
        rw [String.ofList_toList, hText]
        rfl
      rw [List.cons_append, ofChars_scan hScan]
      rfl

/-- Whether a character is a sign. -/
def isSign (c : Char) : Bool :=
  c != ' ' && !Lexeme.isWordStart c && !c.isDigit && c != Lexeme.doubleQuote

/-- A sign is a token of its own unless it makes a longer one with the next character. -/
theorem ofChars_sign (h : isSign c = true)
    (hShort : longSigns.contains ((c :: tail).take 2) = false) :
    ofChars 0 (c :: tail) = ofSign c :: ofChars 0 tail := by
  simp only [isSign, Bool.and_eq_true, Bool.not_eq_true', bne_iff_ne] at h
  obtain ⟨⟨⟨hBlank, hStart⟩, hDigit⟩, hQuote⟩ := h
  have hScan : scan c ([] ++ tail) = (some (ofSign c), ([] : List Char).length + 1) := by
    rw [List.nil_append, scan, if_neg hBlank, hStart, if_neg (by simp), hDigit, if_neg (by simp),
      if_neg hQuote, hShort]
    rfl
  have hChars := ofChars_scan hScan
  rwa [List.nil_append] at hChars

/-- A binary sign with a blank after it. -/
theorem ofChars_binary (op : BinaryOp) (tail : List Char) :
    ofChars 0 (op.cSign.toList ++ ' ' :: tail) = .sign op.cSign :: ofChars 0 tail := by
  cases op <;> rfl

theorem ofChars_unary (op : UnaryOp) (tail : List Char) :
    ofChars 0 (op.cSign.toList ++ '(' :: tail) = .sign op.cSign :: ofChars 0 ('(' :: tail) := by
  cases op <;> rfl

/-- The address sign before a name. -/
theorem ofChars_address (h : isIdentifier name = true) (hTail : Ends tail) :
    ofChars 0 ('&' :: (name.toList ++ tail)) = .sign "&" :: .word name :: ofChars 0 tail := by
  rw [← ofChars_word h hTail]
  obtain ⟨c, rest, hText, hStart, hRest⟩ := isIdentifier_eq_true.mp h
  refine ofChars_sign (by decide) ?_
  have hNext : c ≠ '&' := by
    rintro rfl
    exact absurd hStart (by decide)
  rw [hText]
  simp [longSigns, hNext]

/-! A literal is read up to its closing quote, unit by unit. -/

/-- A character that stands for itself in a literal. -/
def isPlainUnit (c : Char) : Bool :=
  c != Literal.backslash && c != Lexeme.doubleQuote && c != '\n'

theorem quotedUnits_plain (tail : List Char) (h : isPlainUnit c = true) :
    Lexeme.quotedUnits Lexeme.doubleQuote (c :: tail) =
      c :: Lexeme.quotedUnits Lexeme.doubleQuote tail := by
  simp only [isPlainUnit, Bool.and_eq_true, bne_iff_ne] at h
  conv => lhs; rw [Lexeme.quotedUnits.eq_def]
  dsimp only
  rw [if_neg h.1.1, if_neg (by simp [h.1.2, h.2])]

theorem isPlainUnit_ofNat : ∀ code < 127, 32 ≤ code → code ≠ 34 → code ≠ 92 →
    isPlainUnit (Char.ofNat code) = true := by decide +kernel

theorem isPlainUnit_octalDigit : ∀ value < 8, isPlainUnit (CText.octalDigit value) = true := by
  decide

theorem quotedUnits_escapeByte (byte : UInt8) (tail : List Char) :
    Lexeme.quotedUnits Lexeme.doubleQuote (CText.escapeByte byte ++ tail) =
      CText.escapeByte byte ++ Lexeme.quotedUnits Lexeme.doubleQuote tail := by
  have hByte : byte.toNat < 256 := byte.toNat_lt
  have hFirst := isPlainUnit_octalDigit (byte.toNat / 64) (by omega)
  unfold CText.escapeByte
  dsimp only
  split
  · exact Lexeme.quotedUnits_escaped (by decide) tail
  · next hQuote =>
      split
      · exact Lexeme.quotedUnits_escaped (by decide) tail
      · next hBackslash =>
          split
          · exact Lexeme.quotedUnits_escaped (by decide) tail
          · split
            · exact Lexeme.quotedUnits_escaped (by decide) tail
            · split
              · exact Lexeme.quotedUnits_escaped (by decide) tail
              · split
                · next hPrintable =>
                    simp only [Bool.and_eq_true, decide_eq_true_eq] at hPrintable
                    exact quotedUnits_plain tail
                      (isPlainUnit_ofNat _ (by omega) hPrintable.1 hQuote hBackslash)
                · simp only [isPlainUnit, Bool.and_eq_true, bne_iff_ne] at hFirst
                  rw [CText.octalEscape]
                  show Lexeme.quotedUnits _ (Literal.backslash :: _ :: _ :: _ :: tail) = _
                  rw [Lexeme.quotedUnits_escaped hFirst.2,
                    quotedUnits_plain _ (isPlainUnit_octalDigit _ (by omega)),
                    quotedUnits_plain _ (isPlainUnit_octalDigit _ (by omega))]
                  rfl

theorem quotedUnits_escape (text tail : List Char) :
    Lexeme.quotedUnits Lexeme.doubleQuote (CText.escape text ++ Lexeme.doubleQuote :: tail) =
      CText.escape text := by
  unfold CText.escape
  induction CText.utf8Bytes text with
  | nil =>
      rw [List.flatMap_nil, List.nil_append, Lexeme.quotedUnits.eq_def]
      dsimp only
      rw [if_neg (by decide), if_pos (by simp)]
  | cons byte rest ih =>
      rw [List.flatMap_cons, List.append_assoc, quotedUnits_escapeByte, ih]

theorem ofChars_string (text tail : List Char) :
    ofChars 0 (Lexeme.doubleQuote :: (CText.escape text ++ Lexeme.doubleQuote :: tail)) =
      .string (String.ofList (CText.escape text)) :: ofChars 0 tail := by
  have hUnits := quotedUnits_escape text tail
  have hScan : scan Lexeme.doubleQuote ((CText.escape text ++ [Lexeme.doubleQuote]) ++ tail) =
      (some (.string (String.ofList (CText.escape text))),
        (CText.escape text ++ [Lexeme.doubleQuote]).length + 1) := by
    rw [List.append_assoc, List.singleton_append, scan, if_neg (by decide), if_neg (by decide),
      if_neg (by decide), if_pos rfl, hUnits]
    simp
  have hChars := ofChars_scan hScan
  rw [List.append_assoc, List.singleton_append] at hChars
  exact hChars

theorem ends_cons (tail : List Char) (h : Lexeme.isWordPart c = false) : Ends (c :: tail) := by
  rintro _ ⟨⟩
  exact h

@[simp] theorem ofChars_lparen (tail : List Char) :
    ofChars 0 ('(' :: tail) = .lparen :: ofChars 0 tail := rfl

@[simp] theorem ofChars_rparen (tail : List Char) :
    ofChars 0 (')' :: tail) = .rparen :: ofChars 0 tail := rfl

@[simp] theorem ofChars_lbracket (tail : List Char) :
    ofChars 0 ('[' :: tail) = .lbracket :: ofChars 0 tail := rfl

@[simp] theorem ofChars_rbracket (tail : List Char) :
    ofChars 0 (']' :: tail) = .rbracket :: ofChars 0 tail := rfl

@[simp] theorem ofChars_comma (tail : List Char) :
    ofChars 0 (',' :: tail) = .comma :: ofChars 0 tail := rfl

@[simp] theorem ofChars_dot (tail : List Char) :
    ofChars 0 ('.' :: tail) = .dot :: ofChars 0 tail := rfl

@[simp] theorem ofChars_star (tail : List Char) :
    ofChars 0 ('*' :: tail) = .sign "*" :: ofChars 0 tail := rfl

@[simp] theorem ofChars_tilde (tail : List Char) :
    ofChars 0 ('~' :: tail) = .sign "~" :: ofChars 0 tail := rfl

@[simp] theorem ofChars_slash (tail : List Char) :
    ofChars 0 ('/' :: tail) = .sign "/" :: ofChars 0 tail := rfl

/-- A word that is no name of the program. -/
theorem ofChars_helper {text : String} {tail : List Char} (h : isIdentifier text = true) :
    ofChars 0 (text.toList ++ '(' :: tail) = .word text :: .lparen :: ofChars 0 tail := by
  rw [ofChars_word h (ends_cons tail (by decide)), ofChars_lparen]

/-- A fragment is written with its tokens, whatever comes after it. -/
def Scans (e : CExpr) : Prop :=
  ∀ tail, Ends tail → ofChars 0 (e.render.toList ++ tail) = e.tokens ++ ofChars 0 tail

/-- Arguments are, with commas between them. -/
def ArgsScan (es : List CExpr) : Prop :=
  ∀ tail, Ends tail → ofChars 0 ((", ".intercalate (CExpr.renderAll es)).toList ++ tail) =
    CExpr.argTokens es ++ ofChars 0 tail

attribute [local simp] CExpr.tokens CExpr.argTokens

theorem scans_nil : Scans .nil := by
  intro tail hTail
  have hZero : ofChars 0 ('0' :: tail) = .number "0" :: ofChars 0 tail :=
    ofChars_number 0 hTail
  show ofChars 0 ('(' :: ("void".toList ++ '*' :: ')' :: '0' :: tail)) = _
  rw [ofChars_lparen, ofChars_word (by decide) (ends_cons _ (by decide)), ofChars_star,
    ofChars_rparen, hZero]
  rfl

theorem scans_string (text : String) : Scans (.string text) := by
  intro tail _
  have hOpen : "MakeStringFromC(\"".toList =
      "MakeStringFromC".toList ++ ['(', Lexeme.doubleQuote] := by decide
  show ofChars 0 (("MakeStringFromC(\"" ++ String.ofList (CText.escape text.toList)
    ++ "\")").toList ++ tail) = _
  simp only [String.toList_append, String.toList_ofList, List.append_assoc, hOpen]
  show ofChars 0 ("MakeStringFromC".toList ++ '(' :: Lexeme.doubleQuote ::
    (CText.escape text.toList ++ Lexeme.doubleQuote :: ')' :: tail)) = _
  rw [ofChars_helper (by decide), ofChars_string, ofChars_rparen]
  rfl

theorem scans_result (h : isIdentifier name = true) : Scans (.result name) := by
  intro tail _
  show ofChars 0 (("(*" ++ name ++ ")").toList ++ tail) = _
  simp only [String.toList_append, List.append_assoc]
  show ofChars 0 ('(' :: '*' :: (name.toList ++ ')' :: tail)) = _
  rw [ofChars_lparen, ofChars_star, ofChars_word h (ends_cons _ (by decide)), ofChars_rparen]
  rfl

section Operand

variable {operand : CExpr} (h : Scans operand)

include h

theorem scans_unary (op : UnaryOp) : Scans (.unary op operand) := by
  intro tail _
  show ofChars 0 (("(" ++ op.cSign ++ "(" ++ operand.render ++ "))").toList ++ tail) = _
  simp only [String.toList_append, List.append_assoc]
  show ofChars 0 ('(' :: (op.cSign.toList ++ '(' :: (operand.render.toList ++
    ')' :: ')' :: tail))) = _
  rw [ofChars_lparen, ofChars_unary, ofChars_lparen, h _ (ends_cons _ (by decide)),
    ofChars_rparen, ofChars_rparen]
  simp

theorem scans_binary (op : BinaryOp) (hRight : Scans right) : Scans (.binary op operand right) := by
  intro tail _
  have hAfter := hRight (')' :: tail) (ends_cons _ (by decide))
  show ofChars 0 (("(" ++ operand.render ++ " " ++ op.cSign ++ " "
    ++ (if op = .andNot then "~" else "") ++ right.render ++ ")").toList ++ tail) = _
  simp only [String.toList_append, List.append_assoc]
  show ofChars 0 ('(' :: (operand.render.toList ++ ' ' :: (op.cSign.toList ++ ' ' ::
    ((if op = .andNot then "~" else "").toList ++ (right.render.toList ++ ')' :: tail))))) = _
  rw [ofChars_lparen, h _ (ends_cons _ (by decide)), ofChars_space, ofChars_binary]
  by_cases hNot : op = .andNot
  · rw [if_pos hNot]
    show _ :: (_ ++ _ :: ofChars 0 ('~' :: (right.render.toList ++ ')' :: tail))) = _
    rw [ofChars_tilde, hAfter, ofChars_rparen]
    simp [hNot]
  · rw [if_neg hNot]
    show _ :: (_ ++ _ :: ofChars 0 (right.render.toList ++ ')' :: tail)) = _
    rw [hAfter, ofChars_rparen]
    simp [hNot]

theorem scans_field (hName : isIdentifier name = true) : Scans (.field operand name) := by
  intro tail hTail
  show ofChars 0 (("(" ++ operand.render ++ ")." ++ name).toList ++ tail) = _
  simp only [String.toList_append, List.append_assoc]
  show ofChars 0 ('(' :: (operand.render.toList ++ ')' :: '.' :: (name.toList ++ tail))) = _
  rw [ofChars_lparen, h _ (ends_cons _ (by decide)), ofChars_rparen, ofChars_dot,
    ofChars_word hName hTail]
  simp

theorem scans_subscript (hIndex : Scans index) : Scans (.subscript operand index) := by
  intro tail _
  show ofChars 0 (("(" ++ operand.render ++ ")[(" ++ index.render ++ ")]").toList ++ tail) = _
  simp only [String.toList_append, List.append_assoc]
  show ofChars 0 ('(' :: (operand.render.toList ++ ')' :: '[' :: '(' ::
    (index.render.toList ++ ')' :: ']' :: tail))) = _
  rw [ofChars_lparen, h _ (ends_cons _ (by decide)), ofChars_rparen, ofChars_lbracket,
    ofChars_lparen, hIndex _ (ends_cons _ (by decide)), ofChars_rparen, ofChars_rbracket]
  simp

theorem scans_call (hArgs : ArgsScan args) : Scans (.call operand args) := by
  intro tail _
  show ofChars 0 ((operand.render ++ "(" ++ ", ".intercalate (CExpr.renderAll args)
    ++ ")").toList ++ tail) = _
  simp only [String.toList_append, List.append_assoc]
  show ofChars 0 (operand.render.toList ++ '(' ::
    ((", ".intercalate (CExpr.renderAll args)).toList ++ ')' :: tail)) = _
  rw [h _ (ends_cons _ (by decide)), ofChars_lparen, hArgs _ (ends_cons _ (by decide)),
    ofChars_rparen]
  simp

theorem scans_toInterface : Scans (.toInterface operand) := by
  intro tail _
  have hOpen : "HandleToInterface(".toList = "HandleToInterface".toList ++ ['('] := by decide
  show ofChars 0 (("HandleToInterface(" ++ operand.render ++ ")").toList ++ tail) = _
  simp only [String.toList_append, List.append_assoc, hOpen]
  show ofChars 0 ("HandleToInterface".toList ++ '(' :: (operand.render.toList ++ ')' :: tail)) = _
  rw [ofChars_helper (by decide), h _ (ends_cons _ (by decide)), ofChars_rparen]
  simp

theorem scans_cast (prim : Prim) : Scans (.cast prim operand) := by
  intro tail _
  show ofChars 0 (("(" ++ prim.cType ++ ")(" ++ operand.render ++ ")").toList ++ tail) = _
  simp only [String.toList_append, List.append_assoc]
  show ofChars 0 ('(' :: (prim.cType.toList ++ ')' :: '(' ::
    (operand.render.toList ++ ')' :: tail))) = _
  rw [ofChars_lparen, ofChars_word (isIdentifier_cType prim) (ends_cons _ (by decide)),
    ofChars_rparen, ofChars_lparen, h _ (ends_cons _ (by decide)), ofChars_rparen]
  simp

theorem scans_byteCount : Scans (.byteCount operand) := by
  intro tail hTail
  show ofChars 0 (("(" ++ operand.render ++ ").len").toList ++ tail) = _
  simp only [String.toList_append, List.append_assoc]
  show ofChars 0 ('(' :: (operand.render.toList ++ ')' :: '.' :: ("len".toList ++ tail))) = _
  rw [ofChars_lparen, h _ (ends_cons _ (by decide)), ofChars_rparen, ofChars_dot,
    ofChars_word (by decide) hTail]
  simp

theorem scans_elementCount {elem : String} (hElem : isIdentifier elem = true) :
    Scans (.elementCount operand elem) := by
  intro tail _
  show ofChars 0 (("((" ++ operand.render ++ ").len / sizeof(" ++ elem ++ "))").toList ++ tail) = _
  simp only [String.toList_append, List.append_assoc]
  show ofChars 0 ('(' :: '(' :: (operand.render.toList ++ ')' :: '.' :: ("len".toList ++
    ' ' :: '/' :: ' ' :: ("sizeof".toList ++ '(' :: (elem.toList ++ ')' :: ')' :: tail))))) = _
  rw [ofChars_lparen, ofChars_lparen, h _ (ends_cons _ (by decide)), ofChars_rparen, ofChars_dot,
    ofChars_word (by decide) (ends_cons _ (by decide)), ofChars_space, ofChars_slash,
    ofChars_space, ofChars_helper (by decide), ofChars_word hElem (ends_cons _ (by decide)),
    ofChars_rparen, ofChars_rparen]
  simp

end Operand

theorem argsScan_single (h : Scans e) : ArgsScan [e] := by
  intro tail hTail
  show ofChars 0 ((", ".intercalate [e.render]).toList ++ tail) = _
  rw [String.intercalate_singleton, h tail hTail]
  simp

theorem argsScan_cons {rest : List CExpr} (h : Scans e) (hRest : ArgsScan (other :: rest)) :
    ArgsScan (e :: other :: rest) := by
  intro tail hTail
  show ofChars 0 ((", ".intercalate (e.render :: other.render ::
    CExpr.renderAll rest)).toList ++ tail) = _
  rw [String.intercalate_cons_cons]
  simp only [String.toList_append, List.append_assoc]
  show ofChars 0 (e.render.toList ++ ',' :: ' ' ::
    ((", ".intercalate (CExpr.renderAll (other :: rest))).toList ++ tail)) = _
  rw [h _ (ends_cons _ (by decide)), ofChars_comma, ofChars_space, hRest tail hTail]
  simp

mutual

theorem scans : (e : CExpr) → e.Fits True → Scans e
  | .int value, _ => fun _ hTail => by
      rw [CExpr.tokens]
      exact ofChars_number value hTail
  | .nil, _ => scans_nil
  | .string text, _ => scans_string text
  | .localVar name, h => fun _ hTail => by
      rw [CExpr.Fits] at h
      rw [CExpr.tokens]
      exact ofChars_word (isIdentifier_of_isCName h) hTail
  | .param name, h => fun _ hTail => by
      rw [CExpr.Fits] at h
      rw [CExpr.tokens]
      exact ofChars_word (isIdentifier_of_isCName h) hTail
  | .result name, h => by
      rw [CExpr.Fits] at h
      exact scans_result (isIdentifier_of_isCName h)
  | .global name, h => fun _ hTail => by
      rw [CExpr.Fits] at h
      rw [CExpr.tokens]
      exact ofChars_word (isIdentifier_of_isCName (h trivial)) hTail
  | .dispatch method, h => fun _ hTail => by
      rw [CExpr.Fits] at h
      rw [CExpr.tokens]
      exact ofChars_word (isIdentifier_of_isCName (isCName_dispatch h)) hTail
  | .unary op operand, h => by
      rw [CExpr.Fits] at h
      exact scans_unary (scans operand h) op
  | .binary op left right, h => by
      rw [CExpr.Fits] at h
      exact scans_binary (scans left h.1) op (scans right h.2)
  | .field receiver name, h => by
      rw [CExpr.Fits] at h
      exact scans_field (scans receiver h.1) h.2
  | .subscript receiver index, h => by
      rw [CExpr.Fits] at h
      exact scans_subscript (scans receiver h.1) (scans index h.2)
  | .call callee args, h => by
      rw [CExpr.Fits] at h
      exact scans_call (scans callee h.2.1) (argsScan args h.2.2)
  | .addressOf name, h => fun tail hTail => by
      rw [CExpr.Fits] at h
      rw [CExpr.tokens]
      show ofChars 0 (("&" ++ name).toList ++ tail) = _
      rw [String.toList_append, List.append_assoc]
      exact ofChars_address (isIdentifier_of_isCName h) hTail
  | .toInterface operand, h => by
      rw [CExpr.Fits] at h
      exact scans_toInterface (scans operand h)
  | .cast prim operand, h => by
      rw [CExpr.Fits] at h
      exact scans_cast (scans operand h) prim
  | .byteCount operand, h => by
      rw [CExpr.Fits] at h
      exact scans_byteCount (scans operand h)
  | .elementCount operand elem, h => by
      rw [CExpr.Fits] at h
      exact scans_elementCount (scans operand h.1) h.2

theorem argsScan : (es : List CExpr) → CExpr.FitAll True es → ArgsScan es
  | [], _ => fun _ _ => by
      rw [CExpr.argTokens]
      rfl
  | [e], h => by
      rw [CExpr.FitAll] at h
      exact argsScan_single (scans e h.1)
  | e :: other :: rest, h => by
      rw [CExpr.FitAll] at h
      exact argsScan_cons (scans e h.1) (argsScan (other :: rest) h.2)

end

end CToken

/-! ## Fragments are read back -/

namespace CReader

variable {fuel level : Nat} {tree : CTree} {inner rest : List CToken}

attribute [local simp] CExpr.tokens CExpr.tree

/-- Nothing that binds to an operand follows. -/
def Stops (tokens : List CToken) : Prop :=
  ∀ token ∈ tokens.head?, token ≠ .dot ∧ token ≠ .lbracket ∧ token ≠ .lparen

/-- The end of an expression: not even a binary sign follows. -/
def Closed (tokens : List CToken) : Prop :=
  Stops tokens ∧ ∀ text, tokens.head? ≠ some (.sign text)

theorem closed_rparen (tokens : List CToken) : Closed (.rparen :: tokens) := by
  simp [Closed, Stops]

theorem closed_comma (tokens : List CToken) : Closed (.comma :: tokens) := by
  simp [Closed, Stops]

theorem stops_sign (text : String) (tokens : List CToken) : Stops (.sign text :: tokens) := by
  simp [Stops]

theorem readPostfix_stops (h : Stops rest) :
    readPostfix (fuel + 1) tree rest = some (tree, rest) := by
  cases rest with
  | nil => rw [readPostfix] <;> simp
  | cons token tail =>
      have hToken := h token rfl
      cases token <;> first | rfl | simp_all

theorem readOperators_closed (h : Closed rest) :
    readOperators (fuel + 1) level tree rest = some (tree, rest) := by
  cases rest with
  | nil => rfl
  | cons token tail =>
      cases token with
      | sign text => exact absurd rfl (h.2 text)
      | _ => rfl

/-- What is in parentheses is no type. -/
def NotType (tokens : List CToken) : Prop :=
  ∀ text tail, tokens = .word text :: tail → isTypeWord text = false

theorem readCast_lparen (h : NotType inner) :
    readCast (fuel + 1) (.lparen :: inner) = readPrimary fuel (.lparen :: inner) := by
  rw [readCast.eq_def]
  dsimp only
  split
  · next hTokens =>
      obtain ⟨-, hInner⟩ := List.cons.inj hTokens
      rw [h _ _ hInner, if_neg (by simp)]
  · next hTokens =>
      obtain ⟨-, hInner⟩ := List.cons.inj hTokens
      rw [h _ _ hInner, if_neg (by simp)]
  · next hTokens => cases hTokens
  · next hTokens => cases hTokens
  · rfl

theorem readCast_word (h : text ≠ "sizeof") :
    readCast (fuel + 1) (.word text :: rest) = readPrimary fuel (.word text :: rest) := by
  rw [readCast.eq_def]
  dsimp only
  split
  · next hTokens => cases hTokens
  · next hTokens => cases hTokens
  · next hTokens =>
      cases hTokens
      rw [if_neg h]
  · next hTokens => cases hTokens
  · rfl

theorem readPostfix_call (h : inner.head? ≠ some .rparen) :
    readPostfix (fuel + 1) tree (.lparen :: inner) =
      (readArgs fuel inner).bind fun found => readPostfix fuel (.call tree found.1) found.2 := by
  rw [readPostfix]
  · rfl
  · rintro tail rfl
    exact h rfl

theorem isTypeWord_void : isTypeWord "void" = true := by
  simp [isTypeWord, reservedWords]

theorem isTypeWord_cType (prim : Prim) : isTypeWord prim.cType = true := by
  cases prim <;> simp [isTypeWord, reservedWords, Prim.all, Prim.cType, Prim.name]

/-- The functions of the run time that fragments call are names. -/
theorem isCName_helpers :
    isCName "MakeStringFromC" = true ∧ isCName "HandleToInterface" = true := by
  decide +kernel

/-- A name is neither a type nor the size operator. -/
theorem isCName_spec (h : isCName text = true) : isTypeWord text = false ∧ text ≠ "sizeof" := by
  have hFree : reservedWords.contains text = false := by
    simpa using (Bool.and_eq_true_iff.mp h).2
  refine ⟨by rw [isTypeWord, hFree, Bool.and_false], ?_⟩
  rintro rfl
  exact absurd hFree (by simp [reservedWords])

/-- What is called is written as one word. -/
theorem tokens_of_isName (hName : e.IsName) (h : e.Fits True) :
    ∃ text, e.tokens = [.word text] ∧ e.tree = .name text ∧ isCName text = true := by
  cases e with
  | localVar name =>
      rw [CExpr.Fits] at h
      exact ⟨name, by simp, by simp, h⟩
  | global name =>
      rw [CExpr.Fits] at h
      exact ⟨name, by simp, by simp, h trivial⟩
  | dispatch method =>
      rw [CExpr.Fits] at h
      exact ⟨_, by simp, by simp, isCName_dispatch h⟩
  | _ => exact hName.elim

/-- The first token of a fragment is no type and no closing parenthesis. -/
theorem tokens_start (e : CExpr) (h : e.Fits True) (rest : List CToken) :
    NotType (e.tokens ++ rest) ∧ (e.tokens ++ rest).head? ≠ some .rparen := by
  have hWord (text : String) (tail : List CToken) (hText : isTypeWord text = false) :
      NotType (.word text :: tail) ∧ (CToken.word text :: tail).head? ≠ some .rparen := by
    refine ⟨?_, by simp⟩
    rintro _ _ ⟨⟩
    exact hText
  have hOther (token : CToken) (tail : List CToken) (hToken : ∀ text, token ≠ .word text)
      (hClose : token ≠ .rparen) :
      NotType (token :: tail) ∧ (token :: tail).head? ≠ some .rparen := by
    refine ⟨?_, by simpa using hClose⟩
    rintro text _ ⟨⟩
    exact absurd rfl (hToken text)
  cases e with
  | string text => exact hWord _ _ (isCName_spec isCName_helpers.1).1
  | localVar name =>
      rw [CExpr.Fits] at h
      exact hWord _ _ (isCName_spec h).1
  | param name =>
      rw [CExpr.Fits] at h
      exact hWord _ _ (isCName_spec h).1
  | global name =>
      rw [CExpr.Fits] at h
      exact hWord _ _ (isCName_spec (h trivial)).1
  | dispatch method =>
      rw [CExpr.Fits] at h
      exact hWord _ _ (isCName_spec (isCName_dispatch h)).1
  | call callee args =>
      rw [CExpr.Fits] at h
      obtain ⟨text, hTokens, -, hName⟩ := tokens_of_isName h.1 h.2.1
      rw [CExpr.tokens, hTokens]
      exact hWord _ _ (isCName_spec hName).1
  | toInterface operand => exact hWord _ _ (isCName_spec isCName_helpers.2).1
  | _ => exact hOther _ _ (by simp) (by simp)

theorem readCast_sign {after : List CToken} (h : unarySigns.contains text = true)
    (hOperand : readCast fuel rest = some (tree, after)) :
    readCast (fuel + 1) (.sign text :: rest) = some (.unary text tree, after) := by
  rw [readCast, if_pos h, hOperand]
  rfl

theorem readBinary_of_cast {after : List CToken} (hClosed : Closed after)
    (hCast : readCast (fuel + 1) rest = some (tree, after)) :
    readBinary (fuel + 2) level rest = some (tree, after) := by
  rw [readBinary, hCast]
  exact readOperators_closed hClosed

/-- A name that no call or member follows. -/
theorem readCast_name (h : isCName text = true) (hRest : Stops rest) :
    readCast (fuel + 3) (.word text :: rest) = some (.name text, rest) := by
  rw [readCast_word (isCName_spec h).2, readPrimary]
  exact readPostfix_stops hRest

/-- A fragment is read as its tree, if there are steps enough and nothing binds to it. -/
def Readable (e : CExpr) : Prop :=
  ∀ fuel rest, 16 * e.tokens.length ≤ fuel → Stops rest →
    readCast fuel (e.tokens ++ rest) = some (e.tree, rest)

namespace Readable

variable {e : CExpr}

theorem binary (h : Readable e) (hFuel : 16 * e.tokens.length + 1 ≤ fuel) (hRest : Closed rest) :
    readBinary (fuel + 1) level (e.tokens ++ rest) = some (e.tree, rest) := by
  obtain ⟨fuel, rfl⟩ : ∃ n, fuel = n + 1 := ⟨fuel - 1, by omega⟩
  exact readBinary_of_cast hRest (h _ rest (by omega) hRest.1)

theorem primary (h : Readable e) (hFuel : 16 * e.tokens.length + 2 ≤ fuel) :
    readPrimary (fuel + 1) (.lparen :: (e.tokens ++ .rparen :: rest)) =
      readPostfix fuel e.tree rest := by
  obtain ⟨fuel, rfl⟩ : ∃ n, fuel = n + 1 := ⟨fuel - 1, by omega⟩
  rw [readPrimary, h.binary (by omega) (closed_rparen rest)]
  rfl

theorem cast (h : Readable e) (hFits : e.Fits True) (hFuel : 16 * e.tokens.length + 2 ≤ fuel) :
    readCast (fuel + 2) (.lparen :: (e.tokens ++ .rparen :: rest)) =
      readPostfix fuel e.tree rest := by
  rw [readCast_lparen (tokens_start e hFits _).1, h.primary hFuel]

end Readable

theorem cSign_unary (op : UnaryOp) : unarySigns.contains op.cSign = true := by
  cases op <;> decide

theorem cSign_level (op : BinaryOp) : ∃ found, levels.lookup op.cSign = some found := by
  cases op <;> exact ⟨_, rfl⟩

/-- One operator between two operands. -/
theorem readBinary_operator {found : Nat} {left right : CTree} {tokens middle after : List CToken}
    (hLevel : levels.lookup text = some found)
    (hLeft : readCast (fuel + 3) tokens = some (left, .sign text :: middle))
    (hRight : readCast (fuel + 1) middle = some (right, after)) (hClosed : Closed after) :
    readBinary (fuel + 4) 0 tokens = some (.binary text left right, after) := by
  rw [readBinary, hLeft]
  show readOperators (fuel + 3) 0 left (.sign text :: middle) = _
  rw [readOperators, hLevel]
  show (if found < 0 then _ else _) = _
  rw [if_neg (by omega), readBinary_of_cast hClosed hRight]
  exact readOperators_closed hClosed

/-- A helper function of the runtime with one argument. -/
theorem readCast_helper {arg : CTree} {tokens : List CToken} (hName : isCName text = true)
    (hStart : (tokens ++ .rparen :: rest).head? ≠ some .rparen)
    (hArg : readBinary fuel 0 (tokens ++ .rparen :: rest) = some (arg, .rparen :: rest))
    (hRest : Stops rest) :
    readCast (fuel + 4) (.word text :: .lparen :: (tokens ++ .rparen :: rest)) =
      some (.call (.name text) [arg], rest) := by
  rw [readCast_word (isCName_spec hName).2, readPrimary, readPostfix_call hStart, readArgs, hArg]
  exact readPostfix_stops hRest

/-- Arguments are read as their trees up to the parenthesis that closes them, if there are steps
enough. -/
def ArgsReadable (args : List CExpr) : Prop :=
  ∀ fuel rest, 16 * (CExpr.argTokens args).length + 4 ≤ fuel →
    readArgs fuel (CExpr.argTokens args ++ .rparen :: rest) = some (CExpr.trees args, rest)

/-! Each form of a fragment is readable if its parts are. -/

theorem readable_of {tokens : List CToken} (hTokens : e.tokens = tokens)
    (hSome : 1 ≤ tokens.length) (h : ∀ fuel rest, 16 * tokens.length ≤ fuel + 10 → Stops rest →
      readCast (fuel + 10) (tokens ++ rest) = some (e.tree, rest)) : Readable e := by
  intro fuel rest hFuel hRest
  rw [hTokens] at hFuel ⊢
  obtain ⟨fuel, rfl⟩ : ∃ n, fuel = n + 10 := ⟨fuel - 10, by omega⟩
  exact h fuel rest hFuel hRest

theorem readable_name (hTokens : e.tokens = [.word text]) (hTree : e.tree = .name text)
    (hName : isCName text = true) : Readable e := by
  refine readable_of hTokens (by simp) fun fuel rest _ hRest => ?_
  rw [hTree]
  exact readCast_name hName hRest

theorem readable_int (value : Nat) : Readable (.int value) := by
  refine readable_of (by rw [CExpr.tokens]) (by simp) fun fuel rest _ hRest => ?_
  rw [CExpr.tree]
  exact readPostfix_stops hRest

theorem readable_nil : Readable .nil := by
  refine readable_of (by rw [CExpr.tokens]) (by simp) fun fuel rest _ hRest => ?_
  have hZero : readCast (fuel + 9) (.number "0" :: rest) = some (.number "0", rest) :=
    readPostfix_stops hRest
  rw [CExpr.tree]
  show readCast (fuel + 10) (.lparen :: .word "void" :: .sign "*" :: .rparen :: .number "0" ::
    rest) = _
  rw [readCast, if_pos (by simp [isTypeWord_void]), hZero]
  rfl

theorem readable_string (text : String) : Readable (.string text) := by
  refine readable_of (by rw [CExpr.tokens]) (by simp) fun fuel rest _ hRest => ?_
  rw [CExpr.tree]
  have hInner : readCast (fuel + 5)
      (.string (String.ofList (CText.escape text.toList)) :: .rparen :: rest) =
        some (.string (String.ofList (CText.escape text.toList)), .rparen :: rest) := by
    rw [readCast, readPrimary]
    · exact readPostfix_stops (closed_rparen rest).1
    all_goals simp
  show readCast (fuel + 10) (.word "MakeStringFromC" :: .lparen ::
    ([.string (String.ofList (CText.escape text.toList))] ++ .rparen :: rest)) = _
  exact readCast_helper isCName_helpers.1 (by simp)
    (readBinary_of_cast (closed_rparen rest) hInner) hRest

theorem readable_result (h : isCName name = true) : Readable (.result name) := by
  refine readable_of (by rw [CExpr.tokens]) (by simp) fun fuel rest _ hRest => ?_
  rw [CExpr.tree]
  show readCast (fuel + 10) (.lparen :: .sign "*" :: .word name :: .rparen :: rest) = _
  have hInner : readBinary (fuel + 8) 0 (.sign "*" :: .word name :: .rparen :: rest) =
      some (.unary "*" (.name name), .rparen :: rest) :=
    readBinary_of_cast (closed_rparen rest)
      (readCast_sign (by decide) (readCast_name h (closed_rparen rest).1))
  rw [readCast_lparen (by rintro _ _ ⟨⟩), readPrimary, hInner]
  exact readPostfix_stops hRest

theorem readable_addressOf (h : isCName name = true) : Readable (.addressOf name) := by
  refine readable_of (by rw [CExpr.tokens]) (by simp) fun fuel rest _ hRest => ?_
  rw [CExpr.tree]
  exact readCast_sign (by decide) (readCast_name h hRest)

section Operand

variable {operand : CExpr} (h : operand.Fits True) (hOperand : Readable operand)

include h hOperand

theorem readable_unary (op : UnaryOp) : Readable (.unary op operand) := by
  refine readable_of (by rw [CExpr.tokens]) (by simp) fun fuel rest hFuel hRest => ?_
  simp only [List.length_append, List.length_cons, List.length_nil] at hFuel
  have hInner : readCast (fuel + 6) (.lparen :: (operand.tokens ++ .rparen :: .rparen :: rest)) =
      some (operand.tree, .rparen :: rest) := by
    rw [hOperand.cast h (by omega)]
    exact readPostfix_stops (closed_rparen rest).1
  have hWhole : readBinary (fuel + 8) 0 (.sign op.cSign :: .lparen ::
      (operand.tokens ++ .rparen :: .rparen :: rest)) =
        some (.unary op.cSign operand.tree, .rparen :: rest) :=
    readBinary_of_cast (closed_rparen rest) (readCast_sign (cSign_unary op) hInner)
  rw [CExpr.tree]
  simp only [List.append_assoc, List.cons_append, List.nil_append]
  rw [readCast_lparen (by rintro _ _ ⟨⟩), readPrimary, hWhole]
  exact readPostfix_stops hRest

theorem readable_toInterface : Readable (.toInterface operand) := by
  refine readable_of (by rw [CExpr.tokens]) (by simp) fun fuel rest hFuel hRest => ?_
  simp only [List.length_append, List.length_cons, List.length_nil] at hFuel
  rw [CExpr.tree]
  simp only [List.append_assoc, List.cons_append, List.nil_append]
  exact readCast_helper isCName_helpers.2 (tokens_start operand h _).2
    (hOperand.binary (by omega) (closed_rparen rest)) hRest

theorem readable_cast (prim : Prim) : Readable (.cast prim operand) := by
  refine readable_of (by rw [CExpr.tokens]) (by simp) fun fuel rest hFuel hRest => ?_
  simp only [List.length_append, List.length_cons, List.length_nil] at hFuel
  rw [CExpr.tree]
  simp only [List.append_assoc, List.cons_append, List.nil_append]
  rw [readCast, if_pos (isTypeWord_cType prim), hOperand.cast h (by omega), readPostfix_stops hRest]
  rfl

theorem readable_field (name : String) : Readable (.field operand name) := by
  refine readable_of (by rw [CExpr.tokens]) (by simp) fun fuel rest hFuel hRest => ?_
  simp only [List.length_append, List.length_cons, List.length_nil] at hFuel
  rw [CExpr.tree]
  simp only [List.append_assoc, List.cons_append, List.nil_append]
  rw [hOperand.cast h (by omega), readPostfix]
  exact readPostfix_stops hRest

theorem readable_byteCount : Readable (.byteCount operand) := by
  -- it is read as a member
  have hTokens : (CExpr.byteCount operand).tokens = (CExpr.field operand "len").tokens := by
    simp
  have hTree : (CExpr.byteCount operand).tree = (CExpr.field operand "len").tree := by
    simp
  rw [Readable, hTokens, hTree]
  exact readable_field h hOperand "len"

theorem readable_elementCount (elem : String) : Readable (.elementCount operand elem) := by
  refine readable_of (by rw [CExpr.tokens]) (by simp) fun fuel rest hFuel hRest => ?_
  simp only [List.length_append, List.length_cons, List.length_nil] at hFuel
  obtain ⟨fuel, rfl⟩ : ∃ n, fuel = n + 10 := ⟨fuel - 10, by omega⟩
  have hLength (tail : List CToken) : readCast (fuel + 17)
      (.lparen :: (operand.tokens ++ .rparen :: .dot :: .word "len" :: .sign "/" :: tail)) =
        some (.member operand.tree "len", .sign "/" :: tail) := by
    rw [hOperand.cast h (by omega), readPostfix]
    exact readPostfix_stops (stops_sign _ _)
  have hSize : readCast (fuel + 15) (.word "sizeof" :: .lparen :: .word elem :: .rparen ::
      .rparen :: rest) = some (.sizeof elem, .rparen :: rest) := by
    rw [readCast, if_pos rfl]
  have hLevel : levels.lookup "/" = some 10 := rfl
  have hWhole := readBinary_operator hLevel (hLength _) hSize (closed_rparen rest)
  rw [CExpr.tree]
  simp only [List.append_assoc, List.cons_append, List.nil_append]
  rw [readCast_lparen (by rintro _ _ ⟨⟩), readPrimary, hWhole]
  exact readPostfix_stops hRest

theorem readable_subscript (hFits : index.Fits True) (hIndex : Readable index) :
    Readable (.subscript operand index) := by
  refine readable_of (by rw [CExpr.tokens]) (by simp) fun fuel rest hFuel hRest => ?_
  simp only [List.length_append, List.length_cons, List.length_nil] at hFuel
  have hClosed : Closed (.rbracket :: rest) := by simp [Closed, Stops]
  have hPosition : readBinary (fuel + 7) 0
      (.lparen :: (index.tokens ++ .rparen :: .rbracket :: rest)) =
        some (index.tree, .rbracket :: rest) := by
    refine readBinary_of_cast hClosed ?_
    rw [hIndex.cast hFits (by omega)]
    exact readPostfix_stops hClosed.1
  rw [CExpr.tree]
  simp only [List.append_assoc, List.cons_append, List.nil_append]
  rw [hOperand.cast h (by omega), readPostfix, hPosition]
  exact readPostfix_stops hRest

theorem readable_binary (op : BinaryOp) (hRight : Readable right) :
    Readable (.binary op operand right) := by
  refine readable_of (by rw [CExpr.tokens]) (by simp) fun fuel rest hFuel hRest => ?_
  simp only [List.length_append, List.length_cons, List.length_nil] at hFuel
  obtain ⟨found, hLevel⟩ := cSign_level op
  -- The right operand, with the complement before it if there is one.
  have hAfter : readCast (fuel + 5) ((if op = .andNot then [.sign "~"] else []) ++
      (right.tokens ++ .rparen :: rest)) =
        some (if op = .andNot then .unary "~" right.tree else right.tree, .rparen :: rest) := by
    split
    · exact readCast_sign (by decide) (hRight _ _ (by omega) (closed_rparen rest).1)
    · exact hRight _ _ (by omega) (closed_rparen rest).1
  have hWhole := readBinary_operator hLevel (hOperand (fuel + 7) _ (by omega) (stops_sign _ _))
    hAfter (closed_rparen rest)
  rw [CExpr.tree]
  simp only [List.append_assoc, List.cons_append, List.nil_append]
  rw [readCast_lparen (tokens_start operand h _).1, readPrimary, hWhole]
  exact readPostfix_stops hRest

end Operand

theorem readable_call {callee : CExpr} (hName : callee.IsName) (hCallee : callee.Fits True)
    (hFit : CExpr.FitAll True args) (hArgs : args ≠ [] → ArgsReadable args) :
    Readable (.call callee args) := by
  obtain ⟨text, hTokens, hTree, hText⟩ := tokens_of_isName hName hCallee
  refine readable_of (by rw [CExpr.tokens, hTokens]) (by simp) fun fuel rest hFuel hRest => ?_
  simp only [List.length_append, List.length_cons, List.length_nil] at hFuel
  rw [CExpr.tree, hTree]
  simp only [List.append_assoc, List.cons_append, List.nil_append]
  rw [readCast_word (isCName_spec hText).2, readPrimary]
  cases args with
  | nil =>
      rw [CExpr.argTokens, CExpr.trees]
      exact readPostfix_stops hRest
  | cons arg others =>
      have hStart : (CExpr.argTokens (arg :: others) ++ .rparen :: rest).head? ≠ some .rparen := by
        rw [CExpr.FitAll] at hFit
        rw [CExpr.argTokens.eq_def, List.append_assoc, List.append_assoc]
        exact (tokens_start arg hFit.1 _).2
      rw [readPostfix_call hStart, hArgs (by simp) (fuel + 7) rest (by omega)]
      exact readPostfix_stops hRest

theorem argsReadable_single (he : Readable e) : ArgsReadable [e] := by
  intro fuel rest hFuel
  rw [CExpr.argTokens, CExpr.argTokens] at hFuel ⊢
  simp only [List.append_nil] at hFuel ⊢
  obtain ⟨fuel, rfl⟩ : ∃ n, fuel = n + 2 := ⟨fuel - 2, by omega⟩
  rw [readArgs, he.binary (by omega) (closed_rparen rest), CExpr.trees, CExpr.trees]
  rfl

theorem argsReadable_cons {others : List CExpr} (he : Readable e)
    (hOthers : ArgsReadable (other :: others)) : ArgsReadable (e :: other :: others) := by
  intro fuel rest hFuel
  rw [CExpr.argTokens] at hFuel ⊢
  simp only [List.length_append, List.length_cons, List.length_nil] at hFuel
  simp only [List.append_assoc, List.cons_append, List.nil_append]
  obtain ⟨fuel, rfl⟩ : ∃ n, fuel = n + 2 := ⟨fuel - 2, by omega⟩
  rw [readArgs, he.binary (by omega) (closed_comma _)]
  show ((readArgs (fuel + 1) (CExpr.argTokens (other :: others) ++ .rparen :: rest)).bind
    fun found => some (e.tree :: found.1, found.2)) = _
  rw [hOthers _ rest (by omega), CExpr.trees]
  rfl

mutual

theorem readable : (e : CExpr) → e.Fits True → Readable e
  | .int value, _ => readable_int value
  | .nil, _ => readable_nil
  | .string text, _ => readable_string text
  | .localVar name, h => by
      rw [CExpr.Fits] at h
      exact readable_name (by simp) (by simp) h
  | .param name, h => by
      rw [CExpr.Fits] at h
      exact readable_name (by simp) (by simp) h
  | .result name, h => by
      rw [CExpr.Fits] at h
      exact readable_result h
  | .global name, h => by
      rw [CExpr.Fits] at h
      exact readable_name (by simp) (by simp) (h trivial)
  | .dispatch method, h => by
      rw [CExpr.Fits] at h
      exact readable_name (by simp) (by simp) (isCName_dispatch h)
  | .unary op operand, h => by
      rw [CExpr.Fits] at h
      exact readable_unary h (readable operand h) op
  | .binary op left right, h => by
      rw [CExpr.Fits] at h
      exact readable_binary h.1 (readable left h.1) op (readable right h.2)
  | .field receiver name, h => by
      rw [CExpr.Fits] at h
      exact readable_field h.1 (readable receiver h.1) name
  | .subscript receiver index, h => by
      rw [CExpr.Fits] at h
      exact readable_subscript h.1 (readable receiver h.1) h.2 (readable index h.2)
  | .call callee args, h => by
      rw [CExpr.Fits] at h
      exact readable_call h.1 h.2.1 h.2.2 (readableArgs args h.2.2)
  | .addressOf name, h => by
      rw [CExpr.Fits] at h
      exact readable_addressOf h
  | .toInterface operand, h => by
      rw [CExpr.Fits] at h
      exact readable_toInterface h (readable operand h)
  | .cast prim operand, h => by
      rw [CExpr.Fits] at h
      exact readable_cast h (readable operand h) prim
  | .byteCount operand, h => by
      rw [CExpr.Fits] at h
      exact readable_byteCount h (readable operand h)
  | .elementCount operand elem, h => by
      rw [CExpr.Fits] at h
      exact readable_elementCount h.1 (readable operand h.1) elem

theorem readableArgs : (es : List CExpr) → CExpr.FitAll True es → es ≠ [] → ArgsReadable es
  | [e], h, _ => by
      rw [CExpr.FitAll] at h
      exact argsReadable_single (readable e h.1)
  | e :: other :: es, h, _ => by
      rw [CExpr.FitAll] at h
      exact argsReadable_cons (readable e h.1) (readableArgs (other :: es) h.2 (by simp))

end

/-- A fragment is read back as the tree that it stands for. -/
theorem read_render (h : e.Fits True) : read e.render = some e.tree := by
  have hTokens := CToken.scans e h [] (by rintro _ ⟨⟩)
  have hRest : CToken.ofChars 0 [] = [] := rfl
  rw [List.append_nil, hRest, List.append_nil] at hTokens
  have hRead : readBinary (16 * e.tokens.length + 16) 0 (e.tokens ++ []) = some (e.tree, []) :=
    (readable e h).binary (by omega) (by simp [Closed, Stops])
  rw [List.append_nil] at hRead
  unfold read
  dsimp only
  rw [hTokens, hRead]

end CReader

end GoToC
