import GoToC.Proofs.C.Literals
import GoToC.Proofs.C.Spelled

/-!
# Nesting of C text

A reader of C text that looks for brackets only. It keeps apart code, string literals and comments,
and it stops at a bracket that closes none or the wrong one. Fragments, statements and items whose
names are made of letters, digits and underscores leave no bracket open: each piece of their text
opens and closes some, and together these come to nothing.
-/

namespace GoToC

variable {c : Char} {body : List CStmt} {copy slice item : String} {cond : Option CExpr}

open Lexeme (doubleQuote)
open Literal (backslash)

/-- What a reader of C text is in the middle of. -/
inductive CMode where
  | code
  /-- Behind a slash that may begin a comment. -/
  | slash
  | comment
  | literal
  /-- Behind a backslash in a string literal. -/
  | escape
  deriving Repr, DecidableEq

/-- Where a reader is, and the brackets that are open there, the innermost first. -/
structure CScan where
  mode : CMode
  opened : List Char
  deriving Repr, DecidableEq

/-- The bracket that another one closes. -/
def bracketOf? : Char → Option Char
  | ')' => some '('
  | ']' => some '['
  | '\x7d' => some '\x7b'
  | _ => none

/-- Whether a character opens a bracket. -/
def isOpening (c : Char) : Bool := c == '(' || c == '[' || c == '\x7b'

namespace CScan

/-- Where a text of C begins and ends. -/
def start : CScan := ⟨.code, []⟩

/-- Reads a character outside of literals and comments. -/
def stepCode (opened : List Char) (c : Char) : Option CScan :=
  if c = doubleQuote then some ⟨.literal, opened⟩
  else if c = '/' then some ⟨.slash, opened⟩
  else if isOpening c then some ⟨.code, c :: opened⟩
  else
    match bracketOf? c, opened with
    | none, _ => some ⟨.code, opened⟩
    | some bracket, found :: outer => if found = bracket then some ⟨.code, outer⟩ else none
    | some _, [] => none

/-- Reads a character. A literal has to be closed on its line, and comments go on to the end of
theirs; any other comment is not read. -/
def step (scan : CScan) (c : Char) : Option CScan :=
  match scan.mode with
  | .code => stepCode scan.opened c
  | .slash =>
      if c = '/' then some ⟨.comment, scan.opened⟩
      else if c = '*' then none
      else stepCode scan.opened c
  | .comment => some ⟨if c = '\n' then .code else .comment, scan.opened⟩
  | .literal =>
      if c = doubleQuote then some ⟨.code, scan.opened⟩
      else if c = backslash then some ⟨.escape, scan.opened⟩
      else if c = '\n' then none
      else some ⟨.literal, scan.opened⟩
  | .escape => if c = '\n' then none else some ⟨.literal, scan.opened⟩

def run (scan : CScan) : List Char → Option CScan
  | [] => some scan
  | c :: rest => (scan.step c).bind fun next => next.run rest

theorem run_append (scan : CScan) (text later : List Char) :
    scan.run (text ++ later) = (scan.run text).bind fun next => next.run later := by
  induction text generalizing scan with
  | nil => rfl
  | cons c rest ih =>
      rw [List.cons_append, run, run]
      cases scan.step c with
      | none => rfl
      | some next => exact ih next

-- brackets of a literal and of a comment do not count, but a pair has to fit
example : start.run "f(\"]\\\"\x7b\") // \x7d\n".toList = some start := by decide

example : start.run "\x7b f(a[0) ]; \x7d".toList = none := by decide

end CScan

/-! ## Pieces of text -/

/-- A piece of code that is read to its end; the brackets that are open before and after it. -/
def Turns (text : String) (before after : List Char) : Prop :=
  (CScan.mk .code before).run text.toList = some ⟨.code, after⟩

/-- A piece of code that closes just what it opens. -/
def Balanced (text : String) : Prop := ∀ opened, Turns text opened opened

section

variable {a b text : String} {first second third opened : List Char}

theorem Turns.append (h : Turns a first second) (h' : Turns b second third) :
    Turns (a ++ b) first third := by
  unfold Turns at h h' ⊢
  rw [String.toList_append, CScan.run_append, h]
  exact h'

theorem Balanced.append (h : Balanced a) (h' : Balanced b) : Balanced (a ++ b) :=
  fun opened => (h opened).append (h' opened)

theorem Balanced.empty : Balanced "" := fun _ => rfl

/-- Letters, digits and underscores are no brackets, nor do they begin anything else. -/
theorem stepCode_wordPart (h : Lexeme.isWordPart c = true) :
    CScan.stepCode opened c = some ⟨.code, opened⟩ := by
  have hOther : ∀ d ∈ [doubleQuote, '/', '(', '[', '\x7b', ')', ']', '\x7d'], c ≠ d := by
    intro d hd hEq
    have hNone : ∀ d ∈ [doubleQuote, '/', '(', '[', '\x7b', ')', ']', '\x7d'],
        Lexeme.isWordPart d = false := List.all_iff_forall_prop.mp (by decide)
    rw [hEq, hNone d hd] at h
    cases h
  simp only [List.forall_mem_cons] at hOther
  obtain ⟨hQuote, hSlash, hParen, hBracket, hBrace, hParen', hBracket', hBrace', -⟩ := hOther
  have hOpening : isOpening c = false := by simp [isOpening, hParen, hBracket, hBrace]
  have hClosing : bracketOf? c = none := by
    unfold bracketOf?
    split
    · exact absurd rfl hParen'
    · exact absurd rfl hBracket'
    · exact absurd rfl hBrace'
    · rfl
  simp [CScan.stepCode, hQuote, hSlash, hOpening, hClosing]

theorem balanced_word (h : isWordTail text = true) : Balanced text := by
  intro opened
  unfold Turns
  rw [isWordTail, List.all_eq_true] at h
  generalize text.toList = chars at h
  induction chars with
  | nil => rfl
  | cons c rest ih =>
      have hStep : (CScan.mk .code opened).step c = some ⟨.code, opened⟩ :=
        stepCode_wordPart (h c List.mem_cons_self)
      rw [CScan.run, hStep]
      exact ih (List.forall_mem_cons.mp h).2

theorem balanced_intercalate {texts : List String} (h : ∀ text ∈ texts, Balanced text) :
    Balanced (", ".intercalate texts) := by
  induction texts with
  | nil => exact .empty
  | cons text rest ih =>
      cases rest with
      | nil =>
          rw [String.intercalate_singleton]
          exact h text List.mem_cons_self
      | cons next others =>
          rw [String.intercalate_cons_cons]
          have hGap : Balanced ", " := fun _ => rfl
          exact ((h text List.mem_cons_self).append hGap).append
            (ih fun t ht => h t (List.mem_cons_of_mem text ht))

end

/-! ## Literals -/

theorem step_plain (h : Lexeme.isPlain doubleQuote c = true) (opened : List Char) :
    (CScan.mk .literal opened).step c = some ⟨.literal, opened⟩ := by
  simp only [Lexeme.isPlain, Bool.and_eq_true, bne_iff_ne] at h
  simp [CScan.step, h.1.1, h.1.2, h.2]

/-- A character behind a backslash is not looked at, unless it ends the line. -/
theorem step_escaped (h : c ≠ '\n') (opened : List Char) :
    (CScan.mk .escape opened).step c = some ⟨.literal, opened⟩ := if_neg h

theorem octalDigit_plain :
    ∀ value < 8, Lexeme.isPlain doubleQuote (CText.octalDigit value) = true := by decide

/-- An escaped byte stays within its literal. -/
theorem CText.Escapes.run {byte : UInt8} {escaped : List Char} (h : Escapes byte escaped)
    (opened : List Char) : (CScan.mk .literal opened).run escaped = some ⟨.literal, opened⟩ := by
  have hBackslash : (CScan.mk .literal opened).step backslash = some ⟨.escape, opened⟩ := rfl
  cases h with
  | plain c _ hPlain => simp [CScan.run, step_plain hPlain]
  | simple d hPrintable =>
      have hLine : d ≠ '\n' := by
        rintro rfl
        cases hPrintable
      simp [CScan.run, hBackslash, step_escaped hLine]
  | octal hundreds tens ones hHundreds hTens hOnes =>
      have hLine : octalDigit hundreds ≠ '\n' := by
        intro hEq
        have hPlain := octalDigit_plain hundreds hHundreds
        rw [hEq] at hPlain
        cases hPlain
      simp [CScan.run, hBackslash, step_escaped hLine, step_plain (octalDigit_plain _ hTens),
        step_plain (octalDigit_plain _ hOnes)]

theorem run_escape (text : List Char) (opened : List Char) :
    (CScan.mk .literal opened).run (CText.escape text) = some ⟨.literal, opened⟩ := by
  unfold CText.escape
  induction CText.utf8Bytes text with
  | nil => rfl
  | cons byte rest ih =>
      rw [List.flatMap_cons, CScan.run_append, (CText.escapeByte_escapes byte).run]
      exact ih

/-- Brackets in a text are not those of the code around it. -/
theorem balanced_string (text : String) : Balanced (CExpr.string text).render := by
  intro opened
  have hOpen : (CScan.mk .code opened).run "MakeStringFromC(\"".toList =
      some ⟨.literal, '(' :: opened⟩ := rfl
  show (CScan.mk .code opened).run ("MakeStringFromC(\"" ++ String.ofList (CText.escape text.toList)
    ++ "\")").toList = some ⟨.code, opened⟩
  rw [String.toList_append, String.toList_append, CScan.run_append, CScan.run_append, hOpen,
    Option.bind_some, String.toList_ofList, run_escape]
  rfl

/-! ## Fragments -/

theorem Diction.balanced {text : String} (h : lettered.Word text) : Balanced text :=
  balanced_word (h trivial)

/-- A fragment that is spelled with words alone. -/
abbrev CExpr.Worded (d : Diction) (e : CExpr) : Prop := e.Spelled d d.words

abbrev CStmt.Worded (d : Diction) (stmt : CStmt) : Prop := stmt.Spelled d d.words

abbrev CStmt.WordedAll (d : Diction) (stmts : List CStmt) : Prop := SpelledAll d d.words stmts

theorem UnaryOp.balanced (op : UnaryOp) : Balanced op.cSign := by
  intro opened
  cases op <;> rfl

/-- The slash of a division is not the beginning of a comment. -/
theorem BinaryOp.balanced_between (op : BinaryOp) : Balanced (" " ++ op.cSign ++ " ") := by
  intro opened
  cases op <;> rfl

namespace CExpr

mutual

/-- A fragment closes all brackets that it opens. -/
theorem balanced_render : (e : CExpr) → e.Worded .lettered → Balanced e.render
  | .int value, _ => balanced_word (isWordTail_toString value)
  | .nil, _ => fun _ => rfl
  | .string text, _ => balanced_string text
  | .localVar name, h | .param name, h => by
      exact Diction.balanced h
  | .global name, h => by
      exact balanced_word h
  | .result name, h => by
      intro opened
      show Turns ("(*" ++ name ++ ")") opened opened
      exact .append (.append rfl (Diction.balanced h _)) rfl
  | .dispatch method, h => by
      intro opened
      show Turns ("I_" ++ method) opened opened
      exact .append rfl (Diction.balanced h opened)
  | .unary op operand, h => by
      intro opened
      show Turns ("(" ++ op.cSign ++ "(" ++ operand.render ++ "))") opened opened
      exact .append (.append (.append (.append rfl (op.balanced _)) rfl)
        (balanced_render operand h _)) rfl
  | .binary op left right, h => by
      intro opened
      have hText : (binary op left right).render = "(" ++ left.render ++ (" " ++ op.cSign ++ " ") ++
          (if op = .andNot then "~" else "") ++ right.render ++ ")" := by
        show "(" ++ left.render ++ " " ++ op.cSign ++ " " ++
          (if op = .andNot then "~" else "") ++ right.render ++ ")" = _
        simp only [String.append_assoc]
      have hComplement : Balanced (if op = .andNot then "~" else "") := by
        intro opened
        split <;> rfl
      rw [hText]
      exact .append (.append (.append (.append (.append rfl (balanced_render left h.1 _))
        (op.balanced_between _)) (hComplement _)) (balanced_render right h.2 _)) rfl
  | .field receiver name, h => by
      intro opened
      show Turns ("(" ++ receiver.render ++ ")." ++ name) opened opened
      exact .append (.append (.append rfl (balanced_render receiver h.1 _)) rfl)
        (Diction.balanced h.2 opened)
  | .subscript receiver index, h => by
      intro opened
      show Turns ("(" ++ receiver.render ++ ")[(" ++ index.render ++ ")]") opened opened
      exact .append (.append (.append (.append rfl (balanced_render receiver h.1 _)) rfl)
        (balanced_render index h.2 _)) rfl
  | .call callee args, h => by
      intro opened
      show Turns (callee.render ++ "(" ++ ", ".intercalate (renderAll args) ++ ")") opened opened
      exact .append (.append (.append (balanced_render callee h.1 _) rfl)
        (balanced_intercalate (balanced_renderAll args h.2) _)) rfl
  | .addressOf name, h => by
      intro opened
      show Turns ("&" ++ name) opened opened
      exact .append rfl (Diction.balanced h opened)
  | .toInterface operand, h => by
      intro opened
      show Turns ("HandleToInterface(" ++ operand.render ++ ")") opened opened
      exact .append (.append rfl (balanced_render operand h _)) rfl
  | .cast prim operand, h => by
      have hType : Balanced prim.cType :=
        balanced_word (isWordTail_of_isIdentifier (isIdentifier_cType prim))
      intro opened
      show Turns ("(" ++ prim.cType ++ ")(" ++ operand.render ++ ")") opened opened
      exact .append (.append (.append (.append rfl (hType _)) rfl)
        (balanced_render operand h _)) rfl
  | .byteCount operand, h => by
      intro opened
      show Turns ("(" ++ operand.render ++ ").len") opened opened
      exact .append (.append rfl (balanced_render operand h _)) rfl
  | .elementCount operand elem, h => by
      intro opened
      show Turns ("((" ++ operand.render ++ ").len / sizeof(" ++ elem ++ "))") opened opened
      exact .append (.append (.append (.append rfl (balanced_render operand h.1 _)) rfl)
        (Diction.balanced h.2 _)) rfl

theorem balanced_renderAll : (es : List CExpr) → SpelledAll .lettered Diction.lettered.words es →
    ∀ text ∈ renderAll es, Balanced text
  | [], _, text, hText => by simp [renderAll] at hText
  | e :: rest, h, text, hText => by
      rw [renderAll] at hText
      rcases List.mem_cons.mp hText with rfl | hText
      · exact balanced_render e h.1
      · exact balanced_renderAll rest h.2 text hText

end

end CExpr

/-! ## Statements -/

/-- Lines that are read to the end of the last one. -/
def LinesTurn (lines : List String) (before after : List Char) : Prop :=
  Turns (String.join (lines.map (· ++ "\n"))) before after

/-- Lines that close just what they open. -/
def LinesBalanced (lines : List String) : Prop := ∀ opened, LinesTurn lines opened opened

section

variable {line : String} {lines others : List String} {first second third : List Char}

theorem LinesTurn.nil : LinesTurn [] first first := rfl

theorem LinesTurn.cons (h : Turns line first second) (h' : LinesTurn lines second third) :
    LinesTurn (line :: lines) first third := by
  have hLine : Turns (line ++ "\n") first second := h.append rfl
  unfold LinesTurn
  rw [List.map_cons, String.join_cons]
  exact hLine.append h'

theorem LinesTurn.append (h : LinesTurn lines first second) (h' : LinesTurn others second third) :
    LinesTurn (lines ++ others) first third := by
  unfold LinesTurn
  rw [List.map_append, String.join_append]
  exact Turns.append h h'

theorem LinesTurn.single (h : Turns line first second) : LinesTurn [line] first second :=
  .cons h .nil

theorem linesBalanced_of_forall (h : ∀ line ∈ lines, Balanced line) : LinesBalanced lines := by
  intro opened
  induction lines with
  | nil => exact .nil
  | cons line rest ih =>
      exact .cons (h line List.mem_cons_self opened)
        (ih fun other hOther => h other (List.mem_cons_of_mem line hOther))

end

namespace SliceBounds

variable {bounds : SliceBounds}

theorem balanced_bytes (h : bounds.Spelled .lettered Diction.lettered.words) {count : String}
    (hCount : Diction.lettered.Word count) : Balanced (bounds.bytes count) := by
  unfold bytes
  split
  · next elem hElem =>
      intro opened
      exact .append (.append (.append (.append rfl (Diction.balanced hCount _)) rfl)
        (Diction.balanced (h.elem elem hElem) _)) rfl
  · exact Diction.balanced hCount

theorem balanced_loBytes (h : bounds.Spelled .lettered Diction.lettered.words) :
    Balanced bounds.loBytes := by
  unfold loBytes
  split
  · next lo hLo => exact balanced_bytes h (h.lo lo hLo)
  · exact fun _ => rfl

theorem balanced_hiBytes (h : bounds.Spelled .lettered Diction.lettered.words)
    (hCopy : Diction.lettered.Word copy) : Balanced (bounds.hiBytes copy) := by
  unfold hiBytes
  split
  · next hi hHi => exact balanced_bytes h (h.hi hi hHi)
  · exact fun _ => .append (.append rfl (Diction.balanced hCopy _)) rfl

theorem balanced_lines (h : bounds.Spelled .lettered Diction.lettered.words)
    (hCopy : Diction.lettered.Word copy) : LinesBalanced (bounds.lines copy) := by
  have hLo := balanced_loBytes h
  have hHi := balanced_hiBytes h hCopy
  have hLength : Balanced ("(" ++ copy ++ ").len") := fun _ =>
    .append (.append rfl (Diction.balanced hCopy _)) rfl
  have hCheck : Balanced ("assert(0 <= " ++ bounds.loBytes ++ " && " ++ bounds.loBytes ++ " <= " ++
      bounds.hiBytes copy ++ " && " ++ bounds.hiBytes copy ++ " <= " ++ ("(" ++ copy ++ ").len") ++
        ");") := fun _ =>
    .append (.append (.append (.append (.append (.append (.append (.append (.append (.append rfl
      (hLo _)) rfl) (hLo _)) rfl) (hHi _)) rfl) (hHi _)) rfl) (hLength _)) rfl
  have hLine : Balanced ("(" ++ copy ++ ").offset += " ++ bounds.loBytes ++ ";") := fun _ =>
    .append (.append (.append (.append rfl (Diction.balanced hCopy _)) rfl) (hLo _)) rfl
  have hBoth : Balanced ("(" ++ copy ++ ").len" ++ " = " ++ bounds.hiBytes copy ++ " - " ++
      bounds.loBytes ++ ";") := fun _ =>
    .append (.append (.append (.append (.append (hLength _) rfl) (hHi _)) rfl) (hLo _)) rfl
  have hUpper : Balanced ("(" ++ copy ++ ").len" ++ " = " ++ bounds.hiBytes copy ++ ";") :=
    fun _ => .append (.append (.append (hLength _) rfl) (hHi _)) rfl
  unfold lines
  dsimp only
  apply linesBalanced_of_forall
  split
  · simp only [List.forall_mem_cons]
    exact ⟨hCheck, hLine, hBoth, fun _ h => by cases h⟩
  · simp only [List.forall_mem_cons]
    exact ⟨hCheck, hUpper, fun _ h => by cases h⟩

end SliceBounds

/-- The operator of an assignment, up to what it is given. -/
theorem BinaryOp.balanced_update (op : BinaryOp) : Balanced (op.cSign ++ "= ") := by
  intro opened
  cases op <;> rfl

theorem JumpKind.balanced_label (kind : JumpKind) (number : Nat) :
    Balanced (kind.label number) := by
  have hNumber : Balanced (toString number) := balanced_word (isWordTail_toString number)
  intro opened
  cases kind
  · show Turns ("Break_" ++ toString number) opened opened
    exact .append rfl (hNumber _)
  · show Turns ("Cont_" ++ toString number) opened opened
    exact .append rfl (hNumber _)

namespace CStmt

theorem balanced_labelLine (kind : JumpKind) (number : Nat) : Balanced (labelLine kind number) :=
  fun _ => .append (kind.balanced_label number _) rfl

theorem balanced_appendLine (hSlice : Diction.lettered.Word slice)
    (hItem : Diction.lettered.Word item) : Balanced (appendLine slice item) :=
  fun _ => .append (.append (.append (.append (.append (.append (.append
    (Diction.balanced hSlice _) rfl) (Diction.balanced hSlice _)) rfl)
    (Diction.balanced hItem _)) rfl)
    (Diction.balanced hItem _)) rfl

theorem balanced_condLines (h : ∀ c ∈ cond, c.Worded .lettered) :
    LinesBalanced (condLines cond) := by
  unfold condLines
  split
  · exact fun _ => .nil
  · next c =>
      have hCond : Balanced ("t_bool _while_ = (t_bool)(" ++ c.render ++ ");") := fun _ =>
        .append (.append rfl (c.balanced_render (h c rfl) _)) rfl
      exact fun opened => .cons (hCond opened) (.single rfl)

theorem linesBalanced_appendAll {source elem : String}
    (h : (appendAll slice source elem item).Worded .lettered) :
    LinesBalanced (appendAll slice source elem item).lines := by
  intro opened
  have hCount : (CExpr.elementCount (.localVar source) elem).Worded .lettered := by
    rw [CExpr.Worded, CExpr.Spelled, CExpr.Spelled]
    exact ⟨h.2.1, h.2.2.1⟩
  show LinesTurn ["\x7b " ++ Prim.int.cType ++ " _n_ = "
      ++ (CExpr.elementCount (.localVar source) elem).render ++ ";",
    "for (" ++ Prim.int.cType ++ " _i_ = 0; _i_ < _n_; _i_++) \x7b",
    "SliceGet(" ++ source ++ ", sizeof(" ++ item ++ "), _i_, &" ++ item ++ ");",
    appendLine slice item,
    "\x7d\x7d"] opened opened
  have hHead : Turns ("\x7b " ++ Prim.int.cType ++ " _n_ = " ++
      (CExpr.elementCount (.localVar source) elem).render ++ ";") opened ('\x7b' :: opened) :=
    .append (.append rfl (CExpr.balanced_render _ hCount _)) rfl
  have hFetch : Balanced ("SliceGet(" ++ source ++ ", sizeof(" ++ item ++ "), _i_, &" ++ item ++
      ");") := fun _ =>
    .append (.append (.append (.append (.append (.append rfl (Diction.balanced h.2.1 _)) rfl)
      (Diction.balanced h.2.2.2 _)) rfl) (Diction.balanced h.2.2.2 _)) rfl
  have hLoop : Turns ("for (" ++ Prim.int.cType ++ " _i_ = 0; _i_ < _n_; _i_++) \x7b")
      ('\x7b' :: opened) ('\x7b' :: '\x7b' :: opened) := rfl
  -- both braces are closed by the last line
  exact .cons hHead (.cons hLoop
    (.cons (hFetch _) (.cons (balanced_appendLine h.1 h.2.2.2 _) (.single rfl))))

theorem linesBalanced_update {target value : CExpr} (op : BinaryOp)
    (hTarget : target.Worded .lettered) (hValue : value.Worded .lettered) :
    LinesBalanced (update target op value).lines := by
  intro opened
  have hText : "(" ++ target.render ++ ") " ++ op.cSign ++ "= (" ++ value.render ++ ");" =
      "(" ++ target.render ++ ") " ++ (op.cSign ++ "= ") ++ "(" ++ value.render ++ ");" := by
    have hSplit : "= (" = "= " ++ "(" := rfl
    rw [hSplit]
    simp only [String.append_assoc]
  show LinesTurn ["(" ++ target.render ++ ") " ++ op.cSign ++ "= (" ++ value.render ++ ");"]
    opened opened
  rw [hText]
  exact .single (.append (.append (.append (.append (.append (.append rfl
    (target.balanced_render hTarget _)) rfl) (op.balanced_update _)) rfl)
    (value.balanced_render hValue _)) rfl)

theorem linesBalanced_ifElse {cond : CExpr} {thenBody : List CStmt} {elseBody : Option (List CStmt)}
    (hCond : cond.Worded .lettered) (hThen : LinesBalanced (linesAll thenBody))
    (hElse : ∀ opened, LinesTurn (linesElse elseBody) ('\x7b' :: opened) ('\x7b' :: opened)) :
    LinesBalanced (ifElse cond thenBody elseBody).lines := by
  intro opened
  show LinesTurn (["\x7b t_bool _if_ = " ++ cond.render ++ ";", "if( _if_ ) \x7b"]
    ++ linesAll thenBody ++ linesElse elseBody ++ ["\x7d\x7d"]) opened opened
  have hTest : Turns ("\x7b t_bool _if_ = " ++ cond.render ++ ";") opened ('\x7b' :: opened) :=
    .append (.append rfl (cond.balanced_render hCond _)) rfl
  have hHead : LinesTurn ["\x7b t_bool _if_ = " ++ cond.render ++ ";", "if( _if_ ) \x7b"]
      opened ('\x7b' :: '\x7b' :: opened) := .cons hTest (.single rfl)
  exact .append (.append (hHead.append (hThen _)) (hElse ('\x7b' :: opened))) (.single rfl)

theorem linesBalanced_loop (number : Nat) {test post : List CStmt}
    (hTest : LinesBalanced (linesAll test)) (hCond : ∀ c ∈ cond, c.Worded .lettered)
    (hBody : LinesBalanced (linesAll body)) (hPost : LinesBalanced (linesAll post)) :
    LinesBalanced (loop number test cond body post).lines := by
  intro opened
  show LinesTurn (["while(1) \x7b"] ++ linesAll test ++ condLines cond ++ linesAll body
    ++ [labelLine .again number] ++ linesAll post ++ ["\x7d", labelLine .leave number])
      opened opened
  have hOpen : LinesTurn ["while(1) \x7b"] opened ('\x7b' :: opened) := .single rfl
  exact .append (.append (.append (.append (.append (.append hOpen (hTest _))
    (balanced_condLines hCond _)) (hBody _)) (.single (balanced_labelLine .again number _)))
    (hPost _)) (.cons rfl (.single (balanced_labelLine .leave number opened)))

theorem linesBalanced_rangeLoop (number : Nat) {index limit : String} {fetch : List CStmt}
    (hIndex : Diction.lettered.Word index) (hLimit : Diction.lettered.Word limit)
    (hFetch : LinesBalanced (linesAll fetch)) (hBody : LinesBalanced (linesAll body)) :
    LinesBalanced (rangeLoop number index limit fetch body).lines := by
  intro opened
  show LinesTurn (["while(1) \x7b " ++ labelLine .again number, index ++ "++;",
      "if (" ++ index ++ " >= " ++ limit ++ ") break;"]
    ++ linesAll fetch ++ linesAll body ++ ["\x7d", labelLine .leave number]) opened opened
  have hOpen : Turns "while(1) \x7b " opened ('\x7b' :: opened) := rfl
  have hHead : LinesTurn ["while(1) \x7b " ++ labelLine .again number, index ++ "++;",
      "if (" ++ index ++ " >= " ++ limit ++ ") break;"] opened ('\x7b' :: opened) :=
    .cons (hOpen.append (balanced_labelLine .again number _))
      (.cons (.append (Diction.balanced hIndex _) rfl)
        (.single (.append (.append (.append (.append rfl (Diction.balanced hIndex _)) rfl)
          (Diction.balanced hLimit _)) rfl)))
  exact .append (.append (hHead.append (hFetch _)) (hBody _))
    (.cons rfl (.single (balanced_labelLine .leave number opened)))

theorem linesBalanced_switch {subject : CExpr} {arms fallback : List CStmt}
    (hSubject : subject.Worded .lettered) (hArms : LinesBalanced (linesAll arms))
    (hFallback : LinesBalanced (linesAll fallback)) :
    LinesBalanced (switch subject arms fallback).lines := by
  intro opened
  show LinesTurn (["\x7b t_int _switch_ = " ++ subject.render ++ ";"] ++ linesAll arms
    ++ ["\x7b"] ++ linesAll fallback ++ ["\x7d", "\x7d"]) opened opened
  have hHead : LinesTurn ["\x7b t_int _switch_ = " ++ subject.render ++ ";"]
      opened ('\x7b' :: opened) :=
    .single (.append (.append rfl (subject.balanced_render hSubject _)) rfl)
  have hOpen : LinesTurn ["\x7b"] ('\x7b' :: opened) ('\x7b' :: '\x7b' :: opened) := .single rfl
  have hClose : Turns "\x7d" ('\x7b' :: '\x7b' :: opened) ('\x7b' :: opened) := rfl
  exact .append (.append (.append (hHead.append (hArms _)) hOpen) (hFallback _))
    (.cons hClose (.single rfl))

theorem linesBalanced_arm {tests : List CExpr} (hTests : ∀ test ∈ tests, test.Worded .lettered)
    (hBody : LinesBalanced (linesAll body)) : LinesBalanced (arm tests body).lines := by
  intro opened
  show LinesTurn (["if ("] ++ tests.map (fun test => "_switch_ == " ++ test.render ++ " ||")
    ++ ["0 ) \x7b"] ++ linesAll body ++ ["\x7d else "]) opened opened
  have hLines : LinesBalanced (tests.map fun test => "_switch_ == " ++ test.render ++ " ||") := by
    apply linesBalanced_of_forall
    intro line hLine
    obtain ⟨test, hTest, rfl⟩ := List.mem_map.mp hLine
    exact fun _ => .append (.append rfl (test.balanced_render (hTests test hTest) _)) rfl
  have hHead : LinesTurn ["if ("] opened ('(' :: opened) := .single rfl
  have hOpen : LinesTurn ["0 ) \x7b"] ('(' :: opened) ('\x7b' :: opened) := .single rfl
  exact .append (.append (.append (hHead.append (hLines _)) hOpen) (hBody _)) (.single rfl)

mutual

/-- The lines of a statement close all brackets that they open, though not each line its own. -/
theorem linesBalanced : (stmt : CStmt) → stmt.Worded .lettered → LinesBalanced stmt.lines
  | .eval e, h => by
      intro opened
      show LinesTurn [e.render ++ ";"] opened opened
      exact .single (.append (e.balanced_render h _) rfl)
  | .discard e, h => by
      intro opened
      show LinesTurn ["(void)(" ++ e.render ++ ");"] opened opened
      exact .single (.append (.append rfl (e.balanced_render h _)) rfl)
  | .copy name value, h => by
      intro opened
      show LinesTurn [name ++ " = " ++ value.render ++ ";"] opened opened
      exact .single (.append (.append (.append (Diction.balanced h.1 _) rfl)
        (value.balanced_render h.2 _)) rfl)
  | .store target type value, h => by
      intro opened
      show LinesTurn [target.render ++ " = (" ++ type ++ ")(" ++ value.render ++ ");"] opened opened
      exact .single (.append (.append (.append (.append (.append (target.balanced_render h.1 _) rfl)
        (Diction.balanced h.2.1 _)) rfl) (value.balanced_render h.2.2 _)) rfl)
  | .setField handle field value, h => by
      intro opened
      show LinesTurn ["(" ++ handle ++ ")." ++ field ++ " = " ++ value.render ++ ";"] opened opened
      exact .single (.append (.append (.append (.append (.append (.append rfl
        (Diction.balanced h.1 _)) rfl) (Diction.balanced h.2.1 _)) rfl)
        (value.balanced_render h.2.2 _)) rfl)
  | .alloc handle struct, h => by
      intro opened
      show LinesTurn [handle ++ " = oalloc(sizeof(struct " ++ struct ++ "), CLASS_" ++ struct ++
        ");"] opened opened
      exact .single (.append (.append (.append (.append (.append (Diction.balanced h.1 _) rfl)
        (Diction.balanced h.2 _)) rfl) (Diction.balanced h.2 _)) rfl)
  | .nilSlice slice, h => by
      intro opened
      show LinesTurn [slice ++ " = NilSlice;"] opened opened
      exact .single (.append (Diction.balanced h _) rfl)
  | .append slice item, h => by
      intro opened
      show LinesTurn [appendLine slice item] opened opened
      exact .single (balanced_appendLine h.1 h.2 _)
  | .appendAll _ _ _ _, h => linesBalanced_appendAll h
  | .narrow slice bounds, h => by
      exact bounds.balanced_lines h.2 h.1
  | .update _ op _, h => linesBalanced_update op h.1 h.2
  | .increment target, h => by
      intro opened
      show LinesTurn ["(" ++ target.render ++ ")++;"] opened opened
      exact .single (.append (.append rfl (target.balanced_render h _)) rfl)
  | .decrement target, h => by
      intro opened
      show LinesTurn ["(" ++ target.render ++ ")--;"] opened opened
      exact .single (.append (.append rfl (target.balanced_render h _)) rfl)
  | .ret none, _ => fun _ => .single rfl
  | .ret (some value), h => by
      intro opened
      show LinesTurn ["return " ++ value.render ++ ";"] opened opened
      exact .single (.append (.append rfl (value.balanced_render h _)) rfl)
  | .setResult name value, h => by
      intro opened
      show LinesTurn ["*" ++ name ++ " = " ++ value.render ++ ";"] opened opened
      exact .single (.append (.append (.append (.append rfl (Diction.balanced h.1 _)) rfl)
        (value.balanced_render h.2 _)) rfl)
  | .jump kind number, _ => by
      intro opened
      show LinesTurn ["goto " ++ kind.label number ++ ";"] opened opened
      exact .single (.append (.append rfl (kind.balanced_label number _)) rfl)
  | .ifElse _ thenBody elseBody, h =>
      linesBalanced_ifElse h.1 (linesBalanced_all thenBody h.2.1) (linesTurn_else elseBody h.2.2)
  | .block body, h => by
      intro opened
      show LinesTurn (["\x7b"] ++ linesAll body ++ ["\x7d"]) opened opened
      have hOpen : LinesTurn ["\x7b"] opened ('\x7b' :: opened) := .single rfl
      exact .append (.append hOpen (linesBalanced_all body h _)) (.single rfl)
  | .loop number test _ body post, h =>
      linesBalanced_loop number (linesBalanced_all test h.1) h.2.1 (linesBalanced_all body h.2.2.1)
        (linesBalanced_all post h.2.2.2)
  | .beforeFirst index, h => by
      intro opened
      show LinesTurn [index ++ " = -1;"] opened opened
      exact .single (.append (Diction.balanced h _) rfl)
  | .stringGet source index target, h => by
      intro opened
      show LinesTurn ["StringGet(" ++ source ++ ", " ++ index ++ ", &" ++ target ++ ");"]
        opened opened
      exact .single (.append (.append (.append (.append (.append (.append rfl
        (Diction.balanced h.1 _)) rfl) (Diction.balanced h.2.1 _)) rfl)
        (Diction.balanced h.2.2 _)) rfl)
  | .sliceGet source elem index target, h => by
      intro opened
      show LinesTurn ["SliceGet(" ++ source ++ ", sizeof(" ++ elem ++ "), " ++ index ++ ", &" ++
        target ++ ");"] opened opened
      exact .single (.append (.append (.append (.append (.append (.append (.append (.append rfl
        (Diction.balanced h.1 _)) rfl) (Diction.balanced h.2.1 _)) rfl)
        (Diction.balanced h.2.2.1 _)) rfl)
        (Diction.balanced h.2.2.2 _)) rfl)
  | .rangeLoop number _ _ fetch body, h =>
      linesBalanced_rangeLoop number h.1 h.2.1 (linesBalanced_all fetch h.2.2.1)
        (linesBalanced_all body h.2.2.2)
  | .switch _ arms fallback, h =>
      linesBalanced_switch h.1 (linesBalanced_all arms h.2.1) (linesBalanced_all fallback h.2.2)
  | .arm _ body, h =>
      linesBalanced_arm (CExpr.spelledAll_iff.mp h.1) (linesBalanced_all body h.2)

theorem linesBalanced_all : (stmts : List CStmt) → WordedAll .lettered stmts →
    LinesBalanced (linesAll stmts)
  | [], _ => fun _ => .nil
  | stmt :: rest, h => by
      intro opened
      show LinesTurn (stmt.lines ++ linesAll rest) opened opened
      exact (linesBalanced stmt h.1 opened).append (linesBalanced_all rest h.2 opened)

/-- The part behind an `else` closes the part before it, and leaves its own open. -/
theorem linesTurn_else : (elseBody : Option (List CStmt)) →
    SpelledElse .lettered Diction.lettered.words elseBody →
    ∀ opened, LinesTurn (linesElse elseBody) ('\x7b' :: opened) ('\x7b' :: opened)
  | none, _, _ => .nil
  | some body, h, opened => by
      show LinesTurn (["\x7d else \x7b"] ++ linesAll body) ('\x7b' :: opened) ('\x7b' :: opened)
      exact .append (.single rfl) (linesBalanced_all body h _)

end

end CStmt

/-! ## Items -/

structure CParam.Worded (param : CParam) : Prop where
  type : isWordTail param.type = true
  name : isWordTail param.name = true

/-- A heading whose types and parameters are made of letters, digits and underscores. The name of a
pointer type has brackets around it. -/
structure Prototype.Worded (prototype : Prototype) : Prop where
  result : isWordTail prototype.result = true
  name : Balanced prototype.name
  params : ∀ param ∈ prototype.params, param.Worded

structure CLocal.Worded (var : CLocal) : Prop where
  type : isWordTail var.type = true
  name : isWordTail var.name = true
  init : Balanced var.init

def Heading.Worded : Heading → Prop
  | func prototype => prototype.Worded
  | init package => isWordTail package = true

def CItem.Worded : CItem → Prop
  | includes => True
  | funcTypedef _ prototype => prototype.Worded
  | typeAlias type name => isWordTail type = true ∧ isWordTail name = true
  | globalVar type name => isWordTail type = true ∧ isWordTail name = true
  | declared prototype => prototype.Worded
  | native prototype => prototype.Worded
  | routine heading locals body =>
      heading.Worded ∧ (∀ var ∈ locals, var.Worded) ∧ CStmt.WordedAll .lettered body

theorem CParam.balanced_render {param : CParam} (h : param.Worded) : Balanced param.render := by
  have hType := balanced_word h.type
  have hName := balanced_word h.name
  unfold render
  split
  · exact fun _ => .append (.append (hType _) rfl) (hName _)
  · exact fun _ => .append (.append (hType _) rfl) (hName _)

theorem Prototype.balanced_render {prototype : Prototype} (h : prototype.Worded) :
    Balanced prototype.render := by
  have hParams : Balanced (", ".intercalate (prototype.params.map CParam.render)) := by
    apply balanced_intercalate
    intro text hText
    obtain ⟨param, hParam, rfl⟩ := List.mem_map.mp hText
    exact CParam.balanced_render (h.params param hParam)
  exact fun _ => .append (.append (.append (.append (.append (balanced_word h.result _) rfl)
    (h.name _)) rfl) (hParams _)) rfl

theorem CLocal.balanced_render {var : CLocal} (h : var.Worded) : Balanced var.render :=
  fun _ => .append (.append (.append (.append (.append (balanced_word h.type _) rfl)
    (balanced_word h.name _)) rfl) (h.init _)) rfl

theorem Heading.balanced_render : (heading : Heading) → heading.Worded → Balanced heading.render
  | .func _, h => Prototype.balanced_render h
  | .init _, h => fun _ => .append (.append rfl (balanced_word h _)) rfl

namespace CItem

theorem linesBalanced : (item : CItem) → item.Worded → LinesBalanced item.lines
  | includes, _ => fun _ => .cons rfl (.single rfl)
  | funcTypedef number prototype, h => fun _ =>
      .single (.append (.append rfl (Prototype.balanced_render h _)) rfl)
  | typeAlias type name, h => fun _ =>
      .single (.append (.append (.append (.append rfl (balanced_word h.1 _)) rfl)
        (balanced_word h.2 _)) rfl)
  | globalVar type name, h => fun _ =>
      .single (.append (.append (.append (balanced_word h.1 _) rfl) (balanced_word h.2 _)) rfl)
  | declared prototype, h => fun _ =>
      .single (.append (.append rfl (Prototype.balanced_render h _)) rfl)
  | native prototype, h => by
      intro opened
      have hText : String.join ([prototype.render ++ "; //NATIVE"].map (· ++ "\n")) =
          prototype.render ++ "; //NATIVE\n" := by
        have hSplit : "; //NATIVE\n" = "; //NATIVE" ++ "\n" := rfl
        rw [hSplit, ← String.append_assoc]
        exact String.join_cons.trans String.append_empty
      show Turns (String.join ([prototype.render ++ "; //NATIVE"].map (· ++ "\n"))) opened opened
      rw [hText]
      -- the line feed belongs to the piece, since it is what ends the comment
      exact .append (Prototype.balanced_render h opened) rfl
  | routine heading locals body, h => by
      obtain ⟨hHeading, hLocals, hBody⟩ := h
      intro opened
      have hOpen : LinesTurn [heading.render ++ " \x7b"] opened ('\x7b' :: opened) :=
        .single (.append (heading.balanced_render hHeading _) rfl)
      have hVars : LinesBalanced (locals.map CLocal.render) := by
        apply linesBalanced_of_forall
        intro line hLine
        obtain ⟨var, hVar, rfl⟩ := List.mem_map.mp hLine
        exact CLocal.balanced_render (hLocals var hVar)
      exact .append (.append (hOpen.append (hVars _)) (CStmt.linesBalanced_all body hBody _))
        (.single rfl)

/-- Behind any number of items a reader is back where it began. -/
theorem run_renderAll {items : List CItem} (h : ∀ item ∈ items, item.Worded) :
    CScan.start.run (renderAll items).toList = some CScan.start := by
  have hAll : Balanced (renderAll items) := by
    unfold renderAll
    induction items with
    | nil => exact .empty
    | cons item rest ih =>
        rw [List.map_cons, String.join_cons]
        exact Balanced.append (linesBalanced item (h item List.mem_cons_self))
          (ih fun other hOther => h other (List.mem_cons_of_mem item hOther))
  exact hAll []

end CItem

end GoToC
