import GoToC.Grammar.Type

/-!
# Expressions

Operators from loosest to tightest: `||`, `&&`, the comparisons, the additive and the
multiplicative operators, then the unary ones, then calls, subscripts and members.
Binary operators of one level group to the left. A struct literal is read only after
`&`, so a brace after a condition always opens a block.
-/

namespace GoToC.Grammar

/-- The binary operator that a token stands for, with its level; a higher level binds tighter. -/
def binaryOp? : TokenKind → Option (Nat × BinaryOp)
  | .punct .pipePipe => some (0, .or)
  | .punct .ampAmp => some (1, .and)
  | .punct .eqEq => some (2, .eq)
  | .punct .notEq => some (2, .notEq)
  | .punct .lt => some (2, .lt)
  | .punct .gt => some (2, .gt)
  | .punct .ltEq => some (2, .ltEq)
  | .punct .gtEq => some (2, .gtEq)
  | .punct .plus => some (3, .add)
  | .punct .minus => some (3, .sub)
  | .punct .pipe => some (3, .bitOr)
  | .punct .caret => some (3, .bitXor)
  | .punct .star => some (4, .mul)
  | .punct .slash => some (4, .div)
  | .punct .percent => some (4, .rem)
  | .punct .shl => some (4, .shl)
  | .punct .shr => some (4, .shr)
  | .punct .amp => some (4, .bitAnd)
  | .punct .ampCaret => some (4, .andNot)
  | _ => none

/-- Whether a token begins a type that is no plain name. -/
def startsTypeLiteral : TokenKind → Bool
  | .punct .star | .punct .lbracket => true
  | .keyword .map | .keyword .struct | .keyword .interface => true
  | _ => false

mutual

def parseExpr : Nat → Parser Expr
  | 0 => exhausted
  | fuel + 1 => parseBinary fuel 0

/-- Operands joined by operators of at least the given level. -/
def parseBinary : Nat → Nat → Parser Expr
  | 0, _ => exhausted
  | fuel + 1, level => do
      let left ← parseUnary fuel
      parseOperators fuel level left

/-- Further operators of at least the given level after a left operand. -/
def parseOperators : Nat → Nat → Expr → Parser Expr
  | 0, _, _ => exhausted
  | fuel + 1, level, left => do
      match binaryOp? (← kind) with
      | none => return left
      | some (opLevel, op) =>
          if opLevel < level then return left
          let _ ← advance
          let right ← parseBinary fuel (opLevel + 1)
          let whole ← node (.binary (left.span.merge right.span) op left right)
          parseOperators fuel level whole

def parseUnary : Nat → Parser Expr
  | 0 => exhausted
  | fuel + 1 => do
      let start ← span
      match ← kind with
      | .punct .minus =>
          let _ ← advance
          let operand ← parseUnary fuel
          node (.unary (start.merge operand.span) .neg operand)
      | .punct .bang =>
          let _ ← advance
          let operand ← parseUnary fuel
          node (.unary (start.merge operand.span) .not operand)
      | .punct .amp => parseCtor fuel
      | _ =>
          let operand ← parsePrimary fuel
          parsePostfix fuel operand

/-- A struct literal: `&`, a type name, and field values in braces. -/
def parseCtor : Nat → Parser Expr
  | 0 => exhausted
  | fuel + 1 => do
      let start ← expectSign .amp
      let (name, nameSpan) ← expectIdent
      let base ← node (.ident nameSpan name)
      let type ← if ← eatSign .dot then
          let (member, stop) ← expectIdent
          node (.dot (nameSpan.merge stop) base member)
        else pure base
      let _ ← expectSign .lbrace
      let fields ← parseFieldInits fuel
      skipNewlines
      let stop ← expectSign .rbrace
      node (.ctor (start.merge stop) type fields)

/-- The field values of a struct literal; the colon after a field may be left out. -/
def parseFieldInits : Nat → Parser (List (FieldInit Expr))
  | 0 => exhausted
  | fuel + 1 => do
      skipNewlines
      if ← checkSign .rbrace then return []
      let (name, nameSpan) ← expectIdent
      let _ ← eatSign .colon
      let value ← parseExpr fuel
      let field : FieldInit Expr := ⟨name, value, nameSpan.merge value.span⟩
      skipNewlines
      if ← eatSign .comma then
        let others ← parseFieldInits fuel
        return field :: others
      else return [field]

/-- Any number of calls, subscripts and members after an operand. -/
def parsePostfix : Nat → Expr → Parser Expr
  | 0, _ => exhausted
  | fuel + 1, operand => do
      match ← kind with
      | .punct .lparen =>
          let _ ← advance
          let (args, spread) ← parseArgs fuel
          let stop ← expectSign .rparen
          let whole ← node (.call (operand.span.merge stop) operand args spread)
          parsePostfix fuel whole
      | .punct .lbracket =>
          let _ ← advance
          let subscript ← parseSubscript fuel operand
          let stop ← expectSign .rbracket
          let whole ← node (subscript (operand.span.merge stop))
          parsePostfix fuel whole
      | .punct .dot =>
          let _ ← advance
          let (member, stop) ← expectIdent
          let whole ← node (.dot (operand.span.merge stop) operand member)
          parsePostfix fuel whole
      | _ => return operand

/-- An index or a pair of bounds, up to the closing bracket. -/
def parseSubscript : Nat → Expr → Parser (Span → Expr)
  | 0, _ => exhausted
  | fuel + 1, receiver => do
      skipNewlines
      let lo ← if ← checkSign .colon then pure none else some <$> parseExpr fuel
      skipNewlines
      if ← eatSign .colon then
        skipNewlines
        let hi ← if ← checkSign .rbracket then pure none else some <$> parseExpr fuel
        skipNewlines
        return fun whole => .slice whole receiver lo hi
      else
        match lo with
        | some index => return fun whole => .index whole receiver index
        | none => unexpected (.token "`:`")

/-- The arguments of a call, up to the closing parenthesis, and whether the last is spread. -/
def parseArgs : Nat → Parser (List Expr × Bool)
  | 0 => exhausted
  | fuel + 1 => do
      skipNewlines
      if ← checkSign .rparen then return ([], false)
      let arg ← parseExpr fuel
      if ← eatSign .ellipsis then
        let _ ← eatSign .comma
        skipNewlines
        return ([arg], true)
      skipNewlines
      if ← eatSign .comma then
        let (others, spread) ← parseArgs fuel
        return (arg :: others, spread)
      else return ([arg], false)

def parsePrimary : Nat → Parser Expr
  | 0 => exhausted
  | fuel + 1 => do
      let start ← span
      match ← kind with
      | .int value =>
          let _ ← advance
          node (.int start value)
      | .char code =>
          let _ ← advance
          node (.int start code)
      | .str text =>
          let _ ← advance
          node (.str start text)
      | .ident name =>
          let _ ← advance
          node (.ident start name)
      | .punct .lparen =>
          let _ ← advance
          skipNewlines
          let inner ← parseExpr fuel
          skipNewlines
          let _ ← expectSign .rparen
          return inner
      | .error cause => fail (ParseError.lexical cause start)
      | found =>
          if startsTypeLiteral found then parseType fuel
          else
            fail ⟨.expectedExpression, "expected expression, found " ++ found.describe, start, none⟩

end

/-- One or more expressions with commas between them. -/
def parseExprs : Nat → Parser (List Expr)
  | 0 => exhausted
  | fuel + 1 => do
      let first ← parseExpr fuel
      if ← eatSign .comma then
        let others ← parseExprs fuel
        return first :: others
      else return [first]

end GoToC.Grammar
