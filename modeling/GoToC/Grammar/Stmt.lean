import GoToC.Grammar.Expr

/-!
# Statements

The rules for blocks and statements. A statement ends at a line end or a semicolon, or
before the brace that closes its block.
-/

namespace GoToC.Grammar

/-- Whether a token ends a statement; it is not part of the statement. -/
def endsStmt (kind : TokenKind) : Bool := kind.isTerminator || kind == .punct .rbrace

/-- The label after a jump, if there is one. -/
def parseLabel : Parser (Option String) := do
  match ← kind with
  | .ident name =>
      let _ ← advance
      return some name
  | _ => return none

/-- What a simple statement says, before its span is known. -/
structure Simple where
  op : AssignOp
  targets : List Expr
  values : List Expr

namespace Simple

def toStmt (simple : Simple) (span : Span) : Stmt :=
  .assign span simple.op simple.targets simple.values

/-- The condition that a simple statement is when a loop body follows it. -/
def condition? (simple : Simple) : Option Expr :=
  match simple.op, simple.values with
  | .lone, [cond] => some cond
  | _, _ => none

end Simple

/-- The sign of an assignment that has values on its right. -/
def assignOp? : TokenKind → Option AssignOp
  | .punct .eq => some .set
  | .punct .colonEq => some .define
  | .punct .plusEq => some (.compound .add)
  | .punct .minusEq => some (.compound .sub)
  | .punct .starEq => some (.compound .mul)
  | _ => none

/-- The sign of a step by one. -/
def stepOp? : TokenKind → Option AssignOp
  | .punct .plusPlus => some .inc
  | .punct .minusMinus => some .dec
  | _ => none

/-- An assignment in any of its forms, or expressions that stand alone. -/
def parseSimple (fuel : Nat) : Parser Simple := do
  let exprs ← parseExprs fuel
  let sign ← kind
  match assignOp? sign, stepOp? sign with
  | some op, _ =>
      let _ ← advance
      let values ← parseExprs fuel
      return ⟨op, exprs, values⟩
  | none, some op =>
      let _ ← advance
      return ⟨op, exprs, []⟩
  | none, none => return ⟨.lone, [], exprs⟩

/-- Whether a range clause comes next: `range x`, `k := range x` or `k, v := range x`. -/
def atRange (cursor : Cursor) : Bool :=
  let range := TokenKind.keyword .range
  let define := TokenKind.punct .colonEq
  cursor.peek 0 == range
    || (cursor.peek 0).isIdent && cursor.peek 1 == define && cursor.peek 2 == range
    || (cursor.peek 0).isIdent && cursor.peek 1 == .punct .comma && (cursor.peek 2).isIdent
      && cursor.peek 3 == define && cursor.peek 4 == range

/-- The names before the collection of a range clause. -/
def parseRangeNames : Parser (Option String × Option String) := do
  if ← check (.keyword .range) then return (none, none)
  let (key, _) ← expectIdent
  let value ← if ← eatSign .comma then
      let (name, _) ← expectIdent
      pure (some name)
    else pure none
  let _ ← expectSign .colonEq
  return (some key, value)

/-- The tokens before which the statements of a switch arm end. -/
def armEnds : List TokenKind := [.keyword .case, .keyword .default, .punct .rbrace]

/-- The arms of a switch and what it does when none of them fits. -/
structure Arms where
  cases : List (SwitchCase Stmt)
  fallback : Option (List Stmt)

mutual

/-- Statements in braces. -/
def parseBlock : Nat → Parser (List Stmt)
  | 0 => exhausted
  | fuel + 1 => do
      let _ ← expectSign .lbrace
      let body ← parseStmts fuel [.punct .rbrace]
      let _ ← expectSign .rbrace
      return body

/-- Statements up to, not including, a token of `ends`. -/
def parseStmts : Nat → List TokenKind → Parser (List Stmt)
  | 0, _ => exhausted
  | fuel + 1, ends => do
      skipTerminators
      let found ← kind
      if ends.contains found then return []
      if found == .eof then unexpected (.token "`\x7d`")
      let first ← parseStmt fuel
      expectTerminator
      let others ← parseStmts fuel ends
      return first :: others

def parseStmt : Nat → Parser Stmt
  | 0 => exhausted
  | fuel + 1 => do
      let start ← span
      let finish : Parser Span := do return start.merge (← previousSpan)
      match ← kind with
      | .keyword .if => parseIf fuel
      | .keyword .for =>
          let make ← parseFor fuel
          return make (← finish)
      | .keyword .switch =>
          let make ← parseSwitch fuel
          return make (← finish)
      | .keyword .return =>
          let _ ← advance
          let values ← if endsStmt (← kind) then pure [] else parseExprs fuel
          return .ret (← finish) values
      | .keyword .break =>
          let _ ← advance
          let label ← parseLabel
          return .breakLoop (← finish) label
      | .keyword .continue =>
          let _ ← advance
          let label ← parseLabel
          return .continueLoop (← finish) label
      | .keyword .var =>
          let _ ← advance
          let (name, _) ← expectIdent
          let type ← parseType fuel
          return .var (← finish) name type
      | .punct .lbrace =>
          let body ← parseBlock fuel
          return .block (← finish) body
      | _ =>
          let simple ← parseSimple fuel
          return simple.toStmt (← finish)

/-- A conditional; after `else` comes a block or another conditional. -/
def parseIf : Nat → Parser Stmt
  | 0 => exhausted
  | fuel + 1 => do
      let start ← expectWord .if
      let cond ← parseExpr fuel
      let thenBody ← parseBlock fuel
      let elseBody ← parseElse fuel
      return .ifElse (start.merge (← previousSpan)) cond thenBody elseBody

def parseElse : Nat → Parser (Option (List Stmt))
  | 0 => exhausted
  | fuel + 1 => do
      if ← check (.keyword .else) then
        let _ ← advance
        if ← check (.keyword .if) then
          let nested ← parseIf fuel
          return some [nested]
        else
          let body ← parseBlock fuel
          return some body
      else return none

/-- A loop: over a range, endless, with a condition, or with three clauses. -/
def parseFor : Nat → Parser (Span → Stmt)
  | 0 => exhausted
  | fuel + 1 => do
      let _ ← expectWord .for
      if atRange (← cursor) then
        let (key, value) ← parseRangeNames
        let _ ← expectWord .range
        let collection ← parseExpr fuel
        let body ← parseBlock fuel
        return fun whole => .rangeLoop whole key value collection body
      if ← checkSign .lbrace then
        let body ← parseBlock fuel
        return fun whole => .whileLoop whole none body
      if ← checkSign .semicolon then
        parseForClauses fuel none
      else
        let start ← span
        let simple ← parseSimple fuel
        if ← checkSign .lbrace then
          match simple.condition? with
          | none => unexpected (.token "`;`")
          | some cond =>
              let body ← parseBlock fuel
              return fun whole => .whileLoop whole (some cond) body
        else
          let stop ← previousSpan
          parseForClauses fuel (some (simple.toStmt (start.merge stop)))

/-- The rest of a three-clause loop after its first clause. -/
def parseForClauses : Nat → Option Stmt → Parser (Span → Stmt)
  | 0, _ => exhausted
  | fuel + 1, init => do
      let _ ← expectSign .semicolon
      let cond ← if ← checkSign .semicolon then pure none else some <$> parseExpr fuel
      let _ ← expectSign .semicolon
      let post ← if ← checkSign .lbrace then pure none else
          let start ← span
          let simple ← parseSimple fuel
          let stop ← previousSpan
          pure (some (simple.toStmt (start.merge stop)))
      let body ← parseBlock fuel
      return fun whole => .forLoop whole init cond post body

def parseSwitch : Nat → Parser (Span → Stmt)
  | 0 => exhausted
  | fuel + 1 => do
      let _ ← expectWord .switch
      let subject ← if ← checkSign .lbrace then pure none else some <$> parseExpr fuel
      let _ ← expectSign .lbrace
      let arms ← parseArms fuel none
      let _ ← expectSign .rbrace
      return fun whole => .switch whole subject arms.cases arms.fallback

/-- The arms of a switch, up to its closing brace. A later default replaces an earlier one. -/
def parseArms : Nat → Option (List Stmt) → Parser Arms
  | 0, _ => exhausted
  | fuel + 1, fallback => do
      skipTerminators
      match ← kind with
      | .punct .rbrace => return ⟨[], fallback⟩
      | .keyword .case =>
          let start ← expectWord .case
          let tests ← parseExprs fuel
          let _ ← expectSign .colon
          let body ← parseStmts fuel armEnds
          let stop ← previousSpan
          let others ← parseArms fuel fallback
          return ⟨⟨tests, body, start.merge stop⟩ :: others.cases, others.fallback⟩
      | .keyword .default =>
          let _ ← advance
          let _ ← expectSign .colon
          let body ← parseStmts fuel armEnds
          parseArms fuel (some body)
      | _ => unexpected (.token "`case`, `default` or `\x7d`")

end

end GoToC.Grammar
