import GoToC.Grammar.File

/-!
# Rounds of loops

The rules of the grammar that read any number of parts call themselves after each part. Each of
them is a loop: here its body is told by itself, as a round that leaves the loop with a result or
goes on, and the rule is shown to be its rounds one after another.
-/

namespace GoToC.Grammar

variable {σ α : Type}

/-- How a round of a loop ends: the loop is left with a result, or it goes on from a new start,
and what it comes to from there on is completed with what the round has read. -/
inductive Round (σ α : Type) where
  | leave (result : α)
  | again (start : σ) (complete : α → α)

namespace Round

def GoesOn : Round σ α → Prop
  | leave _ => False
  | again .. => True

/-- What comes after a round, where `loop` does the rounds that follow. -/
def finish (loop : σ → Parser α) : Round σ α → Parser α
  | leave result => pure result
  | again start complete => complete <$> loop start

end Round

theorem ite_bind {β : Type} {p : Prop} [Decidable p] (first second : Parser α)
    (next : α → Parser β) :
    (if p then first else second) >>= next = if p then first >>= next else second >>= next := by
  split <;> rfl

theorem unexpected_bind {β : Type} (wanted : ParseError.Wanted) (next : α → Parser β) :
    (unexpected wanted : Parser α) >>= next = unexpected wanted := rfl

/-! ## Types and signatures -/

def fieldsRound (fuel : Nat) : Parser (Round Unit (List (Param Expr))) := do
  skipTerminators
  if ← checkSign .rbrace then return .leave []
  let (name, nameSpan) ← expectIdent
  let type ← parseType fuel
  expectTerminator
  return .again () (⟨name, type, nameSpan⟩ :: ·)

theorem parseFields_eq (fuel : Nat) :
    parseFields (fuel + 1) = fieldsRound fuel >>= Round.finish fun _ => parseFields fuel := by
  simp [parseFields, fieldsRound, Round.finish, ite_bind]

def methodSpecsRound (fuel : Nat) : Parser (Round Unit (List (MethodSpec Expr))) := do
  skipTerminators
  if ← checkSign .rbrace then return .leave []
  let (name, nameSpan) ← expectIdent
  let signature ← parseSignature fuel
  let stop ← previousSpan
  expectTerminator
  return .again () (⟨name, signature, nameSpan.merge stop⟩ :: ·)

theorem parseMethodSpecs_eq (fuel : Nat) : parseMethodSpecs (fuel + 1) =
      methodSpecsRound fuel >>= Round.finish fun _ => parseMethodSpecs fuel := by
  simp [parseMethodSpecs, methodSpecsRound, Round.finish, ite_bind]

/-- One entry of a parameter list, or its closing parenthesis; a round starts from whether the
entry before was variadic. -/
def entriesRound (fuel : Nat) (allowVariadic variadic : Bool) :
    Parser (Round Bool (List Entry × Bool)) := do
  skipNewlines
  if ← eatSign .rparen then return .leave ([], variadic)
  if variadic then unexpected (.token "`)` after variadic parameter")
  let (entry, isVariadic) ← parseEntry fuel allowVariadic
  skipNewlines
  if ← eatSign .comma then
    return .again isVariadic fun (others, variadic) => (entry :: others, variadic)
  else
    skipNewlines
    let _ ← expectSign .rparen
    return .leave ([entry], isVariadic)

theorem parseEntries_eq (fuel : Nat) (allowVariadic variadic : Bool) :
    parseEntries (fuel + 1) allowVariadic variadic = entriesRound fuel allowVariadic variadic >>=
        Round.finish (parseEntries fuel allowVariadic) := by
  simp [parseEntries, entriesRound, Round.finish, ite_bind]

/-! ## Expressions -/

/-- An operator of at least the given level and its right operand, after a left operand. -/
def operatorsRound (fuel level : Nat) (left : Expr) : Parser (Round Expr Expr) := do
  match binaryOp? (← kind) with
  | none => return .leave left
  | some (opLevel, op) =>
      if opLevel < level then return .leave left
      let _ ← advance
      let right ← parseBinary fuel (opLevel + 1)
      let whole ← node (.binary (left.span.merge right.span) op left right)
      return .again whole id

theorem parseOperators_eq (fuel level : Nat) (left : Expr) : parseOperators (fuel + 1) level left =
      operatorsRound fuel level left >>= Round.finish (parseOperators fuel level) := by
  simp only [parseOperators, operatorsRound, bind_assoc]
  congr 1; funext found
  cases binaryOp? found with
  | none => simp [Round.finish]
  | some op =>
      dsimp only
      split <;> simp [Round.finish]

def fieldInitsRound (fuel : Nat) : Parser (Round Unit (List (FieldInit Expr))) := do
  skipNewlines
  if ← checkSign .rbrace then return .leave []
  let (name, nameSpan) ← expectIdent
  let _ ← eatSign .colon
  let value ← parseExpr fuel
  let field : FieldInit Expr := ⟨name, value, nameSpan.merge value.span⟩
  skipNewlines
  if ← eatSign .comma then return .again () (field :: ·)
  else return .leave [field]

theorem parseFieldInits_eq (fuel : Nat) : parseFieldInits (fuel + 1) =
      fieldInitsRound fuel >>= Round.finish fun _ => parseFieldInits fuel := by
  simp [parseFieldInits, fieldInitsRound, Round.finish, ite_bind]

/-- A call, a subscript or a member after an operand. -/
def suffixRound (fuel : Nat) (operand : Expr) : Parser (Round Expr Expr) := do
  match ← kind with
  | .punct .lparen =>
      let _ ← advance
      let (args, spread) ← parseArgs fuel
      let stop ← expectSign .rparen
      let whole ← node (.call (operand.span.merge stop) operand args spread)
      return .again whole id
  | .punct .lbracket =>
      let _ ← advance
      let subscript ← parseSubscript fuel operand
      let stop ← expectSign .rbracket
      let whole ← node (subscript (operand.span.merge stop))
      return .again whole id
  | .punct .dot =>
      let _ ← advance
      let (member, stop) ← expectIdent
      let whole ← node (.dot (operand.span.merge stop) operand member)
      return .again whole id
  | _ => return .leave operand

theorem parsePostfix_eq (fuel : Nat) (operand : Expr) : parsePostfix (fuel + 1) operand =
      suffixRound fuel operand >>= Round.finish (parsePostfix fuel) := by
  simp only [parsePostfix, suffixRound, bind_assoc]
  congr 1; funext found
  split <;> simp [Round.finish]

def argsRound (fuel : Nat) : Parser (Round Unit (List Expr × Bool)) := do
  skipNewlines
  if ← checkSign .rparen then return .leave ([], false)
  let arg ← parseExpr fuel
  if ← eatSign .ellipsis then
    let _ ← eatSign .comma
    skipNewlines
    return .leave ([arg], true)
  skipNewlines
  if ← eatSign .comma then return .again () fun (others, spread) => (arg :: others, spread)
  else return .leave ([arg], false)

theorem parseArgs_eq (fuel : Nat) :
    parseArgs (fuel + 1) = argsRound fuel >>= Round.finish fun _ => parseArgs fuel := by
  simp [parseArgs, argsRound, Round.finish, ite_bind]

def exprsRound (fuel : Nat) : Parser (Round Unit (List Expr)) := do
  let first ← parseExpr fuel
  if ← eatSign .comma then return .again () (first :: ·)
  else return .leave [first]

theorem parseExprs_eq (fuel : Nat) :
    parseExprs (fuel + 1) = exprsRound fuel >>= Round.finish fun _ => parseExprs fuel := by
  simp [parseExprs, exprsRound, Round.finish, ite_bind]

/-! ## Statements -/

def stmtsRound (fuel : Nat) (ends : List TokenKind) : Parser (Round Unit (List Stmt)) := do
  skipTerminators
  let found ← kind
  if ends.contains found then return .leave []
  if found == .eof then unexpected (.token "`\x7d`")
  let first ← parseStmt fuel
  expectTerminator
  return .again () (first :: ·)

theorem parseStmts_eq (fuel : Nat) (ends : List TokenKind) : parseStmts (fuel + 1) ends =
      stmtsRound fuel ends >>= Round.finish fun _ => parseStmts fuel ends := by
  simp [parseStmts, stmtsRound, Round.finish, ite_bind]

/-- One arm of a switch; a round starts from the default that was read before. -/
def armsRound (fuel : Nat) (fallback : Option (List Stmt)) :
    Parser (Round (Option (List Stmt)) Arms) := do
  skipTerminators
  match ← kind with
  | .punct .rbrace => return .leave ⟨[], fallback⟩
  | .keyword .case =>
      let start ← expectWord .case
      let tests ← parseExprs fuel
      let _ ← expectSign .colon
      let body ← parseStmts fuel armEnds
      let stop ← previousSpan
      return .again fallback fun others =>
        ⟨⟨tests, body, start.merge stop⟩ :: others.cases, others.fallback⟩
  | .keyword .default =>
      let _ ← advance
      let _ ← expectSign .colon
      let body ← parseStmts fuel armEnds
      return .again (some body) id
  | _ => unexpected (.token "`case`, `default` or `\x7d`")

theorem parseArms_eq (fuel : Nat) (fallback : Option (List Stmt)) : parseArms (fuel + 1) fallback =
      armsRound fuel fallback >>= Round.finish (parseArms fuel) := by
  simp only [parseArms, armsRound, bind_assoc]
  congr 1; funext _
  congr 1; funext found
  split <;> simp [Round.finish, unexpected_bind]

/-! ## Source files -/

def importPathsRound : Parser (Round Unit (List ImportDecl)) := do
  skipTerminators
  if ← eatSign .rparen then return .leave []
  let first ← parseImportPath
  return .again () (first :: ·)

theorem parseImportPaths_eq (fuel : Nat) : parseImportPaths (fuel + 1) =
      importPathsRound >>= Round.finish fun _ => parseImportPaths fuel := by
  simp [parseImportPaths, importPathsRound, Round.finish, ite_bind]

def declsRound (fuel : Nat) (file : SourceFile) : Parser (Round SourceFile SourceFile) := do
  skipTerminators
  if (← cursor).atEnd then return .leave file
  let file ← parseDecl fuel file
  expectTerminator
  if ← checkSign .rbrace then unexpected (.thing "declaration")
  return .again file id

theorem parseDecls_eq (fuel : Nat) (file : SourceFile) :
    parseDecls (fuel + 1) file = declsRound fuel file >>= Round.finish (parseDecls fuel) := by
  simp [parseDecls, declsRound, Round.finish, ite_bind]

/-! ## All loops -/

/-- The loops of the grammar, by what a round starts from and what they come to. -/
inductive Loop : Type → Type → Type where
  | fields : Loop Unit (List (Param Expr))
  | methodSpecs : Loop Unit (List (MethodSpec Expr))
  | entries (allowVariadic : Bool) : Loop Bool (List Entry × Bool)
  | operators (level : Nat) : Loop Expr Expr
  | fieldInits : Loop Unit (List (FieldInit Expr))
  | suffixes : Loop Expr Expr
  | args : Loop Unit (List Expr × Bool)
  | exprs : Loop Unit (List Expr)
  | stmts (ends : List TokenKind) : Loop Unit (List Stmt)
  | arms : Loop (Option (List Stmt)) Arms
  | importPaths : Loop Unit (List ImportDecl)
  | decls : Loop SourceFile SourceFile

namespace Loop

def run : Loop σ α → Nat → σ → Parser α
  | fields, fuel, _ => parseFields fuel
  | methodSpecs, fuel, _ => parseMethodSpecs fuel
  | entries allowVariadic, fuel, variadic => parseEntries fuel allowVariadic variadic
  | operators level, fuel, left => parseOperators fuel level left
  | fieldInits, fuel, _ => parseFieldInits fuel
  | suffixes, fuel, operand => parsePostfix fuel operand
  | args, fuel, _ => parseArgs fuel
  | exprs, fuel, _ => parseExprs fuel
  | stmts ends, fuel, _ => parseStmts fuel ends
  | arms, fuel, fallback => parseArms fuel fallback
  | importPaths, fuel, _ => parseImportPaths fuel
  | decls, fuel, file => parseDecls fuel file

def round : Loop σ α → Nat → σ → Parser (Round σ α)
  | fields, fuel, _ => fieldsRound fuel
  | methodSpecs, fuel, _ => methodSpecsRound fuel
  | entries allowVariadic, fuel, variadic => entriesRound fuel allowVariadic variadic
  | operators level, fuel, left => operatorsRound fuel level left
  | fieldInits, fuel, _ => fieldInitsRound fuel
  | suffixes, fuel, operand => suffixRound fuel operand
  | args, fuel, _ => argsRound fuel
  | exprs, fuel, _ => exprsRound fuel
  | stmts ends, fuel, _ => stmtsRound fuel ends
  | arms, fuel, fallback => armsRound fuel fallback
  | importPaths, _, _ => importPathsRound
  | decls, fuel, file => declsRound fuel file

/-- A loop is a round and then, if that goes on, the loop again. -/
theorem run_succ (loop : Loop σ α) (fuel : Nat) (start : σ) :
    loop.run (fuel + 1) start = loop.round fuel start >>= Round.finish (loop.run fuel) := by
  cases loop with
  | fields => exact parseFields_eq fuel
  | methodSpecs => exact parseMethodSpecs_eq fuel
  | entries allowVariadic => exact parseEntries_eq fuel allowVariadic start
  | operators level => exact parseOperators_eq fuel level start
  | fieldInits => exact parseFieldInits_eq fuel
  | suffixes => exact parsePostfix_eq fuel start
  | args => exact parseArgs_eq fuel
  | exprs => exact parseExprs_eq fuel
  | stmts ends => exact parseStmts_eq fuel ends
  | arms => exact parseArms_eq fuel start
  | importPaths => exact parseImportPaths_eq fuel
  | decls => exact parseDecls_eq fuel start

end Loop

end GoToC.Grammar
