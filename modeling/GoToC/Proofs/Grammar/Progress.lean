import GoToC.Proofs.Grammar.FileRules

/-!
# Progress of the rules

Every rule of the grammar only passes tokens, and those that read an expression, a type, a
statement or an entry of a parameter list pass at least one. A round of a loop that goes on has
passed one too.
-/

namespace GoToC.Grammar

variable {σ α : Type} {c : Cursor}

/-! ## Reading tokens -/

namespace Advances

theorem within {must : α → Prop} {parser : Parser α} (context : String)
    (h : Advances must c parser) : Advances must c (within context parser) := by
  intro hc count value after hRun
  unfold Grammar.within at hRun
  split at hRun
  · simp at hRun
  · exact h hc count value after hRun

theorem advance (h : c.kind.isReadable = true) : Consumes c advance :=
  (Reads.advance rfl h : Reads True ..).consumes fun _ _ hLess => hLess

theorem eatSign (sign : Punct) : Advances (· = true) c (eatSign sign) :=
  (Reads.eatSign sign : Reads True ..).advances fun _ _ hEaten => hEaten.2

theorem expectSign (sign : Punct) : Consumes c (expectSign sign) :=
  (Reads.expectSign sign : Reads True ..).consumes fun _ _ hLess => hLess

theorem expectWord (keyword : Keyword) : Consumes c (expectWord keyword) :=
  (Reads.expectWord keyword : Reads True ..).consumes fun _ _ hLess => hLess

theorem expectIdent : Consumes c expectIdent :=
  (Reads.expectIdent : Reads True ..).consumes fun _ _ hRead => hRead.1

theorem skipTerminators : Moves c skipTerminators :=
  (Reads.skipTerminators : Reads True ..).moves

theorem expectTerminator : Moves c expectTerminator :=
  (Reads.expectTerminator : Reads True ..).moves

end Advances

/-! ## Types and expressions -/

theorem parseType_advances (fuel : Nat) (c : Cursor) : Consumes c (parseType fuel) :=
  (parseType_reads fuel c).consumes fun _ _ h => h.1

theorem parseSignature_advances (fuel : Nat) (c : Cursor) : Consumes c (parseSignature fuel) :=
  (parseSignature_reads fuel c).consumes fun _ _ h => h.1

theorem parseExpr_advances (fuel : Nat) (c : Cursor) : Consumes c (parseExpr fuel) :=
  (parseExpr_reads fuel c).consumes fun _ _ h => h.1

theorem parseExprs_advances (fuel : Nat) (c : Cursor) : Consumes c (parseExprs fuel) :=
  (parseExprs_reads fuel c).consumes fun _ _ h => h.1

/-! ## Statements -/

theorem parseSimple_advances (fuel : Nat) (c : Cursor) : Consumes c (parseSimple fuel) :=
  (parseSimple_reads fuel c).consumes fun _ _ h => h.1

theorem parseRangeNames_advances : Moves c parseRangeNames :=
  (parseRangeNames_reads : Reads True ..).moves

theorem parseBlock_advances (fuel : Nat) (c : Cursor) : Consumes c (parseBlock fuel) :=
  (parseBlock_reads fuel c).consumes fun _ _ h => h.1

theorem parseStmt_advances (fuel : Nat) (c : Cursor) : Consumes c (parseStmt fuel) :=
  (parseStmt_reads fuel c).consumes fun _ _ h => h.1

theorem parseIf_advances (fuel : Nat) (c : Cursor) : Consumes c (parseIf fuel) :=
  (parseIf_reads fuel c).consumes fun _ _ h => h.1

theorem parseFor_advances (fuel : Nat) (c : Cursor) : Consumes c (parseFor fuel) :=
  (parseFor_reads fuel c).consumes fun _ _ h => h.1

theorem parseSwitch_advances (fuel : Nat) (c : Cursor) : Consumes c (parseSwitch fuel) :=
  (parseSwitch_reads fuel c).consumes fun _ _ h => h.1

/-! ## Declarations -/

theorem parsePackage_advances : Consumes c parsePackage :=
  (parsePackage_reads : Reads True ..).consumes fun _ _ h => h

theorem parseConst_advances (fuel : Nat) (c : Cursor) : Consumes c (parseConst fuel) :=
  (parseConst_reads fuel c).consumes fun _ _ h => h.1

theorem parseVar_advances (fuel : Nat) (c : Cursor) : Consumes c (parseVar fuel) :=
  (parseVar_reads fuel c).consumes fun _ _ h => h.1

theorem parseTypeDecl_advances (fuel : Nat) (c : Cursor) : Consumes c (parseTypeDecl fuel) :=
  (parseTypeDecl_reads fuel c).consumes fun _ _ h => h.1

theorem parseReceiver_advances (fuel : Nat) (c : Cursor) : Moves c (parseReceiver fuel) :=
  (parseReceiver_reads fuel c).moves

theorem parseFunc_advances (fuel : Nat) (c : Cursor) : Consumes c (parseFunc fuel) :=
  (parseFunc_reads fuel c).consumes fun _ _ h => h.1

theorem parseDecl_advances (fuel : Nat) (file : SourceFile) (c : Cursor) :
    Consumes c (parseDecl fuel file) :=
  (parseDecl_reads fuel file c).consumes fun _ _ h => h.1

theorem parseDecls_advances (fuel : Nat) (file : SourceFile) (c : Cursor) :
    Moves c (parseDecls fuel file) :=
  (parseDecls_reads fuel file c).moves

/-! ## All rules -/

/-- The rules of the grammar, by what they read. -/
inductive Rule : Type → Type 1 where
  | type : Rule Expr
  | signature : Rule (Signature Expr)
  | params (allowVariadic : Bool) : Rule (List (Param Expr) × Bool)
  | entry (allowVariadic : Bool) : Rule (Entry × Bool)
  | variadic (allowVariadic : Bool) : Rule Expr
  | expr : Rule Expr
  | binary (level : Nat) : Rule Expr
  | unary : Rule Expr
  | ctor : Rule Expr
  | subscript (operand : Expr) : Rule (Span → Expr)
  | primary : Rule Expr
  | label : Rule (Option String)
  | simple : Rule Simple
  | rangeNames : Rule (Option String × Option String)
  | block : Rule (List Stmt)
  | stmt : Rule Stmt
  | ifElse : Rule Stmt
  | elseBody : Rule (Option (List Stmt))
  | forLoop : Rule (Span → Stmt)
  | forClauses (init : Option Stmt) : Rule (Span → Stmt)
  | switch : Rule (Span → Stmt)
  | package : Rule String
  | importPath : Rule ImportDecl
  | imports : Rule (List ImportDecl)
  | declaredType : Rule (Option Expr)
  | const : Rule ConstDecl
  | var : Rule VarDecl
  | typeDecl : Rule TypeDecl
  | receiver : Rule (Option (Param Expr))
  | func : Rule FuncDecl
  | decl (file : SourceFile) : Rule SourceFile
  | loop {σ α : Type} (rounds : Loop σ α) (start : σ) : Rule α

namespace Rule

def parser : Rule α → Nat → Parser α
  | type, fuel => parseType fuel
  | signature, fuel => parseSignature fuel
  | params allowVariadic, fuel => parseParams fuel allowVariadic
  | entry allowVariadic, fuel => parseEntry fuel allowVariadic
  | variadic allowVariadic, fuel => parseVariadic fuel allowVariadic
  | expr, fuel => parseExpr fuel
  | binary level, fuel => parseBinary fuel level
  | unary, fuel => parseUnary fuel
  | ctor, fuel => parseCtor fuel
  | subscript operand, fuel => parseSubscript fuel operand
  | primary, fuel => parsePrimary fuel
  | label, _ => parseLabel
  | simple, fuel => parseSimple fuel
  | rangeNames, _ => parseRangeNames
  | block, fuel => parseBlock fuel
  | stmt, fuel => parseStmt fuel
  | ifElse, fuel => parseIf fuel
  | elseBody, fuel => parseElse fuel
  | forLoop, fuel => parseFor fuel
  | forClauses init, fuel => parseForClauses fuel init
  | switch, fuel => parseSwitch fuel
  | package, _ => parsePackage
  | importPath, _ => parseImportPath
  | imports, fuel => parseImports fuel
  | declaredType, fuel => parseDeclaredType fuel
  | const, fuel => parseConst fuel
  | var, fuel => parseVar fuel
  | typeDecl, fuel => parseTypeDecl fuel
  | receiver, fuel => parseReceiver fuel
  | func, fuel => parseFunc fuel
  | decl file, fuel => parseDecl fuel file
  | loop rounds start, fuel => rounds.run fuel start

/-- The rules that may succeed without reading a token. -/
def MayBeEmpty : Rule α → Prop
  | subscript _ | label | rangeNames | elseBody | declaredType | receiver | loop .. => True
  | _ => False

end Rule

/-- A loop may come to an end before it has passed a token. -/
theorem Loop.run_advances (loop : Loop σ α) (fuel : Nat) (start : σ) :
    Moves c (loop.run fuel start) := by
  cases loop with
  | fields => exact (parseFields_reads fuel c).moves
  | methodSpecs => exact (parseMethodSpecs_reads fuel c).moves
  | entries allowVariadic => exact (parseEntries_reads fuel allowVariadic start c).moves
  | operators level => exact (parseOperators_reads fuel level start c).moves
  | fieldInits => exact (parseFieldInits_reads fuel c).moves
  | suffixes => exact (parsePostfix_reads fuel start c).moves
  | args => exact (parseArgs_reads fuel c).moves
  | exprs => exact (parseExprs_reads fuel c).moves
  | stmts ends => exact (parseStmts_reads fuel ends c).moves
  | arms => exact (parseArms_reads fuel start c).moves
  | importPaths => exact (parseImportPaths_reads fuel c).moves
  | decls => exact parseDecls_advances fuel start c

/-- A round that goes on has passed a token. -/
theorem Loop.round_advances (loop : Loop σ α) (fuel : Nat) (start : σ) :
    Advances Round.GoesOn c (loop.round fuel start) := by
  cases loop with
  | fields => exact (fieldsRound_reads (parseType_reads fuel)).goesOn
  | methodSpecs => exact (methodSpecsRound_reads (parseSignature_reads fuel)).goesOn
  | entries allowVariadic => exact (entriesRound_reads (parseEntry_reads fuel allowVariadic)).goesOn
  | operators level => exact (operatorsRound_reads (parseBinary_reads fuel)).goesOn
  | fieldInits => exact (fieldInitsRound_reads (parseExpr_reads fuel)).goesOn
  | suffixes =>
      exact (suffixRound_reads (parseArgs_reads fuel) (parseSubscript_reads fuel start)).goesOn
  | args => exact (argsRound_reads (parseExpr_reads fuel)).goesOn
  | exprs =>
      exact ((exprsRound_reads (parseExpr_reads fuel)).consumes fun _ _ h => h.1).weaken
  | stmts ends => exact (stmtsRound_reads (parseStmt_reads fuel)).goesOn
  | arms => exact (armsRound_reads (parseStmts_reads fuel armEnds)).goesOn
  | importPaths => exact (importPathsRound_reads : Reads True ..).goesOn
  | decls => exact (declsRound_reads fuel start c).goesOn

/-- Every rule only passes tokens, and at least one unless it may be empty. -/
theorem Rule.parser_advances (rule : Rule α) (fuel : Nat) :
    Advances (fun _ => ¬ rule.MayBeEmpty) c (rule.parser fuel) := by
  cases rule with
  | type => exact (parseType_advances fuel c).weaken
  | signature => exact (parseSignature_advances fuel c).weaken
  | params allowVariadic =>
      exact (parseParams_reads fuel allowVariadic c).advances fun _ _ h _ => h.1
  | entry allowVariadic => exact (parseEntry_reads fuel allowVariadic c).advances fun _ _ h _ => h.1
  | variadic allowVariadic =>
      exact (parseVariadic_reads fuel allowVariadic c).advances fun _ _ h _ => h.1
  | expr => exact (parseExpr_advances fuel c).weaken
  | binary level => exact (parseBinary_reads fuel level c).advances fun _ _ h _ => h.1
  | unary => exact (parseUnary_reads fuel c).advances fun _ _ h _ => h.1
  | ctor => exact (parseCtor_reads fuel c).advances fun _ _ h _ => h.1
  | subscript operand => exact (parseSubscript_reads fuel operand c).moves.mono fun _ h => h trivial
  | primary => exact (parsePrimary_reads fuel c).advances fun _ _ h _ => h.1
  | label => exact (parseLabel_reads : Reads True ..).moves.mono fun _ h => h trivial
  | simple => exact (parseSimple_advances fuel c).weaken
  | rangeNames => exact parseRangeNames_advances.mono fun _ h => h trivial
  | block => exact (parseBlock_advances fuel c).weaken
  | stmt => exact (parseStmt_advances fuel c).weaken
  | ifElse => exact (parseIf_advances fuel c).weaken
  | elseBody => exact (parseElse_reads fuel c).moves.mono fun _ h => h trivial
  | forLoop => exact (parseFor_advances fuel c).weaken
  | forClauses init => exact (parseForClauses_reads fuel init c).advances fun _ _ h _ => h.1
  | switch => exact (parseSwitch_advances fuel c).weaken
  | package => exact parsePackage_advances.weaken
  | importPath => exact (parseImportPath_reads : Reads True ..).advances fun _ _ h _ => h
  | imports => exact (parseImports_reads fuel c).advances fun _ _ h _ => h
  | declaredType => exact (parseDeclaredType_reads fuel c).moves.mono fun _ h => h trivial
  | const => exact (parseConst_advances fuel c).weaken
  | var => exact (parseVar_advances fuel c).weaken
  | typeDecl => exact (parseTypeDecl_advances fuel c).weaken
  | receiver => exact (parseReceiver_advances fuel c).mono fun _ h => h trivial
  | func => exact (parseFunc_advances fuel c).weaken
  | decl file => exact (parseDecl_advances fuel file c).weaken
  | loop rounds start => exact (rounds.run_advances fuel start).mono fun _ h => h trivial

end GoToC.Grammar
