import GoToC.Grammar.Stmt
import GoToC.Token.Lexer

/-!
# Source files

The rules for declarations. A file is any number of declarations, each ended by a line
end, a semicolon or the end of the file, and sorted by kind as they are read.
-/

namespace GoToC.Grammar

def parsePackage : Parser String := do
  let _ ← expectWord .package
  let (name, _) ← expectIdent
  return name

def parseImportPath : Parser ImportDecl := do
  match ← kind with
  | .str name =>
      let token ← advance
      return ⟨name, token.span⟩
  | _ => unexpected (.thing "import path string")

/-- The paths of a grouped import, up to and with the closing parenthesis. -/
def parseImportPaths : Nat → Parser (List ImportDecl)
  | 0 => exhausted
  | fuel + 1 => do
      skipTerminators
      if ← eatSign .rparen then return []
      let first ← parseImportPath
      let others ← parseImportPaths fuel
      return first :: others

def parseImports (fuel : Nat) : Parser (List ImportDecl) := do
  let _ ← expectWord .import
  if ← eatSign .lparen then parseImportPaths fuel
  else
    let decl ← parseImportPath
    return [decl]

/-- The type before an equals sign, which may be left out. -/
def parseDeclaredType (fuel : Nat) : Parser (Option Expr) := do
  if ← checkSign .eq then return none
  some <$> parseType fuel

def parseConst (fuel : Nat) : Parser ConstDecl := do
  let start ← expectWord .const
  let (name, _) ← expectIdent
  let type ← parseDeclaredType fuel
  let _ ← expectSign .eq
  let value ← parseExpr fuel
  return ⟨name, type, value, start.merge (← previousSpan)⟩

def parseVar (fuel : Nat) : Parser VarDecl := do
  let start ← expectWord .var
  let (name, _) ← expectIdent
  let type ← parseDeclaredType fuel
  let init ← if ← eatSign .eq then some <$> parseExpr fuel else pure none
  if type.isNone && init.isNone then unexpected (.thing "type or `=`")
  return ⟨name, type, init, start.merge (← previousSpan)⟩

def parseTypeDecl (fuel : Nat) : Parser TypeDecl := do
  let start ← expectWord .type
  let (name, _) ← expectIdent
  let type ← parseType fuel
  return ⟨name, type, start.merge (← previousSpan)⟩

/-- The receiver of a method, in parentheses before its name. -/
def parseReceiver (fuel : Nat) : Parser (Option (Param Expr)) := do
  if ← eatSign .lparen then
    let (name, nameSpan) ← expectIdent
    let type ← parseType fuel
    let _ ← expectSign .rparen
    return some ⟨name, type, nameSpan⟩
  else return none

def parseFunc (fuel : Nat) : Parser FuncDecl := do
  let start ← expectWord .func
  let receiver ← parseReceiver fuel
  let (name, _) ← expectIdent
  let signature ← within "function signature" (parseSignature fuel)
  let body ← if ← checkSign .lbrace then some <$> parseBlock fuel else pure none
  return ⟨receiver, name, signature, body, start.merge (← previousSpan)⟩

/-- Adds a function among the functions or, with a receiver, among the methods. -/
def addFunc (file : SourceFile) (decl : FuncDecl) : SourceFile :=
  if decl.receiver.isSome then { file with methods := file.methods ++ [decl] }
  else { file with funcs := file.funcs ++ [decl] }

/-- Reads one declaration and adds it to those read before. -/
def parseDecl (fuel : Nat) (file : SourceFile) : Parser SourceFile := do
  match ← kind with
  | .keyword .package =>
      let name ← parsePackage
      return { file with package := some name }
  | .keyword .import =>
      let decls ← within "import" (parseImports fuel)
      return { file with imports := file.imports ++ decls }
  | .keyword .const =>
      let decl ← within "const declaration" (parseConst fuel)
      return { file with consts := file.consts ++ [decl] }
  | .keyword .var =>
      let decl ← within "var declaration" (parseVar fuel)
      return { file with vars := file.vars ++ [decl] }
  | .keyword .type =>
      let decl ← within "type declaration" (parseTypeDecl fuel)
      return { file with types := file.types ++ [decl] }
  | .keyword .func =>
      let decl ← within "function declaration" (parseFunc fuel)
      return addFunc file decl
  | _ => unexpected (.thing "declaration")

/-- Reads declarations up to the end of the file. -/
def parseDecls : Nat → SourceFile → Parser SourceFile
  | 0, _ => exhausted
  | fuel + 1, file => do
      skipTerminators
      if (← cursor).atEnd then return file
      let file ← parseDecl fuel file
      expectTerminator
      if ← checkSign .rbrace then unexpected (.thing "declaration")
      parseDecls fuel file

/-- Steps enough for any file of that many tokens: between two tokens that are read, rules
call each other fewer than sixteen deep. -/
def fuelFor (tokens : List Token) : Nat := 16 * (tokens.length + 2)

end GoToC.Grammar

namespace GoToC

/-- Reads a token list as a source file. -/
def parseTokens (tokens : List Token) : Except Grammar.Failure SourceFile :=
  match (Grammar.parseDecls (Grammar.fuelFor tokens) SourceFile.empty).run
      ⟨Cursor.ofTokens tokens, 0⟩ with
  | .ok (file, state) => .ok { file with exprCount := state.exprCount }
  | .error failure => .error failure

/-- Reads a source text as a source file. -/
def parse (source : String) : Except Grammar.Failure SourceFile := parseTokens (lex source)

end GoToC
