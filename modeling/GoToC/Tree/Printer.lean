import GoToC.Tree.Basic

/-!
# Trees as text

Every node is written as a list in parentheses: its kind, its span, its parts.
An absent part is a dash.
-/

namespace GoToC.Printer

/-- A list of parts in parentheses, one space between them. -/
def node (parts : List String) : String := "(" ++ " ".intercalate parts ++ ")"

def hexDigit (value : Nat) : Char :=
  if value < 10 then Char.ofNat (48 + value) else Char.ofNat (87 + value)

/-- A character inside quoted text: quotes and backslashes are marked, control codes spelled out. -/
def quoteChar (c : Char) : List Char :=
  if c = '\x22' || c = '\x5c' then ['\x5c', c]
  else if c.toNat < 0x20 || c.toNat = 0x7f then
    ['\x5c', 'x', hexDigit (c.toNat / 16), hexDigit (c.toNat % 16)]
  else [c]

def quoted (text : String) : String :=
  "\"" ++ String.ofList (text.toList.flatMap quoteChar) ++ "\""

def optional (part : Option String) : String := part.getD "-"

def flag (value : Bool) : String := if value then "true" else "false"

def unaryOp : UnaryOp → String
  | .neg => "Neg"
  | .not => "Not"

def binaryOp : BinaryOp → String
  | .add => "Add"
  | .sub => "Sub"
  | .mul => "Mul"
  | .div => "Div"
  | .rem => "Rem"
  | .shl => "Shl"
  | .shr => "Shr"
  | .bitAnd => "BitAnd"
  | .bitOr => "BitOr"
  | .bitXor => "BitXor"
  | .andNot => "AndNot"
  | .eq => "Eq"
  | .notEq => "NotEq"
  | .lt => "Lt"
  | .gt => "Gt"
  | .ltEq => "LtEq"
  | .gtEq => "GtEq"
  | .and => "And"
  | .or => "Or"

mutual

def expr : Expr → String
  | .int span value => node ["int", span.render, toString value]
  | .str span text => node ["str", span.render, quoted text]
  | .ident span name => node ["id", span.render, name]
  | .unary span op operand => node ["un", span.render, unaryOp op, expr operand]
  | .binary span op left right =>
      node ["bin", span.render, binaryOp op, expr left, expr right]
  | .call span callee args spread =>
      node ["call", span.render, flag spread, expr callee, node (exprs args)]
  | .dot span receiver member => node ["dot", span.render, expr receiver, member]
  | .index span receiver index => node ["index", span.render, expr receiver, expr index]
  | .slice span receiver lo hi =>
      node ["slice", span.render, expr receiver, optional (optExpr lo), optional (optExpr hi)]
  | .ctor span type fields =>
      node ["ctor", span.render, expr type, node (fieldInits fields)]
  | .pointerType span inner => node ["ptr-type", span.render, expr inner]
  | .sliceType span elem => node ["slice-type", span.render, expr elem]
  | .mapType span key value => node ["map-type", span.render, expr key, expr value]
  | .structType span fields => node ["struct-type", span.render, node (params fields)]
  | .interfaceType span specs => node ["interface-type", span.render, node (methodSpecs specs)]

def exprs : List Expr → List String
  | [] => []
  | e :: rest => expr e :: exprs rest

def optExpr : Option Expr → Option String
  | none => none
  | some e => some (expr e)

def param : Param Expr → String
  | ⟨name, type, span⟩ => node ["param", span.render, quoted name, expr type]

def params : List (Param Expr) → List String
  | [] => []
  | p :: rest => param p :: params rest

def signature : Signature Expr → String
  | ⟨variadic, inputs, outputs⟩ =>
      node ["sig", flag variadic, node (params inputs), node (params outputs)]

def methodSpec : MethodSpec Expr → String
  | ⟨name, sig, span⟩ => node ["method", span.render, name, signature sig]

def methodSpecs : List (MethodSpec Expr) → List String
  | [] => []
  | m :: rest => methodSpec m :: methodSpecs rest

def fieldInit : FieldInit Expr → String
  | ⟨name, value, span⟩ => node ["init", span.render, name, expr value]

def fieldInits : List (FieldInit Expr) → List String
  | [] => []
  | f :: rest => fieldInit f :: fieldInits rest

end

mutual

def stmt : Stmt → String
  | .assign span op targets values =>
      node ["assign", span.render, quoted op.sign, node (exprs targets), node (exprs values)]
  | .var span name type => node ["var", span.render, name, expr type]
  | .ret span values => node ["return", span.render, node (exprs values)]
  | .breakLoop span label => node ["break", span.render, optional label]
  | .continueLoop span label => node ["continue", span.render, optional label]
  | .whileLoop span cond body =>
      node ["while", span.render, optional (optExpr cond), node (stmts body)]
  | .forLoop span init cond post body =>
      node ["for", span.render, optional (optStmt init), optional (optExpr cond),
        optional (optStmt post), node (stmts body)]
  | .rangeLoop span key value collection body =>
      node ["range", span.render, optional key, optional value, expr collection,
        node (stmts body)]
  | .ifElse span cond thenBody elseBody =>
      node ["if", span.render, expr cond, node (stmts thenBody), optional (optStmts elseBody)]
  | .switch span subject cases fallback =>
      node ["switch", span.render, optional (optExpr subject), node (switchCases cases),
        optional (optStmts fallback)]
  | .block span body => node ["block", span.render, node (stmts body)]

def stmts : List Stmt → List String
  | [] => []
  | s :: rest => stmt s :: stmts rest

def optStmt : Option Stmt → Option String
  | none => none
  | some s => some (stmt s)

def optStmts : Option (List Stmt) → Option String
  | none => none
  | some body => some (node (stmts body))

def switchCase : SwitchCase Stmt → String
  | ⟨tests, body, span⟩ => node ["case", span.render, node (exprs tests), node (stmts body)]

def switchCases : List (SwitchCase Stmt) → List String
  | [] => []
  | c :: rest => switchCase c :: switchCases rest

end

def importDecl (decl : ImportDecl) : String :=
  node ["import", decl.span.render, quoted decl.name]

def constDecl (decl : ConstDecl) : String :=
  node ["const", decl.span.render, decl.name, optional (optExpr decl.type), expr decl.value]

def varDecl (decl : VarDecl) : String :=
  node ["var", decl.span.render, decl.name, optional (optExpr decl.type),
    optional (optExpr decl.init)]

def typeDecl (decl : TypeDecl) : String :=
  node ["type", decl.span.render, decl.name, expr decl.type]

def funcDecl (decl : FuncDecl) : String :=
  node ["func", decl.span.render, optional (decl.receiver.map param), decl.name,
    signature decl.signature, optional (optStmts decl.body)]

end GoToC.Printer
