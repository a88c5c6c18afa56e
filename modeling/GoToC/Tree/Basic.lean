import GoToC.Source.Span

/-!
# Source trees

Expressions, statements and declarations as they are written. Types are written as
expressions: only the place where an expression stands tells whether it is to denote
a value or a type. Parentheses leave no trace.
-/

namespace GoToC

inductive UnaryOp where
  | neg
  | not
  deriving Repr, DecidableEq, Inhabited

inductive BinaryOp where
  | add | sub | mul | div | rem | shl | shr | bitAnd | bitOr | bitXor
  /-- Clears in the left operand the bits that are set in the right one. -/
  | andNot
  | eq | notEq | lt | gt | ltEq | gtEq
  | and | or
  deriving Repr, DecidableEq, Inhabited

/-- A name with a type: input or output of a function, field, or receiver. -/
structure Param (τ : Type) where
  /-- Empty for an input or output without a name. -/
  name : String
  type : τ
  span : Span
  deriving Repr

/-- The inputs and outputs of a function. The last input of a variadic one has slice type. -/
structure Signature (τ : Type) where
  variadic : Bool
  inputs : List (Param τ)
  outputs : List (Param τ)
  deriving Repr

/-- A method that an interface lists. -/
structure MethodSpec (τ : Type) where
  name : String
  signature : Signature τ
  span : Span
  deriving Repr

/-- A field of a constructor with the value it is given. -/
structure FieldInit (τ : Type) where
  name : String
  value : τ
  span : Span
  deriving Repr

/-- An expression; type expressions are among them. -/
inductive Expr where
  /-- An integer or character literal. -/
  | int (span : Span) (value : Nat)
  | str (span : Span) (text : String)
  | ident (span : Span) (name : String)
  | unary (span : Span) (op : UnaryOp) (operand : Expr)
  | binary (span : Span) (op : BinaryOp) (left right : Expr)
  /-- A call; `spread` if its last argument ends in three dots. -/
  | call (span : Span) (callee : Expr) (args : List Expr) (spread : Bool)
  | dot (span : Span) (receiver : Expr) (member : String)
  | index (span : Span) (receiver index : Expr)
  | slice (span : Span) (receiver : Expr) (lo hi : Option Expr)
  /-- A struct that is allocated with some of its fields set. -/
  | ctor (span : Span) (type : Expr) (fields : List (FieldInit Expr))
  | pointerType (span : Span) (inner : Expr)
  | sliceType (span : Span) (elem : Expr)
  | mapType (span : Span) (key value : Expr)
  | structType (span : Span) (fields : List (Param Expr))
  | interfaceType (span : Span) (methods : List (MethodSpec Expr))
  deriving Inhabited

namespace Expr

def span : Expr → Span
  | int span _ | str span _ | ident span _ | unary span _ _ | binary span _ _ _
  | call span _ _ _ | dot span _ _ | index span _ _ | slice span _ _ _ | ctor span _ _
  | pointerType span _ | sliceType span _ | mapType span _ _ | structType span _
  | interfaceType span _ => span

/-- The name of an expression that is nothing but an identifier. -/
def ident? : Expr → Option String
  | ident _ name => some name
  | _ => none

def isCall : Expr → Bool
  | call .. => true
  | _ => false

end Expr

/-- The forms of assignment. -/
inductive AssignOp where
  | set
  | define
  | compound (op : BinaryOp)
  | inc
  | dec
  /-- No assignment: an expression that stands alone. -/
  | lone
  deriving Repr, DecidableEq, Inhabited

/-- The sign between the two sides of an assignment. -/
def AssignOp.sign : AssignOp → String
  | set => "="
  | define => ":="
  | compound .add => "+="
  | compound .sub => "-="
  | compound .mul => "*="
  | compound _ => "?="
  | inc => "++"
  | dec => "--"
  | lone => ""

/-- One arm of a switch: the values it stands for and what it does. -/
structure SwitchCase (σ : Type) where
  tests : List Expr
  body : List σ
  span : Span

inductive Stmt where
  /-- Any assignment; an expression that stands alone is the right side of one. -/
  | assign (span : Span) (op : AssignOp) (targets values : List Expr)
  | var (span : Span) (name : String) (type : Expr)
  | ret (span : Span) (values : List Expr)
  | breakLoop (span : Span) (label : Option String)
  | continueLoop (span : Span) (label : Option String)
  | whileLoop (span : Span) (cond : Option Expr) (body : List Stmt)
  | forLoop (span : Span) (init : Option Stmt) (cond : Option Expr) (post : Option Stmt)
      (body : List Stmt)
  | rangeLoop (span : Span) (key value : Option String) (collection : Expr) (body : List Stmt)
  | ifElse (span : Span) (cond : Expr) (thenBody : List Stmt) (elseBody : Option (List Stmt))
  | switch (span : Span) (subject : Option Expr) (cases : List (SwitchCase Stmt))
      (fallback : Option (List Stmt))
  | block (span : Span) (body : List Stmt)
  deriving Inhabited

namespace Stmt

def span : Stmt → Span
  | assign span _ _ _ | var span _ _ | ret span _ | breakLoop span _ | continueLoop span _
  | whileLoop span _ _ | forLoop span _ _ _ _ | rangeLoop span _ _ _ _ | ifElse span _ _ _
  | switch span _ _ _ | block span _ => span

end Stmt

structure ImportDecl where
  name : String
  span : Span
  deriving Repr, Inhabited

structure ConstDecl where
  name : String
  type : Option Expr
  value : Expr
  span : Span
  deriving Inhabited

structure VarDecl where
  name : String
  type : Option Expr
  init : Option Expr
  span : Span
  deriving Inhabited

structure TypeDecl where
  name : String
  type : Expr
  span : Span
  deriving Inhabited

/-- A function, or a method if it has a receiver. Without a body it is native. -/
structure FuncDecl where
  receiver : Option (Param Expr)
  name : String
  signature : Signature Expr
  body : Option (List Stmt)
  span : Span

/-- The declarations of one source module, by kind, each kind in source order. -/
structure SourceFile where
  package : Option String
  imports : List ImportDecl
  consts : List ConstDecl
  vars : List VarDecl
  types : List TypeDecl
  funcs : List FuncDecl
  methods : List FuncDecl
  /-- The number of expression nodes made while reading, those taken back as names included. -/
  exprCount : Nat
  deriving Inhabited

namespace SourceFile

def empty : SourceFile := ⟨none, [], [], [], [], [], [], 0⟩

/-- The number of declarations. -/
def declCount (file : SourceFile) : Nat :=
  file.imports.length + file.consts.length + file.vars.length + file.types.length
    + file.funcs.length + file.methods.length

end SourceFile

end GoToC
