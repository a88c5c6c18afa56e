import Mathlib.Data.List.Perm.Basic
import GoToC.Tree.Basic

/-!
# Trees without their places

What is left of a tree when it is forgotten where its parts stand in the source. Two files are
rearrangements of each other if they have the same declarations, the types among them in any
order.
-/

namespace GoToC

mutual

/-- An expression without the places of its parts. -/
def Expr.bare : Expr → Expr
  | .int _ value => .int .nowhere value
  | .str _ text => .str .nowhere text
  | .ident _ name => .ident .nowhere name
  | .unary _ op operand => .unary .nowhere op operand.bare
  | .binary _ op left right => .binary .nowhere op left.bare right.bare
  | .call _ callee args spread => .call .nowhere callee.bare (bareExprs args) spread
  | .dot _ receiver member => .dot .nowhere receiver.bare member
  | .index _ receiver index => .index .nowhere receiver.bare index.bare
  | .slice _ receiver lo hi => .slice .nowhere receiver.bare (bareOptExpr lo) (bareOptExpr hi)
  | .ctor _ type fields => .ctor .nowhere type.bare (bareInits fields)
  | .pointerType _ inner => .pointerType .nowhere inner.bare
  | .sliceType _ elem => .sliceType .nowhere elem.bare
  | .mapType _ key value => .mapType .nowhere key.bare value.bare
  | .structType _ fields => .structType .nowhere (bareParams fields)
  | .interfaceType _ specs => .interfaceType .nowhere (bareSpecs specs)

def bareExprs : List Expr → List Expr
  | [] => []
  | e :: rest => e.bare :: bareExprs rest

def bareOptExpr : Option Expr → Option Expr
  | none => none
  | some e => some e.bare

def bareInits : List (FieldInit Expr) → List (FieldInit Expr)
  | [] => []
  | ⟨name, value, _⟩ :: rest => ⟨name, value.bare, .nowhere⟩ :: bareInits rest

def bareParam : Param Expr → Param Expr
  | ⟨name, type, _⟩ => ⟨name, type.bare, .nowhere⟩

def bareParams : List (Param Expr) → List (Param Expr)
  | [] => []
  | param :: rest => bareParam param :: bareParams rest

def bareSignature : Signature Expr → Signature Expr
  | ⟨variadic, inputs, outputs⟩ => ⟨variadic, bareParams inputs, bareParams outputs⟩

def bareSpecs : List (MethodSpec Expr) → List (MethodSpec Expr)
  | [] => []
  | ⟨name, signature, _⟩ :: rest => ⟨name, bareSignature signature, .nowhere⟩ :: bareSpecs rest

end

mutual

/-- A statement without the places of its parts. -/
def Stmt.bare : Stmt → Stmt
  | .assign _ op targets values => .assign .nowhere op (bareExprs targets) (bareExprs values)
  | .var _ name type => .var .nowhere name type.bare
  | .ret _ values => .ret .nowhere (bareExprs values)
  | .breakLoop _ label => .breakLoop .nowhere label
  | .continueLoop _ label => .continueLoop .nowhere label
  | .whileLoop _ cond body => .whileLoop .nowhere (bareOptExpr cond) (bareStmts body)
  | .forLoop _ init cond post body =>
      .forLoop .nowhere (bareOptStmt init) (bareOptExpr cond) (bareOptStmt post) (bareStmts body)
  | .rangeLoop _ key value collection body =>
      .rangeLoop .nowhere key value collection.bare (bareStmts body)
  | .ifElse _ cond thenBody elseBody =>
      .ifElse .nowhere cond.bare (bareStmts thenBody) (bareOptStmts elseBody)
  | .switch _ subject cases fallback =>
      .switch .nowhere (bareOptExpr subject) (bareCases cases) (bareOptStmts fallback)
  | .block _ body => .block .nowhere (bareStmts body)

def bareStmts : List Stmt → List Stmt
  | [] => []
  | stmt :: rest => stmt.bare :: bareStmts rest

def bareOptStmt : Option Stmt → Option Stmt
  | none => none
  | some stmt => some stmt.bare

def bareOptStmts : Option (List Stmt) → Option (List Stmt)
  | none => none
  | some body => some (bareStmts body)

def bareCases : List (SwitchCase Stmt) → List (SwitchCase Stmt)
  | [] => []
  | ⟨tests, body, _⟩ :: rest => ⟨bareExprs tests, bareStmts body, .nowhere⟩ :: bareCases rest

end

def TypeDecl.bare (decl : TypeDecl) : TypeDecl := ⟨decl.name, decl.type.bare, .nowhere⟩

def ConstDecl.bare (decl : ConstDecl) : ConstDecl :=
  ⟨decl.name, bareOptExpr decl.type, decl.value.bare, .nowhere⟩

def VarDecl.bare (decl : VarDecl) : VarDecl :=
  ⟨decl.name, bareOptExpr decl.type, bareOptExpr decl.init, .nowhere⟩

def FuncDecl.bare (decl : FuncDecl) : FuncDecl :=
  ⟨decl.receiver.map bareParam, decl.name, bareSignature decl.signature, bareOptStmts decl.body,
    .nowhere⟩

/-- The same declarations, apart from where they stand and in which order the types do. -/
structure SourceFile.Rearranges (file file' : SourceFile) : Prop where
  imports : file.imports.map (·.name) = file'.imports.map (·.name)
  types : (file.types.map TypeDecl.bare).Perm (file'.types.map TypeDecl.bare)
  consts : file.consts.map ConstDecl.bare = file'.consts.map ConstDecl.bare
  vars : file.vars.map VarDecl.bare = file'.vars.map VarDecl.bare
  funcs : file.funcs.map FuncDecl.bare = file'.funcs.map FuncDecl.bare
  methods : file.methods.map FuncDecl.bare = file'.methods.map FuncDecl.bare

theorem SourceFile.Rearranges.symm {file file' : SourceFile} (h : file.Rearranges file') :
    file'.Rearranges file where
  imports := h.imports.symm
  types := h.types.symm
  consts := h.consts.symm
  vars := h.vars.symm
  funcs := h.funcs.symm
  methods := h.methods.symm

theorem SourceFile.Rearranges.refl (file : SourceFile) : file.Rearranges file :=
  ⟨rfl, .refl _, rfl, rfl, rfl, rfl⟩

theorem forall₂_of_map_eq {α β : Type} {f : α → β} {as bs : List α} (h : as.map f = bs.map f) :
    List.Forall₂ (fun a b => f a = f b) as bs := by
  rw [← List.forall₂_eq_eq_eq, List.forall₂_map_left_iff, List.forall₂_map_right_iff] at h
  exact h

end GoToC
