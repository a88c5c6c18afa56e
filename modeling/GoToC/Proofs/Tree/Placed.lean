import GoToC.Tree.Basic

/-!
# Places of trees

A tree is placed if all its spans are of a kind, as those are that lie in one source text.
-/

namespace GoToC

mutual

/-- An expression all of whose spans are of a kind. -/
def Expr.Placed (fits : Span → Prop) : Expr → Prop
  | .int span _ => fits span
  | .str span _ => fits span
  | .ident span _ => fits span
  | .unary span _ operand => fits span ∧ operand.Placed fits
  | .binary span _ left right => fits span ∧ left.Placed fits ∧ right.Placed fits
  | .call span callee args _ => fits span ∧ callee.Placed fits ∧ ExprsPlaced fits args
  | .dot span receiver _ => fits span ∧ receiver.Placed fits
  | .index span receiver index => fits span ∧ receiver.Placed fits ∧ index.Placed fits
  | .slice span receiver lo hi =>
      fits span ∧ receiver.Placed fits ∧ OptExprPlaced fits lo ∧ OptExprPlaced fits hi
  | .ctor span type fields => fits span ∧ type.Placed fits ∧ InitsPlaced fits fields
  | .pointerType span inner => fits span ∧ inner.Placed fits
  | .sliceType span elem => fits span ∧ elem.Placed fits
  | .mapType span key value => fits span ∧ key.Placed fits ∧ value.Placed fits
  | .structType span fields => fits span ∧ ParamsPlaced fits fields
  | .interfaceType span specs => fits span ∧ SpecsPlaced fits specs

def ExprsPlaced (fits : Span → Prop) : List Expr → Prop
  | [] => True
  | e :: rest => e.Placed fits ∧ ExprsPlaced fits rest

def OptExprPlaced (fits : Span → Prop) : Option Expr → Prop
  | none => True
  | some e => e.Placed fits

def InitsPlaced (fits : Span → Prop) : List (FieldInit Expr) → Prop
  | [] => True
  | ⟨_, value, span⟩ :: rest => (fits span ∧ value.Placed fits) ∧ InitsPlaced fits rest

def ParamsPlaced (fits : Span → Prop) : List (Param Expr) → Prop
  | [] => True
  | ⟨_, type, span⟩ :: rest => (fits span ∧ type.Placed fits) ∧ ParamsPlaced fits rest

def SignaturePlaced (fits : Span → Prop) : Signature Expr → Prop
  | ⟨_, inputs, outputs⟩ => ParamsPlaced fits inputs ∧ ParamsPlaced fits outputs

def SpecsPlaced (fits : Span → Prop) : List (MethodSpec Expr) → Prop
  | [] => True
  | ⟨_, signature, span⟩ :: rest =>
      (fits span ∧ SignaturePlaced fits signature) ∧ SpecsPlaced fits rest

end

mutual

def Stmt.Placed (fits : Span → Prop) : Stmt → Prop
  | .assign span _ targets values =>
      fits span ∧ ExprsPlaced fits targets ∧ ExprsPlaced fits values
  | .var span _ type => fits span ∧ type.Placed fits
  | .ret span values => fits span ∧ ExprsPlaced fits values
  | .breakLoop span _ => fits span
  | .continueLoop span _ => fits span
  | .whileLoop span cond body => fits span ∧ OptExprPlaced fits cond ∧ StmtsPlaced fits body
  | .forLoop span init cond post body =>
      fits span ∧ OptStmtPlaced fits init ∧ OptExprPlaced fits cond ∧ OptStmtPlaced fits post ∧
        StmtsPlaced fits body
  | .rangeLoop span _ _ collection body =>
      fits span ∧ collection.Placed fits ∧ StmtsPlaced fits body
  | .ifElse span cond thenBody elseBody =>
      fits span ∧ cond.Placed fits ∧ StmtsPlaced fits thenBody ∧ OptStmtsPlaced fits elseBody
  | .switch span subject cases fallback =>
      fits span ∧ OptExprPlaced fits subject ∧ CasesPlaced fits cases ∧ OptStmtsPlaced fits fallback
  | .block span body => fits span ∧ StmtsPlaced fits body

def StmtsPlaced (fits : Span → Prop) : List Stmt → Prop
  | [] => True
  | stmt :: rest => stmt.Placed fits ∧ StmtsPlaced fits rest

def OptStmtPlaced (fits : Span → Prop) : Option Stmt → Prop
  | none => True
  | some stmt => stmt.Placed fits

def OptStmtsPlaced (fits : Span → Prop) : Option (List Stmt) → Prop
  | none => True
  | some body => StmtsPlaced fits body

def CasesPlaced (fits : Span → Prop) : List (SwitchCase Stmt) → Prop
  | [] => True
  | ⟨tests, body, span⟩ :: rest =>
      (fits span ∧ ExprsPlaced fits tests ∧ StmtsPlaced fits body) ∧ CasesPlaced fits rest

end

structure ConstDecl.Placed (fits : Span → Prop) (decl : ConstDecl) : Prop where
  span : fits decl.span
  type : OptExprPlaced fits decl.type
  value : decl.value.Placed fits

structure VarDecl.Placed (fits : Span → Prop) (decl : VarDecl) : Prop where
  span : fits decl.span
  type : OptExprPlaced fits decl.type
  init : OptExprPlaced fits decl.init

structure TypeDecl.Placed (fits : Span → Prop) (decl : TypeDecl) : Prop where
  span : fits decl.span
  type : decl.type.Placed fits

structure FuncDecl.Placed (fits : Span → Prop) (decl : FuncDecl) : Prop where
  span : fits decl.span
  receiver : ParamsPlaced fits decl.receiver.toList
  signature : SignaturePlaced fits decl.signature
  body : OptStmtsPlaced fits decl.body

/-- A file all of whose declarations are placed. -/
structure SourceFile.Placed (fits : Span → Prop) (file : SourceFile) : Prop where
  imports : ∀ decl ∈ file.imports, fits decl.span
  consts : ∀ decl ∈ file.consts, decl.Placed fits
  vars : ∀ decl ∈ file.vars, decl.Placed fits
  types : ∀ decl ∈ file.types, decl.Placed fits
  funcs : ∀ decl ∈ file.funcs, decl.Placed fits
  methods : ∀ decl ∈ file.methods, decl.Placed fits

variable {fits : Span → Prop}

theorem Expr.Placed.span {e : Expr} (h : e.Placed fits) : fits e.span := by
  cases e with
  | int | str | ident =>
      rw [Expr.Placed] at h
      exact h
  | _ =>
      simp only [Expr.Placed] at h
      exact h.1

theorem paramsPlaced_iff {params : List (Param Expr)} :
    ParamsPlaced fits params ↔ ∀ param ∈ params, fits param.span ∧ param.type.Placed fits := by
  induction params with
  | nil => simp [ParamsPlaced]
  | cons param rest ih => simp [ParamsPlaced, ih]

/-! ## Trees at any place -/

mutual

theorem Expr.placed_any : (e : Expr) → e.Placed fun _ => True
  | .int _ _ | .str _ _ | .ident _ _ => by simp [Expr.Placed]
  | .unary _ _ e | .dot _ e _ | .pointerType _ e | .sliceType _ e => by
      simp [Expr.Placed, e.placed_any]
  | .binary _ _ e other | .index _ e other | .mapType _ e other => by
      simp [Expr.Placed, e.placed_any, other.placed_any]
  | .call _ callee args _ => by
      simp [Expr.Placed, callee.placed_any, exprsPlaced_any args]
  | .slice _ receiver lo hi => by
      simp [Expr.Placed, receiver.placed_any, optExprPlaced_any lo, optExprPlaced_any hi]
  | .ctor _ type fields => by simp [Expr.Placed, type.placed_any, initsPlaced_any fields]
  | .structType _ fields => by simp [Expr.Placed, paramsPlaced_any fields]
  | .interfaceType _ specs => by simp [Expr.Placed, specsPlaced_any specs]

theorem exprsPlaced_any : (es : List Expr) → ExprsPlaced (fun _ => True) es
  | [] => by simp [ExprsPlaced]
  | e :: rest => by simp [ExprsPlaced, e.placed_any, exprsPlaced_any rest]

theorem optExprPlaced_any : (e : Option Expr) → OptExprPlaced (fun _ => True) e
  | none => by simp [OptExprPlaced]
  | some e => by simp [OptExprPlaced, e.placed_any]

theorem initsPlaced_any : (fields : List (FieldInit Expr)) → InitsPlaced (fun _ => True) fields
  | [] => by simp [InitsPlaced]
  | ⟨_, value, _⟩ :: rest => by simp [InitsPlaced, value.placed_any, initsPlaced_any rest]

theorem paramsPlaced_any : (params : List (Param Expr)) → ParamsPlaced (fun _ => True) params
  | [] => by simp [ParamsPlaced]
  | ⟨_, type, _⟩ :: rest => by simp [ParamsPlaced, type.placed_any, paramsPlaced_any rest]

theorem signaturePlaced_any : (sig : Signature Expr) → SignaturePlaced (fun _ => True) sig
  | ⟨_, inputs, outputs⟩ => by
      simp [SignaturePlaced, paramsPlaced_any inputs, paramsPlaced_any outputs]

theorem specsPlaced_any : (specs : List (MethodSpec Expr)) → SpecsPlaced (fun _ => True) specs
  | [] => by simp [SpecsPlaced]
  | ⟨_, signature, _⟩ :: rest => by
      simp [SpecsPlaced, signaturePlaced_any signature, specsPlaced_any rest]

end

mutual

theorem Stmt.placed_any : (stmt : Stmt) → stmt.Placed fun _ => True
  | .assign _ _ _ _ | .ret _ _ => by simp [Stmt.Placed, exprsPlaced_any]
  | .var _ _ type => by simp [Stmt.Placed, type.placed_any]
  | .breakLoop _ _ | .continueLoop _ _ => by simp [Stmt.Placed]
  | .whileLoop _ cond body => by
      simp [Stmt.Placed, optExprPlaced_any cond, stmtsPlaced_any body]
  | .forLoop _ init cond post body => by
      simp [Stmt.Placed, optStmtPlaced_any init, optExprPlaced_any cond, optStmtPlaced_any post,
        stmtsPlaced_any body]
  | .rangeLoop _ _ _ collection body => by
      simp [Stmt.Placed, collection.placed_any, stmtsPlaced_any body]
  | .ifElse _ cond thenBody elseBody => by
      simp [Stmt.Placed, cond.placed_any, stmtsPlaced_any thenBody, optStmtsPlaced_any elseBody]
  | .switch _ subject cases fallback => by
      simp [Stmt.Placed, optExprPlaced_any subject, casesPlaced_any cases,
        optStmtsPlaced_any fallback]
  | .block _ body => by simp [Stmt.Placed, stmtsPlaced_any body]

theorem stmtsPlaced_any : (stmts : List Stmt) → StmtsPlaced (fun _ => True) stmts
  | [] => by simp [StmtsPlaced]
  | stmt :: rest => by simp [StmtsPlaced, stmt.placed_any, stmtsPlaced_any rest]

theorem optStmtPlaced_any : (stmt : Option Stmt) → OptStmtPlaced (fun _ => True) stmt
  | none => by simp [OptStmtPlaced]
  | some stmt => by simp [OptStmtPlaced, stmt.placed_any]

theorem optStmtsPlaced_any : (body : Option (List Stmt)) → OptStmtsPlaced (fun _ => True) body
  | none => by simp [OptStmtsPlaced]
  | some body => by simp [OptStmtsPlaced, stmtsPlaced_any body]

theorem casesPlaced_any : (cases : List (SwitchCase Stmt)) → CasesPlaced (fun _ => True) cases
  | [] => by simp [CasesPlaced]
  | ⟨tests, body, _⟩ :: rest => by
      simp [CasesPlaced, exprsPlaced_any tests, stmtsPlaced_any body, casesPlaced_any rest]

end

end GoToC
