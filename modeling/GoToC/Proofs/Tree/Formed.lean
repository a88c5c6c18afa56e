import GoToC.Tree.Basic
import GoToC.Types.Basic

/-!
# Well-formed trees

What the grammar promises about trees: all words in them are words of the source, types
stand where types are wanted, and the last input of a variadic function is written as a
slice. A type is a name, a name of an imported module, or made of types.
-/

namespace GoToC

/-- The name of an input or output, which may be missing. -/
def OptionalWord (word : String → Prop) (name : String) : Prop := isNamed name = true → word name

mutual

/-- An expression that has the form of a type. -/
def Expr.IsType (word : String → Prop) : Expr → Prop
  | .ident _ name => word name
  | .dot _ (.ident _ name) member => word name ∧ word member
  | .pointerType _ inner => inner.IsType word
  | .sliceType _ elem => elem.IsType word
  | .mapType _ key value => key.IsType word ∧ value.IsType word
  | .structType _ fields => ParamsFormed word fields
  | .interfaceType _ specs => SpecsFormed word specs
  | _ => False

def ParamsFormed (word : String → Prop) : List (Param Expr) → Prop
  | [] => True
  | ⟨name, type, _⟩ :: rest =>
      (OptionalWord word name ∧ type.IsType word) ∧ ParamsFormed word rest

def SignatureFormed (word : String → Prop) : Signature Expr → Prop
  | ⟨variadic, inputs, outputs⟩ =>
      ParamsFormed word inputs ∧ ParamsFormed word outputs ∧
        (variadic = true → ∃ init name span elem whole,
          inputs = init ++ [⟨name, .sliceType span elem, whole⟩])

def SpecsFormed (word : String → Prop) : List (MethodSpec Expr) → Prop
  | [] => True
  | ⟨name, signature, _⟩ :: rest =>
      (word name ∧ SignatureFormed word signature) ∧ SpecsFormed word rest

end

mutual

def Expr.Formed (word : String → Prop) : Expr → Prop
  | .int _ _ => True
  | .str _ _ => True
  | .ident _ name => word name
  | .unary _ _ operand => operand.Formed word
  | .binary _ _ left right => left.Formed word ∧ right.Formed word
  | .call _ callee args _ => callee.Formed word ∧ ExprsFormed word args
  | .dot _ receiver member => receiver.Formed word ∧ word member
  | .index _ receiver index => receiver.Formed word ∧ index.Formed word
  | .slice _ receiver lo hi =>
      receiver.Formed word ∧ OptExprFormed word lo ∧ OptExprFormed word hi
  | .ctor _ type fields => type.IsType word ∧ InitsFormed word fields
  | .pointerType _ inner => inner.IsType word
  | .sliceType _ elem => elem.IsType word
  | .mapType _ key value => key.IsType word ∧ value.IsType word
  | .structType _ fields => ParamsFormed word fields
  | .interfaceType _ specs => SpecsFormed word specs

def ExprsFormed (word : String → Prop) : List Expr → Prop
  | [] => True
  | e :: rest => e.Formed word ∧ ExprsFormed word rest

def OptExprFormed (word : String → Prop) : Option Expr → Prop
  | none => True
  | some e => e.Formed word

def InitsFormed (word : String → Prop) : List (FieldInit Expr) → Prop
  | [] => True
  | ⟨name, value, _⟩ :: rest => (word name ∧ value.Formed word) ∧ InitsFormed word rest

end

variable {word : String → Prop}

theorem Expr.IsType.formed {e : Expr} (h : e.IsType word) : e.Formed word := by
  cases e with
  | ident => simpa [Expr.IsType, Expr.Formed] using h
  | dot span receiver member =>
      cases receiver with
      | ident => simpa [Expr.IsType, Expr.Formed] using h
      | _ => simp [Expr.IsType] at h
  | pointerType => simpa [Expr.IsType, Expr.Formed] using h
  | sliceType => simpa [Expr.IsType, Expr.Formed] using h
  | mapType => simpa [Expr.IsType, Expr.Formed] using h
  | structType => simpa [Expr.IsType, Expr.Formed] using h
  | interfaceType => simpa [Expr.IsType, Expr.Formed] using h
  | _ => simp [Expr.IsType] at h

mutual

def Stmt.Formed (word : String → Prop) : Stmt → Prop
  | .assign _ _ targets values => ExprsFormed word targets ∧ ExprsFormed word values
  | .var _ name type => word name ∧ type.IsType word
  | .ret _ values => ExprsFormed word values
  | .breakLoop _ _ => True
  | .continueLoop _ _ => True
  | .whileLoop _ cond body => OptExprFormed word cond ∧ StmtsFormed word body
  | .forLoop _ init cond post body =>
      OptStmtFormed word init ∧ OptExprFormed word cond ∧ OptStmtFormed word post ∧
        StmtsFormed word body
  | .rangeLoop _ key value collection body =>
      (∀ name ∈ key, word name) ∧ (∀ name ∈ value, word name) ∧ collection.Formed word ∧
        StmtsFormed word body
  | .ifElse _ cond thenBody elseBody =>
      cond.Formed word ∧ StmtsFormed word thenBody ∧ OptStmtsFormed word elseBody
  | .switch _ subject cases fallback =>
      OptExprFormed word subject ∧ CasesFormed word cases ∧ OptStmtsFormed word fallback
  | .block _ body => StmtsFormed word body

def StmtsFormed (word : String → Prop) : List Stmt → Prop
  | [] => True
  | stmt :: rest => stmt.Formed word ∧ StmtsFormed word rest

def OptStmtFormed (word : String → Prop) : Option Stmt → Prop
  | none => True
  | some stmt => stmt.Formed word

def OptStmtsFormed (word : String → Prop) : Option (List Stmt) → Prop
  | none => True
  | some body => StmtsFormed word body

def CasesFormed (word : String → Prop) : List (SwitchCase Stmt) → Prop
  | [] => True
  | ⟨tests, body, _⟩ :: rest =>
      (ExprsFormed word tests ∧ StmtsFormed word body) ∧ CasesFormed word rest

end

/-- A function whose signature and body are well formed. -/
structure FuncDecl.Formed (word : String → Prop) (decl : FuncDecl) : Prop where
  receiver : ∀ param ∈ decl.receiver, OptionalWord word param.name ∧ param.type.IsType word
  name : word decl.name
  signature : SignatureFormed word decl.signature
  body : ∀ body ∈ decl.body, StmtsFormed word body

/-- A file all of whose declarations are well formed. -/
structure SourceFile.Formed (word : String → Prop) (file : SourceFile) : Prop where
  consts : ∀ decl ∈ file.consts, word decl.name ∧ decl.value.Formed word
  vars : ∀ decl ∈ file.vars, word decl.name ∧ (∀ type ∈ decl.type, type.IsType word) ∧
      ∀ init ∈ decl.init, init.Formed word
  types : ∀ decl ∈ file.types, word decl.name ∧ decl.type.IsType word
  funcs : ∀ decl ∈ file.funcs, decl.Formed word ∧ decl.receiver = none
  methods : ∀ decl ∈ file.methods, decl.Formed word ∧ decl.receiver.isSome = true

/-- The body of a function or method of a well-formed file. -/
theorem SourceFile.Formed.body {file : SourceFile} (h : file.Formed word) {decl : FuncDecl}
    (hDecl : decl ∈ file.funcs ∨ decl ∈ file.methods) {body : List Stmt}
    (hBody : decl.body = some body) : StmtsFormed word body := by
  rcases hDecl with hDecl | hDecl
  · exact (h.funcs decl hDecl).1.body body hBody
  · exact (h.methods decl hDecl).1.body body hBody

end GoToC
