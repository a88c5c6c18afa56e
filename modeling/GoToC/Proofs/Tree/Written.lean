import GoToC.Grammar.Expr

/-!
# Writing trees as tokens

The trees that the grammar of expressions builds, and how they are written: an operand stands
in parentheses where it binds looser than its place asks for, and a type literal also where
something follows it as after an operand.
-/

namespace GoToC

variable {param : Param Expr}

/-! ## Trees that the grammar builds -/

/-- Parameters have names all of them or none of them. -/
def NamedAlike (params : List (Param Expr)) : Prop :=
  (∀ param ∈ params, param.name ≠ "") ∨ ∀ param ∈ params, param.name = ""

/-- The last of the inputs is written as a slice. -/
def EndsInSlice (inputs : List (Param Expr)) : Prop :=
  ∃ init name span elem whole, inputs = init ++ [⟨name, .sliceType span elem, whole⟩]

theorem EndsInSlice.of_singleton (h : EndsInSlice [param]) :
    ∃ span elem, param.type = .sliceType span elem := by
  obtain ⟨init, name, span, elem, whole, hParams⟩ := h
  cases init with
  | nil =>
      rw [List.nil_append, List.cons.injEq] at hParams
      exact ⟨span, elem, by rw [hParams.1]⟩
  | cons first init => simp at hParams

theorem EndsInSlice.of_cons {others : List (Param Expr)} (h : EndsInSlice (param :: others))
    (hOthers : others ≠ []) : EndsInSlice others := by
  obtain ⟨init, name, span, elem, whole, hParams⟩ := h
  cases init with
  | nil =>
      rw [List.nil_append, List.cons.injEq] at hParams
      exact absurd hParams.2 hOthers
  | cons first init =>
      rw [List.cons_append, List.cons.injEq] at hParams
      exact ⟨init, name, span, elem, whole, hParams.2⟩

mutual

/-- A tree of the type grammar. -/
def Expr.TypeBuilt : Expr → Prop
  | .ident _ _ => True
  | .dot _ (.ident _ _) _ => True
  | .pointerType _ inner => inner.TypeBuilt
  | .sliceType _ elem => elem.TypeBuilt
  | .mapType _ key value => key.TypeBuilt ∧ value.TypeBuilt
  | .structType _ fields => ParamsBuilt fields
  | .interfaceType _ specs => SpecsBuilt specs
  | _ => False

def ParamsBuilt : List (Param Expr) → Prop
  | [] => True
  | ⟨_, type, _⟩ :: rest => type.TypeBuilt ∧ ParamsBuilt rest

def SignatureBuilt : Signature Expr → Prop
  | ⟨variadic, inputs, outputs⟩ =>
      ParamsBuilt inputs ∧ ParamsBuilt outputs ∧ NamedAlike inputs ∧ NamedAlike outputs ∧
        (variadic = true → EndsInSlice inputs)

def SpecsBuilt : List (MethodSpec Expr) → Prop
  | [] => True
  | ⟨_, signature, _⟩ :: rest => SignatureBuilt signature ∧ SpecsBuilt rest

end

/-- A type by its name, which may be one of an imported module. -/
def Expr.IsTypeName : Expr → Prop
  | .ident _ _ => True
  | .dot _ (.ident _ _) _ => True
  | _ => False

mutual

/-- A tree of the expression grammar. -/
def Expr.Built : Expr → Prop
  | .int _ _ => True
  | .str _ _ => True
  | .ident _ _ => True
  | .unary _ _ operand => operand.Built
  | .binary _ _ left right => left.Built ∧ right.Built
  | .call _ callee args spread =>
      callee.Built ∧ ArgsBuilt args ∧ (spread = true → args ≠ [])
  | .dot _ receiver _ => receiver.Built
  | .index _ receiver index => receiver.Built ∧ index.Built
  | .slice _ receiver lo hi => receiver.Built ∧ BoundBuilt lo ∧ BoundBuilt hi
  | .ctor _ type fields => type.IsTypeName ∧ InitsBuilt fields
  | .pointerType _ inner => inner.TypeBuilt
  | .sliceType _ elem => elem.TypeBuilt
  | .mapType _ key value => key.TypeBuilt ∧ value.TypeBuilt
  | .structType _ fields => ParamsBuilt fields
  | .interfaceType _ specs => SpecsBuilt specs

def ArgsBuilt : List Expr → Prop
  | [] => True
  | e :: rest => e.Built ∧ ArgsBuilt rest

def BoundBuilt : Option Expr → Prop
  | none => True
  | some e => e.Built

def InitsBuilt : List (FieldInit Expr) → Prop
  | [] => True
  | ⟨_, value, _⟩ :: rest => value.Built ∧ InitsBuilt rest

end

/-! ## Levels -/

/-- How tightly a binary operator binds. -/
def BinaryOp.level : BinaryOp → Nat
  | .or => 0
  | .and => 1
  | .eq | .notEq | .lt | .gt | .ltEq | .gtEq => 2
  | .add | .sub | .bitOr | .bitXor => 3
  | .mul | .div | .rem | .shl | .shr | .bitAnd | .andNot => 4

def BinaryOp.sign : BinaryOp → Punct
  | .or => .pipePipe
  | .and => .ampAmp
  | .eq => .eqEq
  | .notEq => .notEq
  | .lt => .lt
  | .gt => .gt
  | .ltEq => .ltEq
  | .gtEq => .gtEq
  | .add => .plus
  | .sub => .minus
  | .bitOr => .pipe
  | .bitXor => .caret
  | .mul => .star
  | .div => .slash
  | .rem => .percent
  | .shl => .shl
  | .shr => .shr
  | .bitAnd => .amp
  | .andNot => .ampCaret

def UnaryOp.sign : UnaryOp → Punct
  | .neg => .minus
  | .not => .bang

theorem binaryOp?_sign (op : BinaryOp) :
    Grammar.binaryOp? (.punct op.sign) = some (op.level, op) := by
  cases op <;> rfl

/-- The level of operands of unary operators, above all binary ones. -/
def unaryLevel : Nat := 5

/-- The level of type literals, which are no receivers. -/
def typeLevel : Nat := 6

/-- The level of receivers: of what may be called, subscripted or asked for a member. -/
def receiverLevel : Nat := 7

def Expr.level : Expr → Nat
  | .unary .. => unaryLevel
  | .binary _ op _ _ => op.level
  | .ctor .. => unaryLevel
  | .pointerType .. => typeLevel
  | .sliceType .. => typeLevel
  | .mapType .. => typeLevel
  | .structType .. => typeLevel
  | .interfaceType .. => typeLevel
  | .int .. => receiverLevel
  | .str .. => receiverLevel
  | .ident .. => receiverLevel
  | .call .. => receiverLevel
  | .dot .. => receiverLevel
  | .index .. => receiverLevel
  | .slice .. => receiverLevel

theorem BinaryOp.level_lt (op : BinaryOp) : op.level < unaryLevel := by
  cases op <;> decide

/-! ## Tokens -/

/-- Parentheses, where they are needed. -/
def enclosed (needed : Bool) (kinds : List TokenKind) : List TokenKind :=
  if needed then .punct .lparen :: (kinds ++ [.punct .rparen]) else kinds

/-- A comma in front of further entries. -/
def commaBefore {α : Type} : List α → List TokenKind
  | [] => []
  | _ :: _ => [.punct .comma]

def nameWritten (name : String) : List TokenKind := if name = "" then [] else [.ident name]

/-- A single output without a name needs no parentheses. -/
def needParens : List (Param Expr) → Bool
  | [] => false
  | [output] => output.name != ""
  | _ => true

mutual

def Expr.written : Expr → List TokenKind
  | .int _ value => [.int value]
  | .str _ text => [.str text]
  | .ident _ name => [.ident name]
  | .unary _ op operand =>
      .punct op.sign :: enclosed (operand.level < unaryLevel) operand.written
  | .binary _ op left right =>
      enclosed (left.level < op.level) left.written
        ++ .punct op.sign :: enclosed (right.level < op.level + 1) right.written
  | .call _ callee args spread =>
      enclosed (callee.level < receiverLevel) callee.written ++ .punct .lparen :: (argsWritten args
          ++ ((if spread then [.punct .ellipsis] else []) ++ [.punct .rparen]))
  | .dot _ receiver member =>
      enclosed (receiver.level < receiverLevel) receiver.written ++ [.punct .dot, .ident member]
  | .index _ receiver index =>
      enclosed (receiver.level < receiverLevel) receiver.written
        ++ .punct .lbracket :: (index.written ++ [.punct .rbracket])
  | .slice _ receiver lo hi =>
      enclosed (receiver.level < receiverLevel) receiver.written
        ++ .punct .lbracket :: (boundWritten lo
          ++ .punct .colon :: (boundWritten hi ++ [.punct .rbracket]))
  | .ctor _ type fields =>
      .punct .amp :: (type.written ++ .punct .lbrace :: (initsWritten fields ++ [.punct .rbrace]))
  | .pointerType _ inner => .punct .star :: inner.written
  | .sliceType _ elem => .punct .lbracket :: .punct .rbracket :: elem.written
  | .mapType _ key value =>
      .keyword .map :: .punct .lbracket :: (key.written ++ .punct .rbracket :: value.written)
  | .structType _ fields =>
      .keyword .struct :: .punct .lbrace :: (fieldsWritten fields ++ [.punct .rbrace])
  | .interfaceType _ specs =>
      .keyword .interface :: .punct .lbrace :: (specsWritten specs ++ [.punct .rbrace])

def argsWritten : List Expr → List TokenKind
  | [] => []
  | e :: rest => e.written ++ (commaBefore rest ++ argsWritten rest)

def boundWritten : Option Expr → List TokenKind
  | none => []
  | some e => e.written

def initsWritten : List (FieldInit Expr) → List TokenKind
  | [] => []
  | ⟨name, value, _⟩ :: rest =>
      .ident name :: .punct .colon :: (value.written ++ (commaBefore rest ++ initsWritten rest))

def fieldsWritten : List (Param Expr) → List TokenKind
  | [] => []
  | ⟨name, type, _⟩ :: rest =>
      .ident name :: (type.written ++ .punct .semicolon :: fieldsWritten rest)

def specsWritten : List (MethodSpec Expr) → List TokenKind
  | [] => []
  | ⟨name, signature, _⟩ :: rest =>
      .ident name :: (signatureWritten signature ++ .punct .semicolon :: specsWritten rest)

def signatureWritten : Signature Expr → List TokenKind
  | ⟨variadic, inputs, outputs⟩ =>
      .punct .lparen :: (paramsWritten variadic inputs
        ++ .punct .rparen :: enclosed (needParens outputs) (paramsWritten false outputs))

/-- Parameters with commas between them, the last one with three dots if it is variadic. -/
def paramsWritten (variadic : Bool) : List (Param Expr) → List TokenKind
  | [] => []
  | ⟨name, type, _⟩ :: rest =>
      nameWritten name ++ ((if variadic && rest.isEmpty then type.spreadWritten else type.written)
        ++ (commaBefore rest ++ paramsWritten variadic rest))

/-- The slice type of a variadic input. -/
def Expr.spreadWritten : Expr → List TokenKind
  | .sliceType _ elem => .punct .ellipsis :: elem.written
  | _ => []

end

end GoToC
