import GoToC.Compile.Expr
import GoToC.Proofs.Tree.Formed
import GoToC.Proofs.Tree.Placed

/-!
# Operands of all expressions

An expression is compiled by the rule for its form, and its parts are the operands of that rule. So
what each rule hands on from its operands to what it makes of them is true of all expressions, and
the rules are all that has to be looked at.
-/

namespace GoToC

variable {es : List Expr} {e : Option Expr} {fields : List (FieldInit Expr)}
  {params : List (Param Expr)}

/-- The types of the inputs and outputs of a signature are all of a kind. -/
def Signature.All {τ : Type} (good : τ → Prop) (signature : Signature τ) : Prop :=
  (∀ param ∈ signature.inputs, good param.type) ∧ ∀ param ∈ signature.outputs, good param.type

/-- Every rule for expressions hands a property of operands on from the parts of an expression to
the expression. -/
structure Operand.Kept (good : Operand → Prop) : Prop where
  int (span : Span) (value : Nat) :
    good ⟨.int span value, pure (.expr ⟨.int value, .prim .constInt⟩)⟩
  str (span : Span) (text : String) :
    good ⟨.str span text, pure (.expr ⟨.string text, .prim .string⟩)⟩
  ident (span : Span) (name : String) : good ⟨.ident span name, RoutineM.lookup name span⟩
  unary (span : Span) (op : UnaryOp) (e : Expr) : good (operand e) →
    good ⟨.unary span op e, ExprRule.unary op (operand e)⟩
  binary (span : Span) (op : BinaryOp) (left right : Expr) : good (operand left) →
    good (operand right) →
      good ⟨.binary span op left right, ExprRule.binary op (operand left) (operand right)⟩
  call (span : Span) (callee : Expr) (args : List Expr) (spread : Bool) : good (operand callee) →
    (∀ arg ∈ operands args, good arg) →
      good ⟨.call span callee args spread, Call.call (operand callee) (operands args) spread span⟩
  dot (span : Span) (receiver : Expr) (member : String) : good (operand receiver) →
    good ⟨.dot span receiver member, ExprRule.dot (operand receiver) member span⟩
  index (span : Span) (receiver subscript : Expr) : good (operand receiver) →
    good (operand subscript) →
      good ⟨.index span receiver subscript, ExprRule.index (operand receiver) (operand subscript)⟩
  slice (span : Span) (receiver : Expr) (lo hi : Option Expr) : good (operand receiver) →
    (∀ bound ∈ optOperand lo, good bound) → (∀ bound ∈ optOperand hi, good bound) →
      good ⟨.slice span receiver lo hi,
        ExprRule.slice (operand receiver) (optOperand lo) (optOperand hi) span⟩
  ctor (span : Span) (type : Expr) (fields : List (FieldInit Expr)) : good (operand type) →
    (∀ init ∈ initOperands fields, good init.value) →
      good ⟨.ctor span type fields, ExprRule.ctor (operand type) (initOperands fields) span⟩
  pointerType (span : Span) (inner : Expr) : good (operand inner) →
    good ⟨.pointerType span inner, ExprRule.pointerType (operand inner)⟩
  sliceType (span : Span) (elem : Expr) : good (operand elem) →
    good ⟨.sliceType span elem, ExprRule.sliceType (operand elem)⟩
  mapType (span : Span) (key value : Expr) : good (operand key) → good (operand value) →
    good ⟨.mapType span key value, ExprRule.mapType (operand key) (operand value)⟩
  structType (span : Span) (fields : List (Param Expr)) :
    (∀ field ∈ paramOperands fields, good field.type) → good ⟨.structType span fields,
        do return .type (← Operand.anonymousStruct (paramOperands fields))⟩
  interfaceType (span : Span) (specs : List (MethodSpec Expr)) :
    (∀ spec ∈ specOperands specs, spec.signature.All good) → good ⟨.interfaceType span specs,
        do return .type (← Operand.anonymousInterface (specOperands specs))⟩

namespace Operand.Kept

variable {good : Operand → Prop}

mutual

theorem operand (h : Kept good) : (e : Expr) → good (GoToC.operand e)
  | .int span value => h.int span value
  | .str span text => h.str span text
  | .ident span name => h.ident span name
  | .unary span op e => h.unary span op e (h.operand e)
  | .binary span op left right => h.binary span op left right (h.operand left) (h.operand right)
  | .call span callee args spread => h.call span callee args spread (h.operand callee)
      (h.operands args)
  | .dot span receiver member => h.dot span receiver member (h.operand receiver)
  | .index span receiver subscript => h.index span receiver subscript (h.operand receiver)
      (h.operand subscript)
  | .slice span receiver lo hi =>
      h.slice span receiver lo hi (h.operand receiver) (h.optOperand lo) (h.optOperand hi)
  | .ctor span type fields => h.ctor span type fields (h.operand type) (h.initOperands fields)
  | .pointerType span inner => h.pointerType span inner (h.operand inner)
  | .sliceType span elem => h.sliceType span elem (h.operand elem)
  | .mapType span key value => h.mapType span key value (h.operand key) (h.operand value)
  | .structType span fields => h.structType span fields (h.paramOperands fields)
  | .interfaceType span specs => h.interfaceType span specs (h.specOperands specs)

theorem operands (h : Kept good) : (es : List Expr) → ∀ found ∈ GoToC.operands es, good found
  | [] => by simp [GoToC.operands]
  | e :: rest => by
      rw [GoToC.operands, List.forall_mem_cons]
      exact ⟨h.operand e, h.operands rest⟩

theorem optOperand (h : Kept good) : (e : Option Expr) → ∀ found ∈ GoToC.optOperand e, good found
  | none => by simp [GoToC.optOperand]
  | some e => by
      rw [GoToC.optOperand]
      rintro found ⟨⟩
      exact h.operand e

theorem initOperands (h : Kept good) : (fields : List (FieldInit Expr)) →
    ∀ init ∈ GoToC.initOperands fields, good init.value
  | [] => by simp [GoToC.initOperands]
  | ⟨name, value, span⟩ :: rest => by
      rw [GoToC.initOperands, initOperand, List.forall_mem_cons]
      exact ⟨h.operand value, h.initOperands rest⟩

theorem paramOperands (h : Kept good) : (params : List (Param Expr)) →
    ∀ param ∈ GoToC.paramOperands params, good param.type
  | [] => by simp [GoToC.paramOperands]
  | ⟨name, type, span⟩ :: rest => by
      rw [GoToC.paramOperands, paramOperand, List.forall_mem_cons]
      exact ⟨h.operand type, h.paramOperands rest⟩

theorem specOperands (h : Kept good) : (specs : List (MethodSpec Expr)) →
    ∀ spec ∈ GoToC.specOperands specs, spec.signature.All good
  | [] => by simp [GoToC.specOperands]
  | ⟨name, ⟨variadic, inputs, outputs⟩, span⟩ :: rest => by
      rw [GoToC.specOperands, specOperand, signatureOperands, List.forall_mem_cons]
      exact ⟨⟨h.paramOperands inputs, h.paramOperands outputs⟩, h.specOperands rest⟩

end

/-- The types of a signature, with that of the receiver if there is one. -/
theorem signatureOperands (h : Kept good) (signature : Signature Expr) :
    (GoToC.signatureOperands signature).All good := by
  obtain ⟨variadic, inputs, outputs⟩ := signature
  rw [GoToC.signatureOperands]
  exact ⟨h.paramOperands inputs, h.paramOperands outputs⟩

theorem receiver (h : Kept good) (receiver : Option (Param Expr)) :
    ∀ param ∈ receiver.map paramOperand, good param.type := by
  intro param hParam
  obtain ⟨⟨name, type, span⟩, -, rfl⟩ := Option.map_eq_some_iff.mp hParam
  rw [paramOperand]
  exact h.operand type

end Operand.Kept

/-! ## Operands of well-formed and of placed trees -/

section

variable {word : String → Prop} {fits : Span → Prop}

theorem ExprsFormed.operands (h : ExprsFormed word es) :
    ∀ found ∈ operands es, found.source.Formed word := by
  induction es with
  | nil => simp [GoToC.operands]
  | cons e rest ih =>
      rw [GoToC.operands, List.forall_mem_cons]
      exact ⟨h.1, ih h.2⟩

theorem OptExprFormed.operand (h : OptExprFormed word e) :
    ∀ found ∈ optOperand e, found.source.Formed word := by
  cases e with
  | none => simp [optOperand]
  | some e =>
      rw [optOperand]
      rintro found ⟨⟩
      exact h

theorem InitsFormed.operands (h : InitsFormed word fields) :
    ∀ init ∈ initOperands fields, word init.name ∧ init.value.source.Formed word := by
  induction fields with
  | nil => simp [initOperands]
  | cons init rest ih =>
      rw [initOperands, initOperand, List.forall_mem_cons]
      exact ⟨h.1, ih h.2⟩

theorem ParamsFormed.operands (h : ParamsFormed word params) : ∀ param ∈ paramOperands params,
      OptionalWord word param.name ∧ param.type.source.IsType word := by
  induction params with
  | nil => simp [paramOperands]
  | cons param rest ih =>
      rw [ParamsFormed] at h
      rw [paramOperands, paramOperand, List.forall_mem_cons]
      exact ⟨h.1, ih h.2⟩

theorem ExprsPlaced.operands (h : ExprsPlaced fits es) :
    ∀ found ∈ operands es, found.source.Placed fits := by
  induction es with
  | nil => simp [GoToC.operands]
  | cons e rest ih =>
      rw [GoToC.operands, List.forall_mem_cons]
      exact ⟨h.1, ih h.2⟩

theorem OptExprPlaced.operand (h : OptExprPlaced fits e) :
    ∀ found ∈ optOperand e, found.source.Placed fits := by
  cases e with
  | none => simp [optOperand]
  | some e =>
      rw [optOperand]
      rintro found ⟨⟩
      exact h

theorem InitsPlaced.operands (h : InitsPlaced fits fields) :
    ∀ init ∈ initOperands fields, fits init.span ∧ init.value.source.Placed fits := by
  induction fields with
  | nil => simp [initOperands]
  | cons init rest ih =>
      rw [initOperands, initOperand, List.forall_mem_cons]
      exact ⟨h.1, ih h.2⟩

theorem ParamsPlaced.operands (h : ParamsPlaced fits params) :
    ∀ param ∈ paramOperands params, param.type.source.Placed fits := by
  induction params with
  | nil => simp [paramOperands]
  | cons param rest ih =>
      rw [paramOperands, paramOperand, List.forall_mem_cons]
      exact ⟨h.1.2, ih h.2⟩

theorem SignaturePlaced.operands {sig : Signature Expr} (h : SignaturePlaced fits sig) :
    (signatureOperands sig).All fun found => found.source.Placed fits := by
  obtain ⟨variadic, inputs, outputs⟩ := sig
  exact ⟨ParamsPlaced.operands h.1, ParamsPlaced.operands h.2⟩

theorem SpecsPlaced.operands {specs : List (MethodSpec Expr)} (h : SpecsPlaced fits specs) :
    ∀ spec ∈ specOperands specs, spec.signature.All fun found => found.source.Placed fits := by
  induction specs with
  | nil => simp [specOperands]
  | cons spec rest ih =>
      rw [specOperands, specOperand, List.forall_mem_cons]
      exact ⟨SignaturePlaced.operands h.1.2, ih h.2⟩

end

/-- Two things of the types of a signature make a third one. -/
theorem Signature.All.mp {τ : Type} {good better : τ → Prop} {signature : Signature τ}
    (h : signature.All fun type => good type → better type) (hGood : signature.All good) :
    signature.All better :=
  ⟨fun param hParam => h.1 param hParam (hGood.1 param hParam),
    fun param hParam => h.2 param hParam (hGood.2 param hParam)⟩

end GoToC
