import GoToC.Compile.Call

/-!
# Expressions

Every form of expression has a rule that says what it stands for, given its parts as
operands. Parts that C cannot evaluate inside an expression are written ahead of it as
statements on temporaries.
-/

namespace GoToC

namespace ExprRule

open RoutineM

def unary (op : UnaryOp) (operand : Operand) : RoutineM Value := do
  let value ← operand.value
  let result : Prim := match op with
    | .neg => .int
    | .not => .bool
  return .expr ⟨.unary op value.c, .prim result⟩

def binary (op : BinaryOp) (left right : Operand) : RoutineM Value := do
  let left ← left.value
  let right ← right.value
  return .expr ⟨.binary op left.c right.c, .prim .int⟩

/-- Fails unless a type of another module can be inspected; in a cycle of imports that
module may not have built it yet. -/
def requireResolved (type : Ty) (span : Span) : RoutineM Unit := do
  match (← read).program.types.validate type with
  | .ok () => return
  | .error (.unbound name) => error span (.notYetResolved name)
  | .error (.tooDeep name) => error span (.badType (.tooDeep name))

/-- A global of an imported module. -/
def moduleMember (id : ModuleId) (member : String) (span : Span) : RoutineM Value := do
  let program := (← read).program
  match program.globalValue? id member with
  | none =>
      let name := ((program.module? id).map (·.name)).getD ""
      error span (.unknownMember member (.module name))
  | some value =>
      match value with
      | .type type => requireResolved type span
      | _ => pure ()
      return value

/-- A method bound to a receiver, if the member is a function. -/
def boundMethod? (callee receiver : CExpr) (method : Option (Member Ty)) :
    RoutineM (Option Value) := do
  match method with
  | none => return none
  | some method =>
      return (← types (·.func? method.type)).map fun func => .method ⟨callee, receiver, func⟩

/-- The field or, failing that, the method of a value. -/
def valueMember (receiver : Typed) (member : String) (span : Span) : RoutineM Value := do
  let unknown : RoutineM Value :=
    error span (.unknownMember member (.value receiver.type.display))
  match ← types (·.pointeeStruct? receiver.type) with
  | some record =>
      match record.field? member with
      | some field => return .expr ⟨.field receiver.c member, field.type⟩
      | none =>
          let method := (← read).program.types.method? record member
          match ← boundMethod? (.global (record.cName ++ "__" ++ member)) receiver.c method with
          | some value => return value
          | none => unknown
  | none =>
      match ← types (·.interface? receiver.type) with
      | some record =>
          match ← boundMethod? (.dispatch member) receiver.c (record.method? member) with
          | some value => return value
          | none => unknown
      | none => unknown

/-- A member of a module or of a value. -/
def dot (receiver : Operand) (member : String) (span : Span) : RoutineM Value := do
  match ← receiver.compile with
  | .module id => moduleMember id member span
  | other => valueMember (← toSingle span other) member span

def index (receiver subscript : Operand) : RoutineM Value := do
  let container ← receiver.compile
  let position ← subscript.compile
  return .element container position

/-- A bound of a slice expression, evaluated once into a variable. -/
def sliceBound (operand : Operand) : RoutineM String := do
  let value ← operand.value
  let c ← convert (.prim .int) value operand.span "in slice index"
  let bound ← temp (.prim .int) operand.span
  emit (.copy bound c)
  return bound

def optSliceBound : Option Operand → RoutineM (Option String)
  | none => return none
  | some operand => some <$> sliceBound operand

/-- The C type of the elements of what is sliced; none for a string. -/
def slicedElement (container : Typed) (span : Span) : RoutineM (Option String) := do
  if ← types (·.isPrim container.type .string) then return none
  match ← types (·.sliceElement? container.type) with
  | some elem => return some (← types (·.cType elem))
  | none => error span (.mismatch "slice or string" container.type.display "in slice expression")

/-- A part of a string or slice: a copy that is narrowed once its bounds are checked. -/
def slice (receiver : Operand) (lo hi : Option Operand) (span : Span) : RoutineM Value := do
  let container ← receiver.value
  let elem ← slicedElement container span
  let copy ← temp container.type span
  emit (.copy copy container.c)
  let lo ← optSliceBound lo
  let hi ← optSliceBound hi
  if lo.isSome || hi.isSome then emit (.narrow copy ⟨elem, lo, hi⟩)
  return .expr ⟨.localVar copy, container.type⟩

/-- Sets the listed fields of a new struct. -/
def initFields (handle : String) (record : StructType Ty) :
    List (FieldInit Operand) → RoutineM Unit
  | [] => return
  | init :: rest => do
      match record.field? init.name with
      | none => error init.span (.unknownMember init.name (.struct record.name))
      | some field =>
          let value ← init.value.value
          let c ← convert field.type value init.span "in constructor field"
          emit (.setField handle init.name c)
          initFields handle record rest

/-- A new struct with some of its fields set. -/
def ctor (type : Operand) (fields : List (FieldInit Operand)) (span : Span) :
    RoutineM Value := do
  let structType ← type.type
  match ← types (·.struct? structType) with
  | none => error type.span (.mismatch "struct type" structType.display "in constructor")
  | some record =>
      let handle ← temp (.pointer structType) span
      emit (.alloc handle record.cName)
      initFields handle record fields
      return .expr ⟨.localVar handle, .pointer structType⟩

def pointerType (inner : Operand) : RoutineM Value := return .type (.pointer (← inner.type))

def sliceType (elem : Operand) : RoutineM Value := return .type (.slice (← elem.type))

def mapType (key value : Operand) : RoutineM Value := do
  let key ← key.type
  let value ← value.type
  return .type (.map key value)

end ExprRule

mutual

/-- What an expression stands for. -/
def compileExpr : Expr → RoutineM Value
  | .int _ value => return .expr ⟨.int value, .prim .constInt⟩
  | .str _ text => return .expr ⟨.string text, .prim .string⟩
  | .ident span name => RoutineM.lookup name span
  | .unary _ op operand => ExprRule.unary op ⟨operand, compileExpr operand⟩
  | .binary _ op left right =>
      ExprRule.binary op ⟨left, compileExpr left⟩ ⟨right, compileExpr right⟩
  | .call span callee args spread =>
      Call.call ⟨callee, compileExpr callee⟩ (operands args) spread span
  | .dot span receiver member => ExprRule.dot ⟨receiver, compileExpr receiver⟩ member span
  | .index _ receiver index =>
      ExprRule.index ⟨receiver, compileExpr receiver⟩ ⟨index, compileExpr index⟩
  | .slice span receiver lo hi =>
      ExprRule.slice ⟨receiver, compileExpr receiver⟩ (optOperand lo) (optOperand hi) span
  | .ctor span type fields =>
      ExprRule.ctor ⟨type, compileExpr type⟩ (initOperands fields) span
  | .pointerType _ inner => ExprRule.pointerType ⟨inner, compileExpr inner⟩
  | .sliceType _ elem => ExprRule.sliceType ⟨elem, compileExpr elem⟩
  | .mapType _ key value => ExprRule.mapType ⟨key, compileExpr key⟩ ⟨value, compileExpr value⟩
  | .structType _ fields => return .type (← Operand.anonymousStruct (paramOperands fields))
  | .interfaceType _ specs => return .type (← Operand.anonymousInterface (specOperands specs))

def operands : List Expr → List Operand
  | [] => []
  | e :: rest => ⟨e, compileExpr e⟩ :: operands rest

def optOperand : Option Expr → Option Operand
  | none => none
  | some e => some ⟨e, compileExpr e⟩

def initOperand : FieldInit Expr → FieldInit Operand
  | ⟨name, value, span⟩ => ⟨name, ⟨value, compileExpr value⟩, span⟩

def initOperands : List (FieldInit Expr) → List (FieldInit Operand)
  | [] => []
  | init :: rest => initOperand init :: initOperands rest

def paramOperand : Param Expr → Param Operand
  | ⟨name, type, span⟩ => ⟨name, ⟨type, compileExpr type⟩, span⟩

def paramOperands : List (Param Expr) → List (Param Operand)
  | [] => []
  | param :: rest => paramOperand param :: paramOperands rest

def signatureOperands : Signature Expr → Signature Operand
  | ⟨variadic, inputs, outputs⟩ => ⟨variadic, paramOperands inputs, paramOperands outputs⟩

def specOperand : MethodSpec Expr → MethodSpec Operand
  | ⟨name, signature, span⟩ => ⟨name, signatureOperands signature, span⟩

def specOperands : List (MethodSpec Expr) → List (MethodSpec Operand)
  | [] => []
  | spec :: rest => specOperand spec :: specOperands rest

end

/-- An expression as an operand. -/
def operand (e : Expr) : Operand := ⟨e, compileExpr e⟩

/-- The type that a declaration gives a name; a struct or interface takes the name itself. -/
def compileNamedType (e : Expr) (name : String) : RoutineM Ty :=
  match e with
  | .structType _ fields => Operand.structType name (paramOperands fields)
  | .interfaceType _ specs => Operand.interfaceType name (specOperands specs)
  | _ => (operand e).type

/-- The type of a declared function or method. -/
def compileSignature (receiver : Option (Param Expr)) (signature : Signature Expr) :
    RoutineM (FuncType Ty) :=
  Operand.signature (receiver.map paramOperand) (signatureOperands signature)

end GoToC
