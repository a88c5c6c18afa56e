import GoToC.Compile.Routine

/-!
# Operands

The parts of an expression reach the rule for the whole expression as operands: each is
the expression as it was written together with the action that compiles it. A rule runs
these actions in the order in which it needs them.
-/

namespace GoToC

/-- An expression and how it is compiled. -/
structure Operand where
  source : Expr
  compile : RoutineM Value

namespace Operand

def span (operand : Operand) : Span := operand.source.span

/-- Compiles an operand that is to be one value. -/
def value (operand : Operand) : RoutineM Typed := do
  RoutineM.toSingle operand.span (← operand.compile)

/-- Compiles operands one after another, each to one value. -/
def values : List Operand → RoutineM (List Typed)
  | [] => return []
  | operand :: rest => do
      let first ← operand.value
      let others ← values rest
      return first :: others

/-- Compiles an operand that is to denote a type. -/
def type (operand : Operand) : RoutineM Ty := do
  match ← operand.compile with
  | .type denoted => return denoted
  | other => RoutineM.error operand.span (.notAType other.describe)

/-- The members that parameters declare. -/
def members : List (Param Operand) → RoutineM (List (Member Ty))
  | [] => return []
  | param :: rest => do
      let type ← param.type.type
      let others ← members rest
      return ⟨param.name, type⟩ :: others

/-- The type of a function; a receiver is its first input. -/
def signature (receiver : Option (Param Operand)) (sig : Signature Operand) :
    RoutineM (FuncType Ty) := do
  let inputs ← members (receiver.toList ++ sig.inputs)
  let outputs ← members sig.outputs
  RoutineM.newFunc inputs outputs sig.variadic receiver.isSome

/-- The methods that an interface lists. -/
def methods : List (MethodSpec Operand) → RoutineM (List (Member Ty))
  | [] => return []
  | spec :: rest => do
      let func ← signature none spec.signature
      let others ← methods rest
      return ⟨spec.name, .func func⟩ :: others

/-- A struct type under a name. -/
def structType (name : String) (fields : List (Param Operand)) : RoutineM Ty := do
  let fields ← members fields
  return .struct (← RoutineM.newStruct name fields)

/-- An interface type under a name. -/
def interfaceType (name : String) (specs : List (MethodSpec Operand)) : RoutineM Ty := do
  let methods ← methods specs
  return .interface ⟨(← read).package, name, methods⟩

/-- A struct type that has no name is given one. -/
def anonymousStruct (fields : List (Param Operand)) : RoutineM Ty := do
  let serial ← RoutineM.nextSerial
  structType s!"_struct_{serial}" fields

/-- An interface type that has no name is given one, unless it lists no methods. -/
def anonymousInterface (specs : List (MethodSpec Operand)) : RoutineM Ty := do
  if specs.isEmpty then return .universal
  let serial ← RoutineM.nextSerial
  interfaceType s!"_interface_{serial}" specs

end Operand

end GoToC
