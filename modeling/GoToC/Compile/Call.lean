import GoToC.Compile.Operand

/-!
# Calls

The rules for calls of functions and methods, for conversions, and for `len` and
`append`, which are compiled in place. Arguments beyond the fixed inputs of a variadic
function are collected in a slice that is passed last. A function with several outputs
gets the address of a temporary for each of them.
-/

namespace GoToC.Call

open RoutineM

/-- Appends operands, converted to the element type, to a slice variable. -/
def appendItems (slice : String) (elem : Ty) (context : String) (span : Span) :
    List Operand → RoutineM Unit
  | [] => return
  | operand :: rest => do
      let value ← operand.value
      let c ← convert elem value operand.span context
      let item ← temp elem span
      emit (.copy item c)
      emit (.append slice item)
      appendItems slice elem context span rest

/-- Collects the last arguments of a variadic call in a slice. -/
def packVariadic (sliceType : Ty) (operands : List Operand) (span : Span) : RoutineM CExpr := do
  match ← types (·.sliceElement? sliceType) with
  | none => throw (.fault (.variadicNotSlice sliceType.display))
  | some elem =>
      let slice ← temp sliceType span
      emit (.nilSlice slice)
      appendItems slice elem "in variadic argument" span operands
      return .localVar slice

/-- Converts arguments to the types of the inputs they are passed for, counted from one. -/
def fixedArgs : Nat → List Operand → List (Member Ty) → RoutineM (List CExpr)
  | number, operand :: rest, input :: inputs => do
      let value ← operand.value
      let c ← convert input.type value operand.span s!"in argument {number} of call"
      let others ← fixedArgs (number + 1) rest inputs
      return c :: others
  | _, _, _ => return []

/-- Declares the temporaries for several outputs. -/
def resultTemps (serial : Nat) (span : Span) :
    Nat → List (Member Ty) → RoutineM (List (Member Ty))
  | _, [] => return []
  | index, output :: rest => do
      let name := multiName serial index
      addLocal name output.type span
      let others ← resultTemps serial span (index + 1) rest
      return ⟨name, output.type⟩ :: others

/-- The arguments that a call passes for outputs, and the type of the call. -/
def results (outputs : List (Member Ty)) (span : Span) : RoutineM (List CExpr × Ty) := do
  match outputs with
  | [] => return ([], .prim .void)
  | [output] => return ([], output.type)
  | several =>
      let members ← resultTemps (← nextSerial) span 0 several
      return (members.map (fun m => .addressOf m.name), .multi members)

/-- Checks the number of arguments against the inputs. -/
def checkCount (variadic spread : Bool) (given inputs : Nat) (span : Span) : RoutineM Unit := do
  if spread && !variadic then error span (.argCount .spread)
  if variadic && !spread then
    if given < inputs - 1 then error span (.argCount (.count given (inputs - 1) true))
  else if given ≠ inputs then error span (.argCount (.count given inputs false))

/-- Calls a C function. `inputs` are those that arguments are given for; `leading` are
arguments that come before. -/
def apply (callee : CExpr) (func : FuncType Ty) (leading : List CExpr)
    (inputs : List (Member Ty)) (args : List Operand) (spread : Bool) (span : Span) :
    RoutineM Value := do
  checkCount func.variadic spread args.length inputs.length span
  let collects := func.variadic && !spread
  let fixed := if collects then inputs.length - 1 else inputs.length
  let passed ← fixedArgs 1 (args.take fixed) inputs
  let packed ← if collects then
      match inputs.drop fixed with
      | last :: _ => do pure [← packVariadic last.type (args.drop fixed) span]
      | [] => throw (.fault (.variadicNotSlice ""))
    else pure []
  let (addresses, type) ← results func.outputs span
  return .expr ⟨.call callee (leading ++ passed ++ packed ++ addresses), type⟩

/-- A conversion to a type. -/
def conversion (type : Ty) (args : List Operand) (span : Span) : RoutineM Value := do
  match args with
  | [arg] =>
      let value ← arg.value
      let convertible ← do
        if !(← types (·.isStorable type)) then pure false
        else if (← types (·.func? type)).isSome then pure false
        else if (← types (·.func? value.type)).isSome then pure false
        else pure !(← types (·.isPrim value.type .void))
      let found ← if convertible then types (·.cast type value.type) else pure none
      match found with
      | some conversion => return .expr ⟨conversion.apply value.c, type⟩
      | none => mismatch span type value.type "in conversion"
  | _ => error span (.argCount (.conversionCount type.display args.length))

/-- The number of elements of a string or slice. -/
def lengthOf (args : List Operand) (spread : Bool) (span : Span) : RoutineM Value := do
  match args with
  | [arg] =>
      if spread then error span (.argCount .lenSpread)
      let value ← arg.value
      if ← types (·.isPrim value.type .string) then
        return .expr ⟨.byteCount value.c, .prim .int⟩
      match ← types (·.sliceElement? value.type) with
      | some elem =>
          return .expr ⟨.elementCount value.c (← types (·.cType elem)), .prim .int⟩
      | none =>
          error arg.span
            (.mismatch "slice or string" value.type.display "in argument to `len`")
  | _ => error span (.argCount (.lenCount args.length))

/-- Appends the elements of another slice, given as an operand. -/
def appendSpread (result : String) (sliceType elem : Ty) (other : Operand) (span : Span) :
    RoutineM Unit := do
  let value ← other.value
  let c ← convert sliceType value other.span "in argument 2 of `append`"
  let source ← temp sliceType span
  let item ← temp elem span
  emit (.copy source c)
  emit (.appendAll result source (← types (·.cType elem)) item)

/-- A copy of a slice with more elements at its end. -/
def appended (args : List Operand) (spread : Bool) (span : Span) : RoutineM Value := do
  match args with
  | [] => error span (.argCount .appendNothing)
  | first :: items =>
      let slice ← first.value
      match ← types (·.sliceElement? slice.type) with
      | none =>
          error first.span
            (.mismatch "slice" slice.type.display "in argument 1 of `append`")
      | some elem =>
          let result ← temp slice.type span
          emit (.copy result slice.c)
          if spread then
            match items with
            | [other] => appendSpread result slice.type elem other span
            | _ => error span (.argCount (.appendSpreadCount args.length))
          else appendItems result elem "in argument to `append`" span items
          return .expr ⟨.localVar result, slice.type⟩

/-- The functions that are compiled in place. -/
inductive Intrinsic where
  | len
  | append
  deriving Repr, DecidableEq, Inhabited

/-- The intrinsic that a callee names; a local or a global of the module hides it. -/
def intrinsic? (callee : Expr) : RoutineM (Option Intrinsic) := do
  let named := match callee.ident? with
    | some "len" => some ("len", Intrinsic.len)
    | some "append" => some ("append", Intrinsic.append)
    | _ => none
  match named with
  | none => return none
  | some (name, found) =>
      let env ← read
      if (← get).isBound name || (env.program.global? env.module name).isSome then return none
      return some found

/-- A call of any kind. -/
def call (callee : Operand) (args : List Operand) (spread : Bool) (span : Span) :
    RoutineM Value := do
  match ← intrinsic? callee.source with
  | some .len => lengthOf args spread span
  | some .append => appended args spread span
  | none =>
      match ← callee.compile with
      | .type type => conversion type args span
      | .method bound =>
          let inputs := if bound.func.isMethod then bound.func.inputs.drop 1 else bound.func.inputs
          apply bound.callee bound.func [bound.receiver] inputs args spread span
      | other =>
          let e ← toSingle span other
          match ← types (·.func? e.type) with
          | some func => apply e.c func [] func.inputs args spread span
          | none => error span (.notCallable e.type.display)

end GoToC.Call
