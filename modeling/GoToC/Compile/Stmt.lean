import GoToC.Compile.Expr

/-!
# Statements

Every form of statement has a rule that writes C statements, given the parts of the
statement as operands and actions. Blocks are compiled in scopes of their own. Loops are
numbered; `break` and `continue` jump to the labels of the innermost loop around them.
-/

namespace GoToC

namespace StmtRule

open RoutineM

/-- Runs an action in a block of its own and gives the statements it wrote. -/
def block (action : RoutineM Unit) : RoutineM (List CStmt) := do
  let (_, body) ← capture (inScope action)
  return body

def optBlock : Option (RoutineM Unit) → RoutineM (Option (List CStmt))
  | none => return none
  | some action => some <$> block action

def declare (name : String) (type : Operand) (span : Span) : RoutineM Unit := do
  let type ← type.type
  let cName ← declareLocal name type span
  bind name ⟨.localVar cName, type⟩

/-- A jump out of the innermost loop or to its next round. -/
def jump (kind : JumpKind) (span : Span) : RoutineM Unit := do
  match (← read).loop with
  | some number => emit (.jump kind number)
  | none =>
      error span (.invalidStatement (match kind with
        | .leave => .breakOutside
        | .again => .continueOutside))

/-- The condition of a loop with the statements that it needs. -/
def loopTest : Option Operand → RoutineM (List CStmt × Option CExpr)
  | none => return ([], none)
  | some cond => do
      let (value, test) ← capture cond.value
      return (test, some value.c)

/-- A loop; `post` runs after every round, also after one that was cut short. -/
def loop (cond : Option Operand) (post : Option (RoutineM Unit)) (body : RoutineM Unit) :
    RoutineM Unit := do
  let number ← nextSerial
  let (test, cond) ← loopTest cond
  let body ← inLoop number (block body)
  let (_, post) ← capture (post.getD (pure ()))
  emit (.loop number test cond body post)

/-- A loop with a first statement, whose variables the loop sees. -/
def forLoop (init : Option (RoutineM Unit)) (cond : Option Operand)
    (post : Option (RoutineM Unit)) (body : RoutineM Unit) : RoutineM Unit :=
  inScope do
    init.getD (pure ())
    loop cond post body

/-- The variable that a range clause sets in every round; none for a blank or absent name. -/
def rangeLocal (name : Option String) (type : Ty) (span : Span) : RoutineM (Option String) := do
  match name with
  | none => return none
  | some "_" => return none
  | some name =>
      let cName ← declareLocal name type span
      bind name ⟨.localVar cName, type⟩
      return some cName

/-- The elements of a collection that can be ranged over: their type, and their C type if
the collection is a slice. -/
def rangeElement (collection : Typed) (span : Span) : RoutineM (Ty × Option String) := do
  match ← types (·.sliceElement? collection.type) with
  | some elem => return (elem, some (← types (·.cType elem)))
  | none =>
      if ← types (·.isPrim collection.type .string) then return (.prim .byte, none)
      error span (.mismatch "slice or string" collection.type.display "in range")

/-- The statements that set the variables of a round. -/
def rangeFetch (source index : String) (elem key value : Option String) : List CStmt :=
  let keys := key.toList.map fun name => CStmt.copy name (.localVar index)
  let values := value.toList.map fun name =>
    match elem with
    | some elem => CStmt.sliceGet source elem index name
    | none => CStmt.stringGet source index name
  keys ++ values

/-- A loop over a copy of a string or slice. -/
def rangeLoop (key value : Option String) (collection : Operand) (body : RoutineM Unit)
    (span : Span) : RoutineM Unit :=
  inScope do
    let source ← collection.value
    let (elemType, elem) ← rangeElement source collection.span
    let number ← nextSerial
    let copy ← temp source.type span
    let index ← temp (.prim .int) span
    let limit ← temp (.prim .int) span
    emit (.copy copy source.c)
    emit (.beforeFirst index)
    emit (.copy limit (match elem with
      | some elem => .elementCount (.localVar copy) elem
      | none => .byteCount (.localVar copy)))
    let key ← rangeLocal key (.prim .int) span
    let value ← rangeLocal value elemType span
    let body ← inLoop number (block body)
    emit (.rangeLoop number index limit (rangeFetch copy index elem key value) body)

def ifElse (cond : Operand) (thenBody : RoutineM Unit) (elseBody : Option (RoutineM Unit)) :
    RoutineM Unit := do
  let cond ← cond.value
  let thenBody ← block thenBody
  let elseBody ← optBlock elseBody
  emit (.ifElse cond.c thenBody elseBody)

/-- The values that the arms of a switch stand for, all of them before any arm. -/
def switchTests : List (List Operand × RoutineM Unit) → RoutineM (List (List CExpr))
  | [] => return []
  | (tests, _) :: rest => do
      let values ← Operand.values tests
      let others ← switchTests rest
      return values.map (·.c) :: others

def switchArms : List (List CExpr) → List (List Operand × RoutineM Unit) → RoutineM (List CStmt)
  | tests :: otherTests, (_, body) :: rest => do
      let body ← block body
      let others ← switchArms otherTests rest
      return .arm tests body :: others
  | _, _ => return []

/-- A chain of conditionals; without a subject the arms are compared with one. -/
def switch (subject : Option Operand) (arms : List (List Operand × RoutineM Unit))
    (fallback : Option (RoutineM Unit)) : RoutineM Unit := do
  let subject ← match subject with
    | some subject => do pure (← subject.value).c
    | none => pure (.int 1)
  let tests ← switchTests arms
  let arms ← switchArms tests arms
  let fallback ← optBlock fallback
  emit (.switch subject arms (fallback.getD []))

/-- Hands back values through the output pointers. -/
def setResults (func : FuncType Ty) (span : Span) :
    Nat → List (Member Ty) → List Typed → RoutineM Unit
  | index, output :: outputs, value :: values => do
      let c ← convert output.type value span "in return value"
      emit (.setResult (func.outputName index) c)
      setResults func span (index + 1) outputs values
  | _, _, _ => return

def returnThrough (func : FuncType Ty) (values : List Typed) (span : Span) : RoutineM Unit := do
  setResults func span 0 func.outputs values
  emit (.ret none)

/-- A return without values, which suits a function without outputs or with named ones. -/
def returnNothing (func : FuncType Ty) (span : Span) : RoutineM Unit := do
  match (← read).namedResult with
  | some result => emit (.ret (some (.localVar result)))
  | none =>
      if func.outputs.length = 1 then error span (.resultCount .returnNothing)
      emit (.ret none)

/-- A return with one value: the one output, or a call that has all the outputs. -/
def returnOne (func : FuncType Ty) (value : Operand) (span : Span) : RoutineM Unit := do
  match func.outputs with
  | [output] =>
      let value ← value.value
      let c ← convert output.type value span "in return value"
      emit (.ret (some c))
  | outputs =>
      let value ← toExpr span (← value.compile)
      match ← types (·.multi? value.type) with
      | some members =>
          if members.length ≠ outputs.length then
            error span (.resultCount (.returnOne outputs.length))
          emit (.eval value.c)
          returnThrough func (members.map fun m => ⟨.localVar m.name, m.type⟩) span
      | none => error span (.resultCount (.returnOne outputs.length))

def ret (values : List Operand) (span : Span) : RoutineM Unit := do
  match (← read).func with
  | none => error span (.invalidStatement .returnOutside)
  | some func =>
      match values with
      | [] => returnNothing func span
      | [value] => returnOne func value span
      | several =>
          if several.length ≠ func.outputs.length then
            error span (.resultCount (.returnCount several.length func.outputs.length))
          returnThrough func (← Operand.values several) span

/-- Compiles what is assigned to. -/
def place (target : Operand) : RoutineM Typed := do
  let assignable ← match target.source with
    | .ident _ name => isAssignable name
    | .dot .. => pure true
    | .index .. => pure true
    | _ => pure false
  if !assignable then error target.span (.invalidTarget .notAssignable)
  target.value

/-- Assigns a value to a target; the blank identifier takes any value. -/
def assignTo (target : Operand) (value : Typed) (span : Span) : RoutineM Unit := do
  if target.source.ident? = some "_" then emit (.discard value.c)
  else
    let place ← place target
    let c ← convert place.type value span "in assignment"
    emit (.store place.c (← types (·.cType place.type)) c)

/-- Assigns to targets one after another. -/
def assignAll (span : Span) : List Operand → List Operand → RoutineM Unit
  | target :: targets, value :: values => do
      assignTo target (← value.value) span
      assignAll span targets values
  | _, _ => return

/-- Declares a variable with the type of a value and sets it. -/
def defineOne (name : String) (value : Typed) (span : Span) : RoutineM Unit := do
  if name = "_" then emit (.discard value.c)
  else
    let type ← if ← types (·.isPrim value.type .constInt) then pure (.prim .int)
      else pure value.type
    if ← types (·.isPrim type .nil) then error span (.invalidStatement (.untypedNil name))
    let cName ← declareLocal name type span
    let c ← convert type value span "in definition"
    emit (.store (.localVar cName) (← types (·.cType type)) c)
    bind name ⟨.localVar cName, type⟩

def defineAll (span : Span) : List String → List Typed → RoutineM Unit
  | name :: names, value :: values => do
      defineOne name value span
      defineAll span names values
  | _, _ => return

/-- The names on the left of a definition. -/
def definedNames : List Operand → RoutineM (List String)
  | [] => return []
  | target :: rest =>
      match target.source.ident? with
      | none => error target.span (.invalidTarget .notAName)
      | some name => do
          let others ← definedNames rest
          return name :: others

/-- Takes the results of a call apart and assigns or defines them. -/
def assignResults (targets : List Operand) (names : Option (List String))
    (results : List Typed) (span : Span) : RoutineM Unit :=
  match names with
  | some names => defineAll span names results
  | none => assignEach targets results
where
  assignEach : List Operand → List Typed → RoutineM Unit
    | target :: targets, result :: results => do
        assignTo target result span
        assignEach targets results
    | _, _ => return

/-- Several targets for the results of one call. -/
def assignFromCall (targets : List Operand) (call : Operand) (define : Bool) (span : Span) :
    RoutineM Unit := do
  let names ← if define then some <$> definedNames targets else pure none
  let value ← toExpr span (← call.compile)
  match ← types (·.multi? value.type) with
  | some members =>
      if members.length ≠ targets.length then
        error span (.resultCount (.callCount targets.length members.length))
      emit (.eval value.c)
      assignResults targets names (members.map fun m => ⟨.localVar m.name, m.type⟩) span
  | none =>
      let nothing ← if call.source.isCall then types (·.isPrim value.type .void) else pure false
      error span (.resultCount (.callCount targets.length (if nothing then 0 else 1)))

/-- An assignment or a definition. -/
def setOrDefine (define : Bool) (targets values : List Operand) (span : Span) :
    RoutineM Unit := do
  match targets, values with
  | _ :: _ :: _, [call] => assignFromCall targets call define span
  | _, _ =>
      if targets.length ≠ values.length then
        error span (.resultCount (.assignCount targets.length values.length))
      if define then
        let names ← definedNames targets
        let values ← Operand.values values
        defineAll span names values
      else assignAll span targets values

/-- The target of a step by one. -/
def stepTarget (targets : List Operand) (span : Span) : RoutineM CExpr := do
  match targets with
  | [target] => return (← place target).c
  | _ => error span (.invalidStatement .stepOperands)

def assign (op : AssignOp) (targets values : List Operand) (span : Span) : RoutineM Unit := do
  match op with
  | .inc => emit (.increment (← stepTarget targets span))
  | .dec => emit (.decrement (← stepTarget targets span))
  | .lone =>
      match values with
      | [call] =>
          if !call.source.isCall then error span (.invalidStatement .loneNotCall)
          let e ← toExpr span (← call.compile)
          emit (.eval e.c)
      | _ => error span (.invalidStatement .loneNotCall)
  | .compound bin =>
      match targets, values with
      | [target], [value] =>
          let place ← place target
          let value ← value.value
          emit (.update place.c bin value.c)
      | _, _ => error span (.invalidStatement (.compoundSides op.sign))
  | .set => setOrDefine false targets values span
  | .define => setOrDefine true targets values span

end StmtRule

mutual

/-- Writes what a statement does. -/
def compileStmt : Stmt → RoutineM Unit
  | .assign span op targets values =>
      StmtRule.assign op (operands targets) (operands values) span
  | .var span name type => StmtRule.declare name (operand type) span
  | .ret span values => StmtRule.ret (operands values) span
  | .breakLoop span _ => StmtRule.jump .leave span
  | .continueLoop span _ => StmtRule.jump .again span
  | .whileLoop _ cond body => StmtRule.loop (optOperand cond) none (compileStmts body)
  | .forLoop _ init cond post body =>
      StmtRule.forLoop (compileOptStmt init) (optOperand cond) (compileOptStmt post)
        (compileStmts body)
  | .rangeLoop span key value collection body =>
      StmtRule.rangeLoop key value (operand collection) (compileStmts body) span
  | .ifElse _ cond thenBody elseBody =>
      StmtRule.ifElse (operand cond) (compileStmts thenBody) (compileOptStmts elseBody)
  | .switch _ subject cases fallback =>
      StmtRule.switch (optOperand subject) (compileCases cases) (compileOptStmts fallback)
  | .block _ body => do RoutineM.emit (.block (← StmtRule.block (compileStmts body)))

/-- Statements one after another. -/
def compileStmts : List Stmt → RoutineM Unit
  | [] => return
  | stmt :: rest => do
      compileStmt stmt
      compileStmts rest

def compileOptStmt : Option Stmt → Option (RoutineM Unit)
  | none => none
  | some stmt => some (compileStmt stmt)

def compileOptStmts : Option (List Stmt) → Option (RoutineM Unit)
  | none => none
  | some body => some (compileStmts body)

def compileCase : SwitchCase Stmt → List Operand × RoutineM Unit
  | ⟨tests, body, _⟩ => (operands tests, compileStmts body)

def compileCases : List (SwitchCase Stmt) → List (List Operand × RoutineM Unit)
  | [] => []
  | case :: rest => compileCase case :: compileCases rest

end

/-- Brings the inputs that have names into scope. -/
def bindInputs (func : FuncType Ty) : Nat → List (Member Ty) → RoutineM Unit
  | _, [] => return
  | index, input :: rest => do
      if isNamed input.name then
        RoutineM.bind input.name ⟨.param (func.inputName index), input.type⟩
      bindInputs func (index + 1) rest

/-- Brings the outputs that have names and are handed back through pointers into scope. -/
def bindOutputs (func : FuncType Ty) : Nat → List (Member Ty) → RoutineM Unit
  | _, [] => return
  | index, output :: rest => do
      if isNamed output.name then
        RoutineM.bind output.name ⟨.result (func.outputName index), output.type⟩
      bindOutputs func (index + 1) rest

/-- Brings the named inputs and outputs of a function into scope. A single named output
gets a variable, which is the result. -/
def enterFunc (func : FuncType Ty) (span : Span) : RoutineM (Option String) := do
  bindInputs func 0 func.inputs
  match func.outputs with
  | [output] =>
      if isNamed output.name then
        let cName ← RoutineM.declareLocal output.name output.type span
        RoutineM.bind output.name ⟨.localVar cName, output.type⟩
        return some cName
      else return none
  | outputs =>
      bindOutputs func 0 outputs
      return none

/-- The body of a function. -/
def compileBody (func : FuncType Ty) (body : List Stmt) (span : Span) : RoutineM Unit := do
  let result ← enterFunc func span
  withReader (fun env => { env with func := some func, namedResult := result }) do
    RoutineM.inScope (compileStmts body)

end GoToC
