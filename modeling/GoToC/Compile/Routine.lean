import GoToC.Compile.Error
import GoToC.Compile.Program

/-!
# Routines

A routine is compiled against a program that does not change meanwhile. What does change
is the routine itself, its variables and statements, and the numbers from which fresh
names are made. Those numbers outlast an error, so the state is kept when one is raised.
-/

namespace GoToC

/-- The numbers that fresh names are made from. -/
structure Supply where
  /-- The number of temporaries, labels and invented names so far. -/
  serial : Nat
  typedefs : TypedefSupply
  /-- The number of structs built so far. -/
  structs : Nat
  deriving Inhabited

def Supply.empty : Supply := ⟨0, TypedefSupply.empty, 0⟩

/-- What a routine is compiled against. -/
structure Env where
  program : Program
  module : ModuleId
  /-- The name of the module. -/
  package : String
  /-- The function whose body is compiled; none for the initializers of a module. -/
  func : Option (FuncType Ty)
  /-- The variable of a single output that has a name. -/
  namedResult : Option String
  /-- The number of the innermost loop. -/
  loop : Option Nat

/-- The names of one block, the latest first. -/
abbrev Scope := List (String × Typed)

structure Routine where
  supply : Supply
  /-- The blocks around the current place, the innermost first. -/
  scopes : List Scope
  locals : Array CLocal
  /-- Definitions of function pointer types that the variables need. -/
  typedefs : Array CItem
  body : Array CStmt
  deriving Inhabited

namespace Routine

def start (supply : Supply) : Routine := ⟨supply, [[]], #[], #[], #[]⟩

/-- The innermost binding of a name. -/
def binding? (routine : Routine) (name : String) : Option Typed :=
  routine.scopes.findSome? (·.lookup name)

/-- Whether a block around the current place declares the name. -/
def isBound (routine : Routine) (name : String) : Bool := (routine.binding? name).isSome

/-- Whether the routine declares a C variable of that name. -/
def hasLocal (routine : Routine) (name : String) : Bool := routine.locals.any (·.name == name)

/-- Whether nothing was written and nothing declared. -/
def isPristine (routine : Routine) : Bool := routine.body.isEmpty && routine.locals.isEmpty

end Routine

abbrev RoutineM (α : Type) := ReaderT Env (ExceptT Failure (StateM Routine)) α

namespace RoutineM

/-- Raises an error in the module that is compiled. -/
def error {α : Type} (span : Span) (problem : Problem) : RoutineM α := do
  throw (.error ⟨(← read).package, span, problem⟩)

def mismatch {α : Type} (span : Span) (expected found : Ty) (context : String) : RoutineM α :=
  error span (.mismatch expected.display found.display context)

/-- Takes over the result of an operation that can be asked for in vain. -/
def lift {α : Type} : Faulty α → RoutineM α
  | .ok value => return value
  | .error fault => throw (.fault fault)

/-- Asks the type store of the program. -/
def types {α : Type} (ask : TypeStore → Faulty α) : RoutineM α := do
  lift (ask (← read).program.types)

/-- The next serial number. -/
def nextSerial : RoutineM Nat := do
  let routine ← get
  let serial := routine.supply.serial + 1
  set { routine with supply := { routine.supply with serial := serial } }
  return serial

def newFunc (inputs outputs : List (Member Ty)) (variadic isMethod : Bool) :
    RoutineM (FuncType Ty) := do
  let routine ← get
  let (func, typedefs) := routine.supply.typedefs.newFunc inputs outputs variadic isMethod
  set { routine with supply := { routine.supply with typedefs := typedefs } }
  return func

/-- Makes a struct of the module that is compiled. -/
def newStruct (name : String) (fields : List (Member Ty)) : RoutineM (StructType Ty) := do
  let routine ← get
  let id := routine.supply.structs
  set { routine with supply := { routine.supply with structs := id + 1 } }
  return ⟨id, (← read).package, name, fields⟩

/-- Writes a statement. -/
def emit (stmt : CStmt) : RoutineM Unit :=
  modify fun routine => { routine with body := routine.body.push stmt }

/-- Runs an action and gives, apart from its result, the statements that it wrote. -/
def capture {α : Type} (action : RoutineM α) : RoutineM (α × List CStmt) := fun env routine =>
  match action env { routine with body := #[] } with
  | (.ok value, after) =>
      (.ok (value, after.body.toList), { after with body := routine.body })
  | (.error failure, after) => (.error failure, { after with body := routine.body })

/-- Runs an action in a block of its own. -/
def inScope {α : Type} (action : RoutineM α) : RoutineM α := fun env routine =>
  match action env { routine with scopes := [] :: routine.scopes } with
  | (result, after) => (result, { after with scopes := after.scopes.tail })

/-- Runs an action as the body of a loop. -/
def inLoop {α : Type} (number : Nat) (action : RoutineM α) : RoutineM α :=
  withReader (fun env => { env with loop := some number }) action

/-- Binds a name in the innermost block. -/
def bind (name : String) (value : Typed) : RoutineM Unit :=
  modify fun routine =>
    match routine.scopes with
    | [] => routine
    | scope :: outer => { routine with scopes := ((name, value) :: scope) :: outer }

/-- Hands out the definition that a variable of the type needs. -/
def requestTypedef (type : Ty) : RoutineM Unit := do
  let routine ← get
  let (item, typedefs) := routine.supply.typedefs.request (← read).program.types type
  set { routine with supply := { routine.supply with typedefs := typedefs } }
  match ← lift item with
  | some item => modify fun routine => { routine with typedefs := routine.typedefs.push item }
  | none => return

/-- Declares a C variable, set to the zero value of its type. -/
def addLocal (name : String) (type : Ty) (span : Span) : RoutineM Unit := do
  if !(← types (·.hasZeroValue type)) then error span (.notStorable type.display)
  requestTypedef type
  let cType ← types (·.cType type)
  let init ← types (·.zeroValue type)
  modify fun routine => { routine with locals := routine.locals.push ⟨cType, name, init⟩ }

/-- The C name of a source variable, the first time it is declared in a routine. -/
def variableName (name : String) : String := "v_" ++ name

/-- The C name of a source variable whose plain C name is taken. -/
def renamedVariable (name : String) (serial : Nat) : String := s!"v_{name}_{serial}"

def tempName (serial : Nat) : String := s!"_tmp_{serial}"

/-- The C name of one result of a call that has several. -/
def multiName (serial index : Nat) : String := s!"_multi_{serial}_{index}"

/-- Declares the C variable of a source variable and gives its name. -/
def declareLocal (name : String) (type : Ty) (span : Span) : RoutineM String := do
  let plain := variableName name
  let cName ← if (← get).hasLocal plain then renamedVariable name <$> nextSerial else pure plain
  addLocal cName type span
  return cName

/-- Declares a C variable that no source variable stands for. -/
def temp (type : Ty) (span : Span) : RoutineM String := do
  let cName := tempName (← nextSerial)
  addLocal cName type span
  return cName

/-- What an identifier stands for: the innermost block that declares it, then the module,
then the module that all others see, then what is known without a declaration. -/
def lookup (name : String) (span : Span) : RoutineM Value := do
  let env ← read
  match (← get).binding? name with
  | some value => return .expr value
  | none =>
      match env.program.globalValue? env.module name with
      | some value => return value
      | none =>
          let shared := env.program.builtin.bind fun builtin =>
            if builtin = env.module then none else env.program.globalValue? builtin name
          match shared <|> primValue? name with
          | some value => return value
          | none => error span (.unknownIdent name)

/-- Whether an identifier can be assigned to. -/
def isAssignable (name : String) : RoutineM Bool := do
  let env ← read
  if (← get).isBound name then return true
  match env.program.global? env.module name with
  | some global => return global.kind == .var
  | none =>
      let shared := env.program.builtin.bind (env.program.global? · name)
      return (shared.map (·.kind == .var)).getD false

/-- Fails if the value is the list of results of a call. -/
def single (e : Typed) (span : Span) : RoutineM Typed := do
  match ← types (·.multi? e.type) with
  | some members => error span (.resultCount (.several members.length))
  | none => return e

/-- The C fragment of a built global. -/
def globalExpr (value : GlobalValue) (span : Span) : RoutineM Typed :=
  match value with
  | .expr e => return e
  | other => error span (.notAValue other.toValue.describe)

/-- The C fragment of a value; it may be a call with several results. -/
def toExpr (span : Span) : Value → RoutineM Typed
  | .expr e => return e
  | .global id name => do
      match ((← read).program.global? id name).bind (·.value) with
      | some value => globalExpr value span
      | none => error span (.notYetResolved name)
  | .element container index => do
      let container ← single (← toExpr span container) span
      let index ← single (← toExpr span index) span
      match ← types (·.element? container.type) with
      | some elem => return ⟨.subscript container.c index.c, elem⟩
      | none =>
          error span (.mismatch "slice, map or string" container.type.display "in subscript")
  | other => error span (.notAValue other.describe)

/-- The C fragment of a value that is to be one value. -/
def toSingle (span : Span) (value : Value) : RoutineM Typed := do
  single (← toExpr span value) span

/-- Converts a value for a place of type `dest`. -/
def convert (dest : Ty) (src : Typed) (span : Span) (context : String) : RoutineM CExpr := do
  match ← types (·.func? dest) with
  | some _ =>
      if ← types (·.isPrim src.type .nil) then return src.c
      if ← types (·.equal dest src.type) then return src.c
      mismatch span dest src.type context
  | none =>
      if !(← types (·.isStorable dest)) then error span (.notStorable dest.display)
      match ← types (·.assign dest src.type) with
      | some conversion => return conversion.apply src.c
      | none => mismatch span dest src.type context

end RoutineM

end GoToC
