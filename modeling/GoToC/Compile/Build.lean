import GoToC.Compile.Declare
import GoToC.Compile.Expr

/-!
# Building declarations

What the declared names of a module stand for: imports first, then types, constants,
types of variables, functions and methods, and at last the initializers of variables.
A variable without a written type takes its type from its initializer.
-/

namespace GoToC

/-- Imports a module by name, for a module and from a place in it. -/
abbrev Importer := String → String → Span → SessionM ModuleId

namespace SessionM

def buildImport (importer : Importer) (job : Job) (decl : ImportDecl) : SessionM Unit := do
  let target ← importer decl.name job.package decl.span
  setValue job.id decl.name (.module target)

/-- Binds the handle of a declared type. -/
def bindHandle (job : Job) (name : String) (type : Ty) : SessionM Unit := do
  match (← global? job.id name).bind (·.handle) with
  | some handle => setTypes (← types (·.bind handle type))
  | none => return

def buildType (job : Job) (decl : TypeDecl) : SessionM (Ty × Span) := do
  let type ← isolated job (compileNamedType decl.type decl.name)
  bindHandle job decl.name type
  setValue job.id decl.name (.type type)
  return (type, decl.span)

/-- Checks that a type that was built can be inspected. -/
def checkType (job : Job) (type : Ty) (span : Span) : SessionM Unit := do
  match (← get).program.types.validate type with
  | .ok _ => return
  | .error cause => error job.package span (.badType cause)

/-- Builds all types, then checks them. -/
def buildTypes (job : Job) : SessionM Unit := do
  let built ← job.file.types.mapM (buildType job)
  built.forM fun (type, span) => checkType job type span

/-- A constant is the C fragment of its initializer, which may need no statements. -/
def buildConst (job : Job) (decl : ConstDecl) : SessionM Unit := do
  if decl.type.isSome then error job.package decl.span (.typedConst decl.name)
  let (value, routine) ← routine job (operand decl.value).value
  if !routine.isPristine then
    error job.package decl.span (.invalidStatement (.notConstant decl.name))
  setValue job.id decl.name (.expr value)

/-- Builds the type of a variable that is written with one. -/
def buildVar (job : Job) (decl : VarDecl) : SessionM Unit := do
  match decl.type, decl.init with
  | some written, _ =>
      let type ← isolated job (operand written).type
      if !(← types (·.hasZeroValue type)) then
        error job.package decl.span (.notStorable type.display)
      let _ ← setType job.id decl.name type
  | none, some _ => return
  | none, none => error job.package decl.span (.invalidStatement (.untypedVar decl.name))

def buildFunc (job : Job) (decl : FuncDecl) : SessionM Unit := do
  let func ← isolated job (compileSignature none decl.signature)
  setValue job.id decl.name
    (.expr ⟨.global (Declaration.cName job.package decl.name), .func func⟩)

/-- The C name of a method. -/
def methodName (record : StructType Ty) (name : String) : String := record.cName ++ "__" ++ name

/-- The struct of the module that a receiver type points to. -/
def receiverStruct? (job : Job) (receiver : Ty) : SessionM (Option (StructType Ty)) := do
  return (← types (·.pointeeStruct? receiver)).filter (·.package == job.package)

/-- Gives the method to the struct that its receiver points to. -/
def buildMethod (job : Job) (index : Nat) (decl : FuncDecl) : SessionM Unit := do
  let func ← isolated job (compileSignature decl.receiver decl.signature)
  let receiver := (func.inputs.head?.map (·.type)).getD (.prim .void)
  match ← receiverStruct? job receiver with
  | none => error job.package decl.span (.badReceiver receiver.display)
  | some record =>
      let cName := methodName record decl.name
      match (← methods job.id).find? (·.cName == cName) with
      | some previous =>
          error job.package decl.span
            (.redefined (record.name ++ "." ++ decl.name) previous.span)
      | none =>
          setTypes ((← get).program.types.addMethod record ⟨decl.name, .func func⟩)
          updateModule job.id (·.addMethod ⟨cName, .func func, index, decl.span⟩)

/-- Builds methods whose declarations are numbered from `index` on. -/
def buildMethods (job : Job) : Nat → List FuncDecl → SessionM Unit
  | _, [] => return
  | index, decl :: rest => do
      buildMethod job index decl
      buildMethods job (index + 1) rest

/-- The type of a variable that is written without one. -/
def inferType (job : Job) (decl : VarDecl) (type : Ty) : SessionM Ty := do
  if ← types (·.isPrim type .constInt) then return .prim .int
  let hasZero ← types (·.hasZeroValue type)
  if hasZero && !(← types (·.isPrim type .nil)) then return type
  error job.package decl.span (.notStorable type.display)

/-- Compiles the initializer of a variable, if it has one. -/
def buildInit (job : Job) (routine : Routine) (decl : VarDecl) (declared : Option Ty) :
    SessionM Routine := do
  match decl.init with
  | none => return routine
  | some init =>
      let (value, routine) ← resume job routine (operand init).value
      let type ← match declared with
        | some type => pure type
        | none => inferType job decl value.type
      let cName ← setType job.id decl.name type
      let store : RoutineM Unit := do
        let converted ← RoutineM.convert type value decl.span "in variable initializer"
        let cType ← RoutineM.types (·.cType type)
        RoutineM.emit (.store (.global cName) cType converted)
      return (← resume job routine store).2

/-- The variables with the types that they are written with. -/
def declaredTypes (job : Job) : SessionM (List (VarDecl × Option Ty)) :=
  job.file.vars.mapM fun decl => do
    return (decl, (← global? job.id decl.name).bind (·.type?))

/-- Compiles all initializers into one routine. The pointer types that it needs are
defined at once, before the declarations that may need them too. -/
def buildInits (job : Job) : SessionM (Option Routine) := do
  if job.file.vars.all (·.init.isNone) then return none
  let vars ← declaredTypes job
  let start := Routine.start (← get).supply
  let routine ← vars.foldlM (fun routine (decl, declared) => buildInit job routine decl declared)
    start
  routine.typedefs.forM write
  return some routine

/-- Builds all declarations; gives the routine of the initializers, if there are any. -/
def build (importer : Importer) (job : Job) : SessionM (Option Routine) := do
  job.file.imports.forM (buildImport importer job)
  buildTypes job
  job.file.consts.forM (buildConst job)
  job.file.vars.forM (buildVar job)
  job.file.funcs.forM (buildFunc job)
  buildMethods job 0 job.file.methods
  buildInits job

end SessionM

end GoToC
