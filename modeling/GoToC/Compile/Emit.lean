import GoToC.Compile.Session
import GoToC.Compile.Stmt

/-!
# Writing modules

The C text of a module whose declarations are built: first the declarations of all its
globals and methods, then the routine that sets its variables, then the bodies of its
functions and methods. The definition of a function pointer type is written before its
first use.
-/

namespace GoToC.SessionM

/-- Writes the definition of a function pointer type unless it was written before. -/
def writeTypedef (type : Ty) : SessionM Unit := do
  let session ← get
  let (item, typedefs) := session.supply.typedefs.request session.program.types type
  set { session with supply := { session.supply with typedefs := typedefs } }
  match ← lift item with
  | some item => write item
  | none => return

/-- Writes the function pointer types that a type is made of, the innermost first, going
down no more than the given number of levels. -/
def writeTypedefsWithin : Nat → Ty → SessionM Unit
  | 0, _ => throw (.fault .endless)
  | levels + 1, type => do
      match ← types (·.func? type) with
      | none => return
      | some func =>
          (func.inputs ++ func.outputs).forM fun member => writeTypedefsWithin levels member.type
          writeTypedef type

/-- Writes the function pointer types that a type is made of. On the way down no function
type is met twice, so there are no more levels than function types, and one for the rest. -/
def writeTypedefs (type : Ty) : SessionM Unit := do
  writeTypedefsWithin ((← get).supply.typedefs.made + 1) type

/-- Declares a function or method. -/
def declareFunc (cName : String) (type : Ty) : SessionM Unit := do
  match ← types (·.func? type) with
  | none => throw (.fault (.notAFunction cName type.display))
  | some func =>
      (func.inputs ++ func.outputs).forM fun member => writeTypedefs member.type
      write (.declared (← types (·.prototype func cName)))

/-- Declares a global; imports and constants leave no trace in C. -/
def writeGlobal (global : Global) : SessionM Unit := do
  match global.type? with
  | none => return
  | some type =>
      match global.kind with
      | .import | .const => return
      | .type =>
          writeTypedefs type
          write (.typeAlias (← types (·.cType type)) global.cName)
      | .var =>
          writeTypedefs type
          write (.globalVar (← types (·.cType type)) global.cName)
      | .func => declareFunc global.cName type

/-- Declares all globals and methods of a module. -/
def writeDeclarations (id : ModuleId) : SessionM Unit := do
  (← globals id).forM writeGlobal
  (← methods id).forM fun method => declareFunc method.cName method.type

/-- Writes the routine of the initializers. -/
def writeInit (job : Job) : Option Routine → SessionM Unit
  | none => return
  | some routine =>
      write (.routine (.init job.package) routine.locals.toList routine.body.toList)

/-- Writes a function or method; without a body it is native. -/
def writeFunc (job : Job) (cName : String) (type : Option Ty) (decl : FuncDecl) :
    SessionM Unit := do
  let func ← match type with
    | some type => types (·.func? type)
    | none => pure none
  match func with
  | none => throw (.fault (.funcNotBuilt cName))
  | some func =>
      let prototype ← types (·.prototype func cName)
      match decl.body with
      | none => write (.native prototype)
      | some body =>
          let (_, routine) ← routine job (compileBody func body decl.span)
          routine.typedefs.forM write
          write (.routine (.func prototype) routine.locals.toList routine.body.toList)

/-- Writes a declared function. -/
def writeDeclaredFunc (job : Job) (decl : FuncDecl) : SessionM Unit := do
  match ← global? job.id decl.name with
  | some global => writeFunc job global.cName global.type? decl
  | none => throw (.fault (.funcUndeclared decl.name))

/-- Writes a method of the module. -/
def writeMethod (job : Job) (method : Method) : SessionM Unit := do
  match job.file.methods[method.decl]? with
  | some decl => writeFunc job method.cName (some method.type) decl
  | none => throw (.fault (.funcNotBuilt method.cName))

/-- Writes all functions, then all methods of a module. -/
def writeFuncs (job : Job) : SessionM Unit := do
  job.file.funcs.forM (writeDeclaredFunc job)
  (← methods job.id).forM (writeMethod job)

end GoToC.SessionM
