import GoToC.Compile.Routine

/-!
# Compilation sessions

A session compiles modules one after another into one C program. What it has done stays
done when an error is raised: a module that failed is still known, in the state that it
reached, and what was written stays written.
-/

namespace GoToC

structure Session where
  program : Program
  supply : Supply
  /-- The modules whose compilation is complete, in the order of completion. -/
  finished : List ModuleId
  output : Array CItem

namespace Session

def empty : Session := ⟨Program.empty, Supply.empty, [], #[]⟩

/-- The C program written so far. -/
def text (session : Session) : String := CItem.renderAll session.output.toList

end Session

/-- A module whose declarations are compiled. -/
structure Job where
  id : ModuleId
  /-- The name of the module. -/
  package : String
  file : SourceFile

abbrev SessionM (α : Type) := ExceptT Failure (StateM Session) α

namespace SessionM

/-- Raises an error in a module. -/
def error {α : Type} (package : String) (span : Span) (problem : Problem) : SessionM α :=
  throw (.error ⟨package, span, problem⟩)

/-- Takes over the result of an operation that can be asked for in vain. -/
def lift {α : Type} : Faulty α → SessionM α
  | .ok value => return value
  | .error fault => throw (.fault fault)

/-- Asks the type store of the program. -/
def types {α : Type} (ask : TypeStore → Faulty α) : SessionM α := do
  lift (ask (← get).program.types)

def setTypes (store : TypeStore) : SessionM Unit :=
  modify fun session => { session with program := { session.program with types := store } }

/-- Writes an item of the C program. -/
def write (item : CItem) : SessionM Unit :=
  modify fun session => { session with output := session.output.push item }

/-- Makes a module known. -/
def register (name : String) (file : SourceFile) : SessionM Job := do
  let session ← get
  let id := session.program.modules.length
  set { session with
    program := { session.program with
      modules := session.program.modules ++ [Module.ofFile name file] } }
  return ⟨id, name, file⟩

/-- Notes that the compilation of a module is complete. -/
def finish (id : ModuleId) : SessionM Unit :=
  modify fun session => { session with finished := session.finished ++ [id] }

/-- Makes the globals of a module visible to all others. -/
def setBuiltin (id : ModuleId) : SessionM Unit :=
  modify fun session => { session with program := { session.program with builtin := some id } }

def updateModule (id : ModuleId) (update : Module → Module) : SessionM Unit :=
  modify fun session => { session with program := session.program.updateModule id update }

def global? (id : ModuleId) (name : String) : SessionM (Option Global) := do
  return (← get).program.global? id name

/-- The globals of a module. -/
def globals (id : ModuleId) : SessionM (List Global) := do
  return (((← get).program.module? id).map (·.globals)).getD []

/-- The methods of a module. -/
def methods (id : ModuleId) : SessionM (List Method) := do
  return (((← get).program.module? id).map (·.methods)).getD []

/-- The declared global of that name. -/
def declared (id : ModuleId) (name : String) : SessionM Global := do
  match ← global? id name with
  | some global => return global
  | none => throw (.fault (.globalUndeclared name))

/-- Gives a declared global its value. -/
def setValue (id : ModuleId) (name : String) (value : GlobalValue) : SessionM Unit := do
  let _ ← declared id name
  updateModule id (·.setValue name value)

/-- Makes a global a C variable or function of a type and gives its C name. -/
def setType (id : ModuleId) (name : String) (type : Ty) : SessionM String := do
  let global ← declared id name
  setValue id name (.expr ⟨.global global.cName, type⟩)
  return global.cName

/-- Goes on with a routine of a module. Names that were taken stay taken after an error. -/
def resume {α : Type} (job : Job) (routine : Routine) (action : RoutineM α) :
    SessionM (α × Routine) := do
  let session ← get
  let env : Env := ⟨session.program, job.id, job.package, none, none, none⟩
  let (result, after) := action env { routine with supply := session.supply }
  set { session with supply := after.supply }
  match result with
  | .ok value => return (value, after)
  | .error failure => throw failure

/-- Compiles something as a routine of its own. -/
def routine {α : Type} (job : Job) (action : RoutineM α) : SessionM (α × Routine) := do
  resume job (Routine.start (← get).supply) action

/-- Compiles something that leaves no routine behind. -/
def isolated {α : Type} (job : Job) (action : RoutineM α) : SessionM α := do
  return (← routine job action).1

end SessionM

end GoToC
