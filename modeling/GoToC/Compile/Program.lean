import GoToC.C.Typedef

/-!
# The program that is compiled

The modules met so far with their globals and methods. A global is known from the start
by its name; its value comes when its declaration is built. Until then a type stands for
itself through its handle, and any other global can only be named.
-/

namespace GoToC

/-- The position of a module among all modules. -/
abbrev ModuleId := Nat

/-- A C fragment and the type of its value. -/
structure Typed where
  c : CExpr
  type : Ty
  deriving Inhabited

/-- A method with the value that it is called on. -/
structure BoundMethod where
  /-- The C function. -/
  callee : CExpr
  receiver : CExpr
  func : FuncType Ty

/-- What an expression stands for. -/
inductive Value where
  | expr (e : Typed)
  /-- A global that is not built yet. -/
  | global (module : ModuleId) (name : String)
  | type (type : Ty)
  | module (id : ModuleId)
  /-- An element of a string, slice or map. -/
  | element (container index : Value)
  | method (method : BoundMethod)

/-- How a message mentions a value that was found. -/
def Value.describe : Value → String
  | expr e => "value of type `" ++ e.type.display ++ "`"
  | global _ name => s!"`{name}`"
  | type denoted => "type `" ++ denoted.display ++ "`"
  | module _ => "a module"
  | element _ _ => "subscript"
  | method bound => "method `" ++ bound.callee.render ++ "`"

inductive GlobalKind where
  | «import»
  | type
  | const
  | var
  | func
  deriving Repr, DecidableEq, Inhabited

/-- The value of a global whose declaration is built. -/
inductive GlobalValue where
  | expr (e : Typed)
  | type (type : Ty)
  | module (id : ModuleId)

namespace GlobalValue

def toValue : GlobalValue → Value
  | expr e => .expr e
  | type denoted => .type denoted
  | module id => .module id

/-- The type of the value itself, which for a type is the type of types. -/
def valueType : GlobalValue → Ty
  | expr e => e.type
  | type _ => .prim .type
  | module _ => .prim .import

end GlobalValue

/-- A declared name of a module. -/
structure Global where
  package : String
  name : String
  cName : String
  kind : GlobalKind
  /-- The position of its declaration among those of its kind. -/
  decl : Nat
  span : Span
  value : Option GlobalValue
  /-- The handle of a type. -/
  handle : Option Handle

/-- The type of a built type, constant, variable or function. -/
def Global.type? (global : Global) : Option Ty :=
  match global.value with
  | some (.type type) => some type
  | some (.expr e) => some e.type
  | _ => none

/-- A method of a struct of the module. -/
structure Method where
  cName : String
  type : Ty
  /-- The position of its declaration among the methods of the module. -/
  decl : Nat
  span : Span

structure Module where
  name : String
  file : SourceFile
  /-- In the order imports, types, constants, variables, functions. -/
  globals : List Global
  methods : List Method

namespace Module

def ofFile (name : String) (file : SourceFile) : Module := ⟨name, file, [], []⟩

def get? (module : Module) (name : String) : Option Global :=
  module.globals.find? (·.name == name)

def addGlobal (module : Module) (global : Global) : Module :=
  { module with globals := module.globals ++ [global] }

def addMethod (module : Module) (method : Method) : Module :=
  { module with methods := module.methods ++ [method] }

/-- Gives the global of a name its value. -/
def setValue (module : Module) (name : String) (value : GlobalValue) : Module :=
  { module with
    globals := module.globals.map fun global =>
      if global.name == name then { global with value := some value } else global }

end Module

structure Program where
  modules : List Module
  /-- The module whose globals every other module sees. -/
  builtin : Option ModuleId
  types : TypeStore

namespace Program

def empty : Program := ⟨[], none, TypeStore.empty⟩

/-- The module of a name, by position. -/
def find? (program : Program) (name : String) : Option ModuleId :=
  program.modules.findIdx? (·.name == name)

def module? (program : Program) (id : ModuleId) : Option Module := program.modules[id]?

def global? (program : Program) (id : ModuleId) (name : String) : Option Global :=
  (program.module? id).bind (·.get? name)

/-- What the name of a global stands for. -/
def globalValue? (program : Program) (id : ModuleId) (name : String) : Option Value :=
  (program.global? id name).map fun global =>
    match global.value, global.handle with
    | some value, _ => value.toValue
    | none, some handle => .type (.forward handle)
    | none, none => .global id name

def updateModule (program : Program) (id : ModuleId) (update : Module → Module) : Program :=
  { program with modules := program.modules.modify id update }

end Program

/-- What a name stands for that no module declares. -/
def primValue? (name : String) : Option Value :=
  if name = "true" then some (.expr ⟨.int 1, .prim .bool⟩)
  else if name = "false" then some (.expr ⟨.int 0, .prim .bool⟩)
  else if name = "nil" then some (.expr ⟨.nil, .prim .nil⟩)
  else (Prim.named.find? (·.name == name)).map fun p => .type (.prim p)

end GoToC
