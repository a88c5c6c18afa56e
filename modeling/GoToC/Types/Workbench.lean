import GoToC.C.Typedef

/-!
# Building types from terms

A workbench keeps what a series of requests about types shares: the bindings of handles,
the handles and types known by name, and the numbers of function types. A term is built
from its parts, left to right, each time it is mentioned; only a reference by name gives
back a type that was built before.
-/

namespace GoToC

/-- A description of a type. -/
inductive TypeTerm where
  | prim (p : Prim)
  | pointer (inner : TypeTerm)
  | slice (elem : TypeTerm)
  | map (key value : TypeTerm)
  | struct (package name : String) (fields : List (Member TypeTerm))
  | interface (package name : String) (methods : List (Member TypeTerm))
  | universal
  | func (inputs outputs : List (Member TypeTerm)) (variadic isMethod : Bool)
  | multi (members : List (Member TypeTerm))
  /-- The handle of that name. -/
  | handle (name : String)
  /-- The type that was kept under that name. -/
  | kept (name : String)
  deriving Inhabited

structure Workbench where
  store : TypeStore
  typedefs : TypedefSupply
  handles : List (String × Handle)
  kept : List (String × Ty)
  /-- The number of structs built so far. -/
  structs : Nat
  deriving Inhabited

namespace Workbench

def empty : Workbench := ⟨TypeStore.empty, TypedefSupply.empty, [], [], 0⟩

/-- The handle of a name, made at its first mention. -/
def handle (name : String) : StateM Workbench Handle := do
  let bench ← get
  match bench.handles.lookup name with
  | some handle => return handle
  | none =>
      let (handle, store) := bench.store.newHandle name
      set { bench with store := store, handles := (name, handle) :: bench.handles }
      return handle

/-- Makes a struct, different from all made before. -/
def newStruct (package name : String) (fields : List (Member Ty)) :
    StateM Workbench (StructType Ty) := do
  let bench ← get
  set { bench with structs := bench.structs + 1 }
  return ⟨bench.structs, package, name, fields⟩

def newFunc (inputs outputs : List (Member Ty)) (variadic isMethod : Bool) :
    StateM Workbench (FuncType Ty) := do
  let bench ← get
  let (func, typedefs) := bench.typedefs.newFunc inputs outputs variadic isMethod
  set { bench with typedefs := typedefs }
  return func

mutual

/-- Builds a type. -/
def build : TypeTerm → StateM Workbench Ty
  | .prim p => return .prim p
  | .pointer inner => return .pointer (← build inner)
  | .slice elem => return .slice (← build elem)
  | .map key value => do
      let key ← build key
      let value ← build value
      return .map key value
  | .struct package name fields => do
      let fields ← buildMembers fields
      return .struct (← newStruct package name fields)
  | .interface package name methods => do
      let methods ← buildMembers methods
      return .interface ⟨package, name, methods⟩
  | .universal => return .universal
  | .func inputs outputs variadic isMethod => do
      let inputs ← buildMembers inputs
      let outputs ← buildMembers outputs
      return .func (← newFunc inputs outputs variadic isMethod)
  | .multi members => return .multi (← buildMembers members)
  | .handle name => return .forward (← handle name)
  | .kept name => do
      match (← get).kept.lookup name with
      | some type => return type
      | none => return .prim .void

def buildMembers : List (Member TypeTerm) → StateM Workbench (List (Member Ty))
  | [] => return []
  | ⟨name, term⟩ :: rest => do
      let type ← build term
      let others ← buildMembers rest
      return ⟨name, type⟩ :: others

end

/-- Keeps a type under a name. -/
def keep (name : String) (type : Ty) : StateM Workbench Unit :=
  modify fun bench => { bench with kept := (name, type) :: bench.kept }

/-- Binds the handle of a name. -/
def bind (name : String) (type : Ty) : ExceptT Fault (StateM Workbench) Unit := do
  let target ← handle name
  let bench ← get
  match bench.store.bind target type with
  | .ok store => set { bench with store := store }
  | .error fault => throw fault

/-- Binds the last of `count` handles to a type and each of the others to the next one;
gives the first, or the type itself if there is none. -/
def chain : Nat → Ty → ExceptT Fault (StateM Workbench) Ty
  | 0, type => return type
  | count + 1, type => do
      let name := s!"F{count}"
      bind name type
      chain count (.forward (← handle name))

def addMethod (type : Ty) (method : Member Ty) : ExceptT Fault (StateM Workbench) Bool := do
  let bench ← get
  match ← bench.store.struct? type with
  | none => return false
  | some record =>
      set { bench with store := bench.store.addMethod record method }
      return true

/-- Asks for the definition of a function pointer type. -/
def request (type : Ty) : ExceptT Fault (StateM Workbench) (Option CItem) := do
  let bench ← get
  let (item, typedefs) := bench.typedefs.request bench.store type
  set { bench with typedefs := typedefs }
  match item with
  | .ok item => return item
  | .error fault => throw fault

end Workbench

end GoToC
