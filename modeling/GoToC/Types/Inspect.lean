import GoToC.Types.Fault

/-!
# The shape of types

What can be read off a type once handles are followed: its C type, whether a variable
can hold it and with which first value, and the types it is made of.
-/

namespace GoToC.TypeStore

/-- Binds a handle that is not bound yet. -/
def bind (store : TypeStore) (handle : Handle) (type : Ty) : Faulty TypeStore :=
  match store.target? handle with
  | some _ => .error (.boundTwice handle.name)
  | none => .ok (store.setTarget handle type)

/-- The type itself, never a handle. -/
def peel (store : TypeStore) (type : Ty) : Faulty Ty :=
  match store.resolve type with
  | .ok type => .ok type
  | .error cause => .error (.unresolved cause)

/-- The C type of values. -/
def cType (store : TypeStore) (type : Ty) : Faulty String := do
  match ← store.peel type with
  | .prim p => return p.cType
  | .pointer _ => return "Pointer"
  | .slice _ => return "Slice"
  | .map _ _ => return "Map"
  | .struct _ => return "Struct"
  | .interface _ => return "Interface"
  | .universal => return "Interface"
  | .func record => return record.typedefName
  | .multi _ => return "Multi"
  | .forward handle => throw (.unresolved (.unbound handle.name))

def isPrim (store : TypeStore) (type : Ty) (prim : Prim) : Faulty Bool := do
  match ← store.peel type with
  | .prim p => return p == prim
  | _ => return false

def isIntLike (store : TypeStore) (type : Ty) : Faulty Bool := do
  match ← store.peel type with
  | .prim p => return p.isIntLike
  | _ => return false

/-- Whether a variable can hold values of the type. -/
def isStorable (store : TypeStore) (type : Ty) : Faulty Bool := do
  match ← store.peel type with
  | .prim p => return p.isStorable
  | .multi _ => return false
  | _ => return true

/-- Whether a variable of the type has a first value; a struct is only held by pointer. -/
def hasZeroValue (store : TypeStore) (type : Ty) : Faulty Bool := do
  match ← store.peel type with
  | .struct _ => return false
  | shape => store.isStorable shape

/-- The C initializer of a variable. -/
def zeroValue (store : TypeStore) (type : Ty) : Faulty String := do
  let shape ← store.peel type
  if !(← store.hasZeroValue shape) then throw (.noZeroValue shape.display)
  match shape with
  | .prim .string => return "\x7b0, 0, 0\x7d"
  | .slice _ => return "\x7b0, 0, 0\x7d"
  | .prim _ => return "0"
  | _ => return "(void*)0"

/-- The type of the elements that a subscript selects. -/
def element? (store : TypeStore) (type : Ty) : Faulty (Option Ty) := do
  match ← store.peel type with
  | .slice elem => return some elem
  | .map _ value => return some value
  | .prim .string => return some (.prim .byte)
  | _ => return none

def sliceElement? (store : TypeStore) (type : Ty) : Faulty (Option Ty) := do
  match ← store.peel type with
  | .slice elem => return some elem
  | _ => return none

def struct? (store : TypeStore) (type : Ty) : Faulty (Option (StructType Ty)) := do
  match ← store.peel type with
  | .struct record => return some record
  | _ => return none

/-- The struct that a pointer points to. -/
def pointeeStruct? (store : TypeStore) (type : Ty) : Faulty (Option (StructType Ty)) := do
  match ← store.peel type with
  | .pointer inner => store.struct? inner
  | _ => return none

/-- The interface with a name that a type is. -/
def interface? (store : TypeStore) (type : Ty) : Faulty (Option (InterfaceType Ty)) := do
  match ← store.peel type with
  | .interface record => return some record
  | _ => return none

def func? (store : TypeStore) (type : Ty) : Faulty (Option (FuncType Ty)) := do
  match ← store.peel type with
  | .func record => return some record
  | _ => return none

def multi? (store : TypeStore) (type : Ty) : Faulty (Option (List (Member Ty))) := do
  match ← store.peel type with
  | .multi members => return some members
  | _ => return none

end GoToC.TypeStore
