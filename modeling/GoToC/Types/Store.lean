import GoToC.Types.Basic

/-!
# What types are bound to

Handles are made before the types they stand for, and a struct may get methods after it
is built. The store holds both. Whatever looks at the shape of a type follows handles
first, at most `maxHops` of them in a row, so that a chain that comes back to itself is
noticed.
-/

namespace GoToC

/-- Why a type cannot be followed to its shape. -/
inductive ResolveError where
  /-- A handle on the way is not bound. -/
  | unbound (name : String)
  /-- The way is too long, as it is when a type is defined in terms of itself. -/
  | tooDeep (name : String)
  deriving Repr, DecidableEq, Inhabited

def ResolveError.message : ResolveError → String
  | unbound name => s!"type `{name}` is used before it is defined"
  | tooDeep name => s!"type `{name}` is defined in terms of itself"

/-- The bindings of handles and the methods of structs. -/
structure TypeStore where
  nextHandle : Nat
  bound : List (Nat × Ty)
  /-- Methods with the keys of their structs, in the order in which they were added. -/
  methods : List (StructKey × Member Ty)
  deriving Inhabited

namespace TypeStore

def empty : TypeStore := ⟨0, [], []⟩

/-- A handle that is not bound yet. -/
def newHandle (store : TypeStore) (name : String) : Handle × TypeStore :=
  (⟨store.nextHandle, name⟩, { store with nextHandle := store.nextHandle + 1 })

/-- What a handle is bound to. -/
def target? (store : TypeStore) (handle : Handle) : Option Ty := store.bound.lookup handle.id

/-- Binds a handle, in place of what it was bound to before. -/
def setTarget (store : TypeStore) (handle : Handle) (type : Ty) : TypeStore :=
  { store with bound := (handle.id, type) :: store.bound }

def addMethod (store : TypeStore) (record : StructType Ty) (method : Member Ty) : TypeStore :=
  { store with methods := store.methods ++ [(record.key, method)] }

/-- The first method of that name that a struct was given. -/
def method? (store : TypeStore) (record : StructType Ty) (name : String) : Option (Member Ty) :=
  (store.methods.find? fun entry => entry.1 == record.key && entry.2.name == name).map (·.2)

/-- The number of handles that are looked at in a row, and of levels that a check goes down. -/
def maxHops : Nat := 16

/-- Follows handles, looking at no more than the given number of types. -/
def follow (store : TypeStore) (start : Ty) : Nat → Ty → Except ResolveError Ty
  | 0, _ => .error (.tooDeep start.display)
  | hops + 1, .forward handle =>
      match store.target? handle with
      | none => .error (.unbound handle.name)
      | some next => follow store start hops next
  | _ + 1, type => .ok type

/-- The type that a type stands for once handles are followed. -/
def resolve (store : TypeStore) (type : Ty) : Except ResolveError Ty :=
  store.follow type maxHops type

/-- Checks that every handle met through pointers, slices and maps resolves, going down
no more than the given number of levels. -/
def validateWithin (store : TypeStore) : Nat → Ty → Except ResolveError Unit
  | 0, type => .error (.tooDeep type.display)
  | levels + 1, type => do
      match ← store.resolve type with
      | .pointer inner => validateWithin store levels inner
      | .slice elem => validateWithin store levels elem
      | .map key value =>
          validateWithin store levels key
          validateWithin store levels value
      | _ => return

/-- Checks that a type can be inspected; structs, interfaces and functions are not entered. -/
def validate (store : TypeStore) (type : Ty) : Except ResolveError Unit :=
  store.validateWithin (maxHops + 1) type

/-- The number of nodes of all types that handles are bound to. -/
def weight (store : TypeStore) : Nat :=
  store.bound.foldr (fun entry total => entry.2.size + total) 0

end TypeStore

end GoToC
