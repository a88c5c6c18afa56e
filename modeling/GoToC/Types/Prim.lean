/-!
# Primitive types

A primitive type is known by its name. Names that begin with an underscore are meant
for the compiler: the untyped integer constant, the type of types, the type of `nil`,
and others that no ordinary program writes.
-/

namespace GoToC

inductive Prim where
  | bool
  | byte
  /-- An integer constant that has no type yet. -/
  | constInt
  | int
  | uint
  | uintptr
  | string
  /-- The type of what denotes a type. -/
  | type
  | list
  | void
  /-- The type of an imported module. -/
  | «import»
  | any
  /-- The type of `nil`. -/
  | nil
  deriving Repr, DecidableEq, Inhabited

namespace Prim

def all : List Prim :=
  [bool, byte, constInt, int, uint, uintptr, string, type, list, void, «import», any, nil]

/-- The primitives that a source program can name. -/
def named : List Prim := [bool, byte, int, uint, uintptr, string, type, void, any]

def name : Prim → String
  | bool => "bool"
  | byte => "byte"
  | constInt => "_const_int_"
  | int => "int"
  | uint => "uint"
  | uintptr => "uintptr"
  | string => "string"
  | type => "_type_"
  | list => "_list_"
  | void => "_void_"
  | «import» => "_import_"
  | any => "_any_"
  | nil => "_nil_"

/-- The C type that holds a value of the primitive. -/
def cType (prim : Prim) : String := "P_" ++ prim.name

/-- The integers, which convert into one another. -/
def isIntLike : Prim → Bool
  | byte | constInt | int | uint | uintptr => true
  | _ => false

/-- The primitives that a variable can hold. -/
def isStorable : Prim → Bool
  | bool | byte | int | uint | uintptr | string | any => true
  | _ => false

end Prim

end GoToC
