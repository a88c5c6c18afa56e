import GoToC.Types.Prim

/-!
# Types

The types of source programs. Structs and interfaces are known by their package and
name; pointers, slices, maps and functions by their parts. A type declaration that is
not built yet stands for its type through a handle, which is bound later.
-/

namespace GoToC

/-- A name with a type: field, method, input or output. -/
structure Member (τ : Type) where
  name : String
  type : τ
  deriving Repr

/-- Whether a name can be referred to; the blank and the empty name cannot. -/
def isNamed (name : String) : Bool := name != "" && name != "_"

/-- A struct. Two structs built apart have different identities, even under one name. -/
structure StructType (τ : Type) where
  id : Nat
  package : String
  name : String
  fields : List (Member τ)
  deriving Repr

/-- An interface with a name. -/
structure InterfaceType (τ : Type) where
  package : String
  name : String
  methods : List (Member τ)
  deriving Repr

/-- A function. The receiver of a method is its first input. -/
structure FuncType (τ : Type) where
  inputs : List (Member τ)
  outputs : List (Member τ)
  variadic : Bool
  isMethod : Bool
  /-- The number of its C function pointer type. -/
  number : Nat
  deriving Repr

/-- Stands for the type of a declaration, by which it is bound once it is built. -/
structure Handle where
  id : Nat
  name : String
  deriving Repr, DecidableEq, Inhabited

inductive Ty where
  | prim (p : Prim)
  | pointer (inner : Ty)
  | slice (elem : Ty)
  | map (key value : Ty)
  | struct (record : StructType Ty)
  | interface (record : InterfaceType Ty)
  /-- The interface without a name that everything with methods satisfies. -/
  | universal
  | func (record : FuncType Ty)
  /-- The results of a call that has several. -/
  | multi (members : List (Member Ty))
  | forward (handle : Handle)
  deriving Inhabited

/-- What tells a struct from all others. -/
structure StructKey where
  id : Nat
  package : String
  name : String
  deriving Repr, DecidableEq, Inhabited

/-- The C name of a struct. -/
def StructKey.cName (key : StructKey) : String := key.package ++ "__" ++ key.name

namespace StructType

def key {τ : Type} (record : StructType τ) : StructKey := ⟨record.id, record.package, record.name⟩

/-- The C name of a struct. -/
def cName {τ : Type} (record : StructType τ) : String := record.key.cName

def field? {τ : Type} (record : StructType τ) (name : String) : Option (Member τ) :=
  record.fields.find? (·.name == name)

end StructType

def InterfaceType.method? {τ : Type} (record : InterfaceType τ) (name : String) :
    Option (Member τ) :=
  record.methods.find? (·.name == name)

namespace FuncType

/-- The C name of the pointer type for functions of this type. -/
def typedefName {τ : Type} (func : FuncType τ) : String := s!"funk_{func.number}"

/-- The C name of an input. -/
def inputName {τ : Type} (func : FuncType τ) (index : Nat) : String :=
  match func.inputs[index]? with
  | some input => if isNamed input.name then "in_" ++ input.name else s!"__{index}"
  | none => s!"__{index}"

/-- The C name of an output that is handed back through a pointer. -/
def outputName {τ : Type} (func : FuncType τ) (index : Nat) : String :=
  match func.outputs[index]? with
  | some output => if isNamed output.name then "out_" ++ output.name else s!"out__{index}"
  | none => s!"out__{index}"

/-- A single output is the C result; none or several go through pointers. -/
def throughPointers {τ : Type} (func : FuncType τ) : Bool := func.outputs.length != 1

end FuncType

namespace Ty

mutual

/-- A type as it is written in messages. A handle shows its name, whatever it is bound to. -/
def display : Ty → String
  | .prim p => p.name
  | .pointer inner => "*" ++ inner.display
  | .slice elem => "[]" ++ elem.display
  | .map key value => "map[" ++ key.display ++ "]" ++ value.display
  | .struct ⟨_, package, name, _⟩ => package ++ "." ++ name
  | .interface ⟨package, name, _⟩ => package ++ "." ++ name
  | .universal => "interface\x7b\x7d"
  | .func ⟨inputs, outputs, _, _, _⟩ =>
      let heading := "func(" ++ ", ".intercalate (displayAll inputs) ++ ")"
      match displayAll outputs with
      | [] => heading
      | [output] => heading ++ " " ++ output
      | several => heading ++ " (" ++ ", ".intercalate several ++ ")"
  | .multi members => "(" ++ ", ".intercalate (displayAll members) ++ ")"
  | .forward handle => handle.name

def displayAll : List (Member Ty) → List String
  | [] => []
  | ⟨_, type⟩ :: rest => type.display :: displayAll rest

end

mutual

/-- The number of nodes of a type; handles are not followed, and structs and interfaces,
which are known by name, are not entered. -/
def size : Ty → Nat
  | .prim _ => 1
  | .pointer inner => inner.size + 1
  | .slice elem => elem.size + 1
  | .map key value => key.size + value.size + 1
  | .struct _ => 1
  | .interface _ => 1
  | .universal => 1
  | .func ⟨inputs, outputs, _, _, _⟩ => sizeAll inputs + sizeAll outputs + 1
  | .multi members => sizeAll members + 1
  | .forward _ => 1

def sizeAll : List (Member Ty) → Nat
  | [] => 0
  | ⟨_, type⟩ :: rest => type.size + sizeAll rest

end

end Ty

end GoToC
