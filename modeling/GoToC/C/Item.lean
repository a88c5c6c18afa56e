import GoToC.C.Stmt

/-!
# C declarations and routines

The items that a C program is written as, one after another, and the prototypes of its
functions. A function with one output returns it; one with none or several is `void`
and hands its outputs back through pointers that follow its inputs.
-/

namespace GoToC

/-- A parameter of a C function. -/
structure CParam where
  type : String
  name : String
  isPointer : Bool
  deriving Repr, DecidableEq, Inhabited

def CParam.render (param : CParam) : String :=
  if param.isPointer then param.type ++ " *" ++ param.name else param.type ++ " " ++ param.name

/-- The heading of a C function. -/
structure Prototype where
  result : String
  name : String
  params : List CParam
  deriving Repr, DecidableEq, Inhabited

def Prototype.render (prototype : Prototype) : String :=
  prototype.result ++ " " ++ prototype.name ++ "("
    ++ ", ".intercalate (prototype.params.map CParam.render) ++ ")"

namespace TypeStore

/-- The parameters for members that are named by their position. -/
def params (store : TypeStore) (nameAt : Nat → String) (isPointer : Bool) :
    Nat → List (Member Ty) → Faulty (List CParam)
  | _, [] => .ok []
  | index, member :: rest => do
      let type ← store.cType member.type
      let others ← params store nameAt isPointer (index + 1) rest
      return ⟨type, nameAt index, isPointer⟩ :: others

/-- The C heading of a function with the given name. -/
def prototype (store : TypeStore) (func : FuncType Ty) (name : String) : Faulty Prototype := do
  match func.outputs with
  | [output] =>
      let result ← store.cType output.type
      let inputs ← store.params func.inputName false 0 func.inputs
      return ⟨result, name, inputs⟩
  | outputs =>
      let inputs ← store.params func.inputName false 0 func.inputs
      let results ← store.params func.outputName true 0 outputs
      return ⟨"void", name, inputs ++ results⟩

end TypeStore

/-- A variable of a C routine with its first value. -/
structure CLocal where
  type : String
  name : String
  init : String
  deriving Repr, DecidableEq, Inhabited

def CLocal.render (var : CLocal) : String := var.type ++ " " ++ var.name ++ " = " ++ var.init ++ ";"

/-- What a routine is for. -/
inductive Heading where
  | func (prototype : Prototype)
  /-- Sets the variables of a package that have initializers. -/
  | init (package : String)
  deriving Repr, DecidableEq, Inhabited

def Heading.render : Heading → String
  | func prototype => prototype.render
  | init package => "void " ++ package ++ "__INIT(void)"

inductive CItem where
  /-- The headers that every program needs. -/
  | includes
  /-- The pointer type of a function type; the name of the prototype is that of the pointer. -/
  | funcTypedef (number : Nat) (prototype : Prototype)
  | typeAlias (type name : String)
  | globalVar (type name : String)
  | declared (prototype : Prototype)
  /-- A function that the C program gets from elsewhere. -/
  | native (prototype : Prototype)
  | routine (heading : Heading) (locals : List CLocal) (body : List CStmt)
  deriving Inhabited

namespace CItem

/-- The lines of an item. -/
def lines : CItem → List String
  | includes => ["#include <stdio.h>", "#include \"runt.h\""]
  | funcTypedef _ prototype => ["typedef " ++ prototype.render ++ ";"]
  | typeAlias type name => ["typedef " ++ type ++ " " ++ name ++ ";"]
  | globalVar type name => [type ++ " " ++ name ++ ";"]
  | declared prototype => ["extern " ++ prototype.render ++ ";"]
  | native prototype => [prototype.render ++ "; //NATIVE"]
  | routine heading locals body =>
      [heading.render ++ " \x7b"] ++ locals.map CLocal.render ++ CStmt.linesAll body ++ ["\x7d"]

/-- Every line ends in a line feed. -/
def render (item : CItem) : String := String.join (item.lines.map (· ++ "\n"))

def renderAll (items : List CItem) : String := String.join (items.map render)

end CItem

end GoToC
