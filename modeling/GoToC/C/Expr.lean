import GoToC.C.Quoted
import GoToC.Tree.Basic
import GoToC.Types.Convert

/-!
# C expressions

The C fragments that source expressions become. Each constructor is written in one way
only, with the parentheses that keep its operands together.
-/

namespace GoToC

inductive CExpr where
  | int (value : Nat)
  /-- The null pointer. -/
  | nil
  | string (text : String)
  /-- A variable that the C routine declares. -/
  | localVar (name : String)
  /-- A parameter of the C routine. -/
  | param (name : String)
  /-- What a pointer parameter of the C routine points to. -/
  | result (name : String)
  /-- A variable or function of the C program. -/
  | global (name : String)
  /-- The function that picks the method of an interface value while the program runs. -/
  | dispatch (method : String)
  | unary (op : UnaryOp) (operand : CExpr)
  | binary (op : BinaryOp) (left right : CExpr)
  | field (receiver : CExpr) (name : String)
  | subscript (receiver index : CExpr)
  | call (callee : CExpr) (args : List CExpr)
  /-- The address of a variable that the C routine declares. -/
  | addressOf (name : String)
  | toInterface (operand : CExpr)
  | cast (prim : Prim) (operand : CExpr)
  /-- The length of a string or slice in bytes. -/
  | byteCount (operand : CExpr)
  /-- The length of a slice in elements of a C type. -/
  | elementCount (operand : CExpr) (elem : String)
  deriving Inhabited

def UnaryOp.cSign : UnaryOp → String
  | neg => "-"
  | not => "!"

/-- The C operator; `andNot` needs a second one on its right operand. -/
def BinaryOp.cSign : BinaryOp → String
  | add => "+"
  | sub => "-"
  | mul => "*"
  | div => "/"
  | rem => "%"
  | shl => "<<"
  | shr => ">>"
  | bitAnd => "&"
  | andNot => "&"
  | bitOr => "|"
  | bitXor => "^"
  | eq => "=="
  | notEq => "!="
  | lt => "<"
  | gt => ">"
  | ltEq => "<="
  | gtEq => ">="
  | and => "&&"
  | or => "||"

namespace CExpr

mutual

def render : CExpr → String
  | .int value => toString value
  | .nil => "(void*)0"
  | .string text => "MakeStringFromC(\"" ++ String.ofList (CText.escape text.toList) ++ "\")"
  | .localVar name => name
  | .param name => name
  | .result name => "(*" ++ name ++ ")"
  | .global name => name
  | .dispatch method => "I_" ++ method
  | .unary op operand => "(" ++ op.cSign ++ "(" ++ operand.render ++ "))"
  | .binary op left right =>
      let complement := if op = .andNot then "~" else ""
      "(" ++ left.render ++ " " ++ op.cSign ++ " " ++ complement ++ right.render ++ ")"
  | .field receiver name => "(" ++ receiver.render ++ ")." ++ name
  | .subscript receiver index => "(" ++ receiver.render ++ ")[(" ++ index.render ++ ")]"
  | .call callee args => callee.render ++ "(" ++ ", ".intercalate (renderAll args) ++ ")"
  | .addressOf name => "&" ++ name
  | .toInterface operand => "HandleToInterface(" ++ operand.render ++ ")"
  | .cast prim operand => "(" ++ prim.cType ++ ")(" ++ operand.render ++ ")"
  | .byteCount operand => "(" ++ operand.render ++ ").len"
  | .elementCount operand elem =>
      "((" ++ operand.render ++ ").len / sizeof(" ++ elem ++ "))"

def renderAll : List CExpr → List String
  | [] => []
  | e :: rest => e.render :: renderAll rest

end

end CExpr

/-- The fragment that a conversion makes of another. -/
def Conversion.apply : Conversion → CExpr → CExpr
  | keep, e => e
  | toInterface, e => .toInterface e
  | castTo prim, e => .cast prim e

/-- The same on text that is already written. -/
def Conversion.applyText : Conversion → String → String
  | keep, text => text
  | toInterface, text => "HandleToInterface(" ++ text ++ ")"
  | castTo prim, text => "(" ++ prim.cType ++ ")(" ++ text ++ ")"

end GoToC
