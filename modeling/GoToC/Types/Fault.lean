import GoToC.Types.Store

/-!
# Faults

A fault is not an error of the program that is compiled: it says that the compiler asked
for something that makes no sense, such as the zero value of a type that has none.
-/

namespace GoToC

/-- The side of a conversion that a type cannot be on. -/
inductive ConversionSide where
  | assignTo
  | castTo
  | castFrom
  deriving Repr, DecidableEq, Inhabited

def ConversionSide.text : ConversionSide → String
  | assignTo => "assign to"
  | castTo => "cast to"
  | castFrom => "cast from"

inductive Fault where
  /-- A type that cannot be followed to its shape is inspected. -/
  | unresolved (cause : ResolveError)
  /-- A type of types, a function or a list of results takes part in a conversion. -/
  | notConvertible (side : ConversionSide) (type : String)
  | multiSource
  | multiCompared
  | noZeroValue (type : String)
  | boundTwice (name : String)
  /-- A type has no end when its parts are followed. -/
  | endless
  /-- A global is given a value and was never declared. -/
  | globalUndeclared (name : String)
  | funcUndeclared (name : String)
  | funcNotBuilt (cName : String)
  | notAFunction (cName type : String)
  | variadicNotSlice (type : String)
  deriving Repr, DecidableEq, Inhabited

namespace Fault

def message : Fault → String
  | unresolved cause => "unvalidated type reached code generation: " ++ cause.message
  | notConvertible side type => "cannot " ++ side.text ++ s!" type `{type}`"
  | multiSource => "cannot assign from a multi-valued type"
  | multiCompared => "multi-valued types cannot be compared"
  | noZeroValue type => s!"type `{type}` has no zero value"
  | boundTwice name => s!"forward type `{name}` bound twice"
  | endless => "type has no end"
  | globalUndeclared name => s!"global `{name}` was never slotted"
  | funcUndeclared name => s!"function `{name}` was never slotted"
  | funcNotBuilt cName => s!"function `{cName}` was not built"
  | notAFunction cName type => s!"function `{cName}` has non-function type `{type}`"
  | variadicNotSlice type => s!"variadic input of type `{type}` is not a slice"

end Fault

/-- The result of an operation that can be asked for in vain. -/
abbrev Faulty (α : Type) := Except Fault α

end GoToC
