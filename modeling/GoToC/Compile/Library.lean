/-!
# Libraries

Where the sources of imported modules come from.
-/

namespace GoToC

/-- Why the source of a module cannot be had. -/
inductive LoadError where
  | missing
  | unreadable (reason : String)
  deriving Repr, DecidableEq, Inhabited

/-- A source of modules. No chain of imports goes through more than `bound` of its names. -/
structure Library where
  load : String → Except LoadError String
  bound : Nat

namespace Library

/-- The library of the given modules, each a name with its source. -/
def ofList (modules : List (String × String)) : Library where
  load name :=
    match modules.lookup name with
    | some text => .ok text
    | none => .error .missing
  bound := modules.length

end Library

end GoToC
