import GoToC.Types.Inspect

/-!
# Equality and conversion of types

Two types are equal if, once handles are followed, they are the same primitive, have the
same qualified name, or are made alike of equal parts. A value may be stored where its
type is equal to the wanted one, or where one of a few conversions applies.
-/

namespace GoToC

/-- How a value is turned into one of another type. -/
inductive Conversion where
  /-- It is left as it is. -/
  | keep
  /-- A pointer to a struct is wrapped as an interface. -/
  | toInterface
  /-- It is cast to the C type of a primitive. -/
  | castTo (prim : Prim)
  deriving Repr, DecidableEq, Inhabited

namespace TypeStore

/-- Whether lists are equally long and agree type by type; the first difference ends it. -/
def agree (equal : Ty → Ty → Faulty Bool) :
    List (Member Ty) → List (Member Ty) → Faulty Bool
  | [], [] => .ok true
  | a :: as, b :: bs => do
      if ← equal a.type b.type then agree equal as bs else return false
  | _, _ => .ok false

/-- Whether lists of members are equally long and agree type by type. -/
def sameTypes (equal : Ty → Ty → Faulty Bool) (as bs : List (Member Ty)) : Faulty Bool :=
  if as.length = bs.length then agree equal as bs else .ok false

/-- Equality that goes down no more than the given number of levels. -/
def equalWithin (store : TypeStore) : Nat → Ty → Ty → Faulty Bool
  | 0, _, _ => .error .endless
  | levels + 1, a, b => do
      match ← store.peel a, ← store.peel b with
      | .multi _, _ => throw .multiCompared
      | _, .multi _ => throw .multiCompared
      | .prim p, .prim q => return p == q
      | .pointer a, .pointer b => equalWithin store levels a b
      | .slice a, .slice b => equalWithin store levels a b
      | .map key value, .map otherKey otherValue =>
          if ← equalWithin store levels key otherKey then
            equalWithin store levels value otherValue
          else return false
      | .struct a, .struct b => return a.package == b.package && a.name == b.name
      | .interface a, .interface b => return a.package == b.package && a.name == b.name
      | .universal, .universal => return true
      | .func f, .func g =>
          if f.variadic != g.variadic then return false
          if ← sameTypes (equalWithin store levels) f.inputs g.inputs then
            sameTypes (equalWithin store levels) f.outputs g.outputs
          else return false
      | _, _ => return false

/-- Levels enough for all but unusually deep types. -/
def usualDepth : Nat := 1024

/-- Levels enough for any comparison that ends: no pair of parts is met twice on the way down. -/
def comparisonDepth (store : TypeStore) (a b : Ty) : Nat :=
  (store.weight + a.size + 1) * (store.weight + b.size + 1)

/-- Whether two types are equal. Counting out the levels that any comparison may need takes
a walk over every type, parts that are shared walked each time they are met, so it is done
only for a comparison that goes unusually deep. -/
def equal (store : TypeStore) (a b : Ty) : Faulty Bool :=
  match store.equalWithin usualDepth a b with
  | .error .endless => store.equalWithin (store.comparisonDepth a b) a b
  | result => result

/-- Neither side of a conversion may be the type of types, a function or a list of results. -/
def checkConvertible (side : ConversionSide) (shape : Ty) : Faulty Unit :=
  match shape with
  | .prim .type | .func _ | .multi _ => .error (.notConvertible side shape.display)
  | _ => .ok ()

/-- The conversions of assignment that go from one shape to another one. -/
def implicitConversion (store : TypeStore) : Ty → Ty → Faulty (Option Conversion)
  | .interface _, .pointer inner => do
      return (← store.struct? inner).map fun _ => .toInterface
  | .universal, .pointer inner => do
      return (← store.struct? inner).map fun _ => .toInterface
  | .universal, .interface _ => return some .keep
  | .universal, .universal => return some .keep
  | .prim p, .prim .constInt => return if p.isIntLike then some (.castTo p) else none
  | .pointer _, .prim .nil => return some .keep
  | .slice _, .prim .nil => return some .keep
  | .map _ _, .prim .nil => return some .keep
  | .interface _, .prim .nil => return some .keep
  | .universal, .prim .nil => return some .keep
  | _, _ => return none

/-- How a value of type `src` is stored in a place of type `dest`, if it can be. -/
def assign (store : TypeStore) (dest src : Ty) : Faulty (Option Conversion) := do
  let dest ← store.peel dest
  let src ← store.peel src
  checkConvertible .assignTo dest
  match src with
  | .multi _ => throw .multiSource
  | _ =>
      if ← store.equal dest src then return some .keep
      store.implicitConversion dest src

/-- How a value of type `src` is converted to `dest` on request: as in assignment, or
between integers. -/
def cast (store : TypeStore) (dest src : Ty) : Faulty (Option Conversion) := do
  let dest ← store.peel dest
  let src ← store.peel src
  checkConvertible .castTo dest
  checkConvertible .castFrom src
  match ← store.assign dest src with
  | some conversion => return some conversion
  | none =>
      match dest, src with
      | .prim d, .prim s => return if d.isIntLike && s.isIntLike then some (.castTo d) else none
      | _, _ => return none

end TypeStore

end GoToC
