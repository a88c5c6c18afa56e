import GoToC.C.Item

/-!
# Function types and their pointer types

Every function type that is made takes the next number, after which its C pointer type
is named. The definition of that pointer type is handed out once, to whoever asks first.
-/

namespace GoToC

structure TypedefSupply where
  /-- The number of function types made so far. -/
  made : Nat
  /-- The numbers whose definitions were handed out. -/
  handedOut : List Nat
  deriving Repr, Inhabited

namespace TypedefSupply

def empty : TypedefSupply := ⟨0, []⟩

/-- Makes a function type. -/
def newFunc (supply : TypedefSupply) (inputs outputs : List (Member Ty))
    (variadic isMethod : Bool) : FuncType Ty × TypedefSupply :=
  let number := supply.made + 1
  (⟨inputs, outputs, variadic, isMethod, number⟩, { supply with made := number })

/-- The definition of the pointer type of a function type. -/
def definition (store : TypeStore) (func : FuncType Ty) : Faulty CItem := do
  let prototype ← store.prototype func ("(*" ++ func.typedefName ++ ")")
  return .funcTypedef func.number prototype

/-- The definition that a variable of the type needs, unless it needs none or it was
handed out before. A definition that cannot be made counts as handed out. -/
def request (supply : TypedefSupply) (store : TypeStore) (type : Ty) :
    Faulty (Option CItem) × TypedefSupply :=
  match store.func? type with
  | .error fault => (.error fault, supply)
  | .ok none => (.ok none, supply)
  | .ok (some func) =>
      if supply.handedOut.contains func.number then (.ok none, supply)
      else
        ((definition store func).map some,
          { supply with handedOut := func.number :: supply.handedOut })

end TypedefSupply

end GoToC
