import GoToC.Proofs.Routine.Definitions

/-!
# Requests for pointer types

The pointer type of a function type is asked for when a variable of it is declared, and at no
other time. Its definition is handed out to the first who asks, and its number is noted then. So
whatever a routine is compiled from, the definitions that it hands out have numbers that were not
noted before, and the number of every pointer type that one of its variables has is noted.
-/

namespace GoToC

variable {n number : Nat} {type : Ty} {store : TypeStore} {item : CItem} {env : Env} {done : Unit}

/-! ## Names and numbers -/

/-- The C name of the pointer type of the function type of a number. -/
def TypedefSupply.typeName (number : Nat) : String := "funk_" ++ toString number

theorem FuncType.typedefName_eq {τ : Type} (func : FuncType τ) :
    func.typedefName = TypedefSupply.typeName func.number := by
  unfold typedefName TypedefSupply.typeName
  rfl

theorem TypedefSupply.typeName_inj {m : Nat} (h : typeName m = typeName n) : m = n :=
  LocalName.toString_injective ((String.append_right_inj _).mp h)

theorem Prim.cType_ne_typeName (p : Prim) (n : Nat) : p.cType ≠ TypedefSupply.typeName n := by
  intro h
  have hChars := congrArg String.toList h
  rw [Prim.cType, TypedefSupply.typeName, String.toList_append, String.toList_append] at hChars
  cases hChars

/-- Values of a pointer type are of the function type of its number. -/
theorem TypeStore.func?_of_cType (h : store.cType type = .ok (TypedefSupply.typeName n)) :
    ∃ func, store.func? type = .ok (some func) ∧ func.number = n := by
  unfold cType at h
  obtain ⟨shape, hShape, h⟩ := Faulty.bind_eq_ok.mp h
  have hName (text : String) (hText : text.toList.head? ≠ some 'f')
      (h : (.ok text : Faulty String) = .ok (TypedefSupply.typeName n)) : False := by
    cases h
    simp [TypedefSupply.typeName] at hText
  cases shape with
  | func record =>
      refine ⟨record, by rw [func?, hShape]; rfl, TypedefSupply.typeName_inj ?_⟩
      rw [← FuncType.typedefName_eq]
      exact Except.ok.inj h
  | prim p => exact absurd (Except.ok.inj h) (p.cType_ne_typeName n)
  | forward handle => cases h
  | pointer | slice | map | struct | interface | universal | multi =>
      exact (hName _ (by decide) h).elim

/-- An item defines the pointer type of a number, under the name that it goes by. -/
def CItem.NamesPointer (item : CItem) (number : Nat) : Prop :=
  ∃ prototype : Prototype, item = .funcTypedef number prototype ∧
    prototype.name = "(*" ++ TypedefSupply.typeName number ++ ")"

/-- The number of the pointer type that an item defines. -/
def CItem.pointerNumber? : CItem → Option Nat
  | .funcTypedef number _ => some number
  | _ => none

theorem CItem.NamesPointer.pointerNumber? (h : item.NamesPointer number) :
    item.pointerNumber? = some number := by
  obtain ⟨prototype, rfl, -⟩ := h
  rfl

theorem CItem.NamesPointer.of_number (h : item.NamesPointer number)
    (hNumber : item.pointerNumber? = some n) : item.NamesPointer n := by
  rw [h.pointerNumber?, Option.some.injEq] at hNumber
  exact hNumber ▸ h

/-! ## Numbers that are noted -/

/-- Items that were handed out between two lists of numbers. -/
structure TypedefSupply.Grants (before : List Nat) (items : List CItem) (after : List Nat) :
    Prop where
  named : ∀ item ∈ items, ∃ number, item.NamesPointer number
  numbers : after = (items.filterMap CItem.pointerNumber?).reverse ++ before
  distinct : before.Nodup → after.Nodup

namespace TypedefSupply.Grants

variable {first second third before after : List Nat} {items items' : List CItem}

theorem refl (numbers : List Nat) : Grants numbers [] numbers := ⟨by simp, rfl, id⟩

theorem trans (h : Grants first items second) (h' : Grants second items' third) :
    Grants first (items ++ items') third where
  named item hItem := (List.mem_append.mp hItem).elim (h.named item) (h'.named item)
  numbers := by
    rw [h'.numbers, h.numbers, List.filterMap_append, List.reverse_append, List.append_assoc]
  distinct hFirst := h'.distinct (h.distinct hFirst)

theorem mem_iff (h : Grants before items after) :
    n ∈ after ↔ n ∈ items.filterMap CItem.pointerNumber? ∨ n ∈ before := by
  rw [h.numbers, List.mem_append, List.mem_reverse]

theorem subset (h : Grants before items after) (hn : n ∈ before) : n ∈ after :=
  h.mem_iff.mpr (.inr hn)

end TypedefSupply.Grants

/-- A request that is answered hands out one definition or none, and then the number of the type
that it was for is noted. -/
theorem TypedefSupply.request_grants {supply after : TypedefSupply} {item : Option CItem}
    (h : supply.request store type = (.ok item, after)) :
    Grants supply.handedOut item.toList after.handedOut ∧
      ∀ func, store.func? type = .ok (some func) → func.number ∈ after.handedOut := by
  unfold request at h
  split at h
  · cases h
  · next hNone =>
      cases h
      exact ⟨.refl _, fun func hFunc => by rw [hNone] at hFunc; cases hFunc⟩
  · next func hFunc =>
      split at h
      · next hOld =>
          cases h
          refine ⟨.refl _, fun other hOther => ?_⟩
          rw [hFunc] at hOther
          cases hOther
          simpa using hOld
      · next hNew =>
          obtain ⟨hItem, rfl⟩ := Prod.mk.inj h
          cases hDefinition : definition store func with
          | error fault =>
              rw [hDefinition] at hItem
              cases hItem
          | ok found =>
              rw [hDefinition] at hItem
              cases hItem
              obtain ⟨prototype, hPrototype, hFound⟩ := Faulty.bind_eq_ok.mp hDefinition
              cases hFound
              refine ⟨⟨?_, rfl, fun hNodup => List.nodup_cons.mpr ⟨by simpa using hNew, hNodup⟩⟩,
                fun other hOther => ?_⟩
              · intro item hItem
                obtain rfl := List.mem_singleton.mp hItem
                refine ⟨func.number, prototype, rfl, ?_⟩
                rw [← FuncType.typedefName_eq]
                exact TypeStore.prototype_name hPrototype
              · rw [hFunc] at hOther
                cases hOther
                exact List.mem_cons_self

/-! ## Variables and requests -/

/-- The definitions that a routine hands out between two points, and the variables that are
declared there. Without variables there are no definitions, and the pointer types of the variables
are noted. -/
def Routine.Requests (before after : Routine) : Prop :=
  ∃ items added, after.typedefs.toList = before.typedefs.toList ++ items ∧
    TypedefSupply.Grants before.supply.typedefs.handedOut items after.supply.typedefs.handedOut ∧
    after.locals.toList = before.locals.toList ++ added ∧ (added = [] → items = []) ∧
    ∀ var ∈ added, ∀ n, var.type = TypedefSupply.typeName n → n ∈ after.supply.typedefs.handedOut

namespace Routine.Requests

variable {first second third before after : Routine}

theorem of_same (hLocals : after.locals = before.locals)
    (hTypedefs : after.typedefs = before.typedefs)
    (hHanded : after.supply.typedefs.handedOut = before.supply.typedefs.handedOut) :
    before.Requests after := by
  refine ⟨[], [], by rw [hTypedefs, List.append_nil], ?_, by rw [hLocals, List.append_nil],
    fun _ => rfl, by simp⟩
  rw [hHanded]
  exact .refl _

theorem trans (h : first.Requests second) (h' : second.Requests third) : first.Requests third := by
  obtain ⟨items, added, hTypedefs, hGrants, hLocals, hNone, hNoted⟩ := h
  obtain ⟨items', added', hTypedefs', hGrants', hLocals', hNone', hNoted'⟩ := h'
  refine ⟨items ++ items', added ++ added', ?_, hGrants.trans hGrants', ?_, ?_, ?_⟩
  · rw [hTypedefs', hTypedefs, List.append_assoc]
  · rw [hLocals', hLocals, List.append_assoc]
  · intro hBoth
    obtain ⟨hAdded, hAdded'⟩ := List.append_eq_nil_iff.mp hBoth
    rw [hNone hAdded, hNone' hAdded', List.append_nil]
  · intro var hVar n hType
    rcases List.mem_append.mp hVar with hVar | hVar
    · exact hGrants'.subset (hNoted var hVar n hType)
    · exact hNoted' var hVar n hType

theorem requestTypedef (h : (RoutineM.requestTypedef type).exec env before = (.ok done, after)) :
    after.locals = before.locals ∧ (∃ items, after.typedefs.toList =
      before.typedefs.toList ++ items ∧
      TypedefSupply.Grants before.supply.typedefs.handedOut items after.supply.typedefs.handedOut) ∧
    ∀ func, env.program.types.func? type = .ok (some func) →
      func.number ∈ after.supply.typedefs.handedOut := by
  obtain ⟨item, hItem, rfl⟩ := requestTypedef_eq_ok h
  obtain ⟨hGrants, hNoted⟩ := TypedefSupply.request_grants (Prod.ext hItem rfl)
  cases item with
  | none => exact ⟨rfl, ⟨[], by simp, hGrants⟩, hNoted⟩
  | some item => exact ⟨rfl, ⟨[item], Array.toList_push, hGrants⟩, hNoted⟩

theorem addLocal {name : String} {span : Span}
    (h : (RoutineM.addLocal name type span).exec env before = (.ok done, after)) :
    before.Requests after := by
  obtain ⟨added, middle, -, hCType, -, hRequest, rfl⟩ := addLocal_eq_ok h
  obtain ⟨hLocals, ⟨items, hTypedefs, hGrants⟩, hNoted⟩ := requestTypedef hRequest
  refine ⟨items, [added], hTypedefs, hGrants, ?_, by simp, ?_⟩
  · show (middle.locals.push added).toList = _
    rw [Array.toList_push, hLocals]
  · intro var hVar n hName
    obtain rfl := List.mem_singleton.mp hVar
    rw [hName] at hCType
    obtain ⟨func, hFunc, rfl⟩ := TypeStore.func?_of_cType hCType
    exact hNoted func hFunc

theorem carried : Routine.Carried Routine.Requests where
  same hLocals hTypedefs hHanded _ := of_same hLocals hTypedefs hHanded
  trans := trans
  addLocal := addLocal

/-- Where no variables are declared no numbers are noted. -/
theorem handedOut_eq (h : before.Requests after) (hLocals : after.locals = before.locals) :
    after.supply.typedefs.handedOut = before.supply.typedefs.handedOut := by
  obtain ⟨items, added, -, hGrants, hAdded, hNone, -⟩ := h
  rw [hLocals, List.self_eq_append_right] at hAdded
  rw [hGrants.numbers, hNone hAdded]
  rfl

end Routine.Requests

end GoToC
