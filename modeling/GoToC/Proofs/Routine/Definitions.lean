import GoToC.Proofs.Routine.LocalNames
import Mathlib.Logic.Relation

/-!
# What runs carry with them

A run takes numbers one after another and declares variables; what these do to a routine is
done by every action that is put together from basic ones. In particular a routine hands out
definitions of function pointer types and nothing else.
-/

namespace GoToC

variable {done : Unit} {type : Ty} {span : Span} {func : FuncType Ty} {name : String}
  {store : TypeStore} {relates : Routine → Routine → Prop} {body : List Stmt}

/-! ## Numbers -/

/-- A number of one kind is taken, or that of a function type is noted. -/
inductive Supply.Takes (supply : Supply) : Supply → Prop
  | serial : Takes supply { supply with serial := supply.serial + 1 }
  | func : Takes supply
      { supply with typedefs := { supply.typedefs with made := supply.typedefs.made + 1 } }
  | struct : Takes supply { supply with structs := supply.structs + 1 }
  | request (store : TypeStore) (type : Ty) :
      Takes supply { supply with typedefs := (supply.typedefs.request store type).2 }

/-- Numbers that come later in a compilation: some are taken meanwhile. -/
abbrev Supply.Flows : Supply → Supply → Prop := Relation.ReflTransGen Supply.Takes

theorem Supply.Flows.serial_le {supply later : Supply} (h : supply.Flows later) :
    supply.serial ≤ later.serial := by
  induction h with
  | refl => exact Nat.le_refl _
  | tail _ hTakes ih =>
      cases hTakes with
      | serial => exact Nat.le_succ_of_le ih
      | func | struct | request => exact ih

/-! ## Definitions -/

/-- The definition of a function pointer type. -/
def CItem.IsTypedef (item : CItem) : Prop := ∃ number prototype,
    item = .funcTypedef number prototype

/-- All definitions that a routine handed out are of function pointer types. -/
def Routine.Defines (routine : Routine) : Prop := ∀ item ∈ routine.typedefs.toList, item.IsTypedef

theorem TypeStore.prototype_name {prototype : Prototype}
    (h : store.prototype func name = .ok prototype) : prototype.name = name := by
  cases prototype_eq_ok h <;> rfl

theorem TypedefSupply.isTypedef_request {supply : TypedefSupply} {item : CItem}
    (h : (supply.request store type).1 = .ok (some item)) : item.IsTypedef := by
  unfold TypedefSupply.request at h
  split at h
  · cases h
  · cases h
  · next func _ =>
      split at h
      · cases h
      · cases hDefinition : TypedefSupply.definition store func with
        | error fault =>
            rw [hDefinition] at h
            cases h
        | ok found =>
            rw [hDefinition] at h
            cases h
            unfold TypedefSupply.definition at hDefinition
            cases hPrototype : store.prototype func ("(*" ++ func.typedefName ++ ")") with
            | error fault =>
                rw [hPrototype] at hDefinition
                cases hDefinition
            | ok prototype =>
                rw [hPrototype] at hDefinition
                cases hDefinition
                exact ⟨func.number, prototype, rfl⟩

section

variable {limits : Limits} {extent : Extent} {α : Type} {env : Env} {routine after : Routine}

theorem requestTypedef_defines
    (h : (RoutineM.requestTypedef type).exec env routine = (.ok done, after))
    (hDefines : routine.Defines) : after.Defines := by
  obtain ⟨item, hItem, rfl⟩ := requestTypedef_eq_ok h
  cases item with
  | none => exact hDefines
  | some item =>
      intro other hOther
      have hMem : other ∈ (routine.typedefs.push item).toList := hOther
      rw [Array.toList_push, List.mem_append, List.mem_singleton] at hMem
      rcases hMem with hMem | rfl
      · exact hDefines other hMem
      · exact TypedefSupply.isTypedef_request hItem

theorem requestTypedef_flows
    (h : (RoutineM.requestTypedef type).exec env routine = (.ok done, after)) :
    routine.supply.Flows after.supply := by
  obtain ⟨item, -, rfl⟩ := requestTypedef_eq_ok h
  exact .single (.request env.program.types type)

theorem addLocal_flows
    (h : (RoutineM.addLocal name type span).exec env routine = (.ok done, after)) :
    routine.supply.Flows after.supply := by
  obtain ⟨added, middle, -, -, -, hRequest, rfl⟩ := addLocal_eq_ok h
  have hMiddle := requestTypedef_flows hRequest
  exact hMiddle

theorem addLocal_defines
    (h : (RoutineM.addLocal name type span).exec env routine = (.ok done, after))
    (hDefines : routine.Defines) : after.Defines := by
  obtain ⟨added, middle, -, -, -, hRequest, rfl⟩ := addLocal_eq_ok h
  have hMiddle : middle.Defines := requestTypedef_defines hRequest hDefines
  exact hMiddle

/-- What taking numbers and adding a variable do to a routine, if it adds up and does not look at
other parts of the routine. -/
structure Routine.Carried (relates : Routine → Routine → Prop) : Prop where
  same : ∀ {before after : Routine}, after.locals = before.locals →
    after.typedefs = before.typedefs →
    after.supply.typedefs.handedOut = before.supply.typedefs.handedOut →
    before.supply.Flows after.supply → relates before after
  trans : ∀ {first second third : Routine},
    relates first second → relates second third → relates first third
  addLocal : ∀ {env : Env} {before after : Routine} {name : String} {type : Ty} {span : Span}
    {done : Unit}, (RoutineM.addLocal name type span).exec env before = (.ok done, after) →
      relates before after

/-- It is done by every action that is put together from basic ones. -/
theorem Composed.carries (hRelates : Routine.Carried relates) {action : RoutineM α}
    (h : Composed extent limits action) {value : α}
    (run : action.exec env routine = (.ok value, after)) : relates routine after := by
  obtain ⟨same, trans, addLocal⟩ := hRelates
  have hTemps {serial : Nat} {span : Span} {outputs members : List (Member Ty)} {index : Nat}
      {env : Env} {before after : Routine}
      (run : (Call.resultTemps serial span index outputs).exec env before = (.ok members, after)) :
      relates before after := by
    induction outputs generalizing index before members with
    | nil =>
        cases run
        exact same rfl rfl rfl .refl
    | cons output rest ih =>
        rw [Call.resultTemps] at run
        simp only [RoutineM.bind_eq_ok, RoutineM.pure_eq_ok] at run
        obtain ⟨_, first, hLocal, others, second, hRest, -, rfl⟩ := run
        exact trans (addLocal hLocal) (ih hRest)
  induction h generalizing env routine after with
  | pure | read | emit =>
      cases run
      exact same rfl rfl rfl .refl
  | get _ _ ihNext => exact ihNext routine run
  | nextSerial =>
      cases run
      exact same rfl rfl rfl (.single .serial)
  | newFunc =>
      cases run
      exact same rfl rfl rfl (.single .func)
  | newStruct =>
      cases run
      exact same rfl rfl rfl (.single .struct)
  | bind _ _ ihAction ihNext =>
      obtain ⟨first, middle, hFirst, hNext⟩ := RoutineM.bind_eq_ok.mp run
      exact trans (ihAction hFirst) (ihNext first hNext)
  | fault | error => cases run
  | temp type span _ =>
      obtain ⟨serial, first, hSerial, run⟩ := RoutineM.bind_eq_ok.mp run
      cases hSerial
      obtain ⟨_, second, hLocal, hDone⟩ := RoutineM.bind_eq_ok.mp run
      cases hDone
      refine trans ?_ (addLocal hLocal)
      exact same rfl rfl rfl (.single .serial)
  | results outputs span _ =>
      unfold Call.results at run
      split at run
      · cases run
        exact same rfl rfl rfl .refl
      · cases run
        exact same rfl rfl rfl .refl
      · obtain ⟨serial, first, hSerial, run⟩ := RoutineM.bind_eq_ok.mp run
        cases hSerial
        obtain ⟨members, second, hMembers, hDone⟩ := RoutineM.bind_eq_ok.mp run
        cases hDone
        refine trans ?_ (hTemps hMembers)
        exact same rfl rfl rfl (.single .serial)
  | declareLocal name type span _ _ _ =>
      obtain ⟨_, _, hGet, run⟩ := RoutineM.bind_eq_ok.mp run
      cases hGet
      dsimp only at run
      split at run
      · obtain ⟨cName, first, hName, run⟩ := RoutineM.bind_eq_ok.mp run
        obtain ⟨serial, hSerial, rfl⟩ := RoutineM.map_eq_ok.mp hName
        cases hSerial
        obtain ⟨_, second, hLocal, hDone⟩ := RoutineM.bind_eq_ok.mp run
        cases hDone
        refine trans ?_ (addLocal hLocal)
        exact same rfl rfl rfl (.single .serial)
      · obtain ⟨cName, first, hName, run⟩ := RoutineM.bind_eq_ok.mp run
        cases hName
        obtain ⟨_, second, hLocal, hDone⟩ := RoutineM.bind_eq_ok.mp run
        cases hDone
        exact addLocal hLocal
  | bindName name value _ =>
      rw [RoutineM.bindName_exec] at run
      cases run
      exact same rfl rfl rfl .refl
  | capture _ _ ih =>
      obtain ⟨inner, hInner, -, rfl⟩ := RoutineM.capture_eq_ok.mp run
      refine trans ?_ (trans (ih hInner) (same rfl rfl rfl .refl))
      exact same rfl rfl rfl .refl
  | inScope _ _ ih =>
      obtain ⟨inner, hInner, rfl⟩ := RoutineM.inScope_eq_ok.mp run
      refine trans ?_ (trans (ih hInner) (same rfl rfl rfl .refl))
      exact same rfl rfl rfl .refl
  | inLoop number _ _ ih => exact ih run

/-- The body of a function is put together from basic actions. -/
theorem compileBody_carries (hRelates : Routine.Carried relates)
    (run : (compileBody func body span).exec env routine = (.ok done, after)) :
    relates routine after := by
  obtain ⟨result, middle, hEnter, hRest⟩ := compileBody_eq_ok.mp run
  have hEntered : Composed .simple .any (enterFunc func span) :=
    enterFunc_composed func span (fun _ _ => trivial) trivial
  have hScope : Composed .nested .any (RoutineM.inScope (compileStmts body)) :=
    .inScope rfl (compileStmts_composed body fun _ _ => trivial)
  exact hRelates.trans (hEntered.carries hRelates hEnter) (hScope.carries hRelates hRest)

/-- What a routine hands out stays of one kind. -/
theorem Routine.carried_defines :
    Routine.Carried fun before after => before.Defines → after.Defines where
  same _ hSame _ _ hBefore := by rwa [Routine.Defines, hSame]
  trans hFirst hSecond hBefore := hSecond (hFirst hBefore)
  addLocal := addLocal_defines

/-- A run takes numbers one after another. -/
theorem Routine.carried_flows :
    Routine.Carried fun before after => before.supply.Flows after.supply where
  same _ _ _ hFlows := hFlows
  trans hFirst hSecond := hFirst.trans hSecond
  addLocal := addLocal_flows

theorem Composed.defines {action : RoutineM α} (h : Composed extent limits action) {value : α}
    (run : action.exec env routine = (.ok value, after)) (hDefines : routine.Defines) :
    after.Defines :=
  h.carries Routine.carried_defines run hDefines

theorem compileBody_defines
    (run : (compileBody func body span).exec env routine = (.ok done, after))
    (hDefines : routine.Defines) : after.Defines :=
  compileBody_carries Routine.carried_defines run hDefines

end

end GoToC
