import GoToC.Proofs.Session.Registry

/-!
# Tidy programs

While modules are compiled, handles and modules are kept apart: no two globals go by one handle,
a type that is not built has a handle that is not bound, an import leads to a module that is
known, and the module that all others see has no types left to build. Every step keeps this up,
whatever the sources are.
-/

namespace GoToC

variable {global : Global}

namespace Program

structure Tidy (program : Program) : Prop where
  numbered : program.Numbered
  pending : ∀ id global handle, program.Has id global → global.value = none →
    global.handle = some handle → program.types.target? handle = none
  targets : ∀ id global target, program.Has id global → global.value = some (.module target) →
    target < program.modules.length
  shared : ∀ id, program.builtin = some id → program.Typed id

namespace Tidy

variable {program before after : Program} {id : ModuleId} {name : String}

theorem not_has_empty : ¬ Program.empty.Has id global := by
  rintro ⟨module, hModule, -⟩
  cases hModule

theorem empty : Program.empty.Tidy where
  numbered := ⟨fun _ _ _ hHas => (not_has_empty hHas).elim,
    fun _ _ _ _ _ _ hHas => (not_has_empty hHas).elim, fun _ _ => rfl⟩
  pending _ _ _ hHas := (not_has_empty hHas).elim
  targets _ _ _ hHas := (not_has_empty hHas).elim
  shared _ hShared := by cases hShared

/-- Globals that reflect those of a tidy program, among as many modules or more. -/
theorem reflect (h : before.Tidy) (hReflects : before.Reflects after)
    (hTypes : after.types = before.types) (hBuiltin : after.builtin = before.builtin)
    (hTargets : ∀ id global target, after.Has id global → global.value = some (.module target) →
      target < after.modules.length) : after.Tidy where
  numbered := h.numbered.reflect hReflects hTypes
  pending id global' handle hHas hNone hHandle := by
    obtain ⟨global, hBefore, -, hSame, hValue⟩ := hReflects id global' hHas
    rw [hTypes]
    exact h.pending id global handle hBefore (hValue hNone) (hSame.trans hHandle)
  targets := hTargets
  shared id hShared global' hHas hNone := by
    obtain ⟨global, hBefore, -, hSame, hValue⟩ := hReflects id global' hHas
    rw [← hSame]
    exact h.shared id (hBuiltin ▸ hShared) global hBefore (hValue hNone)

theorem setValue (h : program.Tidy) {value : GlobalValue}
    (hTarget : ∀ target, value = .module target → target < program.modules.length) :
    (program.updateModule id (·.setValue name value)).Tidy := by
  refine h.reflect reflects_setValue rfl rfl fun other global' target hHas hValue => ?_
  have hLength : (program.updateModule id (·.setValue name value)).modules.length =
      program.modules.length := List.length_modify _ _ _
  rw [hLength]
  obtain ⟨global, hBefore, rfl | ⟨-, -, rfl⟩⟩ := has_setValue hHas
  · exact h.targets other global' target hBefore hValue
  · exact hTarget target (Option.some.inj hValue)

theorem has_addMethod {other : ModuleId} {method : Method}
    (h : (program.updateModule id (·.addMethod method)).Has other global) :
    program.Has other global := by
  obtain ⟨module', hModule', hMem⟩ := h
  rcases of_module?_updateModule hModule' with ⟨-, module, hModule, rfl⟩ | ⟨-, hModule⟩
  · exact ⟨module, hModule, hMem⟩
  · exact ⟨module', hModule, hMem⟩

/-- Methods are given to structs without regard to globals. -/
theorem addMethod (h : program.Tidy) (record : StructType Ty) (member : Member Ty)
    (method : Method) :
    (Program.updateModule { program with types := program.types.addMethod record member } id
      (·.addMethod method)).Tidy := by
  have hTypes : ({ program with types := program.types.addMethod record member } : Program).Tidy :=
    ⟨⟨h.numbered.made, h.numbered.distinct, h.numbered.unmade⟩, h.pending, h.targets, h.shared⟩
  refine hTypes.reflect (fun other global hGlobal => ?_) rfl rfl
    fun other global target hGlobal hValue => ?_
  · exact ⟨global, has_addMethod hGlobal, rfl, rfl, fun hNone => hNone⟩
  · exact Nat.lt_of_lt_of_eq (hTypes.targets other global target (has_addMethod hGlobal) hValue)
      (List.length_modify _ _ _).symm

theorem register (h : program.Tidy) (name : String) (file : SourceFile) :
    ({ program with modules := program.modules ++ [Module.ofFile name file] } : Program).Tidy := by
  have hHas (other : ModuleId) (global : Global) (hGlobal : ({ program with
      modules := program.modules ++ [Module.ofFile name file] } : Program).Has other global) :
      program.Has other global := by
    obtain ⟨module, hModule, hMem⟩ := hGlobal
    rcases module?_register hModule with hModule | ⟨-, rfl⟩
    · exact ⟨module, hModule, hMem⟩
    · cases hMem
  refine h.reflect (fun other global hGlobal => ?_) rfl rfl
    fun other global target hGlobal hValue => ?_
  · exact ⟨global, hHas other global hGlobal, rfl, rfl, fun hNone => hNone⟩
  · have hLess := h.targets other global target (hHas other global hGlobal) hValue
    show target < (program.modules ++ [Module.ofFile name file]).length
    rw [List.length_append]
    exact Nat.lt_add_right _ hLess

theorem setBuiltin (h : program.Tidy) (hTyped : program.Typed id) :
    ({ program with builtin := some id } : Program).Tidy :=
  ⟨⟨h.numbered.made, h.numbered.distinct, h.numbered.unmade⟩, h.pending, h.targets,
    fun _ hOther => Option.some.inj hOther ▸ hTyped⟩

/-- A handle that is not given to any global yet. -/
theorem newHandle (h : program.Tidy) (name : String) :
    ({ program with types := (program.types.newHandle name).2 } : Program).Tidy where
  numbered := ⟨fun id global handle hHas hHandle =>
    Nat.lt_succ_of_lt (h.numbered.made id global handle hHas hHandle), h.numbered.distinct,
    fun handle hLe => h.numbered.unmade handle (Nat.le_of_succ_le hLe)⟩
  pending := h.pending
  targets := h.targets
  shared := h.shared

/-- A name that is entered; its handle, if it has one, is new. -/
theorem addGlobal (h : program.Tidy) {added : Global} (hValue : added.value = none)
    (hShared : program.builtin ≠ some id)
    (hHandle : ∀ handle, added.handle = some handle → handle.id < program.types.nextHandle ∧
      program.types.target? handle = none ∧
        ∀ other global found, program.Has other global → global.handle = some found →
          found.id ≠ handle.id) :
    (program.updateModule id (·.addGlobal added)).Tidy where
  numbered := h.numbered.addGlobal fun handle hFound =>
    ⟨(hHandle handle hFound).1, (hHandle handle hFound).2.2⟩
  pending other global handle hHas hNone hFound := by
    rcases has_addGlobal hHas with hHas | ⟨rfl, rfl⟩
    · exact h.pending other global handle hHas hNone hFound
    · exact (hHandle handle hFound).2.1
  targets other global target hHas hFound := by
    have hLength : (program.updateModule id (·.addGlobal added)).modules.length =
        program.modules.length := List.length_modify _ _ _
    rw [hLength]
    rcases has_addGlobal hHas with hHas | ⟨rfl, rfl⟩
    · exact h.targets other global target hHas hFound
    · rw [hValue] at hFound
      cases hFound
  shared other hBuiltin global hHas hNone := by
    rcases has_addGlobal hHas with hHas | ⟨rfl, rfl⟩
    · exact h.shared other hBuiltin global hHas hNone
    · exact absurd hBuiltin hShared

/-- A type that is built: its handle is bound, and its name has it as its value. -/
theorem bindType (h : program.Tidy) (hGlobal : program.Has id global) {handle : Handle}
    (hHandle : global.handle = some handle) (type : Ty) :
    (Program.updateModule { program with types := program.types.setTarget handle type } id
      (·.setValue global.name (.type type))).Tidy where
  numbered := by
    have hTypes :
        ({ program with types := program.types.setTarget handle type } : Program).Numbered := by
      refine ⟨h.numbered.made, h.numbered.distinct, fun other hOther => ?_⟩
      show (program.types.setTarget handle type).target? other = none
      rw [TypeStore.target?_setTarget, if_neg]
      · exact h.numbered.unmade other hOther
      · have hMade := h.numbered.made id global handle hGlobal hHandle
        exact (Nat.ne_of_lt (Nat.lt_of_lt_of_le hMade hOther)).symm
    exact hTypes.reflect reflects_setValue rfl
  pending other found handle' hHas hNone hFound := by
    obtain ⟨global', hBefore, rfl | ⟨-, -, rfl⟩⟩ := has_setValue hHas
    · show (program.types.setTarget handle type).target? handle' = none
      rw [TypeStore.target?_setTarget, if_neg]
      · exact h.pending other found handle' hBefore hNone hFound
      · intro hSame
        obtain ⟨rfl, hName⟩ := h.numbered.distinct other found handle' id global handle hBefore
          hGlobal hFound hHandle hSame
        obtain ⟨module', hModule', hMem'⟩ := hHas
        rcases of_module?_updateModule hModule' with ⟨-, module, -, rfl⟩ | ⟨hOther, -⟩
        · obtain ⟨source, -, rfl⟩ := mem_setValue.mp hMem'
          split at hNone
          · cases hNone
          · next hOther =>
              rw [if_neg hOther] at hName
              exact hOther hName
        · exact hOther rfl
    · cases hNone
  targets other found target hHas hFound := by
    have hLength : (Program.updateModule
        { program with types := program.types.setTarget handle type } id
          (·.setValue global.name (.type type))).modules.length = program.modules.length :=
      List.length_modify _ _ _
    rw [hLength]
    obtain ⟨global', hBefore, rfl | ⟨-, -, rfl⟩⟩ := has_setValue hHas
    · exact h.targets other found target hBefore hFound
    · cases hFound
  shared other hBuiltin found hHas hNone := by
    obtain ⟨global', hBefore, rfl | ⟨-, -, rfl⟩⟩ := has_setValue hHas
    · exact h.shared other hBuiltin found hBefore hNone
    · cases hNone

end Tidy

end Program

end GoToC
