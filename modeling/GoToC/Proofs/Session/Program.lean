import GoToC.Proofs.Routine.Spelled
import GoToC.Proofs.Routine.Mirror
import GoToC.Proofs.Routine.SafeStmt

/-!
# Sound programs

What holds of the modules of a program while it is compiled: values are sound, types are
plain, functions are functions. A type that is not built yet has a handle of its own that
is not bound. A routine is compiled against a sound program safely.
-/

namespace GoToC

variable {id other : ModuleId} {name : String} {global added global' : Global} {file : SourceFile}
  {method : Method} {handle : Handle} {update : Module → Module} {holds : ModuleId → Module → Prop}
  {module : Module}

/-- A global of a module of a program. -/
def Program.Has (program : Program) (id : ModuleId) (global : Global) : Prop :=
  ∃ module, program.module? id = some module ∧ global ∈ module.globals

/-- The inputs and outputs of a declared function go by the names that they are declared with. The
receiver of a method is its first input. -/
structure FuncType.NamedLike (func : FuncType Ty) (decl : FuncDecl) : Prop where
  inputs : func.inputs.map (·.name) = (decl.receiver.toList ++ decl.signature.inputs).map (·.name)
  outputs : func.outputs.map (·.name) = decl.signature.outputs.map (·.name)

/-- A global of a file with a sound value, if it has one, that any routine may name. -/
structure Global.Sound (values types : Known) (file : SourceFile) (global : Global) : Prop where
  expr : ∀ e, global.value = some (.expr e) → e.Sound values
  closed : ∀ e, global.value = some (.expr e) → e.c.Closed ∅
  type : ∀ type, global.value = some (.type type) → type.Plain types
  func : global.kind = .func → ∀ value, global.value = some value →
    ∃ c func, value = .expr ⟨c, .func func⟩ ∧
      ∀ decl ∈ file.funcs, decl.name = global.name → func.NamedLike decl

structure Method.Sound (values : Known) (file : SourceFile) (method : Method) : Prop where
  type : method.type.PlainFunc values
  decl : ∃ decl, file.methods[method.decl]? = some decl ∧
    ∀ func, method.type = .func func → func.NamedLike decl

/-- A method goes by its declaration. -/
theorem Method.Sound.exists_decl {k : Known} (h : method.Sound k file) :
    ∃ func decl, method.type = .func func ∧ (Ty.func func).PlainFunc k ∧
      file.methods[method.decl]? = some decl ∧ func.NamedLike decl := by
  obtain ⟨func, hFunc⟩ := h.type.exists_func
  obtain ⟨decl, hDecl, hLike⟩ := h.decl
  exact ⟨func, decl, hFunc, hFunc ▸ h.type, hDecl, hLike func hFunc⟩

/-- The handles of globals are different, and none but those that were made is bound. -/
structure Program.Numbered (program : Program) : Prop where
  made : ∀ id global handle, program.Has id global → global.handle = some handle →
    handle.id < program.types.nextHandle
  distinct : ∀ id global handle id' global' handle', program.Has id global →
    program.Has id' global' → global.handle = some handle → global'.handle = some handle' →
      handle.id = handle'.id → id = id' ∧ global.name = global'.name
  unmade : ∀ handle : Handle, program.types.nextHandle ≤ handle.id →
    program.types.target? handle = none

/-- A program all of whose globals and methods are sound. The types of values are made of
less than the types that may be mentioned while some are built. -/
structure Program.Sound (values types : Known) (program : Program) : Prop where
  settled : program.types.Settled values
  le : values.Le types
  globals : ∀ id module, program.module? id = some module → ∀ global ∈ module.globals,
    global.Sound values types module.file
  methods : ∀ id module, program.module? id = some module → ∀ method ∈ module.methods,
    method.Sound values module.file
  pending : ∀ id global handle, program.Has id global → global.value = none →
    global.handle = some handle → program.types.target? handle = none ∨ types.handle handle.id
  shared : ∀ id global, program.builtin = some id → program.Has id global →
    global.value = none → global.handle = none
  numbered : program.Numbered

theorem Known.Le.refl (k : Known) : k.Le k := ⟨fun _ => id, id, id, id⟩

theorem Known.Le.trans {a b c : Known} (h : a.Le b) (h' : b.Le c) : a.Le c :=
  ⟨fun id hId => h'.handle id (h.handle id hId), h'.metatype ∘ h.metatype,
    h'.function ∘ h.function, h.strict ∘ h'.strict⟩

theorem Typed.Sound.mono {k k' : Known} {e : Typed} (le : k.Le k') (h : e.Sound k) : e.Sound k' :=
  ⟨h.usable.mono le, h.fits.mono le.strict, h.name⟩

namespace Program

variable {values types : Known} {program : Program}

theorem Has.of_global? (h : program.global? id name = some global) :
    program.Has id global ∧ global.name = name := by
  obtain ⟨module, hModule, hGet⟩ := Option.bind_eq_some_iff.mp h
  exact ⟨⟨module, hModule, List.mem_of_find?_eq_some hGet⟩, by simpa using List.find?_some hGet⟩

/-! ## Routines against sound programs -/

/-- What routines are compiled against. -/
def Sound.setting (h : program.Sound values types) : Setting :=
  ⟨values, types, program.types, h.settled, h.le⟩

theorem not_validate_forward (h : program.types.target? handle = none) :
    program.types.validate (.forward handle) ≠ .ok () := by
  have hResolve : program.types.resolve (.forward handle) = .error (.unbound handle.name) := by
    show program.types.follow _ (15 + 1) (.forward handle) = _
    rw [TypeStore.follow, h]
  unfold TypeStore.validate TypeStore.validateWithin
  rw [hResolve]
  intro hOk
  cases hOk

/-- The value of a global, told by whether it is built. -/
theorem Sound.globalValue? (h : program.Sound values types) {value : Value}
    (hValue : program.globalValue? id name = some value) :
    value.Sound h.setting ∨ ∃ global handle, program.Has id global ∧ global.value = none ∧
        global.handle = some handle ∧ value = .type (.forward handle) := by
  obtain ⟨global, hGlobal, hValue⟩ := Option.map_eq_some_iff.mp hValue
  obtain ⟨hHas, hName⟩ := Has.of_global? hGlobal
  obtain ⟨module, hModule, hMem⟩ := hHas
  have hSound := h.globals id module hModule global hMem
  split at hValue
  · next built hBuilt =>
      subst hValue
      refine .inl ?_
      cases built with
      | expr e => exact .inl (hSound.expr e hBuilt)
      | type type => exact hSound.type type hBuilt
      | module target => trivial
  · next handle hNone hHandle =>
      exact .inr ⟨global, handle, ⟨module, hModule, hMem⟩, hNone, hHandle, hValue.symm⟩
  · subst hValue
    exact .inl trivial

theorem Sound.env (h : program.Sound values types) {package : String}
    (hOwn : ∀ global handle, program.Has id global → global.value = none →
      global.handle = some handle → types.handle handle.id)
    (hPackage : types.strict → NamesGlobals package) :
    (⟨program, id, package, none, none, none⟩ : Env).Sound h.setting where
  types := rfl
  own name value hValue := by
    rcases h.globalValue? hValue with hSound | ⟨global, handle, hHas, hNone, hHandle, rfl⟩
    · exact hSound
    · rw [Value.Sound, Ty.Plain]
      exact hOwn global handle hHas hNone hHandle
  shared builtin name value hBuiltin hValue := by
    rcases h.globalValue? hValue with hSound | ⟨global, handle, hHas, hNone, hHandle, rfl⟩
    · exact hSound
    · have hNoHandle := h.shared builtin global hBuiltin hHas hNone
      exact absurd (hNoHandle.symm.trans hHandle) (by simp)
  foreign other name value hValue := by
    rcases h.globalValue? hValue with hSound | ⟨global, handle, hHas, hNone, hHandle, rfl⟩
    · cases value with
      | type denoted => exact fun _ => hSound
      | _ => exact hSound
    · intro hValid
      rcases h.pending other global handle hHas hNone hHandle with hUnbound | hKnown
      · exact absurd hValid (not_validate_forward hUnbound)
      · rw [Ty.Plain]
        exact hKnown
  exprs other name global e hGlobal hValue := by
    obtain ⟨⟨module, hModule, hMem⟩, -⟩ := Has.of_global? hGlobal
    exact (h.globals other module hModule global hMem).expr e hValue
  func := by simp
  result := by simp
  package := hPackage

theorem Sound.closed (h : program.Sound values types) : program.Closed := by
  intro id name global e hGlobal hValue
  obtain ⟨⟨module, hModule, hMem⟩, -⟩ := Has.of_global? hGlobal
  exact (h.globals id module hModule global hMem).closed e hValue

/-! ## Updates of modules -/

theorem module?_updateModule (program : Program) (id other : ModuleId) (update : Module → Module) :
    (program.updateModule id update).module? other =
      if id = other then (program.module? other).map update else program.module? other := by
  show (program.modules.modify id update)[other]? = _
  rw [List.getElem?_modify]
  split
  · rfl
  · rw [id_map']
    rfl

/-- The globals of one program are those of another, some of them built meanwhile. -/
def Reflects (before after : Program) : Prop :=
  ∀ id global', after.Has id global' → ∃ global, before.Has id global ∧
    global.name = global'.name ∧ global.handle = global'.handle ∧
      (global'.value = none → global.value = none)

/-- Modules keep their names and their files. -/
def Keeps (before after : Program) : Prop :=
  ∀ id module, before.module? id = some module →
    ∃ module', after.module? id = some module' ∧ module'.name = module.name ∧
      module'.file = module.file

variable {before after : Program}

theorem Numbered.reflect (h : before.Numbered) (hReflects : before.Reflects after)
    (hTypes : after.types = before.types) : after.Numbered where
  made id global' handle hHas hHandle := by
    obtain ⟨global, hBefore, -, hSame, -⟩ := hReflects id global' hHas
    rw [hTypes]
    exact h.made id global handle hBefore (hSame.trans hHandle)
  distinct id global' handle id' other' handle' hHas hHas' hHandle hHandle' hIds := by
    obtain ⟨global, hBefore, hName, hSame, -⟩ := hReflects id global' hHas
    obtain ⟨other, hBefore', hName', hSame', -⟩ := hReflects id' other' hHas'
    rw [← hName, ← hName']
    exact h.distinct id global handle id' other handle' hBefore hBefore' (hSame.trans hHandle)
      (hSame'.trans hHandle') hIds
  unmade handle hHandle := by
    rw [hTypes] at hHandle ⊢
    exact h.unmade handle hHandle

theorem Sound.reflect (h : before.Sound values types) (hReflects : before.Reflects after)
    (hTypes : after.types = before.types) (hBuiltin : after.builtin = before.builtin)
    (hGlobals : ∀ id module, after.module? id = some module → ∀ global ∈ module.globals,
      global.Sound values types module.file)
    (hMethods : ∀ id module, after.module? id = some module → ∀ method ∈ module.methods,
      method.Sound values module.file) : after.Sound values types where
  settled := hTypes ▸ h.settled
  le := h.le
  globals := hGlobals
  methods := hMethods
  pending id global' handle hHas hNone hHandle := by
    obtain ⟨global, hBefore, -, hSame, hValue⟩ := hReflects id global' hHas
    rw [hTypes]
    exact h.pending id global handle hBefore (hValue hNone) (hSame.trans hHandle)
  shared id global' hShared hHas hNone := by
    obtain ⟨global, hBefore, -, hSame, hValue⟩ := hReflects id global' hHas
    rw [← hSame]
    exact h.shared id global (hBuiltin ▸ hShared) hBefore (hValue hNone)
  numbered := h.numbered.reflect hReflects hTypes

theorem keeps_updateModule {id : ModuleId} {update : Module → Module}
    (hName : ∀ module, (update module).name = module.name)
    (hFile : ∀ module, (update module).file = module.file) :
    program.Keeps (program.updateModule id update) := by
  intro other module hModule
  rw [module?_updateModule, hModule]
  split
  · exact ⟨update module, rfl, hName module, hFile module⟩
  · exact ⟨module, rfl, rfl, rfl⟩

/-- A module after an update is the updated one or, elsewhere, the same as before. -/
theorem of_module?_updateModule {module' : Module}
    (h : (program.updateModule id update).module? other = some module') :
    (id = other ∧ ∃ module, program.module? other = some module ∧ module' = update module) ∨
      id ≠ other ∧ program.module? other = some module' := by
  rw [module?_updateModule] at h
  split at h
  · next hSame =>
      obtain ⟨module, hModule, hUpdate⟩ := Option.map_eq_some_iff.mp h
      exact .inl ⟨hSame, module, hModule, hUpdate.symm⟩
  · next hOther => exact .inr ⟨hOther, h⟩

/-- What holds of all modules holds after an update, if it holds of the module as updated. -/
theorem forall_updateModule
    (h : ∀ other module, program.module? other = some module → holds other module)
    (hUpdate : ∀ module, program.module? id = some module → holds id (update module))
    (other : ModuleId) (module' : Module)
    (hModule' : (program.updateModule id update).module? other = some module') :
    holds other module' := by
  rcases of_module?_updateModule hModule' with ⟨rfl, module, hModule, rfl⟩ | ⟨-, hModule⟩
  · exact hUpdate module hModule
  · exact h other module' hModule

/-! ## Values of globals -/

section SetValue

variable {id : ModuleId} {name : String} {value : GlobalValue}

theorem mem_setValue : global' ∈ (module.setValue name value).globals ↔ ∃ global ∈ module.globals,
        global' = if global.name = name then { global with value := some value } else global := by
  simp only [Module.setValue, List.mem_map, beq_iff_eq]
  exact ⟨fun ⟨global, hMem, hSame⟩ => ⟨global, hMem, hSame.symm⟩,
    fun ⟨global, hMem, hSame⟩ => ⟨global, hMem, hSame.symm⟩⟩

theorem has_setValue (h : (program.updateModule id (·.setValue name value)).Has other global') :
    ∃ global, program.Has other global ∧ (global' = global ∨ other = id ∧ global.name = name ∧
        global' = { global with value := some value }) := by
  obtain ⟨module', hModule', hMem'⟩ := h
  rcases of_module?_updateModule hModule' with ⟨rfl, module, hModule, rfl⟩ | ⟨-, hModule⟩
  · obtain ⟨global, hMem, hSame⟩ := mem_setValue.mp hMem'
    refine ⟨global, ⟨module, hModule, hMem⟩, ?_⟩
    split at hSame
    · next hName => exact .inr ⟨rfl, hName, hSame⟩
    · exact .inl hSame
  · exact ⟨global', ⟨module', hModule, hMem'⟩, .inl rfl⟩

theorem reflects_setValue : program.Reflects (program.updateModule id (·.setValue name value)) := by
  intro other global' hHas
  obtain ⟨global, hBefore, rfl | ⟨-, -, rfl⟩⟩ := has_setValue hHas
  · exact ⟨global', hBefore, rfl, rfl, fun hNone => hNone⟩
  · exact ⟨global, hBefore, rfl, rfl, fun hNone => absurd hNone (by simp)⟩

theorem Sound.setValue (h : program.Sound values types)
    (hValue : ∀ module, program.module? id = some module → ∀ global ∈ module.globals,
      global.name = name →
        ({ global with value := some value } : Global).Sound values types module.file) :
    (program.updateModule id (·.setValue name value)).Sound values types := by
  refine h.reflect reflects_setValue rfl rfl (forall_updateModule h.globals ?_)
    (forall_updateModule h.methods (h.methods id))
  intro module hModule global' hMem'
  obtain ⟨global, hMem, rfl⟩ := mem_setValue.mp hMem'
  split
  · next hName => exact hValue module hModule global hMem hName
  · exact h.globals id module hModule global hMem

end SetValue

/-! ## Methods -/

theorem Sound.addMethod (h : program.Sound values types)
    (hMethod : ∀ module, program.module? id = some module → method.Sound values module.file) :
    (program.updateModule id (·.addMethod method)).Sound values types := by
  refine h.reflect ?_ rfl rfl (forall_updateModule h.globals (h.globals id))
    (forall_updateModule h.methods ?_)
  · rintro other global' ⟨module', hModule', hMem'⟩
    rcases of_module?_updateModule hModule' with ⟨rfl, module, hModule, rfl⟩ | ⟨-, hModule⟩
    · exact ⟨global', ⟨module, hModule, hMem'⟩, rfl, rfl, fun hNone => hNone⟩
    · exact ⟨global', ⟨module', hModule, hMem'⟩, rfl, rfl, fun hNone => hNone⟩
  · intro module hModule found hMem
    rcases List.mem_append.mp hMem with hMem | hMem
    · exact h.methods id module hModule found hMem
    · rw [List.mem_singleton.mp hMem]
      exact hMethod module hModule

/-! ## Changes of the store -/

/-- Another store in place of the old one: what was not bound may be bound now only if it
may be mentioned. -/
theorem Sound.withTypes (h : program.Sound values types) {store : TypeStore}
    (hSettled : store.Settled values) (hPending : ∀ handle, program.types.target? handle = none →
      store.target? handle = none ∨ types.handle handle.id)
    (hNext : program.types.nextHandle ≤ store.nextHandle)
    (hUnmade : ∀ handle : Handle, store.nextHandle ≤ handle.id → store.target? handle = none) :
    ({ program with types := store } : Program).Sound values types where
  settled := hSettled
  le := h.le
  globals := h.globals
  methods := h.methods
  pending id global handle hHas hNone hHandle :=
    (h.pending id global handle hHas hNone hHandle).elim (hPending handle) .inr
  shared := h.shared
  numbered :=
    ⟨fun id global handle hHas hHandle =>
        Nat.lt_of_lt_of_le (h.numbered.made id global handle hHas hHandle) hNext,
      h.numbered.distinct, hUnmade⟩

theorem Sound.addTypeMethod (h : program.Sound values types) {record : StructType Ty}
    {func : FuncType Ty} (hGiven : program.types.GivenTo values record.key func) :
    ({ program with types := program.types.addMethod record ⟨name, .func func⟩ } : Program).Sound
      values types := by
  refine h.withTypes (h.settled.extend (fun _ _ => id) ?_) (fun _ => .inl) (Nat.le_refl _)
    h.numbered.unmade
  intro entry hEntry
  rcases List.mem_append.mp hEntry with hEntry | hEntry
  · exact .inl hEntry
  · rw [List.mem_singleton.mp hEntry]
    exact .inr ⟨func, rfl, hGiven.extend (.refl _)⟩

theorem Sound.newHandle (h : program.Sound values types) (name : String) :
    ({ program with types := (program.types.newHandle name).2 } : Program).Sound values types :=
  h.withTypes (h.settled.extend (fun _ _ => id) fun _ => .inl) (fun _ => .inl)
    (Nat.le_succ _) fun handle hHandle => h.numbered.unmade handle (Nat.le_of_succ_le hHandle)

theorem Sound.setTarget (h : program.Sound values types) {type : Ty}
    (hHas : program.Has id global) (hHandle : global.handle = some handle)
    (hKnown : types.handle handle.id) (hUnbound : program.types.target? handle = none) :
    ({ program with types := program.types.setTarget handle type } : Program).Sound
      values types := by
  refine h.withTypes (h.settled.extend (TypeStore.extends_setTarget hUnbound) fun _ => .inl)
    ?_ (Nat.le_refl _) ?_
  · intro other hOther
    rw [TypeStore.target?_setTarget]
    split
    · next hSame => exact .inr (hSame ▸ hKnown)
    · exact .inl hOther
  · intro other hOther
    have hMade := h.numbered.made id global handle hHas hHandle
    have hNext : program.types.nextHandle ≤ other.id := hOther
    rw [TypeStore.target?_setTarget, if_neg (by omega)]
    exact h.numbered.unmade other hOther

/-! ## New modules and globals -/

theorem module?_register {added : Module} (h : (program.modules ++ [added])[id]? = some module) :
    program.module? id = some module ∨ id = program.modules.length ∧ module = added := by
  by_cases hLess : id < program.modules.length
  · rw [List.getElem?_append_left hLess] at h
    exact .inl h
  · rw [List.getElem?_append_right (Nat.le_of_not_lt hLess), List.getElem?_singleton] at h
    split at h
    · next hZero =>
        refine .inr ⟨Nat.le_antisymm ?_ (Nat.le_of_not_lt hLess), (Option.some.inj h).symm⟩
        exact Nat.sub_eq_zero_iff_le.mp hZero
    · cases h

/-- What holds of all modules holds with another one, if it holds of that. -/
theorem forall_register {added : Module}
    (h : ∀ id module, program.module? id = some module → holds id module)
    (hAdded : holds program.modules.length added) (id : ModuleId) (module : Module)
    (hModule : (program.modules ++ [added])[id]? = some module) : holds id module := by
  rcases module?_register hModule with hModule | ⟨rfl, rfl⟩
  · exact h id module hModule
  · exact hAdded

theorem Sound.register (h : program.Sound values types) (name : String) (file : SourceFile) :
    ({ program with modules := program.modules ++ [Module.ofFile name file] } : Program).Sound
      values types := by
  refine h.reflect ?_ rfl rfl (forall_register h.globals nofun) (forall_register h.methods nofun)
  rintro id global ⟨module, hModule, hMem⟩
  rcases module?_register hModule with hModule | ⟨-, rfl⟩
  · exact ⟨global, ⟨module, hModule, hMem⟩, rfl, rfl, fun hNone => hNone⟩
  · cases hMem

theorem has_addGlobal (h : (program.updateModule id (·.addGlobal added)).Has other global) :
    program.Has other global ∨ other = id ∧ global = added := by
  obtain ⟨module', hModule', hMem'⟩ := h
  rcases of_module?_updateModule hModule' with ⟨rfl, module, hModule, rfl⟩ | ⟨-, hModule⟩
  · rcases List.mem_append.mp hMem' with hMem | hMem
    · exact .inl ⟨module, hModule, hMem⟩
    · exact .inr ⟨rfl, List.mem_singleton.mp hMem⟩
  · exact .inl ⟨module', hModule, hMem'⟩

/-- A global that is entered has a handle that no other one has, if it has one. -/
theorem Numbered.addGlobal (h : program.Numbered) (hHandle : ∀ handle, added.handle = some handle →
      handle.id < program.types.nextHandle ∧
        ∀ other global found, program.Has other global → global.handle = some found →
          found.id ≠ handle.id) :
    (program.updateModule id (·.addGlobal added)).Numbered where
  made other global handle hHas hFound := by
    rcases has_addGlobal hHas with hHas | ⟨rfl, rfl⟩
    · exact h.made other global handle hHas hFound
    · exact (hHandle handle hFound).1
  distinct other global handle other' global' handle' hHas hHas' hFound hFound' hIds := by
    rcases has_addGlobal hHas with hOld | ⟨hOther, hAdded⟩
    · rcases has_addGlobal hHas' with hOld' | ⟨-, rfl⟩
      · exact h.distinct other global handle other' global' handle' hOld hOld' hFound hFound' hIds
      · exact absurd hIds ((hHandle handle' hFound').2 other global handle hOld hFound)
    · rcases has_addGlobal hHas' with hOld' | ⟨hOther', hAdded'⟩
      · subst hAdded
        exact absurd hIds.symm ((hHandle handle hFound).2 other' global' handle' hOld' hFound')
      · rw [hOther, hOther', hAdded, hAdded']
        exact ⟨rfl, rfl⟩
  unmade := h.unmade

/-- A global that is not built; its handle, if it has one, is new and not bound. -/
theorem Sound.addGlobal (h : program.Sound values types) (hValue : added.value = none)
    (hShared : program.builtin ≠ some id) (hHandle : ∀ handle, added.handle = some handle →
      handle.id < program.types.nextHandle ∧ program.types.target? handle = none ∧
        ∀ other global found, program.Has other global → global.handle = some found →
          found.id ≠ handle.id) :
    (program.updateModule id (·.addGlobal added)).Sound values types where
  settled := h.settled
  le := h.le
  globals := by
    refine forall_updateModule h.globals fun module hModule global hMem' => ?_
    rcases List.mem_append.mp hMem' with hMem | hMem
    · exact h.globals id module hModule global hMem
    · rw [List.mem_singleton.mp hMem]
      exact ⟨by simp [hValue], by simp [hValue], by simp [hValue], by simp [hValue]⟩
  methods := forall_updateModule h.methods (h.methods id)
  pending other global handle hHas hNone hFound := by
    rcases has_addGlobal hHas with hHas | ⟨rfl, rfl⟩
    · exact h.pending other global handle hHas hNone hFound
    · exact .inl (hHandle handle hFound).2.1
  shared other global hBuiltin hHas hNone := by
    rcases has_addGlobal hHas with hHas | ⟨rfl, rfl⟩
    · exact h.shared other global hBuiltin hHas hNone
    · exact absurd hBuiltin hShared
  numbered := h.numbered.addGlobal fun handle hFound =>
    ⟨(hHandle handle hFound).1, (hHandle handle hFound).2.2⟩

/-! ## Growth of what is known -/

theorem Sound.mono_types (h : program.Sound values types) {types' : Known}
    (le : types.Le types') : program.Sound values types' where
  settled := h.settled
  le := h.le.trans le
  globals id module hModule global hMem :=
    have hSound := h.globals id module hModule global hMem
    ⟨hSound.expr, hSound.closed, fun type hType => (hSound.type type hType).mono le, hSound.func⟩
  methods := h.methods
  pending id global handle hHas hNone hHandle :=
    (h.pending id global handle hHas hNone hHandle).imp_right (le.handle _)
  shared := h.shared
  numbered := h.numbered

/-- Values may be of all types that can be mentioned once these are settled. -/
theorem Sound.widen (h : program.Sound values types) {whole : Known} (le : types.Le whole)
    (hSettled : program.types.Settled whole) : program.Sound whole whole where
  settled := hSettled
  le := .refl whole
  globals id module hModule global hMem :=
    have hSound := h.globals id module hModule global hMem
    ⟨fun e hValue => .mono (h.le.trans le) (hSound.expr e hValue), hSound.closed,
      fun type hType => (hSound.type type hType).mono le, hSound.func⟩
  methods id module hModule method hMem :=
    have hSound := h.methods id module hModule method hMem
    ⟨hSound.type.mono (h.le.trans le), hSound.decl⟩
  pending id global handle hHas hNone hHandle :=
    (h.pending id global handle hHas hNone hHandle).imp_right (le.handle _)
  shared := h.shared
  numbered := h.numbered

end Program

/-! ## Faithful programs -/

section Faithful

variable {files : String → SourceFile → Prop} {before after program : Program}

theorem Global.Faithful.keep {owner : String} (h : global.Faithful files before owner file)
    (hKeeps : before.Keeps after) :
    global.Faithful files after owner file where
  declared := h.declared
  expr := h.expr
  type := h.type
  module id hValue := by
    obtain ⟨hImport, module, hModule, hName⟩ := h.module id hValue
    obtain ⟨module', hModule', hName', -⟩ := hKeeps id module hModule
    exact ⟨hImport, module', hModule', hName'.trans hName⟩

theorem Program.Faithful.keep (h : before.Faithful files) (hKeeps : before.Keeps after)
    (hBuiltin : after.builtin = before.builtin)
    (hFile : ∀ id module, after.module? id = some module → files module.name module.file)
    (hGlobals : ∀ id module, after.module? id = some module → ∀ global ∈ module.globals,
      global.Faithful files before module.name module.file) : after.Faithful files where
  file := hFile
  globals id module hModule global hMem := (hGlobals id module hModule global hMem).keep hKeeps
  builtin id hShared := by
    obtain ⟨module, hModule, hName⟩ := h.builtin id (hBuiltin ▸ hShared)
    obtain ⟨module', hModule', hName', -⟩ := hKeeps id module hModule
    exact ⟨module', hModule', hName'.trans hName⟩

theorem Program.Faithful.setValue (h : program.Faithful files) {value : GlobalValue}
    (hValue : ∀ module, program.module? id = some module → ∀ global ∈ module.globals,
      global.name = name →
        ({ global with value := some value } : Global).Faithful files program module.name
          module.file) : (program.updateModule id (·.setValue name value)).Faithful files := by
  refine h.keep (keeps_updateModule (fun _ => rfl) fun _ => rfl) rfl
    (forall_updateModule h.file (h.file id)) (forall_updateModule h.globals ?_)
  intro module hModule global' hMem'
  obtain ⟨global, hMem, rfl⟩ := mem_setValue.mp hMem'
  split
  · next hName => exact hValue module hModule global hMem hName
  · exact h.globals id module hModule global hMem

theorem Program.Faithful.withTypes (h : program.Faithful files) (store : TypeStore) :
    ({ program with types := store } : Program).Faithful files :=
  h.keep (fun _ module hModule => ⟨module, hModule, rfl, rfl⟩) rfl h.file h.globals

theorem Program.Faithful.addMethod (h : program.Faithful files) (id : ModuleId) (method : Method) :
    (program.updateModule id (·.addMethod method)).Faithful files :=
  h.keep (keeps_updateModule (fun _ => rfl) fun _ => rfl) rfl
    (forall_updateModule h.file (h.file id)) (forall_updateModule h.globals (h.globals id))

theorem Program.Faithful.addGlobal (h : program.Faithful files)
    (hAdded : ∀ module, program.module? id = some module →
      added.Faithful files program module.name module.file) :
    (program.updateModule id (·.addGlobal added)).Faithful files := by
  refine h.keep (keeps_updateModule (fun _ => rfl) fun _ => rfl) rfl
    (forall_updateModule h.file (h.file id)) (forall_updateModule h.globals ?_)
  intro module hModule global hMem'
  rcases List.mem_append.mp hMem' with hMem | hMem
  · exact h.globals id module hModule global hMem
  · rw [List.mem_singleton.mp hMem]
    exact hAdded module hModule

theorem Program.Faithful.register (h : program.Faithful files) {name : String} {file : SourceFile}
    (hFile : files name file) :
    ({ program with modules := program.modules ++ [Module.ofFile name file] } : Program).Faithful
      files := by
  refine h.keep ?_ rfl (forall_register h.file hFile) (forall_register h.globals nofun)
  intro id module hModule
  refine ⟨module, ?_, rfl, rfl⟩
  show (program.modules ++ [Module.ofFile name file])[id]? = some module
  rw [List.getElem?_append_left (List.getElem?_eq_some_iff.mp hModule).1]
  exact hModule

end Faithful

end GoToC
