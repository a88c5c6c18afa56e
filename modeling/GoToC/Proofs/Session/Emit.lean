import GoToC.Proofs.Session.Inits

/-!
# Written modules

Writing a module whose declarations are built changes nothing but the numbers and the
output. The types that are written are made of plain ones, so that no more than two levels
of function pointer types are met; and each routine that is written was compiled from a
function, a method or the initializers of the module.
-/

namespace GoToC

variable {decl : FuncDecl} {func : FuncType Ty} {global : Global} {init : Option Routine}

/-- The type that a program gives to a function or method that a module declares. -/
inductive Program.Assigns (program : Program) (id : ModuleId) (file : SourceFile) (decl : FuncDecl)
    (func : FuncType Ty) : Prop
  | func {global : Global} : decl ∈ file.funcs → program.global? id decl.name = some global →
      global.type? = some (.func func) → Assigns program id file decl func
  | method {module method} : program.module? id = some module →
      method ∈ module.methods → file.methods[method.decl]? = some decl →
      method.type = .func func → Assigns program id file decl func

/-- The body of a function was compiled where routines are sound, against a program, and what
became of it is part of an output. -/
def FuncDecl.Hosted (sources : Sources) (id : ModuleId) (file : SourceFile) (program : Program)
    (output : List CItem) (decl : FuncDecl) : Prop :=
  ∀ body ∈ decl.body, ∃ func prototype cName env supply after,
    program.Assigns id file decl func ∧ FuncType.NamedLike func decl ∧
      Env.Hosts sources file func env ∧ env.module = id ∧
    env.program = program ∧
    env.program.types.prototype func cName = .ok prototype ∧
    (compileBody func body decl.span).exec env (Routine.start supply) = (.ok (), after) ∧
    CItem.routine (.func prototype) after.locals.toList after.body.toList ∈ output

theorem Runs.write (bad : Session → Failure → Prop) (session : Session) (item : CItem) :
    Runs bad session (SessionM.write item) fun _ after => item ∈ after.output.toList :=
  (Runs.changed _).mono fun _ after hAfter => by simp [hAfter]

namespace Job

/-- A session in which a module of a program is written. -/
def Writes (sources : Sources) (start : Session) (job : Job) (handle : Nat → Prop)
    (function : Prop) (program : Program) (session : Session) : Prop :=
  job.Ready sources start handle function MayWait session ∧ session.program = program

variable {sources : Sources} {start session : Session} {job : Job} {handle : Nat → Prop}
  {function : Prop} {program : Program} {type : Ty}

theorem Writes.write (h : job.Writes sources start handle function program session) {item : CItem}
    (hItem : sources.Accounts item) :
    Runs sources.Excuses session (SessionM.write item) fun _ after =>
      job.Writes sources start handle function program after :=
  (h.1.write hItem).mono fun _ _ hAfter => ⟨hAfter.1, hAfter.2.trans h.2⟩

/-! ## Function pointer types -/

theorem Writes.writeTypedef (h : job.Writes sources start handle function program session)
    (hType : type.Usable (sources.known handle function)) :
    Runs sources.Excuses session (SessionM.writeTypedef type) fun _ after =>
      job.Writes sources start handle function program after := by
  let request := session.supply.typedefs.request session.program.types type
  let next : Session := { session with supply := { session.supply with typedefs := request.2 } }
  have hMade : session.supply.typedefs.made ≤ request.2.made :=
    (TypedefSupply.request_made _ _ _).symm.le
  have hNext : job.Writes sources start handle function program next :=
    ⟨h.1.withSupply hMade, h.2⟩
  have hLift : Runs sources.Excuses next (SessionM.lift request.1) _ :=
    Runs.lift (h.1.sound.program.settled.request_usable _ hType)
  refine Runs.get.bind fun now last hNow => ?_
  rw [hNow.1, hNow.2]
  refine (Runs.set next).bind fun _ middle hMiddle => ?_
  rw [hMiddle]
  refine hLift.bind fun item last hItem => ?_
  obtain ⟨⟨hItem, -⟩, rfl⟩ := hItem
  split
  · next found =>
      obtain ⟨number, prototype, rfl⟩ := TypedefSupply.isTypedef_request hItem
      have hAccounts : sources.Accounts (.funcTypedef number prototype) := trivial
      exact hNext.write hAccounts
  · exact .pure hNext

/-- A plain type is made of no function pointer types. -/
theorem Writes.writeTypedefsWithin_plain (h :
    job.Writes sources start handle function program session)
    (hType : type.Plain (sources.known handle function)) (levels : Nat) :
    Runs sources.Excuses session (SessionM.writeTypedefsWithin (levels + 1) type) fun _ after =>
      job.Writes sources start handle function program after := by
  refine (Runs.types (h.1.sound.program.settled.func?_usable hType.usable)).bind
    fun found last hFound => ?_
  obtain ⟨⟨-, hFunc⟩, rfl⟩ := hFound
  split
  · exact .pure h
  · next func =>
      rw [(hFunc func rfl).1] at hType
      exact absurd hType Ty.Plain.not_func

theorem Writes.writeTypedefs (h : job.Writes sources start handle function program session)
    (hType : type.Usable (sources.known handle function)) :
    Runs sources.Excuses session (SessionM.writeTypedefs type) fun _ after =>
      job.Writes sources start handle function program after := by
  refine Runs.get.bind fun now last hNow => ?_
  rw [hNow.1, hNow.2]
  refine (Runs.types (h.1.sound.program.settled.func?_usable hType)).bind
    fun found last hFound => ?_
  obtain ⟨⟨-, hFunc⟩, rfl⟩ := hFound
  split
  · exact .pure h
  · next func =>
      obtain ⟨rfl, hPlain, hFunction⟩ := hFunc func rfl
      -- A function type was made, so there is a level left for the members.
      obtain ⟨levels, hLevels⟩ := Nat.exists_eq_succ_of_ne_zero
        (Nat.ne_of_gt (h.1.sound.made hFunction))
      refine (Runs.forM_mem (job.Writes sources start handle function program) h
        fun member hMember before hBefore => ?_).bind fun _ after hAfter =>
          hAfter.writeTypedef hType
      rw [hLevels]
      exact hBefore.writeTypedefsWithin_plain (hPlain.member hMember) levels

/-! ## Declarations -/

theorem Writes.declareFunc (h : job.Writes sources start handle function program session)
    (cName : String) (hFunc : (Ty.func func).PlainFunc (sources.known handle function)) :
    Runs sources.Excuses session (SessionM.declareFunc cName (.func func)) fun _ after =>
      job.Writes sources start handle function program after := by
  have hAsk : session.program.types.Answers (session.program.types.func? (.func func))
      (· = some func) := rfl
  refine (Runs.types hAsk).bind fun found last hFound => ?_
  obtain ⟨⟨-, rfl⟩, rfl⟩ := hFound
  refine (Runs.forM_mem (job.Writes sources start handle function program) h
    fun member hMember before hBefore => hBefore.writeTypedefs (hFunc.member hMember).usable).bind
    fun _ after hAfter => ?_
  refine (Runs.types (hAfter.1.sound.program.settled.prototype_plain cName hFunc)).bind
    fun prototype last hLast => ?_
  rw [hLast.2]
  exact hAfter.write trivial

/-- A function that is built is of a function type. -/
theorem Ready.exists_func {left : Global → Prop}
    (h : job.Ready sources start handle function left session)
    (hHas : session.program.Has job.id global) (hKind : global.kind = .func) {value : GlobalValue}
    (hValue : global.value = some value) :
    ∃ func, global.type? = some (.func func) ∧
      (Ty.func func).PlainFunc (sources.known handle function) ∧
      ∀ decl ∈ job.file.funcs, decl.name = global.name → func.NamedLike decl := by
  obtain ⟨module, hModule, -, hFile, -⟩ := h.entered
  obtain ⟨found, hFound, hMem⟩ := hHas
  obtain rfl : module = found := Option.some.inj (hModule.symm.trans hFound)
  have hSound := h.sound.program.globals job.id module hModule global hMem
  obtain ⟨c, func, rfl, hLike⟩ := hSound.func hKind value hValue
  refine ⟨func, ?_, (hSound.expr _ hValue).usable.of_func.1, hFile ▸ hLike⟩
  rw [Global.type?, hValue]

/-- A type or variable is declared after the pointer types that it is made of. -/
theorem Writes.declareTyped (h : job.Writes sources start handle function program session)
    (hType : type.Usable (sources.known handle function)) {item : String → CItem}
    (hItem : ∀ cType, sources.Accounts (item cType)) :
    Runs sources.Excuses session (do
      SessionM.writeTypedefs type
      SessionM.write (item (← SessionM.types (·.cType type)))) fun _ after =>
        job.Writes sources start handle function program after := by
  refine (h.writeTypedefs hType).bind fun _ after hAfter => ?_
  refine (Runs.types (hAfter.1.sound.program.settled.cType_usable hType)).bind
    fun cType last hLast => ?_
  rw [hLast.2]
  exact hAfter.write (hItem cType)

theorem Writes.writeGlobal (h : job.Writes sources start handle function program session)
    (hHas : program.Has job.id global) :
    Runs sources.Excuses session (SessionM.writeGlobal global) fun _ after =>
      job.Writes sources start handle function program after := by
  obtain ⟨h, rfl⟩ := h
  have hWrites : job.Writes sources start handle function session.program session := ⟨h, rfl⟩
  unfold SessionM.writeGlobal
  split
  · exact .pure hWrites
  · next type hType =>
      have hUsable := h.usable_of_type? hHas hType
      split
      · exact .pure hWrites
      · exact .pure hWrites
      · exact hWrites.declareTyped hUsable fun _ => trivial
      · exact hWrites.declareTyped hUsable fun _ => trivial
      · next hKind =>
          cases hValue : global.value with
          | none =>
              rw [Global.type?, hValue] at hType
              cases hType
          | some value =>
              obtain ⟨func, hFunc, hPlain, -⟩ := h.exists_func hHas hKind hValue
              obtain rfl := Option.some.inj (hType.symm.trans hFunc)
              exact hWrites.declareFunc global.cName hPlain

theorem Writes.globals (h : job.Writes sources start handle function program session) :
    Runs sources.Excuses session (SessionM.globals job.id) fun globals after =>
      (∀ global ∈ globals, program.Has job.id global) ∧ after = session := by
  obtain ⟨module, hModule, -⟩ := h.1.entered
  refine Runs.get.bind fun now last hNow => .pure ⟨?_, hNow.2⟩
  rw [hNow.1, hModule]
  exact fun global hGlobal => ⟨module, h.2 ▸ hModule, hGlobal⟩

theorem Writes.methods (h : job.Writes sources start handle function program session) :
    Runs sources.Excuses session (SessionM.methods job.id) fun methods after =>
      (∃ module, program.module? job.id = some module ∧ methods = module.methods) ∧
        (∀ method ∈ methods, method.Sound (sources.known handle function) job.file) ∧
        after = session := by
  obtain ⟨module, hModule, -, hFile, -⟩ := h.1.entered
  refine Runs.get.bind fun now last hNow => .pure ⟨⟨module, h.2 ▸ hModule, ?_⟩, ?_, hNow.2⟩
  · rw [hNow.1, hModule]
    rfl
  · rw [hNow.1, hModule, ← hFile]
    exact h.1.sound.program.methods job.id module hModule

theorem Writes.writeDeclarations (h : job.Writes sources start handle function program session) :
    Runs sources.Excuses session (SessionM.writeDeclarations job.id) fun _ after =>
      job.Writes sources start handle function program after := by
  refine h.globals.bind fun globals last hGlobals => ?_
  obtain ⟨hGlobals, rfl⟩ := hGlobals
  refine (Runs.forM_mem _ h fun global hGlobal before hBefore =>
    hBefore.writeGlobal (hGlobals global hGlobal)).bind fun _ after hAfter => ?_
  refine hAfter.methods.bind fun methods last hMethods => ?_
  obtain ⟨-, hMethods, rfl⟩ := hMethods
  refine Runs.forM_mem _ hAfter fun method hMethod before hBefore => ?_
  have hType := (hMethods method hMethod).type
  obtain ⟨func, hFunc⟩ := hType.exists_func
  rw [hFunc] at hType ⊢
  exact hBefore.declareFunc method.cName hType

/-! ## Routines -/

theorem Writes.writeInit (h : job.Writes sources start handle function program session)
    (hInit : ∀ routine ∈ init, ∃ supply,
      InitRun sources job.file job.file.vars (Routine.start supply) routine) :
    Runs sources.Excuses session (SessionM.writeInit job init) fun _ after =>
      job.Writes sources start handle function program after := by
  cases init with
  | none => exact .pure h
  | some routine =>
      obtain ⟨supply, hRun⟩ := hInit routine rfl
      exact h.write ⟨job.file, supply, routine, h.1.sourced, hRun, rfl, rfl⟩

/-- A function or method of the module is written as what its body was compiled to. -/
theorem Writes.writeFunc (h : job.Writes sources start handle function program session)
    (cName : String) (hFunc : (Ty.func func).PlainFunc (sources.known handle function))
    (hAssigns : program.Assigns job.id job.file decl func) (hLike : func.NamedLike decl)
    (hDecl : decl ∈ job.file.funcs ∨ decl ∈ job.file.methods) :
    Runs sources.Excuses session (SessionM.writeFunc job cName (some (.func func)) decl)
      fun _ after => job.Writes sources start handle function program after ∧
        decl.Hosted sources job.id job.file program after.output.toList := by
  have hAsk : session.program.types.Answers (session.program.types.func? (.func func))
      (· = some func) := rfl
  refine (Runs.types hAsk).bind fun found last hFound => ?_
  obtain ⟨⟨-, rfl⟩, rfl⟩ := hFound
  refine (Runs.types (h.1.sound.program.settled.prototype_plain cName hFunc)).bind
    fun prototype after hPrototype => ?_
  obtain ⟨⟨hPrototype, -⟩, rfl⟩ := hPrototype
  unfold FuncDecl.Hosted
  cases hBody : decl.body with
  | none =>
      have hAccounts : sources.Accounts (.native prototype) := trivial
      exact (h.write hAccounts).mono fun _ after hAfter => ⟨hAfter, nofun⟩
  | some body =>
      have hFormed := (sources.formed h.1.sourced handle function).body hDecl hBody
      have hSafe : Safe h.1.sound.program.setting (compileBody func body decl.span) fun _ => True :=
        compileBody_safe rfl hFunc hFormed decl.span
      refine (h.1.toBuilds.routine hSafe).bind fun found last hFound => ?_
      obtain ⟨⟨⟩, routine⟩ := found
      have hRun := hFound.run
      have hAdvances : Routine.Advances (fun _ => True) _ routine :=
        compileBody_advances (fun _ _ => trivial) (fun _ _ => trivial) hRun
      have hNext : job.Writes sources start handle function program last := by
        rw [hFound.session]
        exact ⟨h.1.withSupply hAdvances.made, h.2⟩
      have hDefines : routine.Defines :=
        compileBody_defines hRun (by simp [Routine.Defines, Routine.start])
      refine (hNext.1.writeTypedefItems hDefines).bind fun _ after hAfter => ?_
      have hLast : job.Writes sources start handle function program after :=
        ⟨hAfter.1, hAfter.2.trans hNext.2⟩
      have hHosts := h.1.toBuilds.env_hosts hFunc
      have hAccounts : sources.Accounts
          (.routine (.func prototype) routine.locals.toList routine.body.toList) :=
        ⟨job.package, job.file, decl, body, func, cName, _, _, routine, h.1.sourced, hDecl, hBody,
          hLike, hHosts, hPrototype, hRun, rfl, rfl⟩
      refine ((hLast.write hAccounts).both (Runs.write sources.Excuses after _)).mono
        fun _ last hAfter => ⟨hAfter.1, ?_⟩
      rintro _ ⟨⟩
      exact ⟨func, prototype, cName, _, _, routine, hAssigns, hLike, hHosts, rfl, h.2, hPrototype,
        hRun, hAfter.2⟩

/-- A declared function is built by the time it is written. -/
theorem Writes.exists_global (h : job.Writes sources start handle function program session)
    (hDecl : decl ∈ job.file.funcs) :
    ∃ global func, session.program.global? job.id decl.name = some global ∧
      global.type? = some (.func func) ∧ (Ty.func func).PlainFunc (sources.known handle function) ∧
      func.NamedLike decl := by
  have hNamed : decl.name ∈ job.file.names .func := List.mem_map_of_mem hDecl
  obtain ⟨found, hFound, hKind, hName⟩ := Declaration.exists_ofFile_iff.mpr hNamed
  obtain ⟨global, hGlobal, hHas, hDeclares⟩ := h.1.exists_global hFound
  have hIsFunc : global.kind = .func := hDeclares.kind.trans hKind
  cases hValue : global.value with
  | none => exact absurd hIsFunc (h.1.waiting global hHas hValue).2
  | some value =>
      obtain ⟨func, hType, hPlain, hLike⟩ := h.1.exists_func hHas hIsFunc hValue
      exact ⟨global, func, hName ▸ hGlobal, hType, hPlain,
        hLike decl hDecl (hName.symm.trans hDeclares.name.symm)⟩

theorem Writes.writeDeclaredFunc (h : job.Writes sources start handle function program session)
    (hDecl : decl ∈ job.file.funcs) :
    Runs sources.Excuses session (SessionM.writeDeclaredFunc job decl) fun _ after =>
      job.Writes sources start handle function program after ∧
        decl.Hosted sources job.id job.file program after.output.toList := by
  obtain ⟨global, func, hGlobal, hType, hPlain, hLike⟩ := h.exists_global hDecl
  refine Runs.global?.bind fun current last hCurrent => ?_
  rw [hCurrent.1, hCurrent.2, hGlobal]
  show Runs _ _ (SessionM.writeFunc job global.cName global.type? decl) _
  rw [hType]
  exact h.writeFunc global.cName hPlain (.func hDecl (h.2 ▸ hGlobal) hType) hLike (.inl hDecl)

theorem Writes.writeMethod (h : job.Writes sources start handle function program session)
    {module : Module} (hModule : program.module? job.id = some module) {method : Method}
    (hMethod : method ∈ module.methods)
    (hSound : method.Sound (sources.known handle function) job.file) :
    Runs sources.Excuses session (SessionM.writeMethod job method) fun _ after =>
      job.Writes sources start handle function program after ∧
        ∀ decl ∈ job.file.methods[method.decl]?,
          decl.Hosted sources job.id job.file program after.output.toList := by
  obtain ⟨func, decl, hFunc, hPlain, hDecl, hLike⟩ := hSound.exists_decl
  unfold SessionM.writeMethod
  rw [hDecl, hFunc]
  refine (h.writeFunc method.cName hPlain (.method hModule hMethod hDecl hFunc) hLike
    (.inr (List.mem_of_getElem? hDecl))).mono fun _ after hAfter => ⟨hAfter.1, ?_⟩
  rintro _ ⟨⟩
  exact hAfter.2

/-- Writing all functions and methods of a module. -/
theorem Writes.writeFuncs (h : job.Writes sources start handle function program session) :
    Runs sources.Excuses session (SessionM.writeFuncs job) fun _ after =>
      job.Writes sources start handle function program after := by
  refine (Runs.forM_mem _ h fun decl hDecl before hBefore =>
    (hBefore.writeDeclaredFunc hDecl).mono fun _ _ hAfter => hAfter.1).bind fun _ after hAfter => ?_
  refine hAfter.methods.bind fun methods last hMethods => ?_
  obtain ⟨⟨module, hModule, rfl⟩, hSound, rfl⟩ := hMethods
  exact Runs.forM_mem _ hAfter fun method hMethod before hBefore =>
    (hBefore.writeMethod hModule hMethod (hSound method hMethod)).mono fun _ _ hAfter => hAfter.1

/-- Writing a module from its declarations on leaves the program as it is. -/
theorem Ready.writeAll (h : job.Ready sources start handle function MayWait session)
    (hInit : ∀ routine ∈ init, ∃ supply,
      InitRun sources job.file job.file.vars (Routine.start supply) routine) :
    Runs sources.Excuses session (do
      SessionM.writeDeclarations job.id
      SessionM.writeInit job init
      SessionM.writeFuncs job) fun _ after =>
        job.Writes sources start handle function session.program after := by
  have hWrites : job.Writes sources start handle function session.program session := ⟨h, rfl⟩
  refine hWrites.writeDeclarations.bind fun _ declared hDeclared => ?_
  exact (hDeclared.writeInit hInit).bind fun _ set hSet => hSet.writeFuncs

end Job

end GoToC
