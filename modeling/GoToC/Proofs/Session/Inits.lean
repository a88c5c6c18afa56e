import GoToC.Proofs.Session.Values

/-!
# Initializers of variables

The initializers of all variables of a module go into one routine. Each of them is
compiled where the one before it left off, and what it comes to is stored in the variable
after a conversion.
-/

namespace GoToC.Job

variable {sources : Sources} {start session : Session} {job : Job} {handle : Nat → Prop}
  {function : Prop} {left : Global → Prop}

/-- Writing an item whose origin is accounted for. -/
theorem Ready.write (h : job.Ready sources start handle function left session) {item : CItem}
    (hItem : sources.Accounts item) :
    Runs sources.Excuses session (SessionM.write item) fun _ after =>
      job.Ready sources start handle function left after ∧ after.program = session.program := by
  refine (Runs.changed _).mono fun _ after hAfter => ?_
  rw [hAfter]
  refine ⟨⟨⟨⟨⟨h.sound.program, h.sound.made, h.sound.faithful, ?_⟩, ⟨h.extended.modules,
    h.extended.builtin, h.extended.next, h.extended.targets⟩, h.later, h.sourced, h.entered,
    h.fresh⟩, h.own⟩, h.waiting⟩, rfl⟩
  intro found hFound
  rw [Array.toList_push] at hFound
  rcases List.mem_append.mp hFound with hFound | hFound
  · exact h.sound.items found hFound
  · rw [List.mem_singleton.mp hFound]
    exact hItem

theorem Ready.writeTypedefItems (h : job.Ready sources start handle function left session)
    {routine : Routine} (hDefines : routine.Defines) :
    Runs sources.Excuses session (routine.typedefs.forM SessionM.write) fun _ after =>
      job.Ready sources start handle function left after ∧ after.program = session.program := by
  refine Runs.arrayForM (fun after => job.Ready sources start handle function left after ∧
    after.program = session.program) ⟨h, rfl⟩ fun item hItem before hBefore => ?_
  obtain ⟨number, prototype, rfl⟩ := hDefines item hItem
  have hItem : sources.Accounts (.funcTypedef number prototype) := trivial
  refine (hBefore.1.write hItem).mono fun _ after hAfter => ?_
  exact ⟨hAfter.1, hAfter.2.trans hBefore.2⟩

/-- While initializers are compiled into a routine: whatever the others make of it is what
all of them make of the first one. -/
structure Inits (sources : Sources) (start : Session) (job : Job) (handle : Nat → Prop)
    (function : Prop) (left : Global → Prop) (first : Routine) (rest : List (VarDecl × Option Ty))
    (routine : Routine) (session : Session) : Prop
    extends job.Ready sources start handle function left session where
  supply : routine.supply = session.supply
  blocks : routine.Sound (sources.known handle function)
  defines : routine.Defines
  declared : ∀ entry ∈ rest, entry.1 ∈ job.file.vars ∧
    ∀ type, entry.2 = some type → type.Usable (sources.known handle function)
  run : ∀ after, InitRun sources job.file (rest.map (·.1)) routine after →
    InitRun sources job.file job.file.vars first after

variable {first routine : Routine} {decl : VarDecl} {declared : Option Ty}
  {rest : List (VarDecl × Option Ty)}

theorem Ready.inferType (h : job.Ready sources start handle function left session) {type : Ty}
    (hType : type.Usable (sources.known handle function)) (decl : VarDecl) :
    Runs sources.Excuses session (SessionM.inferType job decl type) fun found after =>
      found.Usable (sources.known handle function) ∧ after = session := by
  have hSettled := h.sound.program.settled
  refine (Runs.types (hSettled.isPrim_usable hType .constInt)).bind fun isInt after hAfter => ?_
  rw [hAfter.2]
  split
  · exact .pure ⟨ExprRule.int_plain.usable, rfl⟩
  · refine (Runs.types (hSettled.hasZeroValue_usable hType)).bind fun hasZero after hAfter => ?_
    rw [hAfter.2]
    refine (Runs.types (hSettled.isPrim_usable hType .nil)).bind fun isNil after hAfter => ?_
    rw [hAfter.2]
    split
    · exact .pure ⟨hType, rfl⟩
    · exact .error _ _ _

/-- What is stored in a variable. -/
def store (decl : VarDecl) (type : Ty) (value : Typed) (cName : String) : RoutineM Unit := do
  let converted ← RoutineM.convert type value decl.span "in variable initializer"
  let cType ← RoutineM.types (·.cType type)
  RoutineM.emit (.store (.global cName) cType converted)

theorem store_safe {s : Setting} (decl : VarDecl) {type : Ty} {value : Typed} (cName : String)
    (hType : type.Usable s.values) (hValue : value.Sound s.values) :
    Safe s (store decl type value cName) fun _ => True :=
  (Safe.convert hType hValue _ _).bind fun _ _ =>
    (Safe.types (s.settled.cType_usable hType)).bind fun _ _ => .emit _

theorem store_composed (decl : VarDecl) (type : Ty) (value : Typed) (cName : String) :
    Composed .expr .any (store decl type value cName) :=
  .bind (.convert _ _ _ _ trivial) fun _ => .bind (.types _) fun _ => .emit _ (.inr rfl)

/-- Storing adds one statement. -/
theorem exists_of_store {env : Env} {type : Ty} {value : Typed} {cName : String} {after : Routine}
    (run : (store decl type value cName).exec env routine = (.ok (), after)) :
    ∃ converted cType,
      (RoutineM.convert type value decl.span "in variable initializer").exec env routine =
        (.ok converted, routine) ∧
      after = { routine with body := routine.body.push (.store (.global cName) cType
        converted) } := by
  obtain ⟨converted, middle, hConvert, hRest⟩ := RoutineM.bind_eq_ok.mp run
  have hSame := (RoutineM.Idle.convert type value decl.span "in variable initializer").asks env
    routine
  rw [hConvert] at hSame
  obtain rfl : middle = routine := hSame
  obtain ⟨cType, last, hType, hEmit⟩ := RoutineM.bind_eq_ok.mp hRest
  obtain ⟨-, rfl⟩ := RoutineM.types_eq_ok.mp hType
  cases hEmit
  exact ⟨converted, cType, hConvert, rfl⟩

theorem Inits.skip (hNone : decl.init = none)
    (h : job.Inits sources start handle function left first ((decl, declared) :: rest) routine
      session) : job.Inits sources start handle function left first rest routine session :=
  ⟨h.toReady, h.supply, h.blocks, h.defines, (List.forall_mem_cons.mp h.declared).2,
    fun after hAfter => h.run after (.skip hNone hAfter)⟩

/-- What an initializer came to is stored, after which the others follow. -/
theorem Inits.storeInit
    (h : job.Inits sources start handle function left first ((decl, declared) :: rest) routine
      session)
    {init : Expr} (hInit : decl.init = some init) {value : Typed} {next : Routine}
    {middle : Session}
    (hFound : job.Resumed session routine (operand init).value (sources.known handle function)
      (Typed.Sound (sources.known handle function)) (value, next) middle)
    {type : Ty} (hType : type.Usable (sources.known handle function)) :
    Runs sources.Excuses middle (do
      let cName ← SessionM.setType job.id decl.name type
      return (← SessionM.resume job next (store decl type value cName)).2)
      fun routine after => job.Inits sources start handle function left first rest routine
        after := by
  have hComposed : Composed .expr .any (operand init).value := value_composed .expr init
  have hMiddle := h.toReady.resumed hComposed hFound
  refine (hMiddle.setType (h.declared _ List.mem_cons_self).1 hType).bind
    fun cName final hFinal => ?_
  obtain ⟨hReady, hSupply⟩ := hFinal
  refine (hReady.toBuilds.resume hFound.sound (store_safe decl cName hType hFound.good)).bind
    fun stored after hStored => .pure ?_
  obtain ⟨⟨⟩, last⟩ := stored
  have hFirst : { routine with supply := session.supply } = routine := by rw [← h.supply]
  have hNext : { next with supply := final.supply } = next := by rw [hSupply, hFound.session]
  have hRun := hFound.run
  have hStore := hStored.run
  rw [hFirst] at hRun
  rw [hNext] at hStore
  obtain ⟨converted, cType, hConvert, hLast⟩ := exists_of_store hStore
  refine ⟨hReady.resumed (store_composed decl type value cName) hStored, ?_, hStored.sound, ?_,
    (List.forall_mem_cons.mp h.declared).2, fun after' hAfter => ?_⟩
  · rw [hStored.session]
  · exact (store_composed decl type value cName).defines hStore (hComposed.defines hRun h.defines)
  · rw [hLast] at hAfter
    exact h.run after' (.set hInit h.env_occurs hRun hReady.env_occurs hConvert hAfter)

theorem Inits.buildInit
    (h : job.Inits sources start handle function left first ((decl, declared) :: rest) routine
      session) :
    Runs sources.Excuses session (SessionM.buildInit job routine decl declared)
      fun routine after => job.Inits sources start handle function left first rest routine
        after := by
  obtain ⟨hDecl, hDeclared⟩ := h.declared (decl, declared) List.mem_cons_self
  unfold SessionM.buildInit
  split
  · next hNone => exact .pure (h.skip hNone)
  · next init hInit =>
      have hFormed := ((sources.formed h.sourced handle function).vars decl hDecl).2.2 init hInit
      have hSafe : (operand init).Sound h.sound.program.setting := operand_safe rfl init hFormed
      have hComposed : Composed .expr .any (operand init).value := value_composed .expr init
      refine (h.toBuilds.resume h.blocks hSafe.value).bind fun found middle hFound => ?_
      obtain ⟨value, next⟩ := found
      have hMiddle := h.toReady.resumed hComposed hFound
      cases declared with
      | some type => exact h.storeInit hInit hFound (hDeclared type rfl)
      | none =>
          refine (hMiddle.inferType hFound.good.usable decl).bind fun type last hLast => ?_
          obtain ⟨hType, rfl⟩ := hLast
          exact h.storeInit hInit hFound hType

theorem Ready.usable_of_type? (h : job.Ready sources start handle function left session)
    {global : Global} {type : Ty} (hHas : session.program.Has job.id global)
    (hType : global.type? = some type) : type.Usable (sources.known handle function) := by
  obtain ⟨module, hModule, hMem⟩ := hHas
  have hSound := h.sound.program.globals job.id module hModule global hMem
  unfold Global.type? at hType
  split at hType
  · next found hValue => exact (Option.some.inj hType ▸ hSound.type found hValue).usable
  · next e hValue => exact Option.some.inj hType ▸ (hSound.expr e hValue).usable
  · cases hType

/-- The variables of the module with the types that they are written with. -/
theorem Ready.declaredTypes (h : job.Ready sources start handle function left session) :
    Runs sources.Excuses session (SessionM.declaredTypes job) fun vars after =>
      after = session ∧ vars.map (·.1) = job.file.vars ∧
        ∀ entry ∈ vars, ∀ type, entry.2 = some type →
          type.Usable (sources.known handle function) := by
  refine (Runs.mapM (fun rest done after => after = session ∧
    done.map (·.1) ++ rest = job.file.vars ∧ ∀ entry ∈ done, ∀ type, entry.2 = some type →
      type.Usable (sources.known handle function)) ⟨rfl, rfl, by simp⟩ ?_).mono
    fun vars after hAfter => ?_
  · rintro decl rest done before ⟨rfl, hDone, hUsable⟩
    refine Runs.global?.bind fun found last hFound => .pure ?_
    refine ⟨hFound.2, by rw [← hDone]; simp, fun entry hEntry type hType => ?_⟩
    rcases List.mem_append.mp hEntry with hEntry | hEntry
    · exact hUsable entry hEntry type hType
    · rw [List.mem_singleton.mp hEntry, hFound.1] at hType
      obtain ⟨global, hGlobal, hType⟩ := Option.bind_eq_some_iff.mp hType
      exact h.usable_of_type? (Program.Has.of_global? hGlobal).1 hType
  · rw [List.append_nil] at hAfter
    exact hAfter

/-- The routine of all initializers, if there are any, is what they make of a new one. -/
theorem Ready.buildInits (h : job.Ready sources start handle function left session) :
    Runs sources.Excuses session (SessionM.buildInits job) fun init after =>
      job.Ready sources start handle function left after ∧ ∀ routine ∈ init, ∃ supply,
          InitRun sources job.file job.file.vars (Routine.start supply) routine := by
  unfold SessionM.buildInits
  split
  · exact .pure ⟨h, by simp⟩
  · refine h.declaredTypes.bind fun vars after hVars => ?_
    obtain ⟨rfl, hVars, hUsable⟩ := hVars
    refine Runs.get.bind fun now last hNow => ?_
    rw [hNow.1, hNow.2]
    have hFirst : job.Inits sources start handle function left (Routine.start after.supply) vars
        (Routine.start after.supply) after := by
      refine ⟨h, rfl, Routine.Sound.start _ _, by simp [Routine.Defines, Routine.start],
        fun entry hEntry => ⟨?_, hUsable entry hEntry⟩, fun last hLast => ?_⟩
      · rw [← hVars]
        exact List.mem_map_of_mem hEntry
      · rwa [hVars] at hLast
    refine (Runs.foldlM _ hFirst fun entry rest routine before hBefore => hBefore.buildInit).bind
      fun routine built hBuilt => ?_
    refine (hBuilt.toReady.writeTypedefItems hBuilt.defines).bind fun _ final hFinal => .pure ?_
    refine ⟨hFinal.1, ?_⟩
    rintro found ⟨⟩
    exact ⟨after.supply, hBuilt.run routine .done⟩

/-- Building the declarations of a module once its imports are built. -/
theorem Begun.buildOwn (h : job.Begun sources start session) :
    Runs sources.Excuses session (do
      SessionM.buildTypes job
      job.file.consts.forM (SessionM.buildConst job)
      job.file.vars.forM (SessionM.buildVar job)
      job.file.funcs.forM (SessionM.buildFunc job)
      SessionM.buildMethods job 0 job.file.methods
      SessionM.buildInits job) fun init after =>
        (∃ handle function, job.Ready sources start handle function MayWait after) ∧
          ∀ routine ∈ init, ∃ supply,
            InitRun sources job.file job.file.vars (Routine.start supply) routine := by
  refine h.buildTypes.bind fun _ typed hTyped => ?_
  obtain ⟨handle, function, hTyped⟩ := hTyped
  refine (Runs.forM_mem _ hTyped fun decl hDecl before hBefore => hBefore.buildConst hDecl).bind
    fun _ folded hFolded => ?_
  refine (Runs.forM_mem _ hFolded fun decl hDecl before hBefore => hBefore.buildVar hDecl).bind
    fun _ declared hDeclared => ?_
  refine hDeclared.buildFuncs.bind fun _ signed hSigned => ?_
  obtain ⟨function, hSigned⟩ := hSigned
  refine (hSigned.buildMethods rfl).bind fun _ complete hComplete => ?_
  exact hComplete.buildInits.mono fun init after hAfter => ⟨⟨handle, function, hAfter.1⟩, hAfter.2⟩

/-- Building all declarations of a module. -/
theorem Begun.build {importer : Importer} (h : job.Begun sources start session)
    (hImports : job.Imports sources start importer) :
    Runs sources.Excuses session (SessionM.build importer job) fun init after =>
      (∃ handle function, job.Ready sources start handle function MayWait after) ∧
        ∀ routine ∈ init, ∃ supply,
          InitRun sources job.file job.file.vars (Routine.start supply) routine :=
  (h.buildImports hImports).bind fun _ _ hImported => hImported.buildOwn

end GoToC.Job
