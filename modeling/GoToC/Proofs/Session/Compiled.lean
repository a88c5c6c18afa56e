import GoToC.Proofs.Session.Imports

/-!
# The modules of a compiled program

A program is compiled only if all its modules are: each of them had its names entered and its
imports built, and then its own declarations were built and written as a whole. So every body of
a function or method of a compiled program was compiled.
-/

namespace GoToC

variable {job : Job} {decl : FuncDecl} {text : String} {withBuiltin : Bool}

/-- The declarations of a module are built and written, once its imports are built. -/
def Job.Compiles (job : Job) : Prop :=
  ∃ module before after, before.program.module? job.id = some module ∧ module.Awaits job ∧
    (SessionM.compileOwn job).exec before = (.ok (), after)

/-- A module that is compiled compiles each of its functions and methods. -/
theorem Job.Compiles.compiled (h : job.Compiles)
    (hDecl : decl ∈ job.file.funcs ∨ decl ∈ job.file.methods) : decl.Compiled job := by
  obtain ⟨module, before, after, hModule, hAwaits, hRun⟩ := h
  obtain ⟨_, _, _, _, hWriting⟩ := hAwaits.written hModule hRun
  exact hWriting.compiled decl hDecl

/-- A session that has come from another one by compiling modules: all that are new are compiled,
and those that were known are the same, apart from one that may be on its way. -/
structure Session.Gains (changing : ModuleId → Prop) (before after : Session) : Prop where
  modules : ∀ id module, before.program.module? id = some module →
    ∃ module', after.program.module? id = some module' ∧ module'.file = module.file ∧
      (¬ changing id → module' = module)
  added : ∀ id module, after.program.module? id = some module →
    before.program.module? id = none → ∃ job : Job, job.file = module.file ∧ job.Compiles

namespace Session.Gains

variable {changing changing' : ModuleId → Prop} {first second third : Session}

theorem of_modules (h : second.program.modules = first.program.modules) :
    first.Gains changing second := by
  have hSame (id : ModuleId) : second.program.module? id = first.program.module? id := by
    rw [Program.module?, h]
    rfl
  refine ⟨fun id module hModule => ⟨module, (hSame id).trans hModule, rfl, fun _ => rfl⟩, ?_⟩
  intro id module hModule hNone
  rw [hSame, hNone] at hModule
  cases hModule

theorem refl (changing : ModuleId → Prop) (session : Session) : session.Gains changing session :=
  of_modules rfl

theorem mono (h : first.Gains changing second) (imp : ∀ id, changing id → changing' id) :
    first.Gains changing' second where
  modules id module hModule := by
    obtain ⟨module', hModule', hFile, hSame⟩ := h.modules id module hModule
    exact ⟨module', hModule', hFile, fun hChanging => hSame fun hId => hChanging (imp id hId)⟩
  added := h.added

theorem trans (h : first.Gains changing second) (h' : second.Gains changing third) :
    first.Gains changing third where
  modules id module hModule := by
    obtain ⟨module', hModule', hFile, hSame⟩ := h.modules id module hModule
    obtain ⟨module'', hModule'', hFile', hSame'⟩ := h'.modules id module' hModule'
    exact ⟨module'', hModule'', hFile'.trans hFile, fun hId => (hSame' hId).trans (hSame hId)⟩
  added id module hModule hNone := by
    cases hMiddle : second.program.module? id with
    | none => exact h'.added id module hModule hMiddle
    | some module' =>
        obtain ⟨module'', hModule'', hFile, -⟩ := h'.modules id module' hMiddle
        obtain rfl : module = module'' := Option.some.inj (hModule.symm.trans hModule'')
        rw [hFile]
        exact h.added id module' hMiddle hNone

/-- What a module does itself makes no module known. -/
theorem of_touches (h : job.Touches first second) : first.Gains (· = job.id) second where
  modules id module hModule := by
    by_cases hId : id = job.id
    · have hOwn := h.own
      rw [← hId, hModule] at hOwn
      obtain ⟨module', hModule', hSame⟩ := Option.map_eq_some_iff.mp hOwn
      exact ⟨module', hModule', congrArg Prod.snd hSame, fun hOther => absurd hId hOther⟩
    · exact ⟨module, (h.others id hId).trans hModule, rfl, fun _ => rfl⟩
  added id module hModule hNone := by
    have hLess := (List.getElem?_eq_some_iff.mp hModule).1
    rw [h.count] at hLess
    exact absurd (List.getElem?_eq_none_iff.mp hNone) (Nat.not_le_of_lt hLess)

/-- A module that is new has been compiled by the time it is noted. -/
theorem register {name : String} {file : SourceFile} {job : Job}
    (hId : job.id = first.program.modules.length) (hFile : job.file = file)
    (h : (Job.registered first name file).Gains (· = job.id) second) (hCompiles : job.Compiles)
    (finished : List ModuleId) :
    first.Gains (fun _ => False) { second with finished := finished } := by
  have hOld {id : ModuleId} {module : Module} (hModule : first.program.module? id = some module) :
      id ≠ job.id ∧ (Job.registered first name file).program.module? id = some module := by
    have hLess := (List.getElem?_eq_some_iff.mp hModule).1
    exact ⟨hId ▸ Nat.ne_of_lt hLess, (List.getElem?_append_left hLess).trans hModule⟩
  refine ⟨fun id module hModule => ?_, fun id module hModule hNone => ?_⟩
  · obtain ⟨hOther, hBefore⟩ := hOld hModule
    obtain ⟨module', hModule', hFile, hSame⟩ := h.modules id module hBefore
    exact ⟨module', hModule', hFile, fun _ => hSame hOther⟩
  · cases hBefore : (Job.registered first name file).program.module? id with
    | none => exact h.added id module hModule hBefore
    | some module' =>
        obtain ⟨module'', hModule'', hSame, -⟩ := h.modules id module' hBefore
        obtain rfl : module = module'' := Option.some.inj (hModule.symm.trans hModule'')
        rcases Program.module?_register hBefore with hBefore | ⟨-, rfl⟩
        · rw [hNone] at hBefore
          cases hBefore
        · exact ⟨job, hFile.trans hSame.symm, hCompiles⟩

end Session.Gains

/-! ## Modules with their imports -/

namespace SessionM

variable {library : Library}

mutual

theorem Compiling.gains {name text : String} {session after : Session} {log : List String}
    {result : Except Failure ModuleId} : Compiling library name text session log result after →
      ∀ id, result = .ok id → session.Gains (fun _ => False) after
  | .known _ => fun _ _ => .refl _ session
  | .unread _ _ => nofun
  | .failed _ _ _ => nofun
  | .done _ _ hBuilding => fun _ _ => by
      obtain ⟨hGains, hCompiles⟩ := Building.gains hBuilding List.getElem?_concat_length rfl
      exact hGains.register rfl rfl hCompiles _

/-- A module that has become known is compiled with all that it imports. -/
theorem Building.gains {job : Job} {session after : Session} {log : List String}
    {result : Except Failure Unit} : Building library job session log result after →
      session.program.module? job.id = some (Module.ofFile job.package job.file) →
      result = .ok () → session.Gains (· = job.id) after ∧ job.Compiles
  | .undeclared _ => fun _ => nofun
  | .failed _ _ => fun _ => nofun
  | .own hDeclare hFollowing hOwn => fun hModule hResult => by
      have hFollows := Following.gains hFollowing
      obtain ⟨hTouches, module, hFound, hAwaits, -⟩ :=
        (Job.does_declareAll hModule).success hDeclare
      obtain ⟨hImported, module', hFound', hAwaits'⟩ := hFollows module hFound hAwaits rfl
      rw [hResult] at hOwn
      have hTouches' := Job.touches_of_goes (fun _ => Job.goes_compileOwn) hOwn
      exact ⟨((Session.Gains.of_touches hTouches).trans hImported).trans (.of_touches hTouches'),
        module', _, _, hFound', hAwaits', hOwn⟩

theorem Following.gains {job : Job} {imports : List ImportDecl} {session after : Session}
    {log : List String} {result : Except Failure Unit} :
    Following library job imports session log result after →
      ∀ module, session.program.module? job.id = some module → module.Awaits job →
      result = .ok () → session.Gains (· = job.id) after ∧
        ∃ module', after.program.module? job.id = some module' ∧ module'.Awaits job
  | .nil => fun module hModule hAwaits _ => ⟨.refl _ session, module, hModule, hAwaits⟩
  | .failed _ => fun _ _ _ => nofun
  | .unset _ _ => fun _ _ _ => nofun
  | .cons hImporting hSet hFollowing => fun module hModule hAwaits hResult => by
      have hImported := Importing.gains hImporting _ rfl
      have hFollows := Following.gains hFollowing
      obtain ⟨same, hSame, -, hUnchanged⟩ := hImported.modules job.id module hModule
      rw [hUnchanged id] at hSame
      obtain ⟨hTouches, rfl⟩ := (Job.does_setValue _ _).success hSet
      obtain ⟨hRest, hLast⟩ := hFollows _ (by
        show (Program.updateModule _ job.id _).module? job.id = _
        rw [Program.module?_updateModule, if_pos rfl, hSame]
        rfl) (hAwaits.setImport _ _) hResult
      exact ⟨((hImported.mono nofun).trans (.of_touches hTouches)).trans hRest, hLast⟩

theorem Importing.gains {name asking : String} {span : Span} {session after : Session}
    {log : List String} {result : Except Failure ModuleId} :
    Importing library name asking span session log result after →
      ∀ id, result = .ok id → session.Gains (fun _ => False) after
  | .known _ => fun _ _ => .refl _ session
  | .unloaded _ _ => nofun
  | .loaded _ _ hCompiling => Compiling.gains hCompiling

end

theorem Running.gains {log : List String} {after : Session}
    (h : Running library text withBuiltin log (.ok ()) after) :
    (Session.empty.writing [.includes]).Gains (fun _ => False) after := by
  have hMain {session : Session} {log : List String} {found : Except Failure ModuleId}
      (hCompiling : Compiling library mainName text session log found after)
      (hFound : .ok () = found.map fun _ => ()) : session.Gains (fun _ => False) after := by
    cases found with
    | error failure => cases hFound
    | ok id => exact hCompiling.gains id rfl
  generalize hResult : (.ok () : Except Failure Unit) = result at h
  cases h with
  | plain hCompiling => exact hMain hCompiling hResult
  | failed => cases hResult
  | @shared _ _ builtin _ loaded _ hImporting hCompiling =>
      have hLoaded := hImporting.gains builtin rfl
      have hShared : loaded.Gains (fun _ => False)
          { loaded with program := { loaded.program with builtin := some builtin } } :=
        .of_modules rfl
      exact (hLoaded.trans hShared).trans (hMain hCompiling hResult)

end SessionM

/-- Every function and method of a program that is compiled is compiled. -/
theorem SourceFile.compiled {library : Library} {session : Session}
    (hRun : (SessionM.compileProgram library withBuiltin text).exec .empty = (.ok (), session))
    {id : ModuleId} {module : Module} (hModule : session.program.module? id = some module)
    (hDecl : decl ∈ module.file.funcs ∨ decl ∈ module.file.methods) : ∃ job, decl.Compiled job := by
  obtain ⟨log, hRunning⟩ := SessionM.ends_compileProgram hRun nofun
  obtain ⟨job, hFile, hCompiles⟩ := hRunning.gains.added id module hModule rfl
  exact ⟨job, hCompiles.compiled (hFile ▸ hDecl)⟩

end GoToC
