import GoToC.Proofs.Session.Compiled
import GoToC.Proofs.Session.Handles

/-!
# What holds of every module

While a program is compiled each module is finished before the next one goes on, and a module that
is finished stays as it is. So what the compilation of its own declarations makes true of a module,
and what more output does not make false, is true of every module of a compiled program.
-/

namespace GoToC

variable {α : Type} {session after start : Session} {job : Job} {module : Module} {id : ModuleId}
  {action : SessionM α} {value : α} {program : Program} {sources : Sources} {name text : String}
  {file : SourceFile} {withBuiltin : Bool}

theorem Runs.success {bad : Session → Failure → Prop} {good : α → Session → Prop}
    (h : Runs bad session action good) (hRun : action.exec session = (.ok value, after)) :
    good value after := by
  unfold Runs at h
  rw [hRun] at h
  exact h

theorem Program.ne_none_of_eq (h : program.module? id = some module) :
    ∀ other, other = id → program.module? other ≠ none := by
  rintro _ rfl
  rw [h]
  exact Option.some_ne_none _

theorem Job.Begun.idle (h : job.Begun sources start session) : session.Idle sources := by
  obtain ⟨handle, function, hWorks, -⟩ := h
  exact ⟨handle, function, hWorks.sound⟩

/-! ## Later sessions -/

/-- A module that has come from another one: it is read from the same file, and the globals that
were there are still there and of the same kind. -/
structure Module.Grows (before after : Module) : Prop where
  name : after.name = before.name
  file : after.file = before.file
  globals : ∀ name global, before.get? name = some global →
    ∃ global', after.get? name = some global' ∧ global'.kind = global.kind

namespace Module.Grows

variable {first second third : Module}

theorem refl (module : Module) : module.Grows module :=
  ⟨rfl, rfl, fun _ global hGlobal => ⟨global, hGlobal, rfl⟩⟩

theorem trans (h : first.Grows second) (h' : second.Grows third) : first.Grows third where
  name := h'.name.trans h.name
  file := h'.file.trans h.file
  globals name global hGlobal := by
    obtain ⟨middle, hMiddle, hKind⟩ := h.globals name global hGlobal
    obtain ⟨last, hLast, hSame⟩ := h'.globals name middle hMiddle
    exact ⟨last, hLast, hSame.trans hKind⟩

theorem setValue (module : Module) (name : String) (value : GlobalValue) :
    module.Grows (module.setValue name value) :=
  ⟨rfl, rfl, fun other global hGlobal => ⟨global.given name value,
    by rw [Module.get?_setValue, hGlobal]; rfl, Global.given_kind⟩⟩

theorem addGlobal (module : Module) (added : Global) : module.Grows (module.addGlobal added) := by
  refine ⟨rfl, rfl, fun name global hGlobal => ⟨global, ?_, rfl⟩⟩
  have hFound : module.globals.find? (·.name == name) = some global := hGlobal
  show (module.globals ++ [added]).find? (·.name == name) = some global
  rw [List.find?_append, hFound]
  rfl

theorem addMethod (module : Module) (method : Method) : module.Grows (module.addMethod method) :=
  ⟨rfl, rfl, fun _ global hGlobal => ⟨global, hGlobal, rfl⟩⟩

end Module.Grows

/-- All modules of a program are in another one too, where they may have grown. -/
def Program.Within (before after : Program) : Prop :=
  ∀ id module, before.module? id = some module →
    ∃ module', after.module? id = some module' ∧ module.Grows module'

theorem Program.Within.trans {first second third : Program} (h : first.Within second)
    (h' : second.Within third) : first.Within third := by
  intro id module hModule
  obtain ⟨middle, hMiddle, hGrows⟩ := h id module hModule
  obtain ⟨last, hLast, hGrows'⟩ := h' id middle hMiddle
  exact ⟨last, hLast, hGrows.trans hGrows'⟩

/-- What a session has written a later one has written too, and it knows the same modules. -/
structure Session.Precedes (before after : Session) : Prop where
  output : before.output.toList ⊆ after.output.toList
  modules : before.program.Within after.program

namespace Session.Precedes

variable {first second third session : Session} {job : Job}

theorem trans (h : first.Precedes second) (h' : second.Precedes third) : first.Precedes third :=
  ⟨List.Subset.trans h.output h'.output, h.modules.trans h'.modules⟩

theorem of_modules (hModules : second.program.modules = first.program.modules)
    (hOutput : first.output.toList ⊆ second.output.toList) : first.Precedes second where
  output := hOutput
  modules id module hModule := by
    refine ⟨module, ?_, .refl module⟩
    rw [Program.module?, hModules]
    exact hModule

theorem refl (session : Session) : session.Precedes session :=
  .of_modules rfl (List.Subset.refl _)

theorem updateModule {update : Module → Module}
    (hUpdate : ∀ module : Module, module.Grows (update module)) :
    session.Precedes { session with program := session.program.updateModule id update } where
  output := List.Subset.refl _
  modules other module hModule := by
    rw [Program.module?_updateModule]
    by_cases hId : id = other
    · rw [if_pos hId, hModule]
      exact ⟨update module, rfl, hUpdate module⟩
    · rw [if_neg hId]
      exact ⟨module, hModule, .refl module⟩

theorem withValue (session : Session) (name : String) (value : GlobalValue) :
    session.Precedes (job.withValue session name value) :=
  updateModule (.setValue · name value)

theorem addGlobal (session : Session) (added : Global) : session.Precedes
      { session with program := session.program.updateModule job.id (·.addGlobal added) } :=
  updateModule (.addGlobal · added)

theorem addMethod (session : Session) (method : Method) : session.Precedes
      { session with program := session.program.updateModule job.id (·.addMethod method) } :=
  updateModule (.addMethod · method)

end Session.Precedes

/-- Whatever stands for a C value in a program stands for the same one in another. -/
def Program.RetainsValues (before after : Program) : Prop :=
  ∀ id name e, before.globalValue? id name = some (.expr e) →
    after.globalValue? id name = some (.expr e)

/-- A module of which nothing stands for a C value. -/
def Module.Unvalued (module : Module) : Prop :=
  ∀ global ∈ module.globals, ∀ e, global.value ≠ some (.expr e)

theorem Module.Unvalued.ofFile : (Module.ofFile name file).Unvalued := by
  simp [Module.Unvalued, Module.ofFile]

theorem Module.Unvalued.globalValue?_ne (h : module.Unvalued)
    (hModule : program.module? id = some module) (name : String) (e : Typed) :
    program.globalValue? id name ≠ some (.expr e) := by
  intro hValue
  obtain ⟨global, hGlobal, hValue⟩ := Option.map_eq_some_iff.mp hValue
  rw [Program.global?, hModule] at hGlobal
  have hMem : global ∈ module.globals := List.mem_of_find?_eq_some hGlobal
  split at hValue
  · next built hBuilt =>
      cases built with
      | expr found => exact h global hMem found hBuilt
      | type | module => cases hValue
  · cases hValue
  · cases hValue

/-- A session that precedes another one, in which what stands for a C value still does. -/
structure Session.Retains (before after : Session) : Prop extends before.Precedes after where
  values : before.program.RetainsValues after.program

namespace Session.Retains

variable {first second third : Session}

theorem trans (h : first.Retains second) (h' : second.Retains third) : first.Retains third :=
  ⟨h.toPrecedes.trans h'.toPrecedes,
    fun id name e hValue => h'.values id name e (h.values id name e hValue)⟩

theorem of_modules (hModules : second.program.modules = first.program.modules)
    (hOutput : first.output.toList ⊆ second.output.toList) : first.Retains second where
  toPrecedes := .of_modules hModules hOutput
  values id name e hValue := by
    rw [Program.globalValue?, Program.global?, Program.module?, hModules]
    exact hValue

theorem refl (session : Session) : session.Retains session := .of_modules rfl (List.Subset.refl _)

/-- Nothing is lost where a module of which nothing stands for a C value yet is changed. -/
theorem of_touches (hPrecedes : first.Precedes second) (h : job.Touches first second)
    (hModule : first.program.module? job.id = some module) (hUnvalued : module.Unvalued) :
    first.Retains second where
  toPrecedes := hPrecedes
  values id name e hValue := by
    by_cases hId : id = job.id
    · exact absurd (hId ▸ hValue) (hUnvalued.globalValue?_ne hModule name e)
    · rw [Program.globalValue?, Program.global?, h.others id hId]
      exact hValue

/-- What is known before a module is known becomes so in the same way. -/
theorem registered (session : Session) (name : String) (file : SourceFile) :
    session.Retains (Job.registered session name file) := by
  have hKept (id : ModuleId) (module : Module)
      (hModule : session.program.module? id = some module) :
      (Job.registered session name file).program.module? id = some module :=
    (List.getElem?_append_left (List.getElem?_eq_some_iff.mp hModule).1).trans hModule
  refine ⟨⟨List.Subset.refl _, fun id module hModule =>
    ⟨module, hKept id module hModule, .refl module⟩⟩, fun id other e hValue => ?_⟩
  unfold Program.globalValue? Program.global? at hValue ⊢
  cases hModule : session.program.module? id with
  | none => simp [hModule] at hValue
  | some module =>
      rw [hModule] at hValue
      rw [hKept id module hModule]
      exact hValue

end Session.Retains

/-- A step of a module leaves what was written, and all globals with their kinds. -/
theorem Job.Step.precedes {work next : Work} (h : job.Step work next) :
    work.session.Precedes next.session := by
  obtain ⟨items, hItems⟩ := h.touches.output
  have hOutput : work.session.output.toList ⊆ next.session.output.toList := by simp [hItems]
  cases h with
  | enter decl handle =>
      refine Session.Precedes.trans ?_ (.addGlobal _ (decl.toGlobal job.package handle))
      exact .of_modules rfl hOutput
  | note name target => exact .withValue work.session name (.module target)
  | @init decl _ _ _ last type global =>
      have hValue : work.session.Precedes
          (job.withValue work.session decl.name (.expr ⟨.global global.cName, type⟩)) :=
        .withValue _ _ _
      exact hValue.trans (.of_modules rfl (List.Subset.refl _))
  | type | const | var | func =>
      refine Session.Precedes.trans ?_ (.withValue _ _ _)
      exact .of_modules rfl hOutput
  | @method decl func routine record index =>
      have hTypes : work.session.Precedes { work.session with
          supply := routine.supply
          program := { work.session.program with
            types := work.session.program.types.addMethod record ⟨decl.name, .func func⟩ } } :=
        .of_modules rfl hOutput
      exact hTypes.trans (.addMethod _ ⟨SessionM.methodName record decl.name, .func func, index,
        decl.span⟩)
  | begin | flush | declare | prototype | inits | request | define =>
      exact .of_modules rfl hOutput

theorem Job.precedes_of_goes (h : ∀ work, job.Goes work action)
    (hRun : action.exec session = (.ok value, after)) : session.Precedes after := by
  obtain ⟨last, rfl, hSteps, -⟩ := Leads.success (h ⟨session, .start session.supply, []⟩ rfl) hRun
  clear hRun
  induction hSteps with
  | refl => exact .refl _
  | tail _ hLast ih => exact ih.trans hLast.precedes

/-! ## Modules that are finished -/

/-- What may be said of a module once it is finished. -/
abbrev Remark := ModuleId → Module → Session → Prop

/-- A session whose modules have different names. The remark is true of each of them, or nothing of
it stands for a C value yet. -/
structure Session.Told (remark : Remark) (session : Session) : Prop where
  distinct : (session.program.modules.map (·.name)).Nodup
  modules : ∀ id module, session.program.module? id = some module →
    remark id module session ∨ module.Unvalued

/-- A remark that the compilation of a module makes true and that stays true. -/
structure Remark.Lasts (sources : Sources) (remark : Remark) : Prop where
  later : ∀ id module session session', session.Retains session' →
    remark id module session → remark id module session'
  own : ∀ (job : Job) start session after found module, job.Begun sources start session →
    session.Told remark → session.program.module? job.id = some found → found.Awaits job →
    (SessionM.compileOwn job).exec session = (.ok (), after) →
    after.program.module? job.id = some module → remark job.id module after

/-- A session that has come from another one: modules that are not changed are the same, and the
remark is true of all that are new. -/
structure Session.Finishes (remark : Remark) (changing : ModuleId → Prop) (before after : Session) :
    Prop where
  kept : ∀ id module, before.program.module? id = some module → ¬ changing id →
    after.program.module? id = some module
  retains : before.Retains after
  distinct : (before.program.modules.map (·.name)).Nodup →
    (after.program.modules.map (·.name)).Nodup
  added : ∀ id module, after.program.module? id = some module →
    before.program.module? id = none → remark id module after

namespace Session.Finishes

variable {sources : Sources} {remark : Remark} {changing changing' : ModuleId → Prop}
  {first second third : Session}

theorem refl (changing : ModuleId → Prop) (session : Session) :
    session.Finishes remark changing session where
  kept _ _ hModule _ := hModule
  retains := .refl session
  distinct := id
  added id module hModule hNone := by
    rw [hModule] at hNone
    cases hNone

theorem mono (h : first.Finishes remark changing second) (imp : ∀ id, changing id → changing' id) :
    first.Finishes remark changing' second :=
  ⟨fun id module hModule hId => h.kept id module hModule fun hChanging => hId (imp id hChanging),
    h.retains, h.distinct, h.added⟩

/-- Modules that change are known from the start. -/
theorem trans (hLasts : remark.Lasts sources) (h : first.Finishes remark changing second)
    (h' : second.Finishes remark changing third)
    (hChanging : ∀ id, changing id → first.program.module? id ≠ none) :
    first.Finishes remark changing third where
  kept id module hModule hId := h'.kept id module (h.kept id module hModule hId) hId
  retains := h.retains.trans h'.retains
  distinct hDistinct := h'.distinct (h.distinct hDistinct)
  added id module hModule hNone := by
    cases hMiddle : second.program.module? id with
    | none => exact h'.added id module hModule hMiddle
    | some found =>
        have hSame := h'.kept id found hMiddle fun hId => hChanging id hId hNone
        obtain rfl : module = found := Option.some.inj (hModule.symm.trans hSame)
        exact hLasts.later id module _ _ h'.retains (h.added id module hMiddle hNone)

/-- What a module does itself makes no module known. -/
theorem of_touches (h : job.Touches first second) (hPrecedes : first.Precedes second)
    (hModule : first.program.module? job.id = some module) (hUnvalued : module.Unvalued) :
    first.Finishes remark (· = job.id) second where
  kept id module hModule hId := (h.others id hId).trans hModule
  retains := .of_touches hPrecedes h hModule hUnvalued
  distinct hDistinct := h.names ▸ hDistinct
  added id module hModule hNone := by
    have hLess := (List.getElem?_eq_some_iff.mp hModule).1
    rw [h.count] at hLess
    exact absurd (List.getElem?_eq_none_iff.mp hNone) (Nat.not_le_of_lt hLess)

/-- The remark stays true of what it is true of, if nothing stands for a C value yet in the modules
that change. -/
theorem told (hLasts : remark.Lasts sources) (h : first.Finishes remark changing second)
    (hTold : first.Told remark)
    (hChanging : ∀ id module, changing id → second.program.module? id = some module →
      module.Unvalued) : second.Told remark where
  distinct := h.distinct hTold.distinct
  modules id module hModule := by
    by_cases hId : changing id
    · exact .inr (hChanging id module hId hModule)
    · cases hBefore : first.program.module? id with
      | none => exact .inl (h.added id module hModule hBefore)
      | some found =>
          have hKept := h.kept id found hBefore hId
          obtain rfl : module = found := Option.some.inj (hModule.symm.trans hKept)
          exact (hTold.modules id module hBefore).imp_left (hLasts.later id module _ _ h.retains)

/-- A module that is new is finished by the time it is noted. -/
theorem register {name : String} {file : SourceFile} {job : Job}
    (hNew : first.program.find? name = none) (hId : job.id = first.program.modules.length)
    (h : (Job.registered first name file).Finishes remark (· = job.id) second)
    (hLasts : remark.Lasts sources)
    (hOwn : ∀ module, second.program.module? job.id = some module → remark job.id module second)
    (finished : List ModuleId) :
    first.Finishes remark (fun _ => False) { second with finished := finished } where
  kept id module hModule _ := by
    have hLess := (List.getElem?_eq_some_iff.mp hModule).1
    exact h.kept id module ((List.getElem?_append_left hLess).trans hModule)
      (hId ▸ Nat.ne_of_lt hLess)
  retains := by
    refine .trans (.trans (.registered first name file) h.retains) ?_
    exact .of_modules rfl (List.Subset.refl _)
  distinct hDistinct := h.distinct (names_registered hNew hDistinct)
  added id module hModule hNone := by
    have hNoted : second.Retains { second with finished := finished } :=
      .of_modules rfl (List.Subset.refl _)
    refine hLasts.later id module _ _ hNoted ?_
    by_cases hSame : id = job.id
    · rw [hSame] at hModule ⊢
      exact hOwn module hModule
    · refine h.added id module hModule (List.getElem?_eq_none_iff.mpr ?_)
      have hLe : first.program.modules.length ≤ id := List.getElem?_eq_none_iff.mp hNone
      have hNext := Nat.lt_of_le_of_ne hLe fun hEq => hSame (hEq.symm.trans hId.symm)
      simpa [Job.registered, Nat.succ_le_iff] using hNext

end Session.Finishes

theorem Job.module?_withValue (h : session.program.module? job.id = some module) (name : String)
    (value : GlobalValue) :
    (job.withValue session name value).program.module? job.id = some
      (module.setValue name value) := by
  show (Program.updateModule _ job.id _).module? job.id = _
  rw [Program.module?_updateModule, if_pos rfl, h]
  rfl

/-- Nothing of a module that is to be built stands for a C value yet. -/
theorem Module.Awaits.unvalued_of_eq (hModule : session.program.module? job.id = some module)
    (h : module.Awaits job) :
    ∀ id found, id = job.id → session.program.module? id = some found → found.Unvalued := by
  rintro _ found rfl hFound
  obtain rfl := Option.some.inj (hModule.symm.trans hFound)
  exact h.values

/-- A module that becomes known has no globals yet. -/
theorem Session.Told.registered {remark : Remark} (hLasts : remark.Lasts sources)
    (h : session.Told remark) (hNew : session.program.find? name = none) :
    (Job.registered session name file).Told remark where
  distinct := names_registered hNew h.distinct
  modules id module hModule := by
    have hAppended :
      (session.program.modules ++ [Module.ofFile name file])[id]? = some module := hModule
    rw [List.getElem?_append] at hAppended
    split at hAppended
    · exact (h.modules id module hAppended).imp_left (hLasts.later id module _ _ (.registered ..))
    · obtain rfl := List.mem_singleton.mp (List.mem_of_getElem? hAppended)
      exact .inr .ofFile

namespace SessionM

variable {sources : Sources} {remark : Remark} {library : Library}

/-- A module is built as a whole before it is written. -/
theorem compileOwn_eq (job : Job) : compileOwn job = (do
    buildTypes job
    job.file.consts.forM (buildConst job)
    job.file.vars.forM (buildVar job)
    job.file.funcs.forM (buildFunc job)
    buildMethods job 0 job.file.methods
    buildInits job) >>= fun init => (do
      writeDeclarations job.id
      writeInit job init
      writeFuncs job) := by
  simp only [compileOwn, bind_assoc]

/-- The declarations of a module are built and written, and it is sound by then. -/
theorem compileOwn_ready (h : job.Begun sources start session)
    (hRun : (compileOwn job).exec session = (.ok (), after)) :
    ∃ handle function, job.Ready sources start handle function Job.MayWait after := by
  have hReady : Runs sources.Excuses session (compileOwn job) fun _ after =>
      ∃ handle function, job.Ready sources start handle function Job.MayWait after := by
    rw [compileOwn_eq]
    refine h.buildOwn.bind fun init built hBuilt => ?_
    obtain ⟨⟨handle, function, hReady⟩, hInit⟩ := hBuilt
    exact (hReady.writeAll hInit).mono fun _ after hAfter => ⟨handle, function, hAfter.1⟩
  exact hReady.success hRun

mutual

theorem Compiling.finishes (hLasts : remark.Lasts sources) (hLibrary : library.Within sources)
    {name text : String} {session after : Session} {log : List String}
    {result : Except Failure ModuleId} : Compiling library name text session log result after →
      session.Idle sources → session.Told remark → sources.module name text → ∀ id,
        result = .ok id →
        session.Obtains sources name id after ∧ session.Finishes remark (fun _ => False) after
  | .known hFound => by
      rintro hIdle - - _ ⟨⟩
      exact ⟨.of_find? hIdle hFound, .refl _ session⟩
  | .unread _ _ => fun _ _ _ _ => nofun
  | .failed _ _ _ => fun _ _ _ _ => nofun
  | .done hNew hParse hBuilding => by
      rintro ⟨handle, function, hSound⟩ hTold hSource _ ⟨⟩
      have hFile : sources.files name _ := ⟨text, hSource, hParse⟩
      obtain ⟨⟨handle', function', hReady⟩, hFinishes, hOwn⟩ := Building.finishes hLasts hLibrary
        hBuilding (Job.enters_registered hSound hFile) (hTold.registered hLasts hNew)
        List.getElem?_concat_length rfl
      obtain ⟨module, hModule, hName, -⟩ := hReady.entered
      refine ⟨⟨⟨handle', function', hReady.sound.program, hReady.sound.made, hReady.sound.faithful,
        hReady.sound.items⟩, ⟨hReady.extended.modules, hReady.extended.builtin,
        hReady.extended.next, hReady.extended.targets⟩, ⟨module, hModule, hName⟩,
        fun _ => hReady.typed⟩, hFinishes.register hNew rfl hLasts hOwn _⟩

/-- A module that has become known is finished with all that it imports. -/
theorem Building.finishes (hLasts : remark.Lasts sources) (hLibrary : library.Within sources)
    {job : Job} {start session after : Session} {log : List String}
    {result : Except Failure Unit} {handle : Nat → Prop} {function : Prop} :
    Building library job session log result after →
      job.Enters sources start (sources.known handle function) (Declaration.ofFile job.file)
        session →
      session.Told remark →
      session.program.module? job.id = some (Module.ofFile job.package job.file) →
      result = .ok () →
        (∃ handle function, job.Ready sources start handle function Job.MayWait after) ∧
          session.Finishes remark (· = job.id) after ∧
          ∀ module, after.program.module? job.id = some module → remark job.id module after
  | .undeclared _ => fun _ _ _ => nofun
  | .failed _ _ => fun _ _ _ => nofun
  | .own hDeclare hFollowing hOwn => fun hEnters hTold hModule hResult => by
      have hFollows := Following.finishes hLasts hLibrary hFollowing start
      obtain ⟨hTouches, found, hFound, hAwaits, -⟩ := (Job.does_declareAll hModule).success hDeclare
      have hBegun : job.Begun sources start _ :=
        ⟨handle, function, hEnters.declareAll.success hDeclare⟩
      have hDeclared : session.Finishes remark (· = job.id) _ := .of_touches hTouches
        (Job.precedes_of_goes (fun _ => Job.goes_declareAll) hDeclare) hModule .ofFile
      have hTold' := hDeclared.told hLasts hTold (Module.Awaits.unvalued_of_eq hFound hAwaits)
      obtain ⟨hBegun', hImported, found', hFound', hAwaits'⟩ :=
        hFollows hBegun hTold' (fun decl hDecl => hDecl) found hFound hAwaits rfl
      rw [hResult] at hOwn
      have hTold'' := hImported.told hLasts hTold' (Module.Awaits.unvalued_of_eq hFound' hAwaits')
      have hTouches' := Job.touches_of_goes (fun _ => Job.goes_compileOwn) hOwn
      have hPrecedes' := Job.precedes_of_goes (fun _ => Job.goes_compileOwn) hOwn
      have hRest := hImported.trans hLasts (.of_touches hTouches' hPrecedes' hFound'
        hAwaits'.values) (Program.ne_none_of_eq hFound)
      exact ⟨compileOwn_ready hBegun' hOwn,
        hDeclared.trans hLasts hRest (Program.ne_none_of_eq hModule),
        fun module hLast => hLasts.own job start _ _ found' module hBegun' hTold'' hFound' hAwaits'
          hOwn hLast⟩

theorem Following.finishes (hLasts : remark.Lasts sources) (hLibrary : library.Within sources)
    {job : Job} {imports : List ImportDecl} {session after : Session} {log : List String}
    {result : Except Failure Unit} : Following library job imports session log result after →
      ∀ start, job.Begun sources start session → session.Told remark →
      (∀ decl ∈ imports, decl ∈ job.file.imports) →
      ∀ module, session.program.module? job.id = some module → module.Awaits job →
      result = .ok () → job.Begun sources start after ∧ session.Finishes remark (· = job.id) after ∧
        ∃ module', after.program.module? job.id = some module' ∧ module'.Awaits job
  | .nil => fun _ hBegun _ _ module hModule hAwaits _ =>
      ⟨hBegun, .refl _ session, module, hModule, hAwaits⟩
  | .failed _ => fun _ _ _ _ _ _ _ => nofun
  | .unset _ _ => fun _ _ _ _ _ _ _ => nofun
  | .cons hImporting hSet hFollowing =>
      fun start hBegun hTold hImports module hModule hAwaits hResult => by
      have hFollows := Following.finishes hLasts hLibrary hFollowing start
      have hImporting := Importing.finishes hLasts hLibrary hImporting
      have hDecl := hImports _ List.mem_cons_self
      obtain ⟨hObtains, hImported⟩ := hImporting hBegun.idle hTold _ rfl
      have hKept := hImported.kept job.id module hModule id
      obtain ⟨hTouches, rfl⟩ := (Job.does_setValue _ _).success hSet
      have hBegun' := (hBegun.setImport hObtains.idle hObtains.extended hDecl
        hObtains.module).success hSet
      have hNoted : Session.Finishes remark _ _ _ :=
        .of_touches hTouches (.withValue _ _ _) hKept hAwaits.values
      have hTold' := hNoted.told hLasts (hImported.told hLasts hTold nofun)
        (Module.Awaits.unvalued_of_eq (Job.module?_withValue hKept _ _) (hAwaits.setImport _ _))
      obtain ⟨hBegun'', hRest, hLast⟩ := hFollows hBegun' hTold'
        (List.forall_mem_cons.mp hImports).2 _
        (Job.module?_withValue hKept _ _) (hAwaits.setImport _ _) hResult
      have hOwn := hNoted.trans hLasts hRest (Program.ne_none_of_eq hKept)
      exact ⟨hBegun'', (hImported.mono nofun).trans hLasts hOwn
        (Program.ne_none_of_eq hModule), hLast⟩

theorem Importing.finishes (hLasts : remark.Lasts sources) (hLibrary : library.Within sources)
    {name asking : String} {span : Span} {session after : Session} {log : List String}
    {result : Except Failure ModuleId} :
    Importing library name asking span session log result after → session.Idle sources →
      session.Told remark → ∀ id, result = .ok id → session.Obtains sources name id after ∧
        session.Finishes remark (fun _ => False) after
  | .known hFound => by
      rintro hIdle - _ ⟨⟩
      exact ⟨.of_find? hIdle hFound, .refl _ session⟩
  | .unloaded _ _ => fun _ _ => nofun
  | .loaded _ hLoad hCompiling => fun hIdle hTold id hResult =>
      Compiling.finishes hLasts hLibrary hCompiling hIdle hTold (hLibrary.module _ _ hLoad)
        id hResult

end

/-- The whole compilation of a program finishes all modules. -/
theorem Running.finishes (hLasts : remark.Lasts sources) (hLibrary : library.Within sources)
    (hSource : sources.module mainName text) {log : List String}
    (h : Running library text withBuiltin log (.ok ()) after) :
    (Session.empty.writing [.includes]).Finishes remark (fun _ => False) after := by
  have hIdle : (Session.empty.writing [.includes]).Idle sources := idle_preamble sources
  have hTold : (Session.empty.writing [.includes]).Told remark := ⟨List.nodup_nil, nofun⟩
  have hMain {session : Session} {log : List String} {found : Except Failure ModuleId}
      (hIdle : session.Idle sources) (hTold : session.Told remark)
      (hCompiling : Compiling library mainName text session log found after)
      (hFound : .ok () = found.map fun _ => ()) :
      session.Finishes remark (fun _ => False) after := by
    cases found with
    | error failure => cases hFound
    | ok id => exact (hCompiling.finishes hLasts hLibrary hIdle hTold hSource id rfl).2
  generalize hResult : (.ok () : Except Failure Unit) = result at h
  cases h with
  | plain hCompiling => exact hMain hIdle hTold hCompiling hResult
  | failed => cases hResult
  | @shared _ _ builtin _ loaded _ hImporting hCompiling =>
      obtain ⟨hObtains, hLoaded⟩ := hImporting.finishes hLasts hLibrary hIdle hTold builtin rfl
      have hShared := (setBuiltin_runs hObtains.idle hObtains.module
        (hObtains.typed fun hKnows => hKnows rfl)).success rfl
      have hSame : loaded.Finishes remark (fun _ => False)
          { loaded with program := { loaded.program with builtin := some builtin } } :=
        ⟨fun _ _ hModule _ => hModule, .of_modules rfl (List.Subset.refl _), id,
          fun id module hModule hNone =>
            (Program.ne_none_of_eq (hModule : loaded.program.module? id = some module) id rfl
              hNone).elim⟩
      have hTold' := hSame.told hLasts (hLoaded.told hLasts hTold nofun) nofun
      have hRest := hMain hShared hTold' hCompiling hResult
      exact (hLoaded.trans hLasts hSame nofun).trans hLasts hRest nofun

/-- What the compilation of a module makes true of it, and what stays true, is true of every module
of a compiled program. -/
theorem compileProgram_remark {modules : List (String × String)}
    (hRun : (compileProgram (.ofList modules) withBuiltin text).exec .empty = (.ok (), session))
    (hLasts : remark.Lasts (Sources.ofProgram modules text))
    (hModule : session.program.module? id = some module) : remark id module session := by
  obtain ⟨log, hRunning⟩ := ends_compileProgram hRun nofun
  have hFinishes := hRunning.finishes hLasts (Library.within_ofList modules text) List.mem_cons_self
  exact hFinishes.added id module hModule rfl

end SessionM

end GoToC

/-!
## What globals are declared as

A module declares different names, so what is declared as a variable is no constant and no function.
Each global of a program that is part of a compiled one is of the kind that its file declares it as.
-/

namespace GoToC

variable {name text : String} {file : SourceFile} {program : Program} {id : ModuleId}
  {modules : List (String × String)} {withBuiltin : Bool} {session : Session}

/-- A file declares a name as one of the given kind, and as no other. -/
def SourceFile.DeclaresAs (file : SourceFile) (name : String) (kind : GlobalKind) : Prop :=
  name ∈ file.names kind ∧ ∀ other, name ∈ file.names other → other = kind

theorem SourceFile.declaresAs {kind : GlobalKind}
    (hDistinct : ((Declaration.ofFile file).map (·.name)).Nodup) (h : name ∈ file.names kind) :
    file.DeclaresAs name kind := by
  refine ⟨h, fun other hOther => ?_⟩
  obtain ⟨decl, hDecl, hKind, hName⟩ := Declaration.exists_ofFile_iff.mpr h
  obtain ⟨decl', hDecl', hKind', hName'⟩ := Declaration.exists_ofFile_iff.mpr hOther
  have hSame : decl' = decl :=
    List.inj_on_of_nodup_map hDistinct hDecl' hDecl (hName'.trans hName.symm)
  rw [← hKind, ← hKind', hSame]

/-- Each global of a program is what its file declares it to be. -/
def Program.Tells (program : Program) : Prop :=
  ∀ id module, program.module? id = some module →
    ((Declaration.ofFile module.file).map (·.name)).Nodup ∧
      ∀ name global, module.get? name = some global → name ∈ module.file.names global.kind

/-- The kinds of globals that have a value. -/
def GlobalKind.valued : List GlobalKind := [.var, .const, .func]

variable {files : String → SourceFile → Prop}

theorem GlobalMirrors.exists_kind {owner : String} {tree : CTree}
    (h : GlobalMirrors files owner file name tree) :
    ∃ kind ∈ GlobalKind.valued, name ∈ file.names kind := by
  cases h with
  | const hDecl => exact ⟨.const, by simp [GlobalKind.valued], List.mem_map_of_mem hDecl⟩
  | var hDecl => exact ⟨.var, by simp [GlobalKind.valued], List.mem_map_of_mem hDecl⟩
  | func hDecl => exact ⟨.func, by simp [GlobalKind.valued], List.mem_map_of_mem hDecl⟩

/-- A global that stands for a value is declared as a variable, a constant or a function. -/
theorem Program.Tells.valued (h : program.Tells) (hFaithful : program.Faithful files)
    {e : GoToC.Typed} (hValue : program.globalValue? id name = some (.expr e)) :
    ∃ module kind, program.module? id = some module ∧ module.file.DeclaresAs name kind ∧
      kind ∈ GlobalKind.valued := by
  obtain ⟨global, hGlobal, hValue⟩ := Option.map_eq_some_iff.mp hValue
  obtain ⟨module, hFound, rfl, hKeeps⟩ := hFaithful.of_global? hGlobal
  have hDistinct := (h id module hFound).1
  have hTree : GlobalMirrors files module.name module.file global.name e.c.tree := by
    split at hValue
    · next built hBuilt =>
        cases built with
        | expr found =>
            cases hValue
            exact hKeeps.expr e hBuilt
        | type | module => cases hValue
    · cases hValue
    · cases hValue
  obtain ⟨kind, hKind, hName⟩ := hTree.exists_kind
  exact ⟨module, kind, hFound, SourceFile.declaresAs hDistinct hName, hKind⟩

/-- The modules of a compiled program declare different names. -/
theorem SessionM.compileProgram_entered
    (hRun : (compileProgram (.ofList modules) withBuiltin text).exec .empty = (.ok (), session))
    {module : Module} (hModule : session.program.module? id = some module) : module.Entered := by
  let remark : Remark := fun _ module _ => module.Entered
  have hLasts : remark.Lasts (Sources.ofProgram modules text) := by
    refine ⟨fun _ _ _ _ _ hEntered => hEntered, ?_⟩
    intro job start session after found module hBegun _ hFound hAwaits hRun hModule
    obtain ⟨written, _, _, _, hWriting⟩ := hAwaits.written hFound hRun
    obtain rfl : module = written := Option.some.inj (hModule.symm.trans hWriting.found)
    exact hWriting.complete.entered
  exact compileProgram_remark hRun hLasts hModule

/-- A program that is part of a compiled one tells what its globals are. -/
theorem SessionM.compileProgram_tells
    (hRun : (compileProgram (.ofList modules) withBuiltin text).exec .empty = (.ok (), session))
    (hWithin : program.Within session.program) : program.Tells := by
  intro id module hModule
  obtain ⟨last, hLast, hGrows⟩ := hWithin id module hModule
  have hEntered := compileProgram_entered hRun hLast
  refine ⟨hGrows.file ▸ hEntered.distinct, fun name global hGlobal => ?_⟩
  obtain ⟨global', hGlobal', hKind⟩ := hGrows.globals name global hGlobal
  obtain ⟨decl, hDecl, hDeclares⟩ := hEntered.exists_decl (List.mem_of_find?_eq_some hGlobal')
  have hName : global'.name = name := by simpa using List.find?_some hGlobal'
  rw [← hGrows.file, ← hKind, ← hName]
  exact Declaration.exists_ofFile_iff.mp ⟨decl, hDecl, hDeclares.kind.symm, hDeclares.name.symm⟩

end GoToC
