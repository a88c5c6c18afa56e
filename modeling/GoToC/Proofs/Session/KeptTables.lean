import GoToC.Proofs.Session.Tables

/-!
# Later passes and the tables of modules

Whatever is done after the names of a module are entered, and whether it succeeds or fails, every
module that is known keeps its table up to the values of its globals: actions on sessions are made
of some that look, some that write or take numbers, and those that give a global its value or a
struct its method. A module that becomes known on the way is a new one, and its names are entered
in its own table.
-/

namespace GoToC

variable {importer : Importer}

/-- Modules that are known stay known, and of their tables nothing but values changes. -/
def Session.KeepsTables (before after : Session) : Prop :=
  ∀ id module, before.program.module? id = some module →
    ∃ module', after.program.module? id = some module' ∧ module'.name = module.name ∧
      module'.file = module.file ∧
      module'.globals.map Global.entry = module.globals.map Global.entry

namespace Session.KeepsTables

variable {first second third session : Session}

theorem of_modules (h : second.program.modules = first.program.modules) :
    first.KeepsTables second := by
  intro id module hModule
  exact ⟨module, by rwa [Program.module?, h], rfl, rfl, rfl⟩

theorem refl (session : Session) : session.KeepsTables session := of_modules rfl

theorem trans (h : first.KeepsTables second) (h' : second.KeepsTables third) :
    first.KeepsTables third := by
  intro id module hModule
  obtain ⟨module', hModule', hName, hFile, hGlobals⟩ := h id module hModule
  obtain ⟨module'', hModule'', hName', hFile', hGlobals'⟩ := h' id module' hModule'
  exact ⟨module'', hModule'', hName'.trans hName, hFile'.trans hFile, hGlobals'.trans hGlobals⟩

/-- One module is changed, but not in what its table keeps. -/
theorem updateModule (id : ModuleId) {update : Module → Module}
    (hSame : ∀ module, (update module).name = module.name ∧ (update module).file = module.file ∧
      (update module).globals.map Global.entry = module.globals.map Global.entry) :
    session.KeepsTables { session with program := session.program.updateModule id update } := by
  intro other module hModule
  show ∃ module', (session.program.updateModule id update).module? other = some module' ∧ _
  rw [Program.module?_updateModule, hModule]
  split
  · exact ⟨update module, rfl, hSame module⟩
  · exact ⟨module, rfl, rfl, rfl, rfl⟩

end Session.KeepsTables

/-- Giving a global its value changes nothing else of the table. -/
theorem Module.entries_setValue (module : Module) (name : String) (value : GlobalValue) :
    (module.setValue name value).globals.map Global.entry = module.globals.map Global.entry := by
  rw [setValue, List.map_map]
  refine List.map_congr_left fun global _ => ?_
  rw [Function.comp]
  split <;> rfl

/-! ## Actions -/

/-- An action after which all tables are as they were, however it ends. -/
def SessionM.Keeps {α : Type} (action : SessionM α) : Prop :=
  ∀ session : Session, session.KeepsTables (action.exec session).2

theorem Session.KeepsTables.bind {α β : Type} {start session : Session} {action : SessionM α}
    {next : α → SessionM β} (h : start.KeepsTables (action.exec session).2)
    (hNext : ∀ value, (next value).Keeps) :
    start.KeepsTables ((action >>= next).exec session).2 := by
  rw [SessionM.bind_exec]
  cases hRun : action.exec session with
  | mk result middle =>
      rw [hRun] at h
      cases result with
      | ok value => exact h.trans (hNext value middle)
      | error failure => exact h

namespace SessionM.Keeps

variable {α β : Type} {action : SessionM α}

theorem pure (value : α) : Keeps (pure value : SessionM α) := .refl

theorem fail (failure : Failure) : Keeps (throw failure : SessionM α) := .refl

theorem error (package : String) (span : Span) (problem : Problem) :
    Keeps (SessionM.error package span problem : SessionM α) := .refl

theorem get : Keeps (get : SessionM Session) := .refl

theorem bind {next : α → SessionM β} (h : Keeps action) (hNext : ∀ value, Keeps (next value)) :
    Keeps (action >>= next) := fun session => (h session).bind hNext

theorem changed {change : Session → Session} (h : ∀ session : Session,
    session.KeepsTables (change session)) : Keeps (modify change) := h

theorem errorIf {check : Bool} {package : String} {span : Span} {problem : Problem}
    {rest : SessionM α} (h : Keeps rest) :
    Keeps (do
      if check then SessionM.error package span problem
      rest) := by
  cases check with
  | true => exact error package span problem
  | false => exact h

theorem lift (answer : Faulty α) : Keeps (SessionM.lift answer) := by
  cases answer with
  | ok value => exact pure value
  | error fault => exact fail _

theorem types (ask : TypeStore → Faulty α) : Keeps (SessionM.types ask) :=
  get.bind fun _ => lift _

theorem setTypes (store : TypeStore) : Keeps (SessionM.setTypes store) :=
  changed fun _ => .of_modules rfl

theorem write (item : CItem) : Keeps (SessionM.write item) := changed fun _ => .of_modules rfl

theorem finish (id : ModuleId) : Keeps (SessionM.finish id) := changed fun _ => .of_modules rfl

theorem setBuiltin (id : ModuleId) : Keeps (SessionM.setBuiltin id) :=
  changed fun _ => .of_modules rfl

theorem global? (id : ModuleId) (name : String) : Keeps (SessionM.global? id name) :=
  get.bind fun _ => pure _

theorem globals (id : ModuleId) : Keeps (SessionM.globals id) := get.bind fun _ => pure _

theorem methods (id : ModuleId) : Keeps (SessionM.methods id) := get.bind fun _ => pure _

theorem declared (id : ModuleId) (name : String) : Keeps (SessionM.declared id name) := by
  refine (global? id name).bind fun found => ?_
  split
  · exact pure _
  · exact fail _

theorem setValue (id : ModuleId) (name : String) (value : GlobalValue) :
    Keeps (SessionM.setValue id name value) :=
  (declared id name).bind fun _ => changed fun _ =>
    .updateModule id fun module => ⟨rfl, rfl, module.entries_setValue name value⟩

theorem setType (id : ModuleId) (name : String) (type : Ty) :
    Keeps (SessionM.setType id name type) :=
  (declared id name).bind fun _ => (setValue id name _).bind fun _ => pure _

theorem addMethod (id : ModuleId) (method : Method) :
    Keeps (SessionM.updateModule id (·.addMethod method)) :=
  changed fun _ => .updateModule id fun _ => ⟨rfl, rfl, rfl⟩

/-! ### Routines and loops -/

theorem resume (job : Job) (routine : Routine) (action : RoutineM α) :
    Keeps (SessionM.resume job routine action) := by
  intro session
  rw [Job.resume_exec]
  split <;> exact .of_modules rfl

theorem routine (job : Job) (action : RoutineM α) : Keeps (SessionM.routine job action) :=
  get.bind fun _ => resume job _ action

theorem isolated (job : Job) (action : RoutineM α) : Keeps (SessionM.isolated job action) :=
  (routine job action).bind fun _ => pure _

theorem forM {items : List α} {f : α → SessionM PUnit} (h : ∀ item, Keeps (f item)) :
    Keeps (items.forM f) := by
  induction items with
  | nil => exact pure _
  | cons item rest ih => exact (h item).bind fun _ => ih

theorem forM_array {items : Array α} {f : α → SessionM PUnit} (h : ∀ item, Keeps (f item)) :
    Keeps (items.forM f) := by
  obtain ⟨items⟩ := items
  rw [Array.forM_eq_forM, List.forM_toArray]
  exact forM h

theorem mapM {items : List α} {f : α → SessionM β} (h : ∀ item, Keeps (f item)) :
    Keeps (items.mapM f) := by
  induction items with
  | nil => exact pure _
  | cons item rest ih =>
      rw [List.mapM_cons]
      exact (h item).bind fun _ => ih.bind fun _ => pure _

theorem foldlM {items : List α} {f : β → α → SessionM β} (h : ∀ value item, Keeps (f value item))
    (start : β) : Keeps (items.foldlM f start) := by
  induction items generalizing start with
  | nil => exact pure _
  | cons item rest ih => exact (h start item).bind fun value => ih value

/-! ### Building declarations -/

theorem buildImport (hImporter : ∀ name asking span, Keeps (importer name asking span))
    (job : Job) (decl : ImportDecl) : Keeps (SessionM.buildImport importer job decl) :=
  (hImporter _ _ _).bind fun _ => setValue _ _ _

theorem bindHandle (job : Job) (name : String) (type : Ty) :
    Keeps (SessionM.bindHandle job name type) := by
  refine (global? job.id name).bind fun found => ?_
  split
  · exact (types _).bind fun _ => setTypes _
  · exact pure _

theorem buildTypes (job : Job) : Keeps (SessionM.buildTypes job) := by
  have hBuild (decl : TypeDecl) : Keeps (SessionM.buildType job decl) :=
    (isolated job _).bind fun _ => (bindHandle job _ _).bind fun _ =>
      (setValue _ _ _).bind fun _ => pure _
  have hCheck (type : Ty) (span : Span) : Keeps (SessionM.checkType job type span) := by
    refine get.bind fun session => ?_
    split
    · exact pure _
    · exact error _ _ _
  exact (mapM hBuild).bind fun _ => forM fun entry => hCheck entry.1 entry.2

theorem buildConst (job : Job) (decl : ConstDecl) : Keeps (SessionM.buildConst job decl) :=
  errorIf ((routine job _).bind fun _ => errorIf (setValue _ _ _))

theorem buildVar (job : Job) (decl : VarDecl) : Keeps (SessionM.buildVar job decl) := by
  unfold SessionM.buildVar
  split
  · exact (isolated job _).bind fun _ => (types _).bind fun _ =>
      errorIf ((setType _ _ _).bind fun _ => pure _)
  · exact pure _
  · exact error _ _ _

theorem buildFunc (job : Job) (decl : FuncDecl) : Keeps (SessionM.buildFunc job decl) :=
  (isolated job _).bind fun _ => setValue _ _ _

theorem buildMethod (job : Job) (index : Nat) (decl : FuncDecl) :
    Keeps (SessionM.buildMethod job index decl) := by
  refine (isolated job _).bind fun func => ?_
  refine Keeps.bind ((types _).bind fun _ => pure _) fun record => ?_
  split
  · exact error _ _ _
  · refine (methods _).bind fun _ => ?_
    split
    · exact error _ _ _
    · exact get.bind fun _ => (setTypes _).bind fun _ => addMethod _ _

theorem buildMethods (job : Job) (index : Nat) (decls : List FuncDecl) :
    Keeps (SessionM.buildMethods job index decls) := by
  induction decls generalizing index with
  | nil => exact pure _
  | cons decl rest ih => exact (buildMethod job index decl).bind fun _ => ih _

theorem inferType (job : Job) (decl : VarDecl) (type : Ty) :
    Keeps (SessionM.inferType job decl type) := by
  refine (types _).bind fun isInt => ?_
  split
  · exact pure _
  · refine (types _).bind fun hasZero => (types _).bind fun isNil => ?_
    split
    · exact pure _
    · exact error _ _ _

theorem buildInit (job : Job) (routine : Routine) (decl : VarDecl) (declared : Option Ty) :
    Keeps (SessionM.buildInit job routine decl declared) := by
  unfold SessionM.buildInit
  split
  · exact pure _
  · refine (resume job routine _).bind fun found => ?_
    obtain ⟨value, next⟩ := found
    have hStore (type : Ty) : Keeps (do
        let cName ← SessionM.setType job.id decl.name type
        return (← SessionM.resume job next (Job.store decl type value cName)).2) :=
      (setType _ _ _).bind fun _ => (resume job next _).bind fun _ => pure _
    cases declared with
    | some type => exact hStore type
    | none => exact (inferType job decl value.type).bind hStore

theorem buildInits (job : Job) : Keeps (SessionM.buildInits job) := by
  unfold SessionM.buildInits
  split
  · exact pure _
  · refine (mapM fun decl => (global? _ _).bind fun _ => pure _).bind fun vars => ?_
    refine get.bind fun _ => ?_
    refine bind (foldlM (fun routine entry => ?_) _) fun _ =>
      bind (forM_array write) fun _ => pure _
    exact buildInit job routine entry.1 entry.2

/-- Building the declarations of a module, whatever modules it imports. -/
theorem build (hImporter : ∀ name asking span, Keeps (importer name asking span)) (job : Job) :
    Keeps (SessionM.build importer job) :=
  (forM (buildImport hImporter job)).bind fun _ =>
  (buildTypes job).bind fun _ =>
  (forM (buildConst job)).bind fun _ =>
  (forM (buildVar job)).bind fun _ =>
  (forM (buildFunc job)).bind fun _ =>
  (buildMethods job 0 job.file.methods).bind fun _ => buildInits job

/-! ### Writing modules -/

theorem writeTypedef (type : Ty) : Keeps (SessionM.writeTypedef type) := by
  intro session
  rw [SessionM.writeTypedef, get_bind_exec]
  obtain ⟨item, typedefs⟩ := session.supply.typedefs.request session.program.types type
  have hTaken : session.KeepsTables
      { session with supply := { session.supply with typedefs := typedefs } } := .of_modules rfl
  refine hTaken.trans (bind (lift item) (fun found => ?_) _)
  split
  · exact write _
  · exact pure _

theorem writeTypedefsWithin (levels : Nat) (type : Ty) :
    Keeps (SessionM.writeTypedefsWithin levels type) := by
  induction levels generalizing type with
  | zero => exact fail _
  | succ levels ih =>
      refine (types _).bind fun func => ?_
      split
      · exact pure _
      · exact bind (forM fun member => ih member.type) fun _ => writeTypedef type

theorem writeTypedefs (type : Ty) : Keeps (SessionM.writeTypedefs type) :=
  get.bind fun _ => writeTypedefsWithin _ type

theorem declareFunc (cName : String) (type : Ty) : Keeps (SessionM.declareFunc cName type) := by
  refine (types _).bind fun func => ?_
  split
  · exact fail _
  · exact bind (forM fun member => writeTypedefs member.type) fun _ =>
      bind (types _) fun _ => write _

theorem writeGlobal (global : Global) : Keeps (SessionM.writeGlobal global) := by
  unfold SessionM.writeGlobal
  split
  · exact pure _
  · split
    · exact pure _
    · exact pure _
    · exact (writeTypedefs _).bind fun _ => (types _).bind fun _ => write _
    · exact (writeTypedefs _).bind fun _ => (types _).bind fun _ => write _
    · exact declareFunc _ _

theorem writeDeclarations (id : ModuleId) : Keeps (SessionM.writeDeclarations id) :=
  (globals id).bind fun _ => (forM writeGlobal).bind fun _ =>
    (methods id).bind fun _ => forM fun _ => declareFunc _ _

theorem writeInit (job : Job) (init : Option Routine) : Keeps (SessionM.writeInit job init) := by
  cases init with
  | none => exact pure _
  | some routine => exact write _

theorem writeFunc (job : Job) (cName : String) (type : Option Ty) (decl : FuncDecl) :
    Keeps (SessionM.writeFunc job cName type decl) := by
  unfold SessionM.writeFunc
  cases type with
  | none => exact fail _
  | some type =>
      refine (types _).bind fun func => ?_
      cases func with
      | none => exact fail _
      | some func =>
          refine (types _).bind fun prototype => ?_
          cases decl.body with
          | none => exact write _
          | some body =>
              exact (routine job _).bind fun _ => (forM_array write).bind fun _ => write _

theorem writeFuncs (job : Job) : Keeps (SessionM.writeFuncs job) := by
  refine (forM fun decl => ?_).bind fun _ => (methods job.id).bind fun _ => forM fun method => ?_
  · refine (global? _ _).bind fun found => ?_
    split
    · exact writeFunc _ _ _ _
    · exact fail _
  · unfold SessionM.writeMethod
    split
    · exact writeFunc _ _ _ _
    · exact fail _

/-! ### Modules with their imports -/

theorem readSource (name text : String) : Keeps (SessionM.readSource name text) := by
  unfold SessionM.readSource
  split
  · exact pure _
  · exact error _ _ _
  · exact fail _

variable {library : Library}

theorem importWith {compile : String → String → SessionM ModuleId}
    (h : ∀ name text, Keeps (compile name text)) (name asking : String) (span : Span) :
    Keeps (SessionM.importWith library compile name asking span) := by
  refine get.bind fun session => ?_
  split
  · exact pure _
  · split
    · exact h _ _
    · exact error _ _ _
    · exact error _ _ _

end SessionM.Keeps

/-- What follows in a module once its names are entered. -/
def SessionM.compileDeclared (importer : Importer) (job : Job) : SessionM Unit := do
  let init ← build importer job
  writeDeclarations job.id
  writeInit job init
  writeFuncs job

theorem SessionM.compileJob_declared (importer : Importer) (job : Job) :
    compileJob importer job = declareAll job >>= fun _ => compileDeclared importer job := rfl

/-- Entering the names of a module that has become known fills its own table only. -/
theorem Session.keepsTables_declareAll (session : Session) (name : String) (file : SourceFile) :
    session.KeepsTables ((SessionM.declareAll ⟨session.program.modules.length, name, file⟩).exec
      (Job.registered session name file)).2 := by
  intro id module hModule
  have hLess : id < session.program.modules.length := (List.getElem?_eq_some_iff.mp hModule).1
  have hTouches := (Job.slots_registered session name file).declareAll.touches
  refine ⟨module, ?_, rfl, rfl, rfl⟩
  rw [hTouches.others id (Nat.ne_of_lt hLess)]
  exact (List.getElem?_append_left hLess).trans hModule

namespace SessionM.Keeps

variable {library : Library}

theorem compileDeclared (hImporter : ∀ name asking span, Keeps (importer name asking span))
    (job : Job) : Keeps (SessionM.compileDeclared importer job) :=
  (build hImporter job).bind fun _ => (writeDeclarations _).bind fun _ =>
    (writeInit _ _).bind fun _ => writeFuncs job

/-- A module that becomes known is compiled beside those that were known. -/
theorem compileWithin (depth : Nat) (name text : String) :
    Keeps (SessionM.compileWithin library depth name text) := by
  induction depth generalizing name text with
  | zero => exact fail _
  | succ depth ih =>
      refine get.bind fun session => ?_
      split
      · exact pure _
      · refine (readSource name text).bind fun file before => ?_
        rw [bind_exec]
        have hImporter : ∀ name asking span, Keeps (SessionM.importWith library
            (SessionM.compileWithin library depth) name asking span) := importWith ih
        have hDeclared := (before.keepsTables_declareAll name file).bind fun _ =>
          compileDeclared hImporter ⟨before.program.modules.length, name, file⟩
        exact hDeclared.bind fun _ => (finish _).bind fun _ => pure _

/-- Requests keep the tables of the modules that are known. -/
theorem request (request : ModuleRequest) : Keeps (request.run library) := by
  cases request with
  | load name => exact importWith (compileWithin _) _ _ _
  | builtin => exact bind (importWith (compileWithin _) _ _ _) fun _ =>
      (setBuiltin _).bind fun _ => pure _
  | source name text => exact compileWithin _ name text

end SessionM.Keeps

/-! ## Passes -/

/-- What may follow in a session once the names of a module are entered. -/
inductive Pass where
  /-- The declarations are built; imports are followed through so many modules at most. -/
  | build (depth : Nat)
  | declarations
  | init (routine : Option Routine)
  | funcs
  | finish
  /-- Another module is asked for, or the same one again. -/
  | request (asked : ModuleRequest)

namespace Pass

variable (library : Library) (job : Job)

def run : Pass → SessionM Unit
  | build depth => do
      let _ ← SessionM.build (SessionM.importWith library
        (SessionM.compileWithin library depth)) job
  | declarations => SessionM.writeDeclarations job.id
  | init routine => SessionM.writeInit job routine
  | funcs => SessionM.writeFuncs job
  | finish => SessionM.finish job.id
  | request asked => do
      let _ ← asked.run library

/-- The session after some passes, each of which may have failed. -/
def runAll (session : Session) (passes : List Pass) : Session :=
  passes.foldl (fun now pass => ((pass.run library job).exec now).2) session

theorem keeps (pass : Pass) : (pass.run library job).Keeps := by
  cases pass with
  | build depth => exact (SessionM.Keeps.build
      (.importWith (.compileWithin depth)) job).bind fun _ => .pure _
  | declarations => exact .writeDeclarations job.id
  | init routine => exact .writeInit job routine
  | funcs => exact .writeFuncs job
  | finish => exact .finish job.id
  | request asked => exact (SessionM.Keeps.request asked).bind fun _ => .pure _

theorem keepsTables_runAll (session : Session) (passes : List Pass) :
    session.KeepsTables (runAll library job session passes) := by
  induction passes generalizing session with
  | nil => exact .refl session
  | cons pass rest ih => exact (pass.keeps library job session).trans (ih _)

end Pass

/-- A module that is new becomes known first. -/
theorem SessionM.compileWithin_exec {library : Library} {session : Session} {name text : String}
    {file : SourceFile} (hNew : session.program.find? name = none) (hParse : parse text = .ok file)
    (depth : Nat) :
    let job : Job := ⟨session.program.modules.length, name, file⟩
    (compileWithin library (depth + 1) name text).exec session =
      (declareAll job >>= fun _ => do
        compileDeclared (importWith library (compileWithin library depth)) job
        finish job.id
        return job.id).exec (Job.registered session name file) := by
  intro job
  have hRead : readSource name text = pure file := by
    unfold readSource
    rw [hParse]
  rw [compileWithin, get_bind_exec, hNew]
  show (readSource name text >>= _).exec session = _
  rw [hRead, pure_bind, bind_exec]
  show (compileJob _ job >>= _).exec (Job.registered session name file) = _
  rw [compileJob_declared, bind_assoc]

/-- The names of a parsed file are entered if and only if they are pairwise distinct, imports,
types, constants, variables and functions taken together. If they are, the module has one global
for each of these declarations and no other, kind after kind and within a kind in the order of the
text, and without a value; the number of a global selects its declaration among those of its kind,
and a name finds the one global that has it. Passes that come later, in whatever order and whether
they succeed or fail, give values to globals, and everything else stays like that; so it is after
the module was compiled, too, however that ends. -/
theorem slots_match_declarations {text : String} {file : SourceFile}
    (hParse : parse text = .ok file) (library : Library) (session : Session) (name : String) :
    let job : Job := ⟨session.program.modules.length, name, file⟩
    let start := Job.registered session name file
    (SessionM.register name file).exec session = (.ok job, start) ∧
    ((∃ after, (SessionM.declareAll job).exec start = (.ok (), after)) ↔
      (file.names .import ++ file.names .type ++ file.names .const ++ file.names .var ++
        file.names .func).Nodup) ∧
    (∀ kind, (file.entries kind).Pairwise fun a b => a.2.Precedes b.2) ∧
    ∀ after, (SessionM.declareAll job).exec start = (.ok (), after) →
      ∃ module, after.program.module? job.id = some module ∧ module.Tables name file ∧
        (∀ global ∈ module.globals, global.value = none) ∧
        (∀ passes, ∃ module',
          (Pass.runAll library job after passes).program.module? job.id = some module' ∧
          module'.globals.map Global.entry = module.globals ∧ module'.Tables name file) ∧
        (∀ depth, session.program.find? name = none → ∃ module',
          ((SessionM.compileWithin library (depth + 1) name text).exec session).2.program.module?
            job.id = some module' ∧
          module'.globals.map Global.entry = module.globals ∧ module'.Tables name file) := by
  intro job start
  refine ⟨rfl, ?_, (parse_spread hParse).choose_spec.listed, fun after hRun => ?_⟩
  · rw [declareAll_succeeds_iff, Declaration.map_name_ofFile]
  obtain ⟨module, hModule, hTables, hBare⟩ := declareAll_tables session name file hRun
  have hKept {last : Session} (hKeeps : after.KeepsTables last) :
      ∃ module', last.program.module? job.id = some module' ∧
        module'.globals.map Global.entry = module.globals ∧ module'.Tables name file := by
    obtain ⟨module', hModule', hName, hFile, hEntries⟩ := hKeeps job.id module hModule
    refine ⟨module', hModule', hEntries.trans ?_, hTables.keep hName hFile hEntries⟩
    have hEntry (global : Global) (hMem : global ∈ module.globals) : global.entry = global := by
      rw [Global.entry, ← hBare global hMem]
    rw [List.map_congr_left hEntry, List.map_id']
  refine ⟨module, hModule, hTables, hBare, fun passes => ?_, fun depth hNew => ?_⟩
  · exact hKept (Pass.keepsTables_runAll library job after passes)
  · rw [SessionM.compileWithin_exec hNew hParse, SessionM.bind_exec, hRun]
    have hRest : SessionM.Keeps (do
        SessionM.compileDeclared (SessionM.importWith library
          (SessionM.compileWithin library depth)) job
        SessionM.finish job.id
        return job.id) :=
      (SessionM.Keeps.compileDeclared (.importWith (.compileWithin depth)) job).bind fun _ =>
        (SessionM.Keeps.finish _).bind fun _ => .pure _
    exact hKept (hRest after)

/-- Declarations that are not in the order in which their names are entered. -/
def mixedSource : String := "func g() \x7b\n\x7d\nvar x int\ntype t int\nvar y int\n"

/-- The table of those declarations, once the names are entered and after anything else. -/
theorem slots_match_declarations_mixed : ∃ file after, parse mixedSource = .ok file ∧
    (SessionM.declareAll ⟨0, "main", file⟩).exec (Job.registered .empty "main" file) =
      (.ok (), after) ∧
    ∀ passes, ∃ module,
      (Pass.runAll (.ofList []) ⟨0, "main", file⟩ after passes).program.module? 0 = some module ∧
      module.globals.map (fun global => (global.kind, global.decl, global.name, global.span)) =
        [(.type, 0, "t", ⟨23, 33⟩), (.var, 0, "x", ⟨13, 22⟩), (.var, 1, "y", ⟨34, 43⟩),
          (.func, 0, "g", ⟨0, 12⟩)] := by
  have hEntries : (parse mixedSource).toOption.any (fun file =>
      decide ((GlobalKind.all.flatMap fun kind =>
        (file.entries kind).mapIdx fun index entry => (kind, index, entry)) =
        [(.type, 0, "t", ⟨23, 33⟩), (.var, 0, "x", ⟨13, 22⟩), (.var, 1, "y", ⟨34, 43⟩),
          (.func, 0, "g", ⟨0, 12⟩)]) &&
      decide (file.names .import ++ file.names .type ++ file.names .const ++ file.names .var ++
        file.names .func).Nodup) = true := by decide +kernel
  cases hParse : parse mixedSource with
  | error failure =>
      rw [hParse] at hEntries
      cases hEntries
  | ok file =>
      rw [hParse] at hEntries
      obtain ⟨hListed, hDistinct⟩ := (Bool.and_eq_true_iff.mp hEntries).imp of_decide_eq_true
        of_decide_eq_true
      obtain ⟨-, hSucceeds, -, hTables⟩ :=
        slots_match_declarations hParse (.ofList []) .empty "main"
      obtain ⟨after, hRun⟩ := hSucceeds.mpr hDistinct
      obtain ⟨_, _, _, _, hKept, _⟩ := hTables after hRun
      refine ⟨file, after, rfl, hRun, fun passes => ?_⟩
      obtain ⟨module, hModule, -, hTable⟩ := hKept passes
      exact ⟨module, hModule, hTable.listed.trans hListed⟩

end GoToC
