import GoToC.Proofs.Grammar.FileRules
import GoToC.Proofs.Routine.Definitions
import GoToC.Proofs.Session.Program
import GoToC.Proofs.Session.Runs

/-!
# Sound sessions

A session is sound if its program is and if every routine that was written is the outcome
of compiling a function, a method or the initializers of a module that was read from the
sources. While the declarations of a module are compiled, nothing that was there before
its compilation began changes.
-/

namespace GoToC

variable {α : Type} {global other : Global} {decl : Declaration} {action : RoutineM α}
  {good : α → Prop} {name : String} {value : GlobalValue} {supply : Supply}

/-- Where modules are read from, with what is to be known of all their texts and names. -/
structure Sources where
  /-- A module may be read from a text. -/
  module : String → String → Prop
  /-- Whether the type of types may be written. -/
  metatype : Prop
  /-- Whether the names of modules make names to C. -/
  strict : Prop
  mentions : ∀ name text, module name text → ∀ token ∈ lex text,
    token.kind = .ident Prim.type.name → metatype
  names : strict → ∀ name text, module name text → NamesGlobals name

namespace Sources

/-- A module may be read as a file. -/
def files (sources : Sources) (name : String) (file : SourceFile) : Prop :=
  ∃ text, sources.module name text ∧ parse text = .ok file

/-- What types are made of if they are made of the given handles. -/
def known (sources : Sources) (handle : Nat → Prop) (function : Prop) : Known :=
  ⟨handle, sources.metatype, function, sources.strict⟩

/-- The failures that the compilation of the sources may end in. -/
abbrev Excuses (sources : Sources) : Session → Failure → Prop := Session.Excuses sources.metatype

variable {sources : Sources} {name text : String} {file : SourceFile}

/-- Reading a source comes to a file whose words are words of the sources. -/
theorem parse_outcome (h : sources.module name text) (handle : Nat → Prop) (function : Prop) :
    ParseOutcome (sources.known handle function).Word (parse text) := by
  refine GoToC.parse_outcome fun token hToken word hKind => ⟨?_, ?_⟩
  · exact isIdentifier_of_tokensFrom hToken hKind
  · rintro rfl
    exact sources.mentions name text h token hToken hKind

theorem formed (h : sources.files name file) (handle : Nat → Prop) (function : Prop) :
    file.Formed (sources.known handle function).Word := by
  obtain ⟨text, hModule, hParse⟩ := h
  have hOutcome := parse_outcome hModule handle function
  rw [hParse] at hOutcome
  exact hOutcome

theorem namesGlobals (h : sources.files name file) (hStrict : sources.strict) :
    NamesGlobals name := by
  obtain ⟨text, hModule, -⟩ := h
  exact sources.names hStrict name text hModule

end Sources

/-- A new routine has no variables. -/
theorem Routine.Sound.start (k : Known) (supply : Supply) : (Routine.start supply).Sound k := by
  intro scope hScope entry hEntry
  rw [List.mem_singleton.mp hScope] at hEntry
  cases hEntry

/-! ## Where routines come from -/

/-- An environment that occurs while a module is compiled. -/
structure Env.Occurs (sources : Sources) (file : SourceFile) (env : Env) : Prop where
  faithful : env.Faithful sources.files file
  sound : ∃ s : Setting, s.types = s.values ∧
    (∃ handle function, s.values = sources.known handle function) ∧ env.Sound s
  closed : env.Closed ∅

/-- An environment that a function of a module is compiled in; it is of plain types. -/
structure Env.Hosts (sources : Sources) (file : SourceFile) (func : FuncType Ty) (env : Env) : Prop
    extends env.Occurs sources file where
  plain : ∃ s : Setting, s.types = s.values ∧
    (∃ handle function, s.values = sources.known handle function) ∧ env.Sound s ∧
      (Ty.func func).PlainFunc s.values

/-- The initializers of variables, compiled one after another into one routine. -/
inductive InitRun (sources : Sources) (file : SourceFile) : List VarDecl → Routine → Routine → Prop
  | done {routine} : InitRun sources file [] routine routine
  | skip {decl rest routine after} :
      decl.init = none → InitRun sources file rest routine after →
        InitRun sources file (decl :: rest) routine after
  | set {decl rest init env env' type value converted cName cType routine middle after} :
      decl.init = some init → env.Occurs sources file →
      (operand init).value.exec env routine = (.ok value, middle) → env'.Occurs sources file →
      (RoutineM.convert type value decl.span "in variable initializer").exec env' middle =
        (.ok converted, middle) →
      InitRun sources file rest
        { middle with body := middle.body.push (.store (.global cName) cType converted) } after →
      InitRun sources file (decl :: rest) routine after

/-- Where an item of the output comes from, if it is a routine. -/
def Sources.Accounts (sources : Sources) : CItem → Prop
  | .routine (.func prototype) locals body =>
      ∃ package file decl stmts func cName env supply after,
        sources.files package file ∧ (decl ∈ file.funcs ∨ decl ∈ file.methods) ∧
        decl.body = some stmts ∧ FuncType.NamedLike func decl ∧ Env.Hosts sources file func env ∧
        env.program.types.prototype func cName = .ok prototype ∧
        (compileBody func stmts decl.span).exec env (Routine.start supply) = (.ok (), after) ∧
        locals = after.locals.toList ∧ body = after.body.toList
  | .routine (.init package) locals body =>
      ∃ file supply after, sources.files package file ∧
        InitRun sources file file.vars (Routine.start supply) after ∧
        locals = after.locals.toList ∧ body = after.body.toList
  | _ => True

/-! ## Invariants of sessions -/

structure Session.SoundAt (sources : Sources) (values types : Known) (session : Session) :
    Prop where
  program : session.program.Sound values types
  made : values.function → 0 < session.supply.typedefs.made
  faithful : session.program.Faithful sources.files
  items : ∀ item ∈ session.output.toList, sources.Accounts item

/-- A session between the compilations of two modules. -/
def Session.Idle (sources : Sources) (session : Session) : Prop :=
  ∃ handle function,
    session.SoundAt sources (sources.known handle function) (sources.known handle function)

/-- What was there is still there: modules are the same, and handles that were made before
are bound to the same types. -/
structure Session.Extends (before after : Session) : Prop where
  modules : ∀ id module, before.program.module? id = some module →
    after.program.module? id = some module
  builtin : after.program.builtin = before.program.builtin
  next : before.program.types.nextHandle ≤ after.program.types.nextHandle
  targets : ∀ handle : Handle, handle.id < before.program.types.nextHandle →
    after.program.types.target? handle = before.program.types.target? handle

namespace Session.Extends

variable {first second third : Session}

theorem refl (session : Session) : session.Extends session :=
  ⟨fun _ _ => id, rfl, Nat.le_refl _, fun _ _ => rfl⟩

theorem trans (h : first.Extends second) (h' : second.Extends third) : first.Extends third where
  modules id module hModule := h'.modules id module (h.modules id module hModule)
  builtin := h'.builtin.trans h.builtin
  next := Nat.le_trans h.next h'.next
  targets handle hHandle :=
    (h'.targets handle (Nat.lt_of_lt_of_le hHandle h.next)).trans (h.targets handle hHandle)

/-- Modules that are new may change. -/
theorem updateModule (h : first.Extends second) {id : ModuleId}
    (hLater : first.program.modules.length ≤ id) (update : Module → Module) :
    first.Extends { second with program := second.program.updateModule id update } where
  modules other module hModule := by
    have hLess : other < first.program.modules.length := (List.getElem?_eq_some_iff.mp hModule).1
    have hOther : id ≠ other := (Nat.ne_of_lt (Nat.lt_of_lt_of_le hLess hLater)).symm
    rw [Program.module?_updateModule, if_neg hOther]
    exact h.modules other module hModule
  builtin := h.builtin
  next := h.next
  targets := h.targets

end Session.Extends

/-- The global that a declaration becomes, apart from its value. -/
structure Global.Declares (package : String) (global : Global) (decl : Declaration) : Prop where
  name : global.name = decl.name
  kind : global.kind = decl.kind
  cName : global.cName = Declaration.cName package decl.name
  handle : global.handle.isSome = true ↔ decl.kind = .type

theorem Global.Declares.names {package : String} {globals : List Global} {decls : List Declaration}
    (h : List.Forall₂ (Global.Declares package) globals decls) :
    globals.map (·.name) = decls.map (·.name) := by
  rw [← List.forall₂_eq_eq_eq, List.forall₂_map_left_iff, List.forall₂_map_right_iff]
  exact h.imp fun _ _ hDeclares => hDeclares.name

/-- A global after the one of a name was given a value. -/
def Global.given (global : Global) (name : String) (value : GlobalValue) : Global :=
  if global.name = name then { global with value := some value } else global

namespace Global

variable {global : Global} {name : String} {value : GlobalValue}

@[simp] theorem given_name : (global.given name value).name = global.name := by
  unfold given
  split <;> rfl

@[simp] theorem given_kind : (global.given name value).kind = global.kind := by
  unfold given
  split <;> rfl

@[simp] theorem given_handle : (global.given name value).handle = global.handle := by
  unfold given
  split <;> rfl

theorem given_value_eq_none (h : (global.given name value).value = none) :
    global.value = none ∧ global.name ≠ name := by
  unfold given at h
  split at h
  · cases h
  · next hName => exact ⟨h, hName⟩

end Global

/-- All names that a module declares are entered, and they are different. -/
structure Module.Entered (module : Module) : Prop where
  globals : List.Forall₂ (Global.Declares module.name) module.globals
    (Declaration.ofFile module.file)
  distinct : ((Declaration.ofFile module.file).map (·.name)).Nodup

namespace Module.Entered

variable {module : Module}

theorem exists_decl (h : module.Entered) (hGlobal : global ∈ module.globals) :
    ∃ decl ∈ Declaration.ofFile module.file, global.Declares module.name decl := by
  obtain ⟨index, hIndex, rfl⟩ := List.mem_iff_getElem.mp hGlobal
  have hLength := h.globals.length_eq
  exact ⟨_, List.getElem_mem (hLength ▸ hIndex), h.globals.get hIndex (hLength ▸ hIndex)⟩

theorem unique (h : module.Entered) (hGlobal : global ∈ module.globals)
    (hOther : other ∈ module.globals) (hName : global.name = other.name) : global = other :=
  List.inj_on_of_nodup_map (Global.Declares.names h.globals ▸ h.distinct) hGlobal hOther hName

/-- A name belongs to one declaration only. -/
theorem declares (h : module.Entered) (hGlobal : global ∈ module.globals)
    (hDecl : decl ∈ Declaration.ofFile module.file) (hName : global.name = decl.name) :
    global.Declares module.name decl := by
  obtain ⟨found, hFound, hDeclares⟩ := h.exists_decl hGlobal
  have hSame : found = decl :=
    List.inj_on_of_nodup_map h.distinct hFound hDecl (hDeclares.name.symm.trans hName)
  exact hSame ▸ hDeclares

theorem exists_global (h : module.Entered) (hDecl : decl ∈ Declaration.ofFile module.file) :
    ∃ global ∈ module.globals, module.get? decl.name = some global ∧
      global.Declares module.name decl := by
  obtain ⟨index, hIndex, rfl⟩ := List.mem_iff_getElem.mp hDecl
  have hLength := h.globals.length_eq
  have hThere :
      ∃ global ∈ module.globals, global.name = (Declaration.ofFile module.file)[index].name :=
    ⟨_, List.getElem_mem (hLength ▸ hIndex), (h.globals.get (hLength ▸ hIndex) hIndex).name⟩
  obtain ⟨global, hGlobal, hName⟩ := hThere
  have hSome : (module.get? (Declaration.ofFile module.file)[index].name).isSome = true := by
    rw [Module.get?, List.find?_isSome]
    exact ⟨global, hGlobal, by simp [hName]⟩
  obtain ⟨found, hFound⟩ := Option.isSome_iff_exists.mp hSome
  have hMem := List.mem_of_find?_eq_some hFound
  have hSame : found.name = (Declaration.ofFile module.file)[index].name := by
    simpa using List.find?_some hFound
  exact ⟨found, hMem, hFound, h.declares hMem hDecl hSame⟩

/-- Values do not matter to the names. -/
theorem setValue (h : module.Entered) (name : String) (value : GlobalValue) :
    (module.setValue name value).Entered := by
  refine ⟨?_, h.distinct⟩
  show List.Forall₂ (Global.Declares module.name) (module.globals.map _) _
  rw [List.forall₂_map_left_iff]
  refine h.globals.imp fun global decl hDeclares => ?_
  split
  · exact ⟨hDeclares.name, hDeclares.kind, hDeclares.cName, hDeclares.handle⟩
  · exact hDeclares

end Module.Entered

/-! ## The module that is compiled -/

/-- The environment of the routines of a module. -/
def Job.env (job : Job) (session : Session) : Env :=
  ⟨session.program, job.id, job.package, none, none, none⟩

/-- A session in which a module is compiled whose names are all entered. It goes back to
the session in which its compilation began. -/
structure Job.Works (sources : Sources) (start : Session) (job : Job) (values types : Known)
    (session : Session) : Prop where
  sound : session.SoundAt sources values types
  extended : start.Extends session
  later : start.program.modules.length ≤ job.id
  sourced : sources.files job.package job.file
  entered : ∃ module, session.program.module? job.id = some module ∧
    module.name = job.package ∧ module.file = job.file ∧ module.Entered
  fresh : ∀ global handle, session.program.Has job.id global → global.handle = some handle →
    start.program.types.nextHandle ≤ handle.id

/-- The same while declarations may mention all types of the module. -/
structure Job.Builds (sources : Sources) (start : Session) (job : Job) (values types : Known)
    (session : Session) : Prop extends job.Works sources start values types session where
  own : ∀ global handle, session.program.Has job.id global → global.handle = some handle →
    types.handle handle.id

namespace Job

variable {sources : Sources} {start session : Session} {job : Job} {values types : Known}
  {handle handle' : Nat → Prop} {function function' : Prop}

theorem Works.exists_global (h : job.Works sources start values types session)
    (hDecl : decl ∈ Declaration.ofFile job.file) :
    ∃ global, session.program.global? job.id decl.name = some global ∧
      session.program.Has job.id global ∧ global.Declares job.package decl := by
  obtain ⟨module, hModule, hName, hFile, hEntered⟩ := h.entered
  obtain ⟨global, hMem, hGet, hDeclares⟩ := hEntered.exists_global (hFile ▸ hDecl)
  refine ⟨global, ?_, ⟨module, hModule, hMem⟩, hName ▸ hDeclares⟩
  rw [Program.global?, hModule]
  exact hGet

theorem Works.declares (h : job.Works sources start values types session)
    (hHas : session.program.Has job.id global) (hDecl : decl ∈ Declaration.ofFile job.file)
    (hName : global.name = decl.name) : global.Declares job.package decl := by
  obtain ⟨module, hModule, hPackage, hFile, hEntered⟩ := h.entered
  obtain ⟨found, hFound, hMem⟩ := hHas
  obtain rfl : module = found := Option.some.inj (hModule.symm.trans hFound)
  exact hPackage ▸ hEntered.declares hMem (hFile ▸ hDecl) hName

theorem Works.unique (h : job.Works sources start values types session)
    (hHas : session.program.Has job.id global) (hOther : session.program.Has job.id other)
    (hName : global.name = other.name) : global = other := by
  obtain ⟨module, hModule, -, -, hEntered⟩ := h.entered
  obtain ⟨found, hFound, hMem⟩ := hHas
  obtain ⟨found', hFound', hMem'⟩ := hOther
  obtain rfl : module = found := Option.some.inj (hModule.symm.trans hFound)
  obtain rfl : module = found' := Option.some.inj (hModule.symm.trans hFound')
  exact hEntered.unique hMem hMem' hName

theorem Works.exists_decl (h : job.Works sources start values types session)
    (hHas : session.program.Has job.id global) :
    ∃ decl ∈ Declaration.ofFile job.file, global.Declares job.package decl := by
  obtain ⟨module, hModule, hPackage, hFile, hEntered⟩ := h.entered
  obtain ⟨found, hFound, hMem⟩ := hHas
  obtain rfl : module = found := Option.some.inj (hModule.symm.trans hFound)
  obtain ⟨decl, hDecl, hDeclares⟩ := hEntered.exists_decl hMem
  exact ⟨decl, hFile ▸ hDecl, hPackage ▸ hDeclares⟩

/-! ### Routines -/

theorem Builds.env_sound (h : job.Builds sources start (sources.known handle function)
      (sources.known handle' function') session) :
    (job.env session).Sound h.sound.program.setting :=
  h.sound.program.env (fun global handle hHas _ hHandle => h.own global handle hHas hHandle)
    fun strict => sources.namesGlobals h.sourced strict

theorem Works.env_faithful (h : job.Works sources start values types session) :
    (job.env session).Faithful sources.files job.file where
  program := h.sound.faithful
  own := by
    obtain ⟨module, hModule, hName, hFile, -⟩ := h.entered
    exact ⟨module, hModule, hName, hFile⟩
  entered name hDeclares := by
    obtain ⟨decl, hDecl, rfl⟩ := hDeclares
    obtain ⟨global, hGlobal, -, -⟩ := h.exists_global hDecl
    show (session.program.global? job.id decl.name).isSome = true
    rw [hGlobal]
    rfl

theorem Builds.env_occurs
    (h : job.Builds sources start (sources.known handle function) (sources.known handle function)
      session) : (job.env session).Occurs sources job.file :=
  ⟨h.env_faithful, ⟨h.sound.program.setting, rfl, ⟨handle, function, rfl⟩, h.env_sound⟩,
    h.sound.program.closed, by simp [env], by simp [env]⟩

theorem Builds.env_hosts
    (h : job.Builds sources start (sources.known handle function) (sources.known handle function)
      session) {func : FuncType Ty}
    (hFunc : (Ty.func func).PlainFunc (sources.known handle function)) :
    (job.env session).Hosts sources job.file func :=
  ⟨h.env_occurs, h.sound.program.setting, rfl, ⟨handle, function, rfl⟩, h.env_sound, hFunc⟩

/-- The numbers that names are made from do not matter to anything else. -/
theorem Works.withSupply (h : job.Works sources start values types session)
    (hMade : session.supply.typedefs.made ≤ supply.typedefs.made) :
    job.Works sources start values types { session with supply := supply } where
  sound := ⟨h.sound.program, fun hFunction => Nat.lt_of_lt_of_le (h.sound.made hFunction) hMade,
    h.sound.faithful, h.sound.items⟩
  extended := ⟨h.extended.modules, h.extended.builtin, h.extended.next, h.extended.targets⟩
  later := h.later
  sourced := h.sourced
  entered := h.entered
  fresh := h.fresh

theorem Builds.withSupply (h : job.Builds sources start values types session)
    (hMade : session.supply.typedefs.made ≤ supply.typedefs.made) :
    job.Builds sources start values types { session with supply := supply } :=
  ⟨h.toWorks.withSupply hMade, h.own⟩

/-- What comes of a routine that was gone on with. -/
structure Resumed {α : Type} (job : Job) (session : Session) (routine : Routine)
    (action : RoutineM α) (values : Known) (good : α → Prop) (found : α × Routine)
    (after : Session) : Prop where
  good : good found.1
  sound : found.2.Sound values
  run : action.exec (job.env session) { routine with supply := session.supply } =
    (.ok found.1, found.2)
  session : after = { session with supply := found.2.supply }

/-- A routine that is gone on with, and its numbers that stay taken. -/
theorem resume_exec (job : Job) (session : Session) (routine : Routine) (action : RoutineM α) :
    (SessionM.resume job routine action).exec session =
      match action.exec (job.env session) { routine with supply := session.supply } with
      | (.ok value, last) => (.ok (value, last), { session with supply := last.supply })
      | (.error failure, last) => (.error failure, { session with supply := last.supply }) := by
  rw [SessionM.resume, SessionM.get_bind_exec]
  cases hRun : action.exec (job.env session) { routine with supply := session.supply } with
  | mk result last =>
      have hRun : action ⟨session.program, job.id, job.package, none, none, none⟩
          { routine with supply := session.supply } = (result, last) := hRun
      dsimp only
      rw [hRun]
      cases result with
      | ok value => rfl
      | error failure => rfl

theorem Builds.resume {routine : Routine}
    (h : job.Builds sources start (sources.known handle function)
      (sources.known handle' function') session)
    (hRoutine : routine.Sound (sources.known handle function))
    (hSafe : Safe h.sound.program.setting action good) :
    Runs sources.Excuses session (SessionM.resume job routine action)
      (job.Resumed session routine action (sources.known handle function) good) := by
  have hRun := hSafe (job.env session) { routine with supply := session.supply }
    h.env_sound hRoutine
  rw [Runs, resume_exec]
  cases hExec : action.exec (job.env session) { routine with supply := session.supply } with
  | mk result last =>
      rw [hExec] at hRun
      cases result with
      | ok value => exact ⟨hRun.1, hRun.2, hExec, rfl⟩
      | error failure =>
          cases failure with
          | error cause => trivial
          | fault fault => exact hRun
          | exhausted => exact hRun

theorem Builds.routine (h : job.Builds sources start (sources.known handle function)
      (sources.known handle' function') session)
    (hSafe : Safe h.sound.program.setting action good) :
    Runs sources.Excuses session (SessionM.routine job action)
      (job.Resumed session (Routine.start session.supply) action (sources.known handle function)
        good) := by
  refine Runs.get.bind fun found middle hGet => ?_
  rw [hGet.1, hGet.2]
  exact h.resume (Routine.Sound.start _ _) hSafe

theorem Builds.isolated (h : job.Builds sources start (sources.known handle function)
      (sources.known handle' function') session)
    (hSafe : Safe h.sound.program.setting action good) :
    Runs sources.Excuses session (SessionM.isolated job action) fun value after =>
      ∃ routine, job.Resumed session (Routine.start session.supply) action
        (sources.known handle function) good (value, routine) after :=
  (h.routine hSafe).bind fun found _ hFound => Runs.pure ⟨found.2, hFound⟩

/-! ### Values -/

/-- The program after a global of the module was given a value. -/
def withValue (job : Job) (session : Session) (name : String) (value : GlobalValue) : Session :=
  { session with program := session.program.updateModule job.id (·.setValue name value) }

/-- The globals of the module are those that it had, one of them with another value. -/
theorem has_withValue {global' : Global} :
    (job.withValue session name value).program.Has job.id global' ↔
      ∃ global, session.program.Has job.id global ∧ global' = global.given name value := by
  constructor
  · rintro ⟨module', hModule', hMem'⟩
    rcases Program.of_module?_updateModule hModule' with ⟨-, module, hModule, rfl⟩ | ⟨hOther, -⟩
    · obtain ⟨global, hMem, hSame⟩ := Program.mem_setValue.mp hMem'
      exact ⟨global, ⟨module, hModule, hMem⟩, hSame⟩
    · exact absurd rfl hOther
  · rintro ⟨global, ⟨module, hModule, hMem⟩, hSame⟩
    refine ⟨module.setValue name value, ?_, Program.mem_setValue.mpr ⟨global, hMem, hSame⟩⟩
    show (session.program.updateModule job.id (·.setValue name value)).module? job.id = _
    rw [Program.module?_updateModule, if_pos rfl, hModule]
    rfl

theorem Works.withValue (h : job.Works sources start values types session)
    (hSound : ∀ global, session.program.Has job.id global → global.name = name →
      ({ global with value := some value } : Global).Sound values types job.file)
    (hFaithful : ∀ global, session.program.Has job.id global → global.name = name →
      ({ global with value := some value } : Global).Faithful sources.files session.program
        job.package job.file) :
    job.Works sources start values types (job.withValue session name value) := by
  obtain ⟨module, hModule, hPackage, hFile, hEntered⟩ := h.entered
  have hSame (found : Module) (hFound : session.program.module? job.id = some found) :
      found = module := Option.some.inj (hFound.symm.trans hModule)
  refine ⟨⟨h.sound.program.setValue ?_, h.sound.made, h.sound.faithful.setValue ?_, h.sound.items⟩,
    h.extended.updateModule h.later _, h.later, h.sourced,
    ⟨module.setValue name value, ?_, hPackage, hFile, ?_⟩, ?_⟩
  · intro found hFound global hMem hName
    rw [hSame found hFound, hFile]
    exact hSound global ⟨found, hFound, hMem⟩ hName
  · intro found hFound global hMem hName
    rw [hSame found hFound, hFile, hPackage]
    exact hFaithful global ⟨found, hFound, hMem⟩ hName
  · show (session.program.updateModule job.id (·.setValue name value)).module? job.id = _
    rw [Program.module?_updateModule, if_pos rfl, hModule]
    rfl
  · exact hEntered.setValue name value
  · intro global' handle hHas hHandle
    obtain ⟨global, hBefore, rfl⟩ := has_withValue.mp hHas
    exact h.fresh global handle hBefore (Global.given_handle ▸ hHandle)

theorem Builds.withValue (h : job.Builds sources start values types session)
    (hWorks : job.Works sources start values types (job.withValue session name value)) :
    job.Builds sources start values types (job.withValue session name value) := by
  refine ⟨hWorks, fun global' handle hHas hHandle => ?_⟩
  obtain ⟨global, hBefore, rfl⟩ := has_withValue.mp hHas
  exact h.own global handle hBefore (Global.given_handle ▸ hHandle)

theorem Works.declared (h : job.Works sources start values types session)
    (hDecl : decl ∈ Declaration.ofFile job.file) :
    Runs sources.Excuses session (SessionM.declared job.id decl.name) fun global after =>
      global.Declares job.package decl ∧ after = session := by
  obtain ⟨global, hGlobal, -, hDeclares⟩ := h.exists_global hDecl
  refine Runs.global?.bind fun found after hFound => ?_
  rw [hFound.1, hFound.2, hGlobal]
  exact .pure ⟨hDeclares, rfl⟩

theorem Works.setValue (h : job.Works sources start values types session)
    (hDecl : decl ∈ Declaration.ofFile job.file) (value : GlobalValue) :
    Runs sources.Excuses session (SessionM.setValue job.id decl.name value) fun _ after =>
      after = job.withValue session decl.name value := by
  refine (h.declared hDecl).bind fun global after hAfter => ?_
  rw [hAfter.2]
  exact Runs.changed _

end Job

end GoToC
