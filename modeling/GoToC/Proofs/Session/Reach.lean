import GoToC.Proofs.Session.Order

/-!
# What the library is asked for

The library is asked for a module only where an import leads to it, starting from the main source
and from the module that all others see. So of a library nothing else matters to a program. The
main module is compiled from the main source unless the module that all others see leads to a
module of that name: then it is known by the time the main source is to be compiled, and that
source is never looked at.
-/

namespace GoToC

variable {text name : String} {after : Session} {log : List String} {result : Except Failure Unit}
  {withBuiltin : Bool}

open Relation (ReflTransGen)

/-- A module of a library imports a name. -/
def Library.Imports (library : Library) (name other : String) : Prop :=
  ∃ text file, library.load name = .ok text ∧ parse text = .ok file ∧
    ∃ decl ∈ file.imports, decl.name = other

/-- The names that a source imports. -/
def importedNames (text : String) : List String :=
  match parse text with
  | .ok file => file.imports.map (·.name)
  | .error _ => []

theorem mem_importedNames : name ∈ importedNames text ↔
    ∃ file, parse text = .ok file ∧ ∃ decl ∈ file.imports, decl.name = name := by
  unfold importedNames
  cases parse text with
  | ok file => simp
  | error failure => simp

/-! ## The main module -/

namespace Session.Completes

variable {library : Library} {roots : ModuleId → Prop} {before after : Session} {id : ModuleId}
  {module : Module}

/-- Where nothing was known before, every module comes from the library. -/
theorem exists_source (h : before.Completes library.Offers roots after)
    (hBefore : before.program.modules = []) (hModule : after.program.module? id = some module) :
    id ∈ after.finished ∧ (∃ root, roots root ∧ ReflTransGen after.program.Imports root id) ∧
    ∃ text, library.load module.name = .ok text ∧ parse text = .ok module.file ∧
      ∀ decl ∈ module.file.imports, ∃ target imported,
        after.program.module? target = some imported ∧ imported.name = decl.name := by
  obtain ⟨ids, hFinished, -, hIds, hBrings⟩ := h.added
  have hId : id ∈ ids := (hIds id).mpr ⟨by simp [hBefore], (List.getElem?_eq_some_iff.mp hModule).1⟩
  obtain ⟨hReached, same, text, hSame, hLoad, hParse, hImports⟩ := hBrings id hId
  obtain rfl := Option.some.inj (hModule.symm.trans hSame)
  refine ⟨by simp [hFinished, hId], hReached, text, hLoad, hParse, fun decl hDecl => ?_⟩
  obtain ⟨target, imported, hImported, hName, -⟩ := hImports decl hDecl
  exact ⟨target, imported, hImported, hName⟩

/-- Modules that import each other do so in the library too. -/
theorem library_reaches (h : before.Completes library.Offers roots after)
    (hBefore : before.program.modules = []) {root : ModuleId} {origin : Module}
    (hOrigin : after.program.module? root = some origin)
    (hReaches : ReflTransGen after.program.Imports root id)
    (hModule : after.program.module? id = some module) :
    ReflTransGen library.Imports origin.name module.name := by
  induction hReaches generalizing module with
  | refl =>
      obtain rfl := Option.some.inj (hOrigin.symm.trans hModule)
      exact .refl
  | tail _ hImports ih =>
      obtain ⟨asking, imported, hAsking, hImported, decl, hDecl, hName⟩ := hImports
      obtain rfl := Option.some.inj (hModule.symm.trans hImported)
      obtain ⟨-, -, text, hLoad, hParse, -⟩ := h.exists_source hBefore hAsking
      exact (ih hAsking).tail ⟨text, asking.file, hLoad, hParse, decl, hDecl, hName⟩

/-- Just the names that a module leads to in the library are known. -/
theorem knows_iff (h : before.Completes library.Offers (· = id) after)
    (hBefore : before.program.modules = []) (hModule : after.program.module? id = some module)
    (name : String) :
    (∃ target imported, after.program.module? target = some imported ∧ imported.name = name) ↔
      ReflTransGen library.Imports module.name name := by
  constructor
  · rintro ⟨target, imported, hImported, rfl⟩
    obtain ⟨-, ⟨root, rfl, hReaches⟩, -⟩ := h.exists_source hBefore hImported
    exact h.library_reaches hBefore hModule hReaches hImported
  · intro hReaches
    induction hReaches with
    | refl => exact ⟨id, module, hModule, rfl⟩
    | tail _ hImports ih =>
        obtain ⟨asking, found, hFound, rfl⟩ := ih
        obtain ⟨text, file, hLoad, hParse, decl, hDecl, rfl⟩ := hImports
        obtain ⟨-, -, text', hLoad', hParse', hTargets⟩ := h.exists_source hBefore hFound
        obtain rfl := Except.ok.inj (hLoad.symm.trans hLoad')
        obtain rfl := Except.ok.inj (hParse.symm.trans hParse')
        exact hTargets decl hDecl

end Session.Completes

namespace SessionM

variable {library : Library}

/-- A module that is new is compiled from the source that it is asked for with. -/
theorem Compiling.own_source {session : Session} {id : ModuleId}
    (h : Compiling library name text session log (.ok id) after)
    (hNew : session.program.find? name = none) :
    id ∈ after.finished ∧ ∃ module, after.program.module? id = some module ∧ module.name = name ∧
        parse text = .ok module.file := by
  cases h with
  | known hFound => cases hNew.symm.trans hFound
  | done _ hParse hBuilding =>
      obtain ⟨hCompletes, -⟩ := hBuilding.completes ⟨_, List.getElem?_concat_length, rfl, rfl⟩ rfl
      obtain ⟨module, hModule, hName, hFile⟩ :=
        hCompletes.embeds _ _ List.getElem?_concat_length
      exact ⟨by simp, module, hModule, hName, hFile ▸ hParse⟩

/-- A session with a module that all others see. -/
def sharing (session : Session) (builtin : ModuleId) : Session :=
  { session with program := { session.program with builtin := some builtin } }

theorem find?_sharing (session : Session) (builtin : ModuleId) (name : String) :
    (sharing session builtin).program.find? name = session.program.find? name := rfl

/-- The module that all others see is asked for before the main source is compiled. -/
theorem compileProgram_builtin
    (hRun : (compileProgram library true text).exec .empty = (result, after)) :
    (∃ failure, result = .error failure) ∨
    ∃ builtin loaded, (loadModule library builtinName).exec (Session.empty.writing [.includes]) =
        (.ok builtin, loaded) ∧
      ∀ other, (compileProgram library true other).exec .empty =
        (compileSource library mainName other >>= fun _ => (pure () : SessionM Unit)).exec
          (sharing loaded builtin) := by
  cases hLoad : (loadModule library builtinName).exec (Session.empty.writing [.includes]) with
  | mk found loaded =>
      cases found with
      | error failure =>
          rw [compileProgram_shared, bind_exec, loadBuiltin, bind_exec, hLoad] at hRun
          cases hRun
          exact .inl ⟨failure, rfl⟩
      | ok builtin =>
          refine .inr ⟨builtin, loaded, rfl, fun other => ?_⟩
          rw [compileProgram_shared, bind_exec, loadBuiltin, bind_exec, hLoad]
          rfl

end SessionM

/-- The main module of a compiled program is compiled from the main source unless the module that
all others see leads to a module of its name in the library. In that case it is compiled from the
source in the library, and the main source may be any text whatever. -/
theorem main_module_source {library : Library} {withBuiltin : Bool} {text : String}
    {session : Session}
    (hRun : (SessionM.compileProgram library withBuiltin text).exec .empty = (.ok (), session)) :
    ∃ id module, session.program.find? SessionM.mainName = some id ∧
      session.program.module? id = some module ∧ id ∈ session.finished ∧
      (¬ (withBuiltin = true ∧
          ReflTransGen library.Imports SessionM.builtinName SessionM.mainName) →
        parse text = .ok module.file) ∧
      (withBuiltin = true ∧ ReflTransGen library.Imports SessionM.builtinName SessionM.mainName →
        (∃ source, library.load SessionM.mainName = .ok source ∧ parse source = .ok module.file) ∧
        ∀ other, (SessionM.compileProgram library withBuiltin other).exec .empty =
          (.ok (), session)) := by
  obtain ⟨log, hRunning⟩ := SessionM.ends_compileProgram hRun nofun
  have hDistinct := hRunning.completes.distinct List.nodup_nil
  have hMain (before : Session) (hNew : before.program.find? SessionM.mainName = none)
      (hRun : (SessionM.compileSource library SessionM.mainName text >>= fun _ =>
        (pure () : SessionM Unit)).exec before = (.ok (), session)) :
      ∃ id module, session.program.find? SessionM.mainName = some id ∧
        session.program.module? id = some module ∧ id ∈ session.finished ∧
        parse text = .ok module.file := by
    obtain ⟨id, hCompile⟩ : ∃ id, (SessionM.compileSource library SessionM.mainName text).exec
        before = (.ok id, session) := by
      obtain ⟨id, middle, hCompile, hRest⟩ := SessionM.bind_eq_ok.mp hRun
      cases hRest
      exact ⟨id, hCompile⟩
    obtain ⟨log, hCompiling⟩ := SessionM.ends_compileWithin _ _ _ _ _ _ hCompile nofun
    obtain ⟨hFinished, module, hModule, hName, hParse⟩ := hCompiling.own_source hNew
    exact ⟨id, module, (Program.find?_eq_some_iff hDistinct).mpr ⟨module, hModule, hName⟩, hModule,
      hFinished, hParse⟩
  cases withBuiltin with
  | false =>
      obtain ⟨id, module, hFound, hModule, hFinished, hParse⟩ :=
        hMain (Session.empty.writing [.includes]) rfl hRun
      exact ⟨id, module, hFound, hModule, hFinished, fun _ => hParse,
        fun hBuiltin => nomatch hBuiltin.1⟩
  | true =>
      obtain ⟨failure, hFailed⟩ | ⟨builtin, loaded, hLoad, hOthers⟩ :=
        SessionM.compileProgram_builtin hRun
      · cases hFailed
      obtain ⟨log, hImporting⟩ := SessionM.ends_importWith (SessionM.ends_compileWithin _ _) _ _
        _ _ _ hLoad nofun
      obtain ⟨⟨prelude, hPrelude, hName, -⟩, hCompletes⟩ := hImporting.completes builtin rfl
      have hKnows := hCompletes.knows_iff rfl hPrelude SessionM.mainName
      rw [hName] at hKnows
      rw [hOthers] at hRun
      cases hFound : loaded.program.find? SessionM.mainName with
      | none =>
          obtain ⟨id, module, hMainFound, hModule, hFinished, hParse⟩ :=
            hMain (SessionM.sharing loaded builtin) hFound hRun
          refine ⟨id, module, hMainFound, hModule, hFinished, fun _ => hParse, fun hBuiltin => ?_⟩
          obtain ⟨target, imported, hImported, hSame⟩ := hKnows.mpr hBuiltin.2
          exact absurd hFound (Program.find?_ne_none hImported hSame)
      | some id =>
          have hKnown (other : String) : (SessionM.compileSource library SessionM.mainName other >>=
              fun _ => (pure () : SessionM Unit)).exec (SessionM.sharing loaded builtin) =
                (.ok (), SessionM.sharing loaded builtin) := by
            have hShared := (SessionM.find?_sharing loaded builtin SessionM.mainName).trans hFound
            rw [SessionM.bind_exec, SessionM.compileSource, SessionM.compileWithin_known hShared]
            rfl
          rw [hKnown] at hRun
          cases hRun
          obtain ⟨module, hModule, hSame⟩ := Program.find?_eq_some hFound
          obtain ⟨hFinished, -, source, hSource, hParse, -⟩ := hCompletes.exists_source rfl hModule
          rw [hSame] at hSource
          refine ⟨id, module, hFound, hModule, hFinished, fun hNot => ?_, fun _ =>
            ⟨⟨source, hSource, hParse⟩, fun other => (hOthers other).trans (hKnown other)⟩⟩
          exact absurd ⟨rfl, hKnows.mp ⟨id, module, hModule, hSame⟩⟩ hNot

/-- A library in which the module that all others see imports the main module. -/
def intrudingLibrary : Library :=
  .ofList [("builtin", "import \"main\"\n"), ("main", "var x int\n")]

theorem main_module_source_intruding :
    ∃ session, (SessionM.compileProgram intrudingLibrary true "\x7d").exec .empty =
        (.ok (), session) ∧
      ∃ id module, session.program.find? SessionM.mainName = some id ∧
        session.program.module? id = some module ∧
        ∃ source, intrudingLibrary.load SessionM.mainName = .ok source ∧
          parse source = .ok module.file := by
  have hLeads : ReflTransGen intrudingLibrary.Imports SessionM.builtinName SessionM.mainName := by
    have hMem : SessionM.mainName ∈ importedNames "import \"main\"\n" := by decide +kernel
    obtain ⟨file, hImports⟩ := mem_importedNames.mp hMem
    exact .single ⟨_, file, rfl, hImports⟩
  have hDone : ((SessionM.compileProgram intrudingLibrary true "\x7d").exec .empty).1.toOption =
      some () := by
    decide +kernel
  cases hRun : (SessionM.compileProgram intrudingLibrary true "\x7d").exec .empty with
  | mk result session =>
      rw [hRun] at hDone
      cases result with
      | error failure => cases hDone
      | ok done =>
          obtain ⟨id, module, hFound, hModule, -, -, hIntruding⟩ := main_module_source hRun
          exact ⟨session, rfl, id, module, hFound, hModule, (hIntruding ⟨rfl, hLeads⟩).1⟩

/-- What is no source at all is taken for the main source. -/
theorem main_module_source_ignored : (∀ file, parse "\x7d" ≠ .ok file) ∧
      compile intrudingLibrary true "\x7d" =
        .ok "#include <stdio.h>\n#include \"runt.h\"\nP_int main__x;\n" := by
  constructor
  · have hParse : (parse "\x7d").toOption.isNone = true := by decide +kernel
    intro file hFile
    rw [hFile] at hParse
    cases hParse
  · decide +kernel

/-! ## Libraries that agree -/

/-- The names that the imports of a program lead to. -/
inductive Library.Leads (library : Library) (withBuiltin : Bool) (text : String) : String → Prop
  | builtin : withBuiltin = true → Leads library withBuiltin text SessionM.builtinName
  | direct {file decl} : parse text = .ok file →
      decl ∈ file.imports → Leads library withBuiltin text decl.name
  | further {name other} : Leads library withBuiltin text name →
      library.Imports name other → Leads library withBuiltin text other

/-- Imports lead to no names but those of a list that is closed under them. -/
theorem Library.Leads.mem {library : Library} {names : List String}
    (h : library.Leads withBuiltin text name)
    (hBuiltin : withBuiltin = true → SessionM.builtinName ∈ names)
    (hMain : importedNames text ⊆ names)
    (hClosed : ∀ name ∈ names, ∀ source, library.load name = .ok source →
      importedNames source ⊆ names) : name ∈ names := by
  induction h with
  | builtin hWith => exact hBuiltin hWith
  | direct hParse hDecl => exact hMain (mem_importedNames.mpr ⟨_, hParse, _, hDecl, rfl⟩)
  | further _ hImports ih =>
      obtain ⟨source, file, hLoad, hImports⟩ := hImports
      exact hClosed _ ih source hLoad (mem_importedNames.mpr ⟨file, hImports⟩)

namespace SessionM

variable {library library' : Library}

mutual

/-- The compilation of a source comes to one result only. -/
theorem Compiling.unique {name text : String} {session after after' : Session}
    {log log' : List String} {result result' : Except Failure ModuleId} :
    Compiling library name text session log result after →
      Compiling library name text session log' result' after' → (result, after) = (result', after')
  | .known hFound => fun h' => by
      cases h' with
      | known hFound' => cases hFound.symm.trans hFound'; rfl
      | unread hNew | failed hNew | done hNew => cases hFound.symm.trans hNew
  | .unread hNew hRead => fun h' => by
      cases h' with
      | known hFound => cases hNew.symm.trans hFound
      | unread _ hRead' => cases hRead.symm.trans hRead'; rfl
      | failed _ hParse | done _ hParse =>
          rw [readSource, hParse] at hRead
          cases hRead
  | .failed hNew hParse hBuilding => fun h' => by
      cases h' with
      | known hFound => cases hNew.symm.trans hFound
      | unread _ hRead =>
          rw [readSource, hParse] at hRead
          cases hRead
      | failed _ hParse' hBuilding' =>
          cases hParse.symm.trans hParse'
          cases Building.unique hBuilding hBuilding'
          rfl
      | done _ hParse' hBuilding' =>
          cases hParse.symm.trans hParse'
          cases Building.unique hBuilding hBuilding'
  | .done hNew hParse hBuilding => fun h' => by
      cases h' with
      | known hFound => cases hNew.symm.trans hFound
      | unread _ hRead =>
          rw [readSource, hParse] at hRead
          cases hRead
      | failed _ hParse' hBuilding' =>
          cases hParse.symm.trans hParse'
          cases Building.unique hBuilding hBuilding'
      | done _ hParse' hBuilding' =>
          cases hParse.symm.trans hParse'
          cases Building.unique hBuilding hBuilding'
          rfl

theorem Building.unique {job : Job} {session after after' : Session} {log log' : List String}
    {result result' : Except Failure Unit} : Building library job session log result after →
      Building library job session log' result' after' → (result, after) = (result', after')
  | .undeclared hDeclare => fun h' => by
      cases h' with
      | undeclared hDeclare' => cases hDeclare.symm.trans hDeclare'; rfl
      | failed hDeclare' | own hDeclare' => cases hDeclare.symm.trans hDeclare'
  | .failed hDeclare hFollowing => fun h' => by
      cases h' with
      | undeclared hDeclare' => cases hDeclare.symm.trans hDeclare'
      | failed hDeclare' hFollowing' =>
          cases hDeclare.symm.trans hDeclare'
          cases Following.unique hFollowing hFollowing'
          rfl
      | own hDeclare' hFollowing' =>
          cases hDeclare.symm.trans hDeclare'
          cases Following.unique hFollowing hFollowing'
  | .own hDeclare hFollowing hOwn => fun h' => by
      cases h' with
      | undeclared hDeclare' => cases hDeclare.symm.trans hDeclare'
      | failed hDeclare' hFollowing' =>
          cases hDeclare.symm.trans hDeclare'
          cases Following.unique hFollowing hFollowing'
      | own hDeclare' hFollowing' hOwn' =>
          cases hDeclare.symm.trans hDeclare'
          cases Following.unique hFollowing hFollowing'
          exact hOwn.symm.trans hOwn'

theorem Following.unique {job : Job} {imports : List ImportDecl} {session after after' : Session}
    {log log' : List String} {result result' : Except Failure Unit} :
    Following library job imports session log result after →
      Following library job imports session log' result' after' →
      (result, after) = (result', after')
  | .nil => fun h' => by cases h'; rfl
  | .failed hImporting => fun h' => by
      cases h' with
      | failed hImporting' => cases Importing.unique hImporting hImporting'; rfl
      | unset hImporting' | cons hImporting' => cases Importing.unique hImporting hImporting'
  | .unset hImporting hSet => fun h' => by
      cases h' with
      | failed hImporting' => cases Importing.unique hImporting hImporting'
      | unset hImporting' hSet' =>
          cases Importing.unique hImporting hImporting'
          cases hSet.symm.trans hSet'
          rfl
      | cons hImporting' hSet' =>
          cases Importing.unique hImporting hImporting'
          cases hSet.symm.trans hSet'
  | .cons hImporting hSet hFollowing => fun h' => by
      cases h' with
      | failed hImporting' => cases Importing.unique hImporting hImporting'
      | unset hImporting' hSet' =>
          cases Importing.unique hImporting hImporting'
          cases hSet.symm.trans hSet'
      | cons hImporting' hSet' hFollowing' =>
          cases Importing.unique hImporting hImporting'
          cases hSet.symm.trans hSet'
          exact Following.unique hFollowing hFollowing'

theorem Importing.unique {name asking : String} {span : Span} {session after after' : Session}
    {log log' : List String} {result result' : Except Failure ModuleId} :
    Importing library name asking span session log result after →
      Importing library name asking span session log' result' after' →
      (result, after) = (result', after')
  | .known hFound => fun h' => by
      cases h' with
      | known hFound' => cases hFound.symm.trans hFound'; rfl
      | unloaded hNew | loaded hNew => cases hFound.symm.trans hNew
  | .unloaded hNew hLoad => fun h' => by
      cases h' with
      | known hFound => cases hNew.symm.trans hFound
      | unloaded _ hLoad' => cases hLoad.symm.trans hLoad'; rfl
      | loaded _ hLoad' => cases hLoad.symm.trans hLoad'
  | .loaded hNew hLoad hCompiling => fun h' => by
      cases h' with
      | known hFound => cases hNew.symm.trans hFound
      | unloaded _ hLoad' => cases hLoad.symm.trans hLoad'
      | loaded _ hLoad' hCompiling' =>
          cases hLoad.symm.trans hLoad'
          exact Compiling.unique hCompiling hCompiling'

end

/-- The compilation of a program comes to one result only. -/
theorem Running.unique {log' : List String} {result' : Except Failure Unit} {after' : Session}
    (h : Running library text withBuiltin log result after)
    (h' : Running library text withBuiltin log' result' after') :
    (result, after) = (result', after') := by
  cases h with
  | plain hCompiling =>
      cases h' with
      | plain hCompiling' =>
          cases hCompiling.unique hCompiling'
          rfl
  | failed hImporting =>
      cases h' with
      | failed hImporting' =>
          cases hImporting.unique hImporting'
          rfl
      | shared hImporting' => cases hImporting.unique hImporting'
  | shared hImporting hCompiling =>
      cases h' with
      | failed hImporting' => cases hImporting.unique hImporting'
      | shared hImporting' hCompiling' =>
          cases hImporting.unique hImporting'
          cases hCompiling.unique hCompiling'
          rfl

/-- Two libraries have the same module of each name of a kind, and such a module imports names of
that kind only. -/
structure Agree (library library' : Library) (kind : String → Prop) : Prop where
  load : ∀ name, kind name → library'.load name = library.load name
  imports : ∀ name other, kind name → library.Imports name other → kind other

variable {kind : String → Prop}

mutual

/-- The other library is asked for the same modules. -/
theorem Compiling.agree (hAgree : Agree library library' kind) {name text : String}
    {session after : Session} {log : List String} {result : Except Failure ModuleId} :
    Compiling library name text session log result after →
      (∀ file, parse text = .ok file → ∀ decl ∈ file.imports, kind decl.name) →
      Compiling library' name text session log result after
  | .known hFound => fun _ => .known hFound
  | .unread hNew hRead => fun _ => .unread hNew hRead
  | .failed hNew hParse hBuilding => fun hKind =>
      .failed hNew hParse (Building.agree hAgree hBuilding (hKind _ hParse))
  | .done hNew hParse hBuilding => fun hKind =>
      .done hNew hParse (Building.agree hAgree hBuilding (hKind _ hParse))

theorem Building.agree (hAgree : Agree library library' kind) {job : Job} {session after : Session}
    {log : List String} {result : Except Failure Unit} :
    Building library job session log result after → (∀ decl ∈ job.file.imports, kind decl.name) →
      Building library' job session log result after
  | .undeclared hDeclare => fun _ => .undeclared hDeclare
  | .failed hDeclare hFollowing => fun hKind =>
      .failed hDeclare (Following.agree hAgree hFollowing hKind)
  | .own hDeclare hFollowing hOwn => fun hKind =>
      .own hDeclare (Following.agree hAgree hFollowing hKind) hOwn

theorem Following.agree (hAgree : Agree library library' kind) {job : Job}
    {imports : List ImportDecl} {session after : Session} {log : List String}
    {result : Except Failure Unit} : Following library job imports session log result after →
      (∀ decl ∈ imports, kind decl.name) → Following library' job imports session log result after
  | .nil => fun _ => .nil
  | .failed hImporting => fun hKind =>
      .failed (Importing.agree hAgree hImporting (hKind _ List.mem_cons_self))
  | .unset hImporting hSet => fun hKind =>
      .unset (Importing.agree hAgree hImporting (hKind _ List.mem_cons_self)) hSet
  | .cons hImporting hSet hFollowing => fun hKind =>
      .cons (Importing.agree hAgree hImporting (hKind _ List.mem_cons_self)) hSet
        (Following.agree hAgree hFollowing fun decl hDecl =>
          hKind decl (List.mem_cons_of_mem _ hDecl))

theorem Importing.agree (hAgree : Agree library library' kind) {name asking : String} {span : Span}
    {session after : Session} {log : List String} {result : Except Failure ModuleId} :
    Importing library name asking span session log result after → kind name →
      Importing library' name asking span session log result after
  | .known hFound => fun _ => .known hFound
  | .unloaded hNew hLoad => fun hKind => .unloaded hNew ((hAgree.load _ hKind).trans hLoad)
  | .loaded hNew hLoad hCompiling => fun hKind =>
      .loaded hNew ((hAgree.load _ hKind).trans hLoad) (Compiling.agree hAgree hCompiling
        fun file hParse decl hDecl =>
          hAgree.imports _ _ hKind ⟨_, file, hLoad, hParse, decl, hDecl, rfl⟩)

end

/-- A program is compiled in the same way with a library that agrees on all names that its imports
lead to. -/
theorem Running.agree
    (hLoad : ∀ name, library.Leads withBuiltin text name → library'.load name = library.load name)
    (h : Running library text withBuiltin log result after) :
    Running library' text withBuiltin log result after := by
  have hAgree : Agree library library' (library.Leads withBuiltin text) :=
    ⟨hLoad, fun _ _ => .further⟩
  cases h with
  | plain hCompiling =>
      exact .plain (hCompiling.agree hAgree fun _ hParse _ hDecl => .direct hParse hDecl)
  | failed hImporting => exact .failed (hImporting.agree hAgree (.builtin rfl))
  | shared hImporting hCompiling =>
      exact .shared (hImporting.agree hAgree (.builtin rfl))
        (hCompiling.agree hAgree fun _ hParse _ hDecl => .direct hParse hDecl)

/-- With modules that are given as a list the compilation of a program ends in any case. -/
theorem running_ofList (modules : List (String × String)) (withBuiltin : Bool) (text : String) :
    ∃ log, Running (.ofList modules) text withBuiltin log
      ((compileProgram (.ofList modules) withBuiltin text).exec .empty).1
      ((compileProgram (.ofList modules) withBuiltin text).exec .empty).2 := by
  refine ends_compileProgram rfl fun hExhausted => ?_
  have hOutcome := compileProgram_ofList modules withBuiltin text
  cases hRun : (compileProgram (.ofList modules) withBuiltin text).exec .empty with
  | mk result after =>
      rw [hRun] at hExhausted
      rw [Runs, hRun, show result = .error .exhausted from hExhausted] at hOutcome
      exact hOutcome

end SessionM

/-- Two sets of modules that agree on all names that the imports of a program lead to give the same
C program or the same error. -/
theorem compile_agree {modules modules' : List (String × String)} {withBuiltin : Bool}
    {text : String}
    (hLoad : ∀ name, (Library.ofList modules).Leads withBuiltin text name →
      (Library.ofList modules').load name = (Library.ofList modules).load name) :
    compile (.ofList modules') withBuiltin text = compile (.ofList modules) withBuiltin text := by
  obtain ⟨log, hRunning⟩ := SessionM.running_ofList modules withBuiltin text
  obtain ⟨log', hRunning'⟩ := SessionM.running_ofList modules' withBuiltin text
  have hSame : (SessionM.compileProgram (.ofList modules) withBuiltin text).exec .empty =
      (SessionM.compileProgram (.ofList modules') withBuiltin text).exec .empty :=
    (hRunning.agree hLoad).unique hRunning'
  have hCompile (modules : List (String × String)) : compile (.ofList modules) withBuiltin text =
      match (SessionM.compileProgram (.ofList modules) withBuiltin text).exec .empty with
      | (.ok _, session) => .ok session.text
      | (.error failure, _) => .error failure := rfl
  rw [hCompile, hCompile, hSame]

/-- Modules that import each other. -/
def usedModules : List (String × String) :=
  [("a", "import \"b\"\nvar x int\n"), ("b", "import \"a\"\n"), ("builtin", "func f()\n")]

/-- A module that nothing leads to may be no source at all. -/
theorem compile_agree_unused :
    compile (.ofList (("c", "\x7d") :: usedModules)) true "import \"a\"\n" =
      compile (.ofList usedModules) true "import \"a\"\n" ∧
    (compile (.ofList usedModules) true "import \"a\"\n").toOption.isSome = true := by
  refine ⟨compile_agree fun name hLeads => ?_, by decide +kernel⟩
  have hMem : name ∈ ["a", "b", "builtin"] := by
    have hClosed : ∀ entry ∈ usedModules, importedNames entry.2 ⊆ ["a", "b", "builtin"] := by
      decide +kernel
    exact hLeads.mem (by simp [SessionM.builtinName]) (by decide +kernel)
      fun name _ source hLoad => hClosed (name, source) (Library.mem_of_load hLoad)
  have hOther : (name == "c") = false := by
    rw [beq_eq_false_iff_ne]
    rintro rfl
    simp at hMem
  simp [Library.ofList, List.lookup_cons, hOther]

end GoToC
