import GoToC.Proofs.Grammar.FileSpans
import GoToC.Proofs.Session.Blames
import GoToC.Proofs.Session.Reach

/-!
# Where errors point

An error names the module whose compilation raised it, however many imports led there, and its
places are places in the source of that module: they run from the start of a token to the end of
one. An import that fails is an error of the module that imports. Only a module that nothing
imports, as it is asked for from outside, fails to load at no place at all.
-/

namespace GoToC

variable {after session : Session} {failure : Failure} {text : String} {cause : CompileError}

open Relation (ReflTransGen)

/-! ## Sources in force -/

/-- A library in which the main module has a source of its own. -/
def Library.withMain (library : Library) (text : String) : Library where
  load name := if name = SessionM.mainName then .ok text else library.load name
  bound := library.bound + 1

theorem Library.load_withMain (library : Library) (text name : String) :
    (library.withMain text).load name =
      if name = SessionM.mainName then .ok text else library.load name := rfl

/-- The module that the compilation of a program asks for last, and the sources that modules are
compiled from meanwhile. The main source is in force once the module that all others see is
compiled, or at once if there is to be none. -/
inductive Library.Asks (library : Library) (text : String) : Bool → Library → String → Prop
  | builtin {failure : Failure} {after : Session} :
      (SessionM.loadBuiltin library).exec (Session.empty.writing [.includes]) =
        (.error failure, after) →
      Asks library text true library SessionM.builtinName
  | main {builtin after} :
      (SessionM.loadBuiltin library).exec (Session.empty.writing [.includes]) =
        (.ok builtin, after) →
      Asks library text true (library.withMain text) SessionM.mainName
  | alone : Asks library text false (library.withMain text) SessionM.mainName

/-! ## Modules that raise errors -/

/-- An error that is raised as a module of that name is compiled. -/
inductive Library.Raises (sources : Library) : String → CompileError → Prop
  /-- The source of the module is not read as a file. -/
  | unread {name source cause} :
      sources.load name = .ok source → parse source = .error (.error cause) →
      Raises sources name ⟨name, cause.span, .parse cause⟩
  /-- What the module imports is not loaded. -/
  | unloaded {name source file decl reason} :
      sources.load name = .ok source → parse source = .ok file → decl ∈ file.imports →
      sources.load decl.name = .error reason →
      Raises sources name ⟨name, decl.span, reason.problem decl.name⟩
  /-- The names of the module are not entered. -/
  | undeclared {job source session after cause} :
      sources.load job.package = .ok source → parse source = .ok job.file →
      session.program.module? job.id = some (Module.ofFile job.package job.file) →
      (SessionM.declareAll job).exec session = (.error (.error cause), after) →
      Raises sources job.package cause
  /-- The declarations of the module, whose imports are built, are not compiled. -/
  | refused {job source session after module cause} :
      sources.load job.package = .ok source → parse source = .ok job.file →
      session.program.module? job.id = some module → module.Awaits job →
      (SessionM.compileOwn job).exec session = (.error (.error cause), after) →
      Raises sources job.package cause

/-- An error of a module that the imports of another lead to, at places in its source. -/
structure Library.Traces (sources : Library) (root : String) (cause : CompileError) : Prop where
  reached : ReflTransGen sources.Imports root cause.module
  raised : sources.Raises cause.module cause
  marks : ∃ source, sources.load cause.module = .ok source ∧ cause.span.MarksIn source ∧
    ∀ previous ∈ cause.problem.previous?, previous.MarksIn source

namespace Library.Traces

variable {sources : Library} {name source : String} {cause : CompileError}

/-- A module raises errors of its own. -/
theorem own (hLoad : sources.load name = .ok source) (hRaises : sources.Raises name cause)
    (hBlamed : cause.BlamedOn name (Span.Joins (lex source))) : sources.Traces name cause := by
  obtain ⟨rfl, hSpan, hPrevious⟩ := hBlamed
  exact ⟨.refl, hRaises, source, hLoad, hSpan.marksIn, fun previous h =>
    (hPrevious previous h).marksIn⟩

/-- The errors of what a module imports come up in it. -/
theorem imported {file : SourceFile} {decl : ImportDecl} (hLoad : sources.load name = .ok source)
    (hParse : parse source = .ok file) (hDecl : decl ∈ file.imports)
    (h : sources.Traces decl.name cause) : sources.Traces name cause :=
  ⟨.head ⟨source, file, hLoad, hParse, decl, hDecl, rfl⟩ h.reached, h.raised, h.marks⟩

end Library.Traces

theorem LoadError.problem_previous (reason : LoadError) (name : String) :
    (reason.problem name).previous? = none := by
  cases reason with
  | missing => rfl
  | unreadable => rfl

/-- Sources that a library has for all modules that are not known yet. -/
def Library.Backs (library sources : Library) (session : Session) : Prop :=
  ∀ name, ¬ session.Knows name → sources.load name = library.load name

theorem Library.Backs.mono {library sources : Library} {session after : Session}
    (h : library.Backs sources session) (hKnows : ∀ name, session.Knows name → after.Knows name) :
    library.Backs sources after := fun name hNew => h name fun hKnown => hNew (hKnows name hKnown)

theorem parse_placed {source : String} {file : SourceFile} (h : parse source = .ok file) :
    file.Placed (Span.Joins (lex source)) := by
  have hPlaces := parse_places source
  rwa [h] at hPlaces

namespace SessionM

variable {library sources : Library} {fits : Span → Prop}

/-- Following the imports of a module leaves it placed. -/
theorem Following.placed {job : Job} {imports : List ImportDecl} {session after : Session}
    {log : List String} {result : Except Failure Unit} :
    Following library job imports session log result after →
      ∀ module, session.program.module? job.id = some module → module.Placed fits →
      result = .ok () → job.Placed fits after
  | .cons hImporting hSet hFollowing => fun module hModule hPlaced hResult => by
      obtain ⟨same, hSame, -, hUnchanged⟩ := (hImporting.gains _ rfl).modules job.id module hModule
      rw [hUnchanged id] at hSame
      obtain ⟨-, rfl⟩ := (Job.does_setValue _ _).success hSet
      exact hFollowing.placed _ (by
        show (Program.updateModule _ job.id _).module? job.id = _
        rw [Program.module?_updateModule, if_pos rfl, hSame]
        rfl) (hPlaced.setValue _ _) hResult
  | .nil => fun module hModule hPlaced _ module' hModule' => by
      obtain rfl := Option.some.inj (hModule.symm.trans hModule')
      exact hPlaced
  | .failed _ => fun _ _ _ => nofun
  | .unset _ _ => fun _ _ _ => nofun

mutual

theorem Compiling.traces {name text : String} {session after : Session} {log : List String}
    {result : Except Failure ModuleId} : Compiling library name text session log result after →
      sources.load name = .ok text →
      (∀ other, other ≠ name → ¬ session.Knows other → sources.load other = library.load other) →
      ∀ cause, result = .error (.error cause) → sources.Traces name cause
  | .known _ => fun _ _ _ => nofun
  | .unread _ hRead => fun hLoad _ cause hResult => by
      have hPlaces := parse_places text
      unfold readSource at hRead
      cases hParse : parse text with
      | ok file =>
          rw [hParse] at hRead
          cases hRead
      | error failure =>
          rw [hParse] at hRead hPlaces
          cases failure with
          | error found =>
              cases hRead
              cases hResult
              exact .own hLoad (.unread hLoad hParse) ⟨rfl, hPlaces, nofun⟩
          | exhausted =>
              cases hRead
              cases hResult
  | .failed _ hParse hBuilding => fun hLoad hOthers cause hResult => by
      refine Building.traces hBuilding hLoad hParse List.getElem?_concat_length
        (fun other hNew => ?_) cause (congrArg Except.error (Except.error.inj hResult))
      rw [Session.Reads.knows_registered, not_or] at hNew
      exact hOthers other hNew.2 hNew.1
  | .done _ _ _ => fun _ _ _ => nofun

theorem Building.traces {job : Job} {source : String} {session after : Session}
    {log : List String} {result : Except Failure Unit} :
    Building library job session log result after →
      sources.load job.package = .ok source → parse source = .ok job.file →
      session.program.module? job.id = some (Module.ofFile job.package job.file) →
      library.Backs sources session →
      ∀ cause, result = .error (.error cause) → sources.Traces job.package cause
  | .undeclared hDeclare => fun hLoad hParse hModule _ cause hResult => by
      cases hResult
      have hPlaced : job.Placed (Span.Joins (lex source)) session := fun module hFound => by
        obtain rfl := Option.some.inj (hModule.symm.trans hFound)
        exact .ofFile _ _
      exact .own hLoad (.undeclared hLoad hParse hModule hDeclare)
        ((Job.Blames.declareAll (parse_placed hParse)).failure hPlaced hDeclare)
  | .failed hDeclare hFollowing => fun hLoad hParse hModule hBacks cause hResult => by
      refine Following.traces hFollowing hLoad hParse (fun _ hDecl => hDecl)
        (hBacks.mono fun name => ?_) cause hResult
      exact ((Job.does_declareAll hModule).success hDeclare).1.knows.mpr
  | .own hDeclare hFollowing hOwn => fun hLoad hParse hModule _ cause hResult => by
      subst hResult
      have hFile := parse_placed hParse
      have hPlaced : job.Placed (Span.Joins (lex source)) session := fun module hFound => by
        obtain rfl := Option.some.inj (hModule.symm.trans hFound)
        exact .ofFile _ _
      obtain ⟨-, hDeclared⟩ := (Job.Blames.declareAll hFile).success hPlaced hDeclare
      obtain ⟨-, module, hFound, hAwaits, -⟩ := (Job.does_declareAll hModule).success hDeclare
      obtain ⟨-, module', hFound', hAwaits'⟩ := hFollowing.gains module hFound hAwaits rfl
      have hImported := hFollowing.placed module hFound (hDeclared module hFound) rfl
      exact .own hLoad (.refused hLoad hParse hFound' hAwaits' hOwn)
        ((Job.Blames.compileOwn hFile).failure hImported hOwn)

theorem Following.traces {job : Job} {source : String} {imports : List ImportDecl}
    {session after : Session} {log : List String} {result : Except Failure Unit} :
    Following library job imports session log result after →
      sources.load job.package = .ok source → parse source = .ok job.file →
      imports ⊆ job.file.imports → library.Backs sources session →
      ∀ cause, result = .error (.error cause) → sources.Traces job.package cause
  | .nil => fun _ _ _ _ _ => nofun
  | .failed hImporting => fun hLoad hParse hImports hBacks cause hResult => by
      have hDecl := hImports List.mem_cons_self
      have hImported := Importing.traces hImporting hBacks cause
        (congrArg Except.error (Except.error.inj hResult))
      rcases hImported with ⟨reason, hReason, rfl⟩ | hImported
      · refine .own hLoad (.unloaded hLoad hParse hDecl hReason) ⟨rfl, ?_, ?_⟩
        · exact (parse_placed hParse).imports _ hDecl
        · simp [LoadError.problem_previous]
      · exact .imported hLoad hParse hDecl hImported
  | .unset _ hSet => fun _ _ _ _ cause hResult => by
      obtain ⟨-, fault, rfl⟩ := Job.setValue_failed hSet
      cases hResult
  | .cons hImporting hSet hFollowing => fun hLoad hParse hImports hBacks cause hResult => by
      refine Following.traces hFollowing hLoad hParse (fun _ hDecl => hImports (.tail _ hDecl))
        (hBacks.mono fun name hKnown => ?_) cause hResult
      have hImported := (hImporting.reads.knows _ rfl name).mpr (.inl hKnown)
      exact ((Job.does_setValue _ _).success hSet).1.knows.mpr hImported

/-- Importing a module fails with an error of a module that it leads to, unless it is not there. -/
theorem Importing.traces {name asking : String} {span : Span} {session after : Session}
    {log : List String} {result : Except Failure ModuleId} :
    Importing library name asking span session log result after → library.Backs sources session →
      ∀ cause, result = .error (.error cause) →
      (∃ reason, sources.load name = .error reason ∧ cause = ⟨asking, span, reason.problem name⟩) ∨
        sources.Traces name cause
  | .known _ => fun _ _ => nofun
  | .unloaded hNew hLoad => fun hBacks cause hResult => by
      cases hResult
      exact .inl ⟨_, (hBacks _ fun hKnown => hKnown hNew).trans hLoad, rfl⟩
  | .loaded hNew hLoad hCompiling => fun hBacks cause hResult =>
      .inr (Compiling.traces hCompiling ((hBacks _ fun hKnown => hKnown hNew).trans hLoad)
        (fun other _ => hBacks other) cause hResult)

end

/-- An error of the main source, or of what it leads to, comes up in the library that has it. -/
theorem compileSource_traces
    (hRun : (compileSource library mainName text).exec session = (.error (.error cause), after)) :
    (library.withMain text).Traces mainName cause := by
  obtain ⟨log, hCompiling⟩ := ends_compileWithin _ mainName text session _ after hRun (by simp)
  refine hCompiling.traces ?_ (fun other hOther _ => ?_) cause rfl
  · rw [Library.load_withMain, if_pos rfl]
  · rw [Library.load_withMain, if_neg hOther]

/-- A program that is not compiled is one whose main source is not, or else there is to be a module
that all others see, and that one is not. -/
theorem compileProgram_failure {withBuiltin : Bool}
    (hRun : (compileProgram library withBuiltin text).exec .empty = (.error failure, after)) :
    (withBuiltin = true ∧
      (loadBuiltin library).exec (Session.empty.writing [.includes]) = (.error failure, after)) ∨
    library.Asks text withBuiltin (library.withMain text) mainName ∧
      ∃ session, (compileSource library mainName text).exec session = (.error failure, after) := by
  have hMain {session : Session} (hRun : (do
      let _ ← compileSource library mainName text : SessionM Unit).exec session =
        (.error failure, after)) :
      (compileSource library mainName text).exec session = (.error failure, after) := by
    rw [bind_exec] at hRun
    cases hCompile : (compileSource library mainName text).exec session with
    | mk found last =>
        rw [hCompile] at hRun
        cases found with
        | error =>
            cases hRun
            rfl
        | ok => cases hRun
  cases withBuiltin with
  | false => exact .inr ⟨.alone, Session.empty.writing [.includes], hMain hRun⟩
  | true =>
      rw [compileProgram_shared, bind_exec] at hRun
      cases hLoad : (loadBuiltin library).exec (Session.empty.writing [.includes]) with
      | mk found loaded =>
          rw [hLoad] at hRun
          cases found with
          | error =>
              cases hRun
              exact .inl ⟨rfl, rfl⟩
          | ok builtin => exact .inr ⟨.main hLoad, loaded, hMain hRun⟩

/-- An error of the module that all others see, or of what it leads to, comes up in the library,
unless that module is not there. -/
theorem loadBuiltin_traces (hRun : (loadBuiltin library).exec (Session.empty.writing [.includes]) =
      (.error (.error cause), after)) :
    (∃ reason, library.load builtinName = .error reason ∧
      cause = ⟨builtinName, Span.nowhere, reason.problem builtinName⟩) ∨
    library.Traces builtinName cause := by
  rw [loadBuiltin, bind_exec] at hRun
  cases hLoad : (loadModule library builtinName).exec (Session.empty.writing [.includes]) with
  | mk found loaded =>
      rw [hLoad] at hRun
      cases found with
      | ok id => cases hRun
      | error failure =>
          cases hRun
          obtain ⟨log, hImporting⟩ := ends_importWith (ends_compileWithin _ builtinName) builtinName
            Span.nowhere _ _ after hLoad (by simp)
          exact hImporting.traces (fun _ _ => rfl) cause rfl

end SessionM

/-- An error of a program that cannot be compiled names the module that raised it: one that is asked
for by itself, or that the imports of such a module lead to. It points to a place in the source of
that module, and so does it where it tells of an earlier definition. Only if the module that is
asked for is not in the library at all, there is no place to point to. -/
theorem compile_error_place {library : Library} {withBuiltin : Bool} {text : String}
    {cause : CompileError} (h : compile library withBuiltin text = .error (.error cause)) :
    ∃ sources root, library.Asks text withBuiltin sources root ∧
      ((∃ reason, sources.load root = .error reason ∧
        cause = ⟨root, Span.nowhere, reason.problem root⟩) ∨ sources.Traces root cause) := by
  have hCompile : compile library withBuiltin text =
      match (SessionM.compileProgram library withBuiltin text).exec .empty with
      | (.ok _, session) => .ok session.text
      | (.error failure, _) => .error failure := rfl
  rw [hCompile] at h
  cases hRun : (SessionM.compileProgram library withBuiltin text).exec .empty with
  | mk result after =>
      rw [hRun] at h
      cases result with
      | ok => cases h
      | error failure =>
          cases h
          rcases SessionM.compileProgram_failure hRun with ⟨rfl, hBuiltin⟩ | ⟨hAsks, session, hMain⟩
          · exact ⟨library, _, .builtin hBuiltin, SessionM.loadBuiltin_traces hBuiltin⟩
          · exact ⟨_, _, hAsks, .inr (SessionM.compileSource_traces hMain)⟩

/-- A library with a module that defines a name twice. -/
def redefiningLibrary : Library := .ofList [("a", "var x int\nfunc x()\n")]

theorem compile_error_place_redefined : compile redefiningLibrary false "import \"a\"\n" =
        .error (.error ⟨"a", ⟨10, 18⟩, .redefined "x" ⟨0, 9⟩⟩) ∧
      (redefiningLibrary.withMain "import \"a\"\n").Traces SessionM.mainName
        ⟨"a", ⟨10, 18⟩, .redefined "x" ⟨0, 9⟩⟩ := by
  have hFails : compile redefiningLibrary false "import \"a\"\n" =
      .error (.error ⟨"a", ⟨10, 18⟩, .redefined "x" ⟨0, 9⟩⟩) := by decide +kernel
  refine ⟨hFails, ?_⟩
  obtain ⟨sources, root, hAsks, hPlace⟩ := compile_error_place hFails
  cases hAsks with
  | alone =>
      rcases hPlace with ⟨reason, hReason, -⟩ | hTraces
      · cases hReason
      · exact hTraces

end GoToC
