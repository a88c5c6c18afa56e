import GoToC.Proofs.Session.Course
import GoToC.Proofs.Session.Faults

/-!
# Imports that are followed

Modules import each other in any way, in cycles too. How a source is compiled, a module is built
and a name is imported is told here by relations that know no depth: one of them holds just when
the recursion that it tells of ends. They keep a log of the names whose sources were read. The
compilation of a program never comes to the depth that it is given, so it ends by these relations
as well; and whatever the graph of the imports is, no name is in the log twice.
-/

namespace GoToC

variable {name text : String} {job : Job} {after session : Session} {result : Except Failure Unit}
  {importer : Importer} {withBuiltin : Bool}

/-- Why a module that cannot be loaded is an error of the module that asks for it. -/
def LoadError.problem (name : String) : LoadError → Problem
  | .missing => .moduleNotFound name
  | .unreadable reason => .moduleUnreadable name reason

namespace SessionM

/-! ## The recursion without a depth -/

mutual

/-- Compiling a source as the module of a name. -/
inductive Compiling (library : Library) : String → String → Session → List String →
    Except Failure ModuleId → Session → Prop
  | known {name text session id} :
      session.program.find? name = some id →
      Compiling library name text session [] (.ok id) session
  | unread {name text session failure} :
      session.program.find? name = none →
      (readSource name text).exec session = (.error failure, session) →
      Compiling library name text session [name] (.error failure) session
  | failed {name text session after file log failure} :
      session.program.find? name = none → parse text = .ok file →
      Building library ⟨session.program.modules.length, name, file⟩
        (Job.registered session name file) log (.error failure) after →
      Compiling library name text session (name :: log) (.error failure) after
  | done {name text session after file log} :
      session.program.find? name = none → parse text = .ok file →
      Building library ⟨session.program.modules.length, name, file⟩
        (Job.registered session name file) log (.ok ()) after →
      Compiling library name text session (name :: log) (.ok session.program.modules.length)
        { after with finished := after.finished ++ [session.program.modules.length] }

/-- Compiling the declarations of a module that has become known. -/
inductive Building (library : Library) : Job → Session → List String → Except Failure Unit →
    Session → Prop
  | undeclared {job session after failure} :
      (declareAll job).exec session = (.error failure, after) →
      Building library job session [] (.error failure) after
  | failed {job session declared after log failure} :
      (declareAll job).exec session = (.ok (), declared) →
      Following library job job.file.imports declared log (.error failure) after →
      Building library job session log (.error failure) after
  | own {job session declared imported after log result} :
      (declareAll job).exec session = (.ok (), declared) →
      Following library job job.file.imports declared log (.ok ()) imported →
      (compileOwn job).exec imported = (result, after) →
      Building library job session log result after

/-- Following the imports of a module, one after another. -/
inductive Following (library : Library) : Job → List ImportDecl → Session → List String →
    Except Failure Unit → Session → Prop
  | nil {job : Job} {session : Session} : Following library job [] session [] (.ok ()) session
  | failed {job decl rest session after log failure} :
      Importing library decl.name job.package decl.span session log (.error failure) after →
      Following library job (decl :: rest) session log (.error failure) after
  | unset {job decl rest session imported after log target failure} :
      Importing library decl.name job.package decl.span session log (.ok target) imported →
      (setValue job.id decl.name (.module target)).exec imported = (.error failure, after) →
      Following library job (decl :: rest) session log (.error failure) after
  | cons {job decl rest session imported noted after log others target result} :
      Importing library decl.name job.package decl.span session log (.ok target) imported →
      (setValue job.id decl.name (.module target)).exec imported = (.ok (), noted) →
      Following library job rest noted others result after →
      Following library job (decl :: rest) session (log ++ others) result after

/-- Importing the module of a name, for a module and from a place in it. -/
inductive Importing (library : Library) : String → String → Span → Session → List String →
    Except Failure ModuleId → Session → Prop
  | known {name asking span session id} :
      session.program.find? name = some id →
      Importing library name asking span session [] (.ok id) session
  | unloaded {name asking span session cause} :
      session.program.find? name = none → library.load name = .error cause →
      Importing library name asking span session []
        (.error (.error ⟨asking, span, cause.problem name⟩)) session
  | loaded {name text asking span session after log result} :
      session.program.find? name = none → library.load name = .ok text →
      Compiling library name text session log result after →
      Importing library name asking span session log result after

end

/-! ## The depth that suffices -/

variable {library : Library}

/-- An action that does not run out of depth ends as a relation tells, with some log. -/
def Ends {α : Type} (action : SessionM α)
    (tells : Session → List String → Except Failure α → Session → Prop) : Prop :=
  ∀ session result after, action.exec session = (result, after) → result ≠ .error .exhausted →
    ∃ log, tells session log result after

theorem ends_importWith {compile : String → String → SessionM ModuleId}
    (hCompile : ∀ text, (compile name text).Ends (Compiling library name text)) (asking : String)
    (span : Span) :
    (importWith library compile name asking span).Ends (Importing library name asking span) := by
  intro session result after hRun hResult
  cases hFind : session.program.find? name with
  | some id =>
      rw [importWith_known hFind] at hRun
      cases hRun
      exact ⟨[], .known hFind⟩
  | none =>
      rw [importWith, get_bind_exec, hFind] at hRun
      cases hLoad : library.load name with
      | ok text =>
          rw [hLoad] at hRun
          obtain ⟨log, hLog⟩ := hCompile text session result after hRun hResult
          exact ⟨log, .loaded hFind hLoad hLog⟩
      | error cause =>
          rw [hLoad] at hRun
          refine ⟨[], ?_⟩
          cases cause with
          | missing => cases hRun; exact .unloaded hFind hLoad
          | unreadable reason => cases hRun; exact .unloaded hFind hLoad

theorem ends_following (hImporter : ∀ name asking span,
      (importer name asking span).Ends (Importing library name asking span))
    (imports : List ImportDecl) :
    Ends (imports.forM (buildImport importer job)) (Following library job imports) := by
  induction imports with
  | nil =>
      intro session result after hRun _
      cases hRun
      exact ⟨[], .nil⟩
  | cons decl rest ih =>
      intro session result after hRun hResult
      rw [List.forM_eq_forM, List.forM_cons, bind_exec, buildImport, bind_exec] at hRun
      cases hImport : (importer decl.name job.package decl.span).exec session with
      | mk found imported =>
          have hEnds := hImporter decl.name job.package decl.span session found imported hImport
          rw [hImport] at hRun
          cases found with
          | error failure =>
              cases hRun
              obtain ⟨log, hLog⟩ := hEnds (by simpa using hResult)
              exact ⟨log, .failed hLog⟩
          | ok target =>
              obtain ⟨log, hLog⟩ := hEnds (by simp)
              dsimp only at hRun
              cases hSet : (setValue job.id decl.name (.module target)).exec imported with
              | mk set noted =>
                  rw [hSet] at hRun
                  cases set with
                  | error failure =>
                      cases hRun
                      exact ⟨log, .unset hLog hSet⟩
                  | ok done =>
                      obtain ⟨others, hOthers⟩ := ih noted result after hRun hResult
                      exact ⟨log ++ others, .cons hLog hSet hOthers⟩

theorem ends_compileJob (hImporter : ∀ name asking span,
      (importer name asking span).Ends (Importing library name asking span)) :
    (compileJob importer job).Ends (Building library job) := by
  intro session result after hRun hResult
  rw [compileJob_eq, bind_exec] at hRun
  cases hDeclare : (declareAll job).exec session with
  | mk declares declared =>
      rw [hDeclare] at hRun
      cases declares with
      | error failure =>
          cases hRun
          exact ⟨[], .undeclared hDeclare⟩
      | ok done =>
          dsimp only at hRun
          rw [bind_exec] at hRun
          cases hFollow : (job.file.imports.forM (buildImport importer job)).exec declared with
          | mk follows imported =>
              have hEnds := ends_following hImporter job.file.imports declared follows
                imported hFollow
              rw [hFollow] at hRun
              cases follows with
              | error failure =>
                  cases hRun
                  obtain ⟨log, hLog⟩ := hEnds hResult
                  exact ⟨log, .failed hDeclare hLog⟩
              | ok done =>
                  obtain ⟨log, hLog⟩ := hEnds (by simp)
                  exact ⟨log, .own hDeclare hLog hRun⟩

/-- Whatever depth a source is compiled with, if it is not used up the recursion ends. -/
theorem ends_compileWithin (depth : Nat) (name text : String) :
    (compileWithin library depth name text).Ends (Compiling library name text) := by
  induction depth generalizing name text with
  | zero =>
      intro session result after hRun hResult
      cases hRun
      exact absurd rfl hResult
  | succ depth ih =>
      intro session result after hRun hResult
      cases hFind : session.program.find? name with
      | some id =>
          rw [compileWithin_known hFind] at hRun
          cases hRun
          exact ⟨[], .known hFind⟩
      | none =>
          have hWhole : (compileWithin library (depth + 1) name text).exec session = (do
              let file ← readSource name text
              let job ← register name file
              compileJob (importWith library (compileWithin library depth)) job
              finish job.id
              return job.id : SessionM ModuleId).exec session := by
            rw [compileWithin, get_bind_exec, hFind]
          rw [hWhole, bind_exec] at hRun
          cases hParse : parse text with
          | error cause =>
              have hRead : ∃ failure, (readSource name text).exec session =
                  (.error failure, session) := by
                unfold readSource
                rw [hParse]
                cases cause <;> exact ⟨_, rfl⟩
              obtain ⟨failure, hRead⟩ := hRead
              rw [hRead] at hRun
              cases hRun
              exact ⟨[name], .unread hFind hRead⟩
          | ok file =>
              have hRead : (readSource name text).exec session = (.ok file, session) := by
                unfold readSource
                rw [hParse]
                rfl
              rw [hRead] at hRun
              have hBuild : ∀ result after, (compileJob
                  (importWith library (compileWithin library depth))
                  ⟨session.program.modules.length, name, file⟩).exec
                    (Job.registered session name file) = (result, after) →
                  result ≠ .error .exhausted → ∃ log, Building library
                    ⟨session.program.modules.length, name, file⟩
                    (Job.registered session name file) log result after :=
                ends_compileJob (fun name => ends_importWith (ih name)) _
              change (do
                compileJob (importWith library (compileWithin library depth))
                  ⟨session.program.modules.length, name, file⟩
                finish session.program.modules.length
                return session.program.modules.length : SessionM ModuleId).exec
                  (Job.registered session name file) = _ at hRun
              rw [bind_exec] at hRun
              cases hJob : (compileJob (importWith library (compileWithin library depth))
                  ⟨session.program.modules.length, name, file⟩).exec
                    (Job.registered session name file) with
              | mk built ended =>
                  rw [hJob] at hRun
                  cases built with
                  | error failure =>
                      cases hRun
                      obtain ⟨log, hLog⟩ := hBuild _ _ hJob (by simpa using hResult)
                      exact ⟨name :: log, .failed hFind hParse hLog⟩
                  | ok done =>
                      cases hRun
                      obtain ⟨log, hLog⟩ := hBuild _ _ hJob (by simp)
                      exact ⟨name :: log, .done hFind hParse hLog⟩

end SessionM

/-! ## Names that are read once -/

theorem Session.knows_iff : session.Knows name ↔ name ∈ session.program.modules.map (·.name) := by
  simp only [Knows, Program.find?, ne_eq, List.findIdx?_eq_none_iff, List.mem_map]
  simp

/-- What a module does itself makes no name known. -/
theorem Job.Touches.knows (h : job.Touches session after) :
    after.Knows name ↔ session.Knows name := by
  rw [Session.knows_iff, Session.knows_iff, h.names]

/-- The names in a log are new, none of them is there twice, and each is of a kind. Once all is
done well they are the names that have become known. -/
structure Session.Reads {α : Type} (kind : String → Prop) (before : Session) (log : List String)
    (result : Except Failure α) (after : Session) : Prop where
  nodup : log.Nodup
  fresh : ∀ name ∈ log, ¬ before.Knows name
  kind : ∀ name ∈ log, kind name
  knows : ∀ value, result = .ok value → ∀ name, after.Knows name ↔ before.Knows name ∨ name ∈ log

namespace Session.Reads

variable {α β : Type} {kind kind' : String → Prop} {session middle after : Session}
  {log others : List String} {result : Except Failure α}

theorem nil (h : ∀ value, result = .ok value → ∀ name, after.Knows name ↔ session.Knows name) :
    session.Reads kind [] result after where
  nodup := .nil
  fresh := by simp
  kind := by simp
  knows value hValue name := by simp [h value hValue name]

theorem mono (h : session.Reads kind log result after) (imp : ∀ name, kind name → kind' name) :
    session.Reads kind' log result after :=
  ⟨h.nodup, h.fresh, fun name hName => imp name (h.kind name hName), h.knows⟩

/-- A source that cannot be read. -/
theorem single (hNew : session.program.find? name = none) (hKind : kind name) (failure : Failure) :
    session.Reads kind [name] (.error failure : Except Failure α) after where
  nodup := List.nodup_singleton name
  fresh other hOther := by
    rw [List.mem_singleton.mp hOther]
    exact fun hKnows => hKnows hNew
  kind other hOther := by rwa [List.mem_singleton.mp hOther]
  knows := by simp

/-- What comes after a success reads other names. -/
theorem trans {value : β} (h : session.Reads kind log (.ok value) middle)
    (h' : middle.Reads kind others result after) :
    session.Reads kind (log ++ others) result after where
  nodup := by
    refine List.nodup_append.mpr ⟨h.nodup, h'.nodup, ?_⟩
    rintro name hName _ hOther rfl
    exact h'.fresh name hOther ((h.knows value rfl name).mpr (.inr hName))
  fresh name hName := by
    rcases List.mem_append.mp hName with hName | hName
    · exact h.fresh name hName
    · exact fun hKnows => h'.fresh name hName ((h.knows value rfl name).mpr (.inl hKnows))
  kind name hName := (List.mem_append.mp hName).elim (h.kind name) (h'.kind name)
  knows last hLast name := by
    rw [h'.knows last hLast name, h.knows value rfl name, List.mem_append, or_assoc]

/-- A failure reads no more names. -/
theorem fail (h : session.Reads kind log result middle) (failure : Failure) :
    session.Reads kind log (.error failure : Except Failure β) after :=
  ⟨h.nodup, h.fresh, h.kind, by simp⟩

theorem knows_registered {other : String} {file : SourceFile} :
    (Job.registered session name file).Knows other ↔ session.Knows other ∨ other = name := by
  rw [knows_iff, knows_iff]
  simp [Job.registered, Module.ofFile]

/-- A module is known by the time its imports are followed. -/
theorem register {name : String} {file : SourceFile} (hNew : session.program.find? name = none)
    (h : (Job.registered session name file).Reads kind log result after) :
    session.Reads (fun other => other = name ∨ kind other) (name :: log) result after where
  nodup := List.nodup_cons.mpr
    ⟨fun hName => h.fresh name hName (knows_registered.mpr (.inr rfl)), h.nodup⟩
  fresh other hOther := by
    rcases List.mem_cons.mp hOther with rfl | hOther
    · exact fun hKnows => hKnows hNew
    · exact fun hKnows => h.fresh other hOther (knows_registered.mpr (.inl hKnows))
  kind other hOther := (List.mem_cons.mp hOther).imp id (h.kind other)
  knows value hValue other := by
    rw [h.knows value hValue other, knows_registered, List.mem_cons, or_assoc]

/-- What does not touch the names that are known reads none. -/
theorem of_touches (h : ∀ value, result = .ok value → job.Touches session after) :
    session.Reads kind [] result after :=
  nil fun value hValue _ => (h value hValue).knows

end Session.Reads

namespace SessionM

variable {library : Library}

/-- A module that is in the library. -/
def InLibrary (library : Library) (name : String) : Prop := ∃ text, library.load name = .ok text

theorem reads_declareAll {kind : String → Prop}
    (h : (declareAll job).exec session = (result, after)) : session.Reads kind [] result after :=
  .of_touches fun _ hValue => Job.touches_of_goes (fun _ => Job.goes_declareAll) (hValue ▸ h)

mutual

theorem Compiling.reads {name text : String} {session after : Session} {log : List String}
    {result : Except Failure ModuleId} : Compiling library name text session log result after →
      session.Reads (fun other => other = name ∨ InLibrary library other) log result after
  | .known _ => .nil fun _ _ _ => Iff.rfl
  | .unread hNew _ => .single hNew (.inl rfl) _
  | .failed hNew _ hBuilding => ((Building.reads hBuilding).register hNew).fail _
  | .done hNew _ hBuilding => by
      have hReads := (Building.reads hBuilding).register hNew
      exact ⟨hReads.nodup, hReads.fresh, hReads.kind, fun _ _ => hReads.knows () rfl⟩

theorem Building.reads {job : Job} {session after : Session} {log : List String}
    {result : Except Failure Unit} : Building library job session log result after →
      session.Reads (InLibrary library) log result after
  | .undeclared hDeclare => reads_declareAll hDeclare
  | .failed hDeclare hFollowing => (reads_declareAll hDeclare).trans (Following.reads hFollowing)
  | .own hDeclare hFollowing hOwn => by
      have hReads := (reads_declareAll hDeclare).trans (Following.reads hFollowing)
      have hTouches (value : Unit) (hValue : result = .ok value) := by
        rw [hValue] at hOwn
        exact Job.touches_of_goes (fun _ => Job.goes_compileOwn) hOwn
      have hLast := hReads.trans (.of_touches hTouches)
      rwa [List.nil_append, List.append_nil] at hLast

theorem Following.reads {job : Job} {imports : List ImportDecl} {session after : Session}
    {log : List String} {result : Except Failure Unit} :
    Following library job imports session log result after →
      session.Reads (InLibrary library) log result after
  | .nil => .nil fun _ _ _ => Iff.rfl
  | .failed hImporting => (Importing.reads hImporting).fail _
  | .unset hImporting _ => (Importing.reads hImporting).fail _
  | .cons hImporting hSet hFollowing => by
      have hNoted := (Importing.reads hImporting).trans
        (.of_touches fun _ _ => ((Job.does_setValue _ _).success hSet).1 :
          Session.Reads _ _ [] (.ok () : Except Failure Unit) _)
      rw [List.append_nil] at hNoted
      exact hNoted.trans (Following.reads hFollowing)

theorem Importing.reads {name asking : String} {span : Span} {session after : Session}
    {log : List String} {result : Except Failure ModuleId} :
    Importing library name asking span session log result after →
      session.Reads (InLibrary library) log result after
  | .known _ => .nil fun _ _ _ => Iff.rfl
  | .unloaded _ _ => .nil fun _ _ _ => Iff.rfl
  | .loaded _ hLoad hCompiling => (Compiling.reads hCompiling).mono fun other hOther => by
      rcases hOther with rfl | hOther
      · exact ⟨_, hLoad⟩
      · exact hOther

end

/-! ## Programs -/

/-- Compiling a program from the source of its main module. -/
inductive Running (library : Library) (text : String) : Bool → List String →
    Except Failure Unit → Session → Prop
  | plain {log result after} :
      Compiling library mainName text (Session.empty.writing [.includes]) log result after →
      Running library text false log (result.map fun _ => ()) after
  | failed {log failure after} :
      Importing library builtinName builtinName Span.nowhere (Session.empty.writing [.includes])
        log (.error failure) after →
      Running library text true log (.error failure) after
  | shared {log others builtin result loaded after} :
      Importing library builtinName builtinName Span.nowhere (Session.empty.writing [.includes])
        log (.ok builtin) loaded →
      Compiling library mainName text
        { loaded with program := { loaded.program with builtin := some builtin } } others result
        after →
      Running library text true (log ++ others) (result.map fun _ => ()) after

theorem Running.reads {log : List String} (h : Running library text withBuiltin log result after) :
    (Session.empty.writing [.includes]).Reads
      (fun name => name = mainName ∨ InLibrary library name) log result after := by
  have hMain {α : Type} {session : Session} {log : List String} {result : Except Failure α}
      (h : session.Reads (fun name => name = mainName ∨ InLibrary library name) log result after) :
      session.Reads (fun name => name = mainName ∨ InLibrary library name) log
        (result.map fun _ => ()) after := by
    refine ⟨h.nodup, h.fresh, h.kind, fun _ hValue => ?_⟩
    cases result with
    | error failure => cases hValue
    | ok value => exact h.knows value rfl
  cases h with
  | plain hCompiling => exact hMain hCompiling.reads
  | failed hImporting => exact (hImporting.reads.mono fun _ => Or.inr).fail _
  | @shared log others builtin result loaded _ hImporting hCompiling =>
      have hLoaded : (Session.empty.writing [.includes]).Reads
          (fun name => name = mainName ∨ InLibrary library name) log (.ok builtin)
          { loaded with program := { loaded.program with builtin := some builtin } } := by
        have hReads := hImporting.reads
        exact ⟨hReads.nodup, hReads.fresh, fun name hName => .inr (hReads.kind name hName),
          hReads.knows⟩
      exact hMain (hLoaded.trans hCompiling.reads)

/-- The module that all others see is loaded before the main source is compiled. -/
theorem compileProgram_shared (library : Library) (text : String) :
    (compileProgram library true text).exec .empty =
      (loadBuiltin library >>= fun _ => (do
        let _ ← compileSource library mainName text : SessionM Unit)).exec
          (Session.empty.writing [.includes]) := rfl

/-- Unless it runs out of depth, the compilation of a program ends. -/
theorem ends_compileProgram
    (hRun : (compileProgram library withBuiltin text).exec .empty = (result, after))
    (hResult : result ≠ .error .exhausted) :
    ∃ log, Running library text withBuiltin log result after := by
  have hSource (session : Session) (hRun : (do
      let _ ← compileSource library mainName text : SessionM Unit).exec session = (result, after)) :
      ∃ log found, Compiling library mainName text session log found after ∧
        result = found.map fun _ => () := by
    rw [bind_exec] at hRun
    cases hCompile : (compileSource library mainName text).exec session with
    | mk found last =>
        rw [hCompile] at hRun
        have hEnds := ends_compileWithin _ mainName text session found last hCompile
        cases found with
        | error failure =>
            cases hRun
            obtain ⟨log, hLog⟩ := hEnds (by simpa using hResult)
            exact ⟨log, _, hLog, rfl⟩
        | ok id =>
            cases hRun
            obtain ⟨log, hLog⟩ := hEnds (by simp)
            exact ⟨log, _, hLog, rfl⟩
  cases withBuiltin with
  | false =>
      obtain ⟨log, found, hCompiling, rfl⟩ := hSource (Session.empty.writing [.includes]) hRun
      exact ⟨log, .plain hCompiling⟩
  | true =>
      rw [compileProgram_shared, bind_exec, loadBuiltin, bind_exec] at hRun
      cases hLoad : (loadModule library builtinName).exec (Session.empty.writing [.includes]) with
      | mk found loaded =>
          rw [hLoad] at hRun
          have hEnds := ends_importWith (ends_compileWithin _ builtinName) builtinName Span.nowhere
            _ found loaded hLoad
          cases found with
          | error failure =>
              cases hRun
              obtain ⟨log, hLog⟩ := hEnds (by simpa using hResult)
              exact ⟨log, .failed hLog⟩
          | ok builtin =>
              obtain ⟨log, hLog⟩ := hEnds (by simp)
              obtain ⟨others, found, hCompiling, rfl⟩ := hSource
                { loaded with program := { loaded.program with builtin := some builtin } } hRun
              exact ⟨log ++ others, .shared hLog hCompiling⟩

/-- Whatever modules a library holds and however they import each other, the compilation of a
program ends without coming to the depth that it is given. On the way no source is read twice, and
none that is not the main one or one of the library. A compilation that succeeds has made known
just the modules whose sources it has read. -/
theorem imports_end (modules : List (String × String)) (withBuiltin : Bool) (text : String) :
    ∃ result after,
      (compileProgram (.ofList modules) withBuiltin text).exec .empty = (result, after) ∧
      result ≠ .error .exhausted ∧
      (∃ log, Running (.ofList modules) text withBuiltin log result after) ∧
      ∀ log, Running (.ofList modules) text withBuiltin log result after →
        log.Nodup ∧ (∀ name ∈ log, name = mainName ∨ name ∈ modules.map (·.1)) ∧
        (result = .ok () → ∀ name, name ∈ after.program.modules.map (·.name) ↔ name ∈ log) := by
  have hOutcome := compileProgram_ofList modules withBuiltin text
  cases hRun : (compileProgram (.ofList modules) withBuiltin text).exec .empty with
  | mk result after =>
      have hResult : result ≠ .error .exhausted := by
        rintro rfl
        rw [Runs, hRun] at hOutcome
        exact hOutcome
      refine ⟨result, after, rfl, hResult, ends_compileProgram hRun hResult, fun log hRunning => ?_⟩
      have hReads := hRunning.reads
      refine ⟨hReads.nodup, fun name hName => (hReads.kind name hName).imp_right ?_, ?_⟩
      · rintro ⟨source, hSource⟩
        exact List.mem_map_of_mem (Library.mem_of_load hSource)
      · intro hValue name
        rw [← Session.knows_iff, hReads.knows () hValue]
        exact or_iff_right fun hKnows => hKnows rfl

end SessionM

end GoToC
