import GoToC.Proofs.Session.Emit

/-!
# Compiled modules

A module is compiled from a session between compilations to another such session. The
modules that it imports are compiled on the way; each of them is new and comes from the
library, so that fewer names of the library are left at each level and the depth that
compilation starts with is never used up.
-/

namespace GoToC

variable {name text : String} {id : ModuleId} {program : Program} {names : List String}

/-! ## Names that are left -/

theorem Program.find?_eq_some (h : program.find? name = some id) :
    ∃ module, program.module? id = some module ∧ module.name = name := by
  obtain ⟨hLess, hName, -⟩ := List.findIdx?_eq_some_iff_getElem.mp h
  exact ⟨program.modules[id], List.getElem?_eq_getElem hLess, by simpa using hName⟩

theorem Program.find?_ne_none {module : Module} (h : program.module? id = some module)
    (hName : module.name = name) : program.find? name ≠ none := by
  intro hNone
  have hOther := List.findIdx?_eq_none_iff.mp hNone module (List.mem_of_getElem? h)
  simp [hName] at hOther

/-- A module of that name is known. -/
def Session.Knows (session : Session) (name : String) : Prop := session.program.find? name ≠ none

instance (session : Session) (name : String) : Decidable (session.Knows name) :=
  inferInstanceAs (Decidable (_ ≠ none))

theorem Session.Extends.knows {before after : Session} (h : before.Extends after)
    (hKnows : before.Knows name) : after.Knows name := by
  obtain ⟨id, hFound⟩ := Option.ne_none_iff_exists'.mp hKnows
  obtain ⟨module, hModule, hName⟩ := Program.find?_eq_some hFound
  exact Program.find?_ne_none (h.modules id module hModule) hName

/-- The names of a list that are not known and are not the given one. -/
def Session.others (session : Session) (names : List String) (name : String) : List String :=
  names.filter fun other => other ≠ name ∧ ¬ session.Knows other

/-- While a module is compiled, fewer names are left for the modules that it imports. -/
theorem Session.Extends.others_lt {start session : Session} {imported : String}
    (h : start.Extends session) (hName : session.Knows name) (hMem : imported ∈ names)
    (hNew : ¬ session.Knows imported) :
    (session.others names imported).length < (start.others names name).length := by
  have hSub : session.others names imported =
      ((start.others names name).filter fun other => other ≠ imported ∧ ¬ session.Knows other) := by
    rw [others, others, List.filter_filter]
    refine List.filter_congr fun other _ => ?_
    rw [← Bool.decide_and, decide_eq_decide, iff_self_and]
    rintro ⟨-, hNew⟩
    refine ⟨?_, fun hKnows => hNew (h.knows hKnows)⟩
    rintro rfl
    exact hNew hName
  have hImported : imported ∈ start.others names name := by
    refine List.mem_filter.mpr ⟨hMem, decide_eq_true ⟨?_, fun hKnows => hNew (h.knows hKnows)⟩⟩
    rintro rfl
    exact hNew hName
  rw [hSub]
  exact List.length_filter_lt_length_iff_exists.mpr ⟨imported, hImported, by simp⟩

/-! ## One module -/

/-- A module whose declared types are all built. -/
def Program.Typed (program : Program) (id : ModuleId) : Prop :=
  ∀ global, program.Has id global → global.value = none → global.handle = none

namespace Job

variable {sources : Sources} {start session : Session} {job : Job} {handle : Nat → Prop}
  {function : Prop}

/-- Compiling the declarations of a module that has become known. -/
theorem Enters.compileJob {importer : Importer}
    (h : job.Enters sources start (sources.known handle function)
      (Declaration.ofFile job.file) session) (hImports : job.Imports sources start importer) :
    Runs sources.Excuses session (SessionM.compileJob importer job) fun _ after =>
      ∃ handle function, job.Ready sources start handle function MayWait after := by
  refine h.declareAll.bind fun _ entered hEntered => ?_
  have hBegun : job.Begun sources start entered := ⟨handle, function, hEntered⟩
  refine (hBegun.build hImports).bind fun init built hBuilt => ?_
  obtain ⟨⟨handle, function, hReady⟩, hInit⟩ := hBuilt
  exact (hReady.writeAll hInit).mono fun _ after hAfter => ⟨handle, function, hAfter.1⟩

/-- A module that is written has no type that is not built. -/
theorem Ready.typed (h : job.Ready sources start handle function MayWait session) :
    session.program.Typed job.id := by
  intro global hHas hNone
  obtain ⟨decl, -, hDeclares⟩ := h.exists_decl hHas
  refine Option.not_isSome_iff_eq_none.mp fun hHandle => ?_
  exact (h.waiting global hHas hNone).1 (hDeclares.kind.trans (hDeclares.handle.mp hHandle))

end Job

/-! ## Modules with their imports -/

/-- A library whose modules are among the sources. Chains of imports are no longer than the
library says. -/
structure Library.Within (library : Library) (sources : Sources) : Prop where
  module : ∀ name text, library.load name = .ok text → sources.module name text
  bound : ∃ names : List String, names.length ≤ library.bound ∧
    ∀ name text, library.load name = .ok text → name ∈ names

/-- What comes of asking for a module. -/
structure Session.Obtains (sources : Sources) (before : Session) (name : String) (id : ModuleId)
    (after : Session) : Prop where
  idle : after.Idle sources
  extended : before.Extends after
  module : ∃ module, after.program.module? id = some module ∧ module.name = name
  typed : ¬ before.Knows name → after.program.Typed id

variable {sources : Sources} {library : Library} {session : Session}

theorem Session.Obtains.of_find? (h : session.Idle sources)
    (hFound : session.program.find? name = some id) :
    session.Obtains sources name id session where
  idle := h
  extended := .refl session
  module := Program.find?_eq_some hFound
  typed hNew := absurd (by rw [Knows, hFound]; simp) hNew

/-- Asking for a module of the library, given what compiling one that is new comes to. -/
theorem importWith_runs (h : session.Idle sources) {compile : String → String → SessionM ModuleId}
    (hCompile : ∀ text, library.load name = .ok text → ¬ session.Knows name →
      Runs sources.Excuses session (compile name text) (session.Obtains sources name))
    (asking : String) (span : Span) :
    Runs sources.Excuses session (SessionM.importWith library compile name asking span)
      (session.Obtains sources name) := by
  refine Runs.get.bind fun now last hNow => ?_
  rw [hNow.1, hNow.2]
  split
  · next id hFound => exact .pure (.of_find? h hFound)
  · next hNew =>
      split
      · next text hText => exact hCompile text hText fun hKnows => hKnows hNew
      · exact .error _ _ _
      · exact .error _ _ _

theorem readSource_runs (h : sources.module name text) :
    Runs sources.Excuses session (SessionM.readSource name text) fun file after =>
      sources.files name file ∧ after = session := by
  have hOutcome := sources.parse_outcome h (fun _ => False) False
  unfold SessionM.readSource
  split
  · next file hFile => exact .pure ⟨⟨text, h, hFile⟩, rfl⟩
  · exact .error _ _ _
  · next hFailed =>
      rw [hFailed] at hOutcome
      exact hOutcome.elim

/-- Compiling a source as the module of a name, from the depth that the names of the library
need that are left. -/
theorem compileWithin_runs (hLibrary : library.Within sources)
    (hNames : ∀ name text, library.load name = .ok text → name ∈ names) {depth : Nat}
    (h : session.Idle sources) (hSource : sources.module name text)
    (hDepth : (session.others names name).length < depth) :
    Runs sources.Excuses session (SessionM.compileWithin library depth name text)
      (session.Obtains sources name) := by
  induction depth generalizing session name text with
  | zero => exact absurd hDepth (Nat.not_lt_zero _)
  | succ depth ih =>
      refine Runs.get.bind fun now last hNow => ?_
      rw [hNow.1, hNow.2]
      split
      · next id hFound => exact .pure (.of_find? h hFound)
      · refine (readSource_runs hSource).bind fun file last hFile => ?_
        obtain ⟨hFile, rfl⟩ := hFile
        let job : Job := ⟨last.program.modules.length, name, file⟩
        have hRegister : Runs sources.Excuses last (SessionM.register name file) fun found after =>
            found = job ∧ after = Job.registered last name file := ⟨rfl, rfl⟩
        refine hRegister.bind fun found registered hFound => ?_
        obtain ⟨rfl, rfl⟩ := hFound
        obtain ⟨handle, function, hSound⟩ := h
        have hImports : job.Imports sources last
            (SessionM.importWith library (SessionM.compileWithin library depth)) := by
          intro imported span session hIdle hExtends hJob
          obtain ⟨module, hModule, hName⟩ := hJob
          refine (importWith_runs hIdle (fun text hText hNew => ih hIdle
            (hLibrary.module imported text hText) ?_) job.package span).mono
            fun id after hAfter => ⟨hAfter.idle, hAfter.extended, hAfter.module⟩
          exact Nat.lt_of_lt_of_le (hExtends.others_lt (Program.find?_ne_none hModule hName)
            (hNames imported text hText) hNew) (Nat.le_of_lt_succ hDepth)
        refine ((Job.enters_registered hSound hFile).compileJob hImports).bind
          fun _ after hAfter => ?_
        obtain ⟨handle', function', hReady⟩ := hAfter
        refine (Runs.changed _).bind fun _ final hFinal => .pure ?_
        rw [hFinal]
        obtain ⟨module, hModule, hName, -⟩ := hReady.entered
        exact ⟨⟨handle', function', hReady.sound.program, hReady.sound.made, hReady.sound.faithful,
          hReady.sound.items⟩, ⟨hReady.extended.modules, hReady.extended.builtin,
          hReady.extended.next, hReady.extended.targets⟩, ⟨module, hModule, hName⟩,
          fun _ => hReady.typed⟩

theorem compileSource_runs (hLibrary : library.Within sources) (h : session.Idle sources)
    (hSource : sources.module name text) :
    Runs sources.Excuses session (SessionM.compileSource library name text)
      (session.Obtains sources name) := by
  obtain ⟨names, hBound, hNames⟩ := hLibrary.bound
  refine compileWithin_runs hLibrary hNames h hSource (Nat.lt_succ_of_le ?_)
  exact (List.length_filter_le _ names).trans hBound

/-! ## Programs -/

/-- A session is idle before anything is compiled, whatever the sources. -/
theorem idle_preamble (sources : Sources) :
    Session.Idle sources { Session.empty with output := Session.empty.output.push .includes } := by
  have hNone (id : ModuleId) (module : Module) (h : Program.empty.module? id = some module) :
      False := by
    cases h
  refine ⟨fun _ => False, False, ⟨⟨⟨fun _ h => h.elim, ?_⟩, .refl _, ?_, ?_, ?_, ?_, ⟨?_, ?_, ?_⟩⟩,
    fun h => h.elim, ⟨?_, ?_, ?_⟩, ?_⟩⟩
  · intro entry hEntry
    cases hEntry
  · exact fun id module hModule => (hNone id module hModule).elim
  · exact fun id module hModule => (hNone id module hModule).elim
  · exact fun id _ _ hHas => (hNone id _ hHas.choose_spec.1).elim
  · exact fun id _ _ hHas => (hNone id _ hHas.choose_spec.1).elim
  · exact fun id _ _ hHas => (hNone id _ hHas.choose_spec.1).elim
  · exact fun id _ _ _ _ _ hHas => (hNone id _ hHas.choose_spec.1).elim
  · exact fun _ _ => rfl
  · exact fun id module hModule => (hNone id module hModule).elim
  · exact fun id module hModule => (hNone id module hModule).elim
  · exact fun id hShared => by cases hShared
  · intro item hItem
    rw [List.mem_singleton.mp hItem]
    trivial

/-- The module that all others see may be any whose types are built. -/
theorem setBuiltin_runs (h : session.Idle sources)
    (hModule : ∃ module, session.program.module? id = some module ∧
      module.name = SessionM.builtinName) (hTyped : session.program.Typed id) :
    Runs sources.Excuses session (SessionM.setBuiltin id) fun _ after => after.Idle sources := by
  obtain ⟨handle, function, hSound⟩ := h
  refine (Runs.changed _).mono fun _ after hAfter => ?_
  rw [hAfter]
  have hProgram := hSound.program
  refine ⟨handle, function, ⟨hProgram.settled, hProgram.le, hProgram.globals, hProgram.methods,
    hProgram.pending, ?_, ⟨hProgram.numbered.made, hProgram.numbered.distinct,
    hProgram.numbered.unmade⟩⟩, hSound.made, ⟨hSound.faithful.file, ?_, ?_⟩, hSound.items⟩
  · rintro _ global ⟨⟩
    exact hTyped global
  · intro other module hOther global hMem
    exact (hSound.faithful.globals other module hOther global hMem).keep
      fun found module hFound => ⟨module, hFound, rfl, rfl⟩
  · rintro _ ⟨⟩
    exact hModule

/-- Compiling a program from the source of its main module. -/
theorem compileProgram_runs (hLibrary : library.Within sources) (withBuiltin : Bool)
    (hSource : sources.module SessionM.mainName text) :
    Runs sources.Excuses Session.empty (SessionM.compileProgram library withBuiltin text)
      fun _ after => after.Idle sources := by
  refine (Runs.changed _).bind fun _ preamble hPreamble => ?_
  have hIdle := idle_preamble sources
  have hMain (session : Session) (h : session.Idle sources) :
      Runs sources.Excuses session (do
        let _ ← SessionM.compileSource library SessionM.mainName text)
        fun _ after => after.Idle sources :=
    (compileSource_runs hLibrary h hSource).bind fun _ _ hAfter => .pure hAfter.idle
  rw [hPreamble]
  cases withBuiltin with
  | false => exact hMain _ hIdle
  | true =>
      have hLoad : Runs sources.Excuses _ (SessionM.loadModule library SessionM.builtinName) _ :=
        importWith_runs hIdle (fun text hText _ =>
          compileSource_runs hLibrary hIdle (hLibrary.module _ text hText))
          SessionM.builtinName Span.nowhere
      refine Runs.bind (hLoad.bind fun id loaded hLoaded => ?_) fun _ shared hShared =>
        hMain shared hShared
      refine (setBuiltin_runs hLoaded.idle hLoaded.module (hLoaded.typed ?_)).bind
        fun _ after hAfter => .pure hAfter
      exact fun hKnows => hKnows rfl

end GoToC
