import GoToC.Proofs.Session.Course
import GoToC.Proofs.Session.DeclareTwins
import GoToC.Proofs.Session.WriteTwins

/-!
# Types in any order

Programs whose modules declare the same, but their types in another order, are compiled alike:
module by module, through all imports, both come to sessions that are alike. What one of them
fails at and the other one does not is a type that is too deep to be looked at from where it was
mentioned before it was built, or a type that a module asks itself for through an import.
-/

namespace GoToC

variable {name text text' : String} {early : Prop} {pairs : List (String × String)}
  {session : Session} {id : ModuleId} {file : SourceFile}

/-! ## What follows on what was known -/

/-- A fact about the first of two actions that run side by side. -/
theorem Reruns.left {α β : Type} {session' : Session} {action : SessionM α} {action' : SessionM β}
    {good : α → β → Session → Session → Prop} {left : α → Session → Prop}
    (h : Reruns early session session' action action' good)
    (hLeft : ∀ value after, action.exec session = (.ok value, after) → left value after) :
    Reruns early session session' action action' fun value value' after after' =>
      good value value' after after' ∧ left value after :=
  fun value after hRun => (h value after hRun).mono fun _ _ hGood => ⟨hGood, hLeft value after hRun⟩

theorem SessionM.Seeks.provides {action : SessionM ModuleId} (h : Seeks name action)
    {after : Session} (hRun : action.exec session = (.ok id, after)) :
    session.Provides name id after := by
  have hRuns := h session
  rwa [Runs, hRun] at hRuns

namespace Session.Grows

variable {changing : ModuleId → Prop} {before after : Session}

theorem knows (h : before.Grows changing after) (hKnows : before.Knows name) :
    after.Knows name := by
  obtain ⟨id, hFound⟩ := Option.ne_none_iff_exists'.mp hKnows
  obtain ⟨module, hModule, hName⟩ := Program.find?_eq_some hFound
  obtain ⟨module', hModule', hSame, -⟩ := h.modules id module hModule
  exact Program.find?_ne_none hModule' (hSame.trans hName)

theorem module?_eq (h : before.Grows changing after) (hId : ¬ changing id)
    (hLess : id < before.program.modules.length) :
    after.program.module? id = before.program.module? id := by
  have hModule : before.program.module? id = some before.program.modules[id] :=
    List.getElem?_eq_getElem hLess
  obtain ⟨module', hModule', -, hSame⟩ := h.modules id _ hModule
  rw [hModule', hSame hId, hModule]

theorem shares (h : before.Grows changing after) (hShared : before.program.Shares)
    (hBuiltin : after.program.builtin = before.program.builtin) : after.program.Shares :=
  fun id hId => Nat.lt_of_lt_of_le (hShared id (hBuiltin ▸ hId)) h.count

end Session.Grows

/-- A ledger with more entries, none of them of a module that was known. -/
structure Ledger.Onward (ledger : Ledger) (session : Session) (now : Ledger) : Prop where
  le : ledger ≤ now
  fresh : ∀ a b, now.twins a b → ledger.twins a b ∨ ¬ session.Knows a.package

namespace Ledger.Onward

variable {first second third : Ledger} {session middle : Session}

theorem refl (ledger : Ledger) (session : Session) : ledger.Onward session ledger :=
  ⟨le_refl _, fun _ _ => .inl⟩

theorem trans (h : first.Onward session second) (h' : second.Onward middle third)
    (hKnows : ∀ name, session.Knows name → middle.Knows name) : first.Onward session third where
  le := le_trans h.le h'.le
  fresh a b hTwins := by
    rcases h'.fresh a b hTwins with hOld | hNew
    · exact h.fresh a b hOld
    · exact .inr fun hKnown => hNew (hKnows _ hKnown)

theorem of_within {package : String} (h : first.Within package second)
    (hNew : ¬ session.Knows package) : first.Onward session second where
  le := h.le
  fresh a b hTwins := by
    rcases h.fresh a b hTwins with hOld | hPackage
    · exact .inl hOld
    · rw [hPackage]
      exact .inr hNew

end Ledger.Onward

/-! ## Imports -/

section Imports

variable {early : Prop} {ledger : Ledger} {session session' start middle middle' : Session}
  {job job' : Job}

/-- Two sessions that have come to a module of one name, which is new or was known. -/
structure Session.Meets (early : Prop) (ledger : Ledger) (start : Session) (id id' : ModuleId)
    (session session' : Session) : Prop where
  same : id = id'
  twin : ∃ now, ledger.Onward start now ∧ session.Twin early now session'
  builtin : session.program.builtin = start.program.builtin

/-- Two ways of importing modules that lead to modules that are alike. -/
def Importer.Matches (early : Prop) (importer importer' : Importer) : Prop :=
  ∀ (ledger : Ledger) (session session' : Session) (name asking asking' : String)
    (span span' : Span), session.Twin early ledger session' → session.program.Shares →
      Reruns early session session' (importer name asking span) (importer' name asking' span')
        (Session.Meets early ledger session)

namespace Job.Poised

/-- Modules that are new do not matter to a module whose types are still to be built. -/
theorem imported (h : job.Poised early job' ledger session session')
    (hShared : session.program.Shares) {now : Ledger} (hOnward : ledger.Onward session now)
    (hTwin : middle.Twin early now middle')
    (hBuiltin : middle.program.builtin = session.program.builtin)
    (hGrows : session.Grows (fun _ => False) middle) :
    job.Poised early job' now middle middle' := by
  obtain ⟨module, hModule, hName, hFile, hEntered⟩ := h.module
  have hOwn : middle.program.module? job.id = session.program.module? job.id :=
    hGrows.module?_eq False.elim (List.getElem?_eq_some_iff.mp hModule).1
  have hGlobal (name : String) :
      middle.program.global? job.id name = session.program.global? job.id name := by
    rw [Program.global?, hOwn]
    rfl
  refine ⟨hTwin, h.id, h.package, ⟨module, hOwn.trans hModule, hName, hFile, hEntered⟩,
    fun name handle global hHandle hFound => ?_, fun name global target hFound hValue => ?_,
    fun id hId => ?_, fun a b hTwins hSame => ?_⟩
  · rw [Job.handle?, hGlobal] at hHandle
    exact h.untyped name handle global hHandle (hGlobal name ▸ hFound)
  · exact h.imports name global target (hGlobal name ▸ hFound) hValue
  · rw [hBuiltin] at hId
    have hSame : middle.program.module? id = session.program.module? id :=
      hGrows.module?_eq False.elim (hShared id hId)
    refine ⟨(h.shared id hId).1, fun name global target hFound hValue => ?_⟩
    rw [Program.global?, hSame] at hFound
    exact (h.shared id hId).2 name global target hFound hValue
  · rcases hOnward.fresh a b hTwins with hOld | hNew
    · exact h.fresh a b hOld hSame
    · exact hNew (hSame ▸ Program.find?_ne_none hModule hName)

/-- The name of an import stands for a module. -/
theorem setImport (h : job.Poised early job' ledger session session')
    (hName : name ∈ job.file.names .import) {target : ModuleId}
    (hTarget : target < session.program.modules.length) (hOther : target ≠ job.id ∨ early) :
    job.Poised early job' ledger (job.withValue session name (.module target))
      (job'.withValue session' name (.module target)) := by
  obtain ⟨module, hModule, hModuleName, hFile, hEntered⟩ := h.module
  have hValue : (GlobalValue.module target).toValue.Twin (session.pairing session' early) ledger
      (GlobalValue.module target).toValue := rfl
  have hTwin := h.twin.setValue job.id name hValue
    (fun found hFound => GlobalValue.module.inj hFound ▸ hTarget)
    fun found hFound => h.twin.count ▸ GlobalValue.module.inj hFound ▸ hTarget
  have hGiven {found : String} {global : Global}
      (hFound : (job.withValue session name (.module target)).program.global? job.id found =
        some global) :
      ∃ before, session.program.global? job.id found = some before ∧
        before.given name (.module target) = global := by
    rw [Job.withValue, Program.global?_setValue, if_pos rfl] at hFound
    exact Option.map_eq_some_iff.mp hFound
  refine ⟨?_, h.id, h.package, ⟨module.setValue name (.module target), ?_, hModuleName, hFile,
    hEntered.setValue name _⟩, fun found handle global hHandle hFound => ?_,
    fun found global other hFound hValue => ?_, fun id hId => ?_, h.fresh⟩
  · rw [Job.withValue, Job.withValue, ← h.id]
    exact hTwin
  · show (session.program.updateModule job.id _).module? job.id = _
    rw [Program.module?_updateModule, if_pos rfl, hModule]
    rfl
  · -- an import has no handle, so it is another name that has one
    obtain ⟨before, hBefore, rfl⟩ := hGiven hFound
    have hOld : before.handle = some handle := by
      rw [Job.handle?, hFound] at hHandle
      exact Global.given_handle ▸ hHandle
    have hNone := h.untyped found handle before
      (Option.bind_eq_some_iff.mpr ⟨before, hBefore, hOld⟩) hBefore
    rw [Program.global?, hModule] at hBefore
    have hMem : before ∈ module.globals := List.mem_of_find?_eq_some hBefore
    obtain ⟨decl, hDecl, hKind, hSame⟩ := Declaration.exists_ofFile_iff.mpr hName
    rw [← hFile] at hDecl
    unfold Global.given
    split
    · next hOwn =>
        have hDeclares := hEntered.declares hMem hDecl (hOwn.trans hSame.symm)
        have hType := hDeclares.handle.mp (by rw [hOld]; rfl)
        rw [hKind] at hType
        cases hType
    · exact hNone
  · obtain ⟨before, hBefore, rfl⟩ := hGiven hFound
    unfold Global.given at hValue
    split at hValue
    · cases hValue
      exact hOther
    · exact h.imports found before other hBefore hValue
  · refine ⟨(h.shared id hId).1, fun found global other hFound hValue => ?_⟩
    rw [Job.withValue, Program.global?_setValue, if_neg (Ne.symm (h.shared id hId).1)] at hFound
    exact (h.shared id hId).2 found global other hFound hValue

/-- What comes of following imports. -/
structure Gathers (early : Prop) (job job' : Job) (ledger : Ledger)
    (start session session' : Session) : Prop where
  poised : ∃ now, ledger.Onward start now ∧ job.Poised early job' now session session'
  builtin : session.program.builtin = start.program.builtin
  grows : start.Grows (· = job.id) session

theorem gathers (h : job.Poised early job' ledger session session') :
    Gathers early job job' ledger session session session' :=
  ⟨⟨ledger, .refl _ _, h⟩, rfl, .refl _ _⟩

variable {importer importer' : Importer} {decl decl' : ImportDecl}

/-- One import. Only the module itself can be an import of types that are still to be built. -/
theorem Gathers.buildImport (h : Gathers early job job' ledger start session session')
    (hShared : start.program.Shares) (hJob : job.id < start.program.modules.length)
    (hImporter : Importer.Matches early importer importer')
    (hSeeks : ∀ name asking span, SessionM.Seeks name (importer name asking span))
    (hSame : decl.name = decl'.name) (hDecl : decl ∈ job.file.imports)
    (hEarly : decl.name = job.package → early) :
    Reruns early session session' (SessionM.buildImport importer job decl)
      (SessionM.buildImport importer' job' decl') fun _ _ after after' =>
        Gathers early job job' ledger start after after' := by
  obtain ⟨now, hOnward, hPoised⟩ := h.poised
  have hShares := h.grows.shares hShared h.builtin
  unfold SessionM.buildImport
  rw [← hSame]
  refine ((hImporter now session session' decl.name job.package job'.package decl.span decl'.span
    hPoised.twin hShares).left fun _ _ => (hSeeks _ _ _).provides).bind
      fun target target' middle middle' hMiddle => ?_
  obtain ⟨⟨rfl, ⟨later, hLater, hTwin⟩, hBuiltin⟩, hProvides⟩ := hMiddle
  have hGrown : start.Grows (· = job.id) middle :=
    h.grows.trans (hProvides.grows.mono fun _ hFalse => hFalse.elim) fun _ hOwn => hOwn ▸ hJob
  obtain ⟨imported, hImported, hName⟩ := hProvides.module
  have hReady := hPoised.imported hShares hLater hTwin hBuiltin hProvides.grows
  have hOther : target ≠ job.id ∨ early := by
    by_cases hOwn : target = job.id
    · obtain ⟨module, hModule, hOwnName, -⟩ := hReady.module
      rw [hOwn, hModule] at hImported
      cases hImported
      exact .inr (hEarly (hName.symm.trans hOwnName))
    · exact .inl hOwn
  have hSet := hReady.setImport (List.mem_map_of_mem hDecl)
    (List.getElem?_eq_some_iff.mp hImported).1 hOther
  intro done after hRun
  obtain ⟨global, last, hDeclared, -⟩ := SessionM.bind_eq_ok.mp hRun
  have hFound := ((@Job.does_declared job middle decl.name).success hDeclared).2.1
  obtain ⟨global', hFound', -⟩ := hTwin.exists_global hFound
  obtain ⟨hTouches, rfl⟩ := (@Job.does_setValue job middle decl.name (.module target)).success hRun
  rw [hReady.id] at hFound'
  rw [Runs, Job.Abreast.setValue_exec hFound']
  exact ⟨⟨later, hOnward.trans hLater fun _ => h.grows.knows, hSet⟩, hBuiltin.trans h.builtin,
    hGrown.trans (.of_touches hTouches rfl) fun _ hOwn => hOwn ▸ hJob⟩

end Job.Poised

/-! ## Modules -/

/-- Two texts of one module that declare the same. No declared type is called like those that
are made of numbers, and the module imports itself only if that is allowed. -/
def Reorders (early : Prop) (name text text' : String) : Prop :=
  ∀ file, parse text = .ok file → ∃ file', parse text' = .ok file' ∧ file.Rearranges file' ∧
    (∀ decl ∈ file.types, ¬ Reserved decl.name) ∧ ∀ decl ∈ file.imports, decl.name = name → early

/-- Two libraries whose modules declare the same. -/
structure Library.Reorders (early : Prop) (library library' : Library) : Prop where
  load : ∀ name text, library.load name = .ok text →
    ∃ text', library'.load name = .ok text' ∧ GoToC.Reorders early name text text'
  bound : library.bound = library'.bound

/-- A module that has become known, from its names to the last function. -/
theorem Session.Twin.compileJob (h : session.Twin early ledger session')
    (hShared : session.program.Shares) (hNew : session.program.find? name = none)
    {file' : SourceFile} (hFile : file.Rearranges file') (hFormed : file.Formed fun _ => True)
    (hPlain : ∀ decl ∈ file.types, ¬ Reserved decl.name)
    (hEarly : ∀ decl ∈ file.imports, decl.name = name → early) {importer importer' : Importer}
    (hImporter : Importer.Matches early importer importer')
    (hSeeks : ∀ name asking span, SessionM.Seeks name (importer name asking span))
    (hJob : job = ⟨session.program.modules.length, name, file⟩)
    (hJob' : job' = ⟨session'.program.modules.length, name, file'⟩) :
    Reruns early (Job.registered session name file) (Job.registered session' name file')
      (SessionM.compileJob importer job) (SessionM.compileJob importer' job')
      fun _ _ after after' => Session.Meets early ledger session job.id job'.id after after' := by
  have hId : job.id = session.program.modules.length := by rw [hJob]
  have hPackage : job.package = name := by rw [hJob]
  have hOwnFile : job.file = file := by rw [hJob]
  have hOwnFile' : job'.file = file' := by rw [hJob']
  rw [SessionM.compileJob_eq, SessionM.compileJob_eq]
  refine (h.declareAll hShared hNew hFile hJob hJob').bind
    fun _ _ declared declared' hDeclared => ?_
  obtain ⟨hPoised, hTouches⟩ := hDeclared
  have hCount : declared.program.modules.length = session.program.modules.length + 1 :=
    hTouches.count.trans List.length_append
  have hShares : declared.program.Shares := by
    intro id hBuiltin
    rw [hTouches.builtin] at hBuiltin
    exact hCount ▸ Nat.lt_succ_of_lt (hShared id hBuiltin)
  have hImports : job.file.imports.map (·.name) = job'.file.imports.map (·.name) := by
    rw [hOwnFile, hOwnFile']
    exact hFile.imports
  refine (Reruns.forM (forall₂_of_map_eq hImports)
    (Job.Poised.Gathers early job job' ledger declared) hPoised.gathers
    fun decl hDecl decl' _ hSame before before' hBefore =>
      hBefore.buildImport hShares (by rw [hId, hCount]; exact Nat.lt_succ_self _) hImporter hSeeks
        hSame hDecl fun hOwn => hEarly decl (hOwnFile ▸ hDecl) (hOwn.trans hPackage)).bind
      fun _ _ imported imported' hImported => ?_
  obtain ⟨now, hOnward, hReady⟩ := hImported.poised
  refine ((hReady.compileOwn (by rw [hOwnFile, hOwnFile']; exact hFile) (hOwnFile ▸ hFormed)
    (hOwnFile ▸ hPlain)).left fun _ _ => Job.touches_of_goes fun _ => Job.goes_compileOwn).mono
      fun _ _ after after' hAfter => ?_
  obtain ⟨⟨later, hWithin, hAbreast⟩, hOwn⟩ := hAfter
  have hBuiltin : declared.program.builtin = session.program.builtin := hTouches.builtin
  refine ⟨hReady.id, ⟨later, ?_, hAbreast.twin⟩,
    hOwn.builtin.trans (hImported.builtin.trans hBuiltin)⟩
  have hKnows (other : String) (hKnown : session.Knows other) : declared.Knows other := by
    rw [Session.Knows, hTouches.find?]
    exact (Job.keeps_registered session name file).find?_ne_none hKnown
  refine (Ledger.Onward.trans (.refl ledger session) hOnward hKnows).trans
    (.of_within hWithin ?_) fun _ hKnown => hKnown
  rw [hPackage]
  exact fun hKnown => hKnown hNew

variable {library library' : Library} {name text text' : String}

/-- Asking the libraries for a module, given what compiling its sources comes to. -/
theorem importWith_reruns (hLibrary : library.Reorders early library')
    (h : session.Twin early ledger session')
    {compile compile' : String → String → SessionM ModuleId}
    (hCompile : ∀ text text', Reorders early name text text' →
      Reruns early session session' (compile name text) (compile' name text')
        (session.Meets early ledger)) (asking asking' : String) (span span' : Span) :
    Reruns early session session' (SessionM.importWith library compile name asking span)
      (SessionM.importWith library' compile' name asking' span') (session.Meets early ledger) := by
  refine Reruns.get.bind fun now now' _ _ hNow => ?_
  obtain ⟨⟨rfl, rfl⟩, rfl, rfl⟩ := hNow
  rw [← h.find? name]
  split
  · exact .pure ⟨rfl, ⟨ledger, .refl _ _, h⟩, rfl⟩
  · cases hLoad : library.load name with
    | error cause => cases cause <;> exact .fail
    | ok text =>
        obtain ⟨text', hLoad', hText⟩ := hLibrary.load name text hLoad
        rw [hLoad']
        exact hCompile text text' hText

theorem readSource_reruns (h : Reorders early name text text') :
    Reruns early session session' (SessionM.readSource name text) (SessionM.readSource name text')
      fun file file' after after' => (parse text = .ok file ∧ parse text' = .ok file') ∧
        after = session ∧ after' = session' := by
  unfold SessionM.readSource
  cases hParse : parse text with
  | error failure => cases failure <;> exact .fail
  | ok file =>
      obtain ⟨file', hParse', -⟩ := h file hParse
      rw [hParse']
      exact .pure ⟨⟨rfl, rfl⟩, rfl, rfl⟩

/-- Compiling two sources of one module, from any depth on. -/
theorem compileWithin_reruns (hLibrary : library.Reorders early library') (depth : Nat)
    (h : session.Twin early ledger session') (hShared : session.program.Shares)
    (hText : Reorders early name text text') :
    Reruns early session session' (SessionM.compileWithin library depth name text)
      (SessionM.compileWithin library' depth name text') (session.Meets early ledger) := by
  induction depth generalizing ledger session session' name text text' with
  | zero => exact .fail
  | succ depth ih =>
      have hImporter : Importer.Matches early
          (SessionM.importWith library (SessionM.compileWithin library depth))
          (SessionM.importWith library' (SessionM.compileWithin library' depth)) :=
        fun _ _ _ _ asking asking' span span' hTwin hShared =>
          importWith_reruns hLibrary hTwin (fun _ _ => ih hTwin hShared) asking asking' span span'
      have hSeeks (name asking : String) (span : Span) : SessionM.Seeks name
          (SessionM.importWith library (SessionM.compileWithin library depth) name asking span) :=
        SessionM.seeks_importWith (SessionM.seeks_compileWithin depth name) asking span
      refine Reruns.get.bind fun now now' _ _ hNow => ?_
      obtain ⟨⟨rfl, rfl⟩, rfl, rfl⟩ := hNow
      rw [← h.find? name]
      split
      · exact .pure ⟨rfl, ⟨ledger, .refl _ _, h⟩, rfl⟩
      · next hNew =>
          refine (readSource_reruns hText).bind fun file file' read read' hRead => ?_
          obtain ⟨⟨hParse, hParse'⟩, rfl, rfl⟩ := hRead
          obtain ⟨found, hFound, hFile, hPlain, hEarly⟩ := hText file hParse
          obtain rfl := Except.ok.inj (hParse'.symm.trans hFound)
          have hFormed : file.Formed fun _ => True := by
            have hOutcome := @parse_outcome (fun _ => True) text fun _ _ _ _ => trivial
            rwa [hParse] at hOutcome
          have hRegister : Reruns early read read' (SessionM.register name file)
              (SessionM.register name file') fun job job' after after' =>
                (job = ⟨read.program.modules.length, name, file⟩ ∧
                  job' = ⟨read'.program.modules.length, name, file'⟩) ∧
                after = Job.registered read name file ∧
                  after' = Job.registered read' name file' := by
            intro job after hRun
            cases hRun
            exact ⟨⟨rfl, rfl⟩, rfl, rfl⟩
          refine hRegister.bind fun job job' _ _ hJobs => ?_
          obtain ⟨⟨hJob, hJob'⟩, rfl, rfl⟩ := hJobs
          refine (h.compileJob hShared hNew hFile hFormed hPlain hEarly hImporter hSeeks hJob
            hJob').bind fun _ _ after after' hMeets => ?_
          refine (Reruns.changed _ _).bind fun _ _ last last' hLast => .pure ?_
          obtain ⟨rfl, rfl⟩ := hLast
          obtain ⟨now, hOnward, hTwin⟩ := hMeets.twin
          exact ⟨hMeets.same, ⟨now, hOnward, ⟨hTwin.left, hTwin.right, hTwin.builtin, hTwin.modules,
            hTwin.methods, hTwin.valid, hTwin.packages⟩⟩, hMeets.builtin⟩

theorem compileSource_reruns (hLibrary : library.Reorders early library')
    (h : session.Twin early ledger session') (hShared : session.program.Shares)
    (hText : Reorders early name text text') :
    Reruns early session session' (SessionM.compileSource library name text)
      (SessionM.compileSource library' name text') (session.Meets early ledger) := by
  unfold SessionM.compileSource
  rw [← hLibrary.bound]
  exact compileWithin_reruns hLibrary _ h hShared hText

end Imports

/-! ## Programs -/

/-- Nothing is compiled yet, and both programs start with the same items. -/
theorem twin_preamble (early : Prop) (output : Array CItem) :
    Session.Twin early .empty { Session.empty with output := output }
      { Session.empty with output := output } where
  left := .empty
  right := .empty
  builtin := rfl
  modules _ := .none
  methods := .nil
  valid := ⟨⟨fun _ _ _ _ h => h.elim, fun _ _ _ _ h => h.elim⟩, fun _ _ h => h.elim,
    fun _ _ h => h.elim, fun _ _ h => h.elim, fun _ _ h => h.elim⟩
  packages _ _ h := h.elim

section Programs

variable {early : Prop} {library library' : Library} {sources sources' : Sources}

/-- The module that all others see is compiled alike from two libraries. -/
theorem loadBuiltin_reruns (hLibrary : library.Reorders early library')
    (hWithin : library.Within sources) (hWithin' : library'.Within sources') :
    Reruns early { Session.empty with output := Session.empty.output.push .includes }
      { Session.empty with output := Session.empty.output.push .includes }
      (SessionM.loadBuiltin library) (SessionM.loadBuiltin library') fun _ _ after after' =>
        ∃ ledger, after.Twin early ledger after' ∧ after.program.Shares := by
  have hTwin := twin_preamble early (Session.empty.output.push .includes)
  have hShared : Session.empty.program.Shares := fun _ hNone => by cases hNone
  have hLoads (library : Library) (sources : Sources) (hWithin : library.Within sources) :=
    importWith_runs (idle_preamble sources) (fun text hText _ => compileSource_runs hWithin
      (idle_preamble sources) (hWithin.module SessionM.builtinName text hText))
        SessionM.builtinName Span.nowhere
  have hLoad := (importWith_reruns hLibrary hTwin (fun _ _ => compileSource_reruns hLibrary hTwin
    hShared) SessionM.builtinName SessionM.builtinName Span.nowhere Span.nowhere).both
      (hLoads library sources hWithin) (hLoads library' sources' hWithin')
  refine hLoad.bind fun id id' loaded loaded' hLoaded => ?_
  obtain ⟨⟨rfl, ⟨ledger, -, hTwin⟩, -⟩, hLeft, hRight⟩ := hLoaded
  obtain ⟨module, hModule, -⟩ := hLeft.module
  refine (Reruns.changed _ _).bind fun _ _ last last' hLast => .pure ?_
  obtain ⟨rfl, rfl⟩ := hLast
  have hNew : ¬ Session.empty.Knows SessionM.builtinName := fun hKnows => hKnows rfl
  refine ⟨ledger, ⟨hTwin.left.setBuiltin (hLeft.typed hNew), hTwin.right.setBuiltin
    (hRight.typed hNew), rfl, hTwin.modules, hTwin.methods, hTwin.valid, hTwin.packages⟩, ?_⟩
  rintro _ ⟨⟩
  exact (List.getElem?_eq_some_iff.mp hModule).1

/-- Two programs whose modules declare the same are compiled alike. -/
theorem compileProgram_reruns (hLibrary : library.Reorders early library')
    (hText : Reorders early SessionM.mainName text text') (hWithin : library.Within sources)
    (hWithin' : library'.Within sources') (withBuiltin : Bool) :
    Reruns early Session.empty Session.empty (SessionM.compileProgram library withBuiltin text)
      (SessionM.compileProgram library' withBuiltin text') fun _ _ _ _ => True := by
  refine (Reruns.changed _ _).bind fun _ _ start start' hStart => ?_
  have hMain {ledger : Ledger} {session session' : Session}
      (h : session.Twin early ledger session') (hShared : session.program.Shares) :
      Reruns early session session' (do
        let _ ← SessionM.compileSource library SessionM.mainName text) (do
        let _ ← SessionM.compileSource library' SessionM.mainName text') fun _ _ _ _ => True :=
    (compileSource_reruns hLibrary h hShared hText).bind fun _ _ _ _ _ => .pure trivial
  rw [hStart.1, hStart.2]
  cases withBuiltin with
  | false => exact hMain (twin_preamble early _) fun _ hNone => by cases hNone
  | true =>
      refine Reruns.bind (loadBuiltin_reruns hLibrary hWithin hWithin') fun _ _ _ _ hLoaded => ?_
      obtain ⟨ledger, hTwin, hShared⟩ := hLoaded
      exact hMain hTwin hShared

end Programs

/-! ## Sources -/

/-- Two texts that are the same, or that are read as the same declarations, the types among them
in any order. -/
def Rearranged (text text' : String) : Prop :=
  text = text' ∨ ∃ file file', parse text = .ok file ∧ parse text' = .ok file' ∧
    file.Rearranges file'

/-- No declared type is called like those that are made of numbers. -/
def DeclaresPlain (text : String) : Prop :=
  ∀ file, parse text = .ok file → ∀ decl ∈ file.types, ¬ Reserved decl.name

/-- A module that is among its own imports. -/
def ImportsItself (entry : String × String) : Prop :=
  ∃ file, parse entry.2 = .ok file ∧ entry.1 ∈ file.names .import

/-- Among these modules is one that imports itself. -/
def SomeImportsItself (entries : List (String × String)) : Prop :=
  ∃ entry ∈ entries, ImportsItself entry

namespace Rearranged

variable {text text' : String}

theorem symm (h : Rearranged text text') : Rearranged text' text := by
  rcases h with rfl | ⟨file, file', hParse, hParse', hFile⟩
  · exact .inl rfl
  · exact .inr ⟨file', file, hParse', hParse, hFile.symm⟩

theorem exists_file (h : Rearranged text text') (hParse : parse text = .ok file) :
    ∃ file', parse text' = .ok file' ∧ file.Rearranges file' := by
  rcases h with rfl | ⟨found, file', hFound, hParse', hFile⟩
  · exact ⟨file, hParse, .refl file⟩
  · obtain rfl := Except.ok.inj (hFound.symm.trans hParse)
    exact ⟨file', hParse', hFile⟩

theorem reorders (h : Rearranged text text') (hPlain : DeclaresPlain text)
    (hEarly : ImportsItself (name, text) → early) : Reorders early name text text' := by
  intro file hParse
  obtain ⟨file', hParse', hFile⟩ := h.exists_file hParse
  refine ⟨file', hParse', hFile, hPlain file hParse, fun decl hDecl hName => hEarly ?_⟩
  exact ⟨file, hParse, List.mem_map.mpr ⟨decl, hDecl, hName⟩⟩

theorem declaresPlain (h : Rearranged text text') (hPlain : DeclaresPlain text) :
    DeclaresPlain text' := by
  intro file' hParse' decl' hDecl'
  obtain ⟨file, hParse, hFile⟩ := h.symm.exists_file hParse'
  obtain ⟨decl, hDecl, hName⟩ := List.mem_map.mp
    ((hFile.names .type).mem_iff.mp (List.mem_map_of_mem hDecl'))
  rw [← hName]
  exact hPlain file hParse decl hDecl

theorem importsItself (h : Rearranged text text') (hImports : ImportsItself (name, text)) :
    ImportsItself (name, text') := by
  obtain ⟨file, hParse, hName⟩ := hImports
  obtain ⟨file', hParse', hFile⟩ := h.exists_file hParse
  exact ⟨file', hParse', (hFile.names .import).mem_iff.mp hName⟩

end Rearranged

theorem Library.load_ofList_iff {modules : List (String × String)} :
    (Library.ofList modules).load name = .ok text ↔ modules.lookup name = some text := by
  unfold Library.ofList
  dsimp only
  cases modules.lookup name with
  | none => simp
  | some found => simp

/-- Modules of the same names that declare the same. -/
def SameDeclarations (entries entries' : List (String × String)) : Prop :=
  List.Forall₂ (fun entry entry' => entry.1 = entry'.1 ∧ Rearranged entry.2 entry'.2) entries
    entries'

namespace SameDeclarations

variable {entries entries' : List (String × String)}

theorem symm (h : SameDeclarations entries entries') : SameDeclarations entries' entries :=
  List.Forall₂.imp (fun _ _ hSame => ⟨hSame.1.symm, hSame.2.symm⟩) (List.Forall₂.flip h)

theorem exists_entry (h : SameDeclarations entries entries') {entry' : String × String}
    (hEntry : entry' ∈ entries') :
    ∃ entry ∈ entries, entry.1 = entry'.1 ∧ Rearranged entry.2 entry'.2 := by
  induction h with
  | nil => cases hEntry
  | cons hSame _ ih =>
      rcases List.mem_cons.mp hEntry with rfl | hEntry
      · exact ⟨_, List.mem_cons_self, hSame⟩
      · obtain ⟨entry, hMem, hOther⟩ := ih hEntry
        exact ⟨entry, List.mem_cons_of_mem _ hMem, hOther⟩

theorem lookup (h : SameDeclarations entries entries') (hFound : entries.lookup name = some text) :
    ∃ text', entries'.lookup name = some text' ∧ Rearranged text text' := by
  induction h with
  | nil => cases hFound
  | @cons entry entry' rest rest' hSame _ ih =>
      obtain ⟨found, source⟩ := entry
      obtain ⟨found', source'⟩ := entry'
      obtain ⟨rfl, hText⟩ := hSame
      rw [List.lookup_cons] at hFound ⊢
      split at hFound
      · next hName =>
          rw [hName]
          obtain rfl := Option.some.inj hFound
          exact ⟨source', rfl, hText⟩
      · next hName =>
          rw [hName]
          exact ih hFound

/-- The libraries of such modules. -/
theorem library (h : SameDeclarations entries entries')
    (hPlain : ∀ entry ∈ entries, DeclaresPlain entry.2)
    (hEarly : ∀ entry ∈ entries, ImportsItself entry → early) :
    (Library.ofList entries).Reorders early (.ofList entries') where
  load name text hLoad := by
    have hMem := Library.mem_of_load hLoad
    obtain ⟨text', hFound, hText⟩ := h.lookup (Library.load_ofList_iff.mp hLoad)
    exact ⟨text', Library.load_ofList_iff.mpr hFound,
      hText.reorders (hPlain (name, text) hMem) (hEarly (name, text) hMem)⟩
  bound := List.Forall₂.length_eq h

end SameDeclarations

/-! ## Rows of types -/

/-- The name of a type and what it is defined as, if that is a name too. -/
def TypeDecl.alias? (decl : TypeDecl) : Option (String × String) :=
  match decl.type with
  | .ident _ target => some (decl.name, target)
  | _ => none

/-- The types of a source that defines types by names and declares nothing else. -/
def aliases? (text : String) : Option (List (String × String)) :=
  match parse text with
  | .ok ⟨_, [], [], [], types, [], [], _⟩ => types.mapM TypeDecl.alias?
  | _ => none

theorem TypeDecl.bare_of_alias? {decl : TypeDecl} {pair : String × String}
    (h : decl.alias? = some pair) :
    decl.name = pair.1 ∧ decl.bare = ⟨pair.1, .ident .nowhere pair.2, .nowhere⟩ := by
  obtain ⟨name, type, span⟩ := decl
  unfold alias? at h
  split at h
  · next hType =>
      cases h
      dsimp only at hType
      subst hType
      exact ⟨rfl, rfl⟩
  · cases h

theorem exists_file_of_aliases? (h : aliases? text = some pairs) :
    ∃ package types count, parse text = .ok ⟨package, [], [], [], types, [], [], count⟩ ∧
      List.Forall₂ (fun decl pair => decl.alias? = some pair) types pairs := by
  unfold aliases? at h
  split at h
  · next package types count hParse =>
      refine ⟨package, types, count, hParse, ?_⟩
      clear hParse
      induction types generalizing pairs with
      | nil =>
          cases h
          exact .nil
      | cons decl rest ih =>
          rw [List.mapM_cons] at h
          obtain ⟨pair, hPair, hRest⟩ := Option.bind_eq_some_iff.mp h
          obtain ⟨others, hOthers, hSame⟩ := Option.bind_eq_some_iff.mp hRest
          cases hSame
          exact .cons hPair (ih hOthers)
  · cases h

theorem Rearranged.of_aliases {pairs' : List (String × String)} (h : aliases? text = some pairs)
    (h' : aliases? text' = some pairs') (hPerm : pairs.Perm pairs') : Rearranged text text' := by
  obtain ⟨package, types, count, hParse, hTypes⟩ := exists_file_of_aliases? h
  obtain ⟨package', types', count', hParse', hTypes'⟩ := exists_file_of_aliases? h'
  have hBare {types : List TypeDecl} {pairs : List (String × String)}
      (hTypes : List.Forall₂ (fun decl pair => decl.alias? = some pair) types pairs) :
      types.map TypeDecl.bare =
        pairs.map fun pair => ⟨pair.1, .ident .nowhere pair.2, .nowhere⟩ := by
    rw [← List.forall₂_eq_eq_eq, List.forall₂_map_left_iff, List.forall₂_map_right_iff]
    exact hTypes.imp fun _ _ hAlias => (TypeDecl.bare_of_alias? hAlias).2
  refine .inr ⟨_, _, hParse, hParse', rfl, ?_, rfl, rfl, rfl, rfl⟩
  show (types.map TypeDecl.bare).Perm (types'.map TypeDecl.bare)
  rw [hBare hTypes, hBare hTypes']
  exact hPerm.map _

/-- Invented names start with an underscore. -/
theorem Reserved.head_eq (h : Reserved name) : name.toList.head? = some '_' := by
  rcases h with ⟨rest, rfl⟩ | ⟨rest, rfl⟩ <;> rw [String.toList_append] <;> rfl

theorem DeclaresPlain.of_aliases (h : aliases? text = some pairs)
    (hPlain : ∀ pair ∈ pairs, pair.1.toList.head? ≠ some '_') : DeclaresPlain text := by
  obtain ⟨package, types, count, hParse, hTypes⟩ := exists_file_of_aliases? h
  intro file hFile decl hDecl hReserved
  rw [hParse] at hFile
  cases hFile
  obtain ⟨index, hIndex, rfl⟩ := List.mem_iff_getElem.mp hDecl
  have hAlias := hTypes.get hIndex (hTypes.length_eq ▸ hIndex)
  refine hPlain _ (List.getElem_mem (hTypes.length_eq ▸ hIndex)) ?_
  have hName := (TypeDecl.bare_of_alias? hAlias).1
  exact (congrArg (fun name : String => name.toList.head?) hName).symm.trans hReserved.head_eq

/-- Types that are each defined as the next one, the last one as `int`, in the given order. -/
def row (count : Nat) (order : List Nat) : List (String × String) :=
  order.map fun i => (s!"T{i}", if i = count then "int" else s!"T{i + 1}")

/-- The source that declares such types. -/
def rowSource (count : Nat) (order : List Nat) : String :=
  String.join ((row count order).map fun (name, target) => s!"type {name} {target}\n")

theorem rowSource_toList (count : Nat) (order : List Nat) : (rowSource count order).toList =
    (row count order).flatMap fun entry => (s!"type {entry.1} {entry.2}\n").toList := by
  unfold rowSource
  rw [String.toList_join, List.flatMap_map]

/-! ## The order of types -/

/-- The failures that the order of types can bring about: a type is too deep to be looked at, or
a module that imports itself asks itself for a type that is not built yet. -/
def Failure.OfOrder (selfish : Prop) (failure : Failure) : Prop :=
  (∃ cause name, failure = .error cause ∧ cause.problem = .badType (.tooDeep name)) ∨
  (∃ name, failure = .fault (.unresolved (.tooDeep name))) ∨
  selfish ∧ ∃ cause name, failure = .error cause ∧ cause.problem = .notYetResolved name

/-- The first of two results is a program and the second one such a failure. -/
def SpoiltByOrder (selfish : Prop) (result result' : Except Failure String) : Prop :=
  ∃ output failure, result = .ok output ∧ result' = .error failure ∧ failure.OfOrder selfish

/-- Both results are programs, or both are failures, unless one of them is such a failure. -/
def AgreeBarOrder (selfish : Prop) (result result' : Except Failure String) : Prop :=
  result.isOk = result'.isOk ∨ SpoiltByOrder selfish result result' ∨
    SpoiltByOrder selfish result' result

section Order

variable {modules modules' : List (String × String)} {text text' : String}

/-- Where one of two programs compiles, the other one does too, or the order is what it fails at. -/
theorem compiles_or_spoilt (withBuiltin : Bool)
    (h : SameDeclarations ((SessionM.mainName, text) :: modules)
      ((SessionM.mainName, text') :: modules'))
    (hPlain : ∀ entry ∈ (SessionM.mainName, text) :: modules, DeclaresPlain entry.2)
    {selfish : Prop}
    (hSelfish : ∀ entry ∈ (SessionM.mainName, text) :: modules, ImportsItself entry → selfish)
    {output : String} (hOutput : compile (.ofList modules) withBuiltin text = .ok output) :
    (∃ output', compile (.ofList modules') withBuiltin text' = .ok output') ∨
      SpoiltByOrder selfish (compile (.ofList modules) withBuiltin text)
        (compile (.ofList modules') withBuiltin text') := by
  cases h with
  | @cons _ _ _ _ hMain hRest =>
      have hModules : SameDeclarations modules modules' := hRest
      have hLibrary := hModules.library (List.forall_mem_cons.mp hPlain).2
        (List.forall_mem_cons.mp hSelfish).2
      have hText := hMain.2.reorders (hPlain _ List.mem_cons_self) (hSelfish _ List.mem_cons_self)
      have hReruns := compileProgram_reruns hLibrary hText (Library.within_ofList modules text)
        (Library.within_ofList modules' text') withBuiltin
      have hRuns' := compileProgram_ofList modules' withBuiltin text'
      have hCompile (modules : List (String × String)) (text : String) :
          compile (.ofList modules) withBuiltin text =
            match (SessionM.compileProgram (.ofList modules) withBuiltin text).exec
              Session.empty with
            | (.ok _, session) => .ok session.text
            | (.error failure, _) => .error failure := rfl
      cases hRun :
        (SessionM.compileProgram (.ofList modules) withBuiltin text).exec Session.empty with
      | mk result session =>
          cases result with
          | error failure => simp [hCompile, hRun] at hOutput
          | ok value =>
              have hExcused := hReruns value session hRun
              rw [Runs] at hExcused hRuns'
              have hRight := hCompile modules' text'
              cases hRun' : (SessionM.compileProgram (.ofList modules') withBuiltin text').exec
                  Session.empty with
              | mk result' session' =>
                  rw [hRun'] at hExcused hRuns' hRight
                  cases result' with
                  | ok value' => exact .inl ⟨_, hRight⟩
                  | error failure =>
                      refine .inr ⟨output, failure, hOutput, hRight, ?_⟩
                      cases failure with
                      | error cause =>
                          rcases hExcused with ⟨name, hDeep⟩ | ⟨hSelf, name, hEarly⟩
                          · exact .inl ⟨cause, name, rfl, hDeep⟩
                          · exact .inr (.inr ⟨hSelf, cause, name, rfl, hEarly⟩)
                      | fault fault =>
                          rcases hRuns' with ⟨⟨name, rfl⟩, -⟩ | ⟨hCast, -⟩
                          · exact .inr (.inl ⟨name, rfl⟩)
                          · exact absurd hCast hExcused
                      | exhausted => exact hRuns'.elim

/-- Types may be declared in any order: two programs that declare the same both compile or both
fail, unless one of them fails at the order. That is where a row of types is longer than the
limit from some mention of the first one on, or where a module asks itself for a type through an
import. No declared type may have a name like those that are invented for anonymous ones. -/
theorem types_in_any_order (withBuiltin : Bool)
    (h : SameDeclarations ((SessionM.mainName, text) :: modules)
      ((SessionM.mainName, text') :: modules'))
    (hPlain : ∀ entry ∈ (SessionM.mainName, text) :: modules, DeclaresPlain entry.2) :
    AgreeBarOrder (SomeImportsItself ((SessionM.mainName, text) :: modules))
      (compile (.ofList modules) withBuiltin text)
      (compile (.ofList modules') withBuiltin text') := by
  have hPlain' : ∀ entry' ∈ (SessionM.mainName, text') :: modules', DeclaresPlain entry'.2 := by
    intro entry' hEntry'
    obtain ⟨entry, hEntry, -, hText⟩ := h.exists_entry hEntry'
    exact hText.declaresPlain (hPlain entry hEntry)
  have hSelfish : ∀ entry ∈ (SessionM.mainName, text) :: modules, ImportsItself entry →
      SomeImportsItself ((SessionM.mainName, text) :: modules) :=
    fun entry hEntry hImports => ⟨entry, hEntry, hImports⟩
  have hSelfish' : ∀ entry' ∈ (SessionM.mainName, text') :: modules', ImportsItself entry' →
      SomeImportsItself ((SessionM.mainName, text) :: modules) := by
    intro entry' hEntry' hImports
    obtain ⟨entry, hEntry, hName, hText⟩ := h.exists_entry hEntry'
    exact hSelfish entry hEntry (hText.symm.importsItself (hName ▸ hImports))
  cases hLeft : compile (.ofList modules) withBuiltin text with
  | ok output =>
      rcases compiles_or_spoilt withBuiltin h hPlain hSelfish hLeft with ⟨output', hRight⟩ | hSpoilt
      · rw [hRight]
        exact .inl rfl
      · rw [hLeft] at hSpoilt
        exact .inr (.inl hSpoilt)
  | error failure =>
      cases hRight : compile (.ofList modules') withBuiltin text' with
      | error failure' => exact .inl rfl
      | ok output' =>
          rcases compiles_or_spoilt withBuiltin h.symm hPlain' hSelfish' hRight with
            ⟨output, hOther⟩ | hSpoilt
          · rw [hLeft] at hOther
            cases hOther
          · rw [hRight, hLeft] at hSpoilt
            exact .inr (.inr hSpoilt)

end Order

/-- A type that is defined as the other one, declared before it or after it. -/
theorem types_in_any_order_two : SameDeclarations [(SessionM.mainName, rowSource 1 [0, 1])]
        [(SessionM.mainName, rowSource 1 [1, 0])] ∧
      (∀ entry ∈ [(SessionM.mainName, rowSource 1 [0, 1])], DeclaresPlain entry.2) ∧
      AgreeBarOrder (SomeImportsItself [(SessionM.mainName, rowSource 1 [0, 1])])
        (compile (.ofList []) false (rowSource 1 [0, 1]))
        (compile (.ofList []) false (rowSource 1 [1, 0])) := by
  have hRows : aliases? (rowSource 1 [0, 1]) = some (row 1 [0, 1]) ∧
      aliases? (rowSource 1 [1, 0]) = some (row 1 [1, 0]) := by
    decide +kernel
  have hText := Rearranged.of_aliases hRows.1 hRows.2 ((List.Perm.swap 1 0 []).map _)
  have hPlain : ∀ entry ∈ [(SessionM.mainName, rowSource 1 [0, 1])], DeclaresPlain entry.2 := by
    intro entry hEntry
    rw [List.mem_singleton.mp hEntry]
    exact .of_aliases hRows.1 (by decide +kernel)
  have hSame : SameDeclarations [(SessionM.mainName, rowSource 1 [0, 1])]
      [(SessionM.mainName, rowSource 1 [1, 0])] := .cons ⟨rfl, hText⟩ .nil
  exact ⟨hSame, hPlain, types_in_any_order false hSame hPlain⟩

/-- Of seventeen types in a row, the first one cannot be declared first. -/
theorem types_in_any_order_seventeen :
    Rearranged (rowSource 16 (List.range 17).reverse) (rowSource 16 (List.range 17)) ∧
      (compile (.ofList []) false (rowSource 16 (List.range 17).reverse)).isOk = true ∧
      compile (.ofList []) false (rowSource 16 (List.range 17)) =
        .error (.error ⟨SessionM.mainName, ⟨0, 10⟩, .badType (.tooDeep "T1")⟩) := by
  have hReversed : aliases? (rowSource 16 (List.range 17).reverse) =
      some (row 16 (List.range 17).reverse) := by
    rw [aliases?, parse_of_toList (rowSource_toList _ _)]
    decide +kernel
  have hRow : aliases? (rowSource 16 (List.range 17)) = some (row 16 (List.range 17)) := by
    rw [aliases?, parse_of_toList (rowSource_toList _ _)]
    decide +kernel
  refine ⟨.of_aliases hReversed hRow ((List.reverse_perm (List.range 17)).map _), ?_, ?_⟩
  · rw [compile_of_toList (rowSource_toList _ _)]
    decide +kernel
  · rw [compile_of_toList (rowSource_toList _ _)]
    decide +kernel

/-- A module that imports itself cannot have all orders either. -/
example : (compile (.ofList []) false "import \"main\"\ntype B int\ntype A main.B\n").isOk = true ∧
    compile (.ofList []) false "import \"main\"\ntype A main.B\ntype B int\n" =
        .error (.error ⟨SessionM.mainName, ⟨21, 27⟩, .notYetResolved "B"⟩) := by
  constructor <;> rw [compile_of_toList String.toList_ofList] <;> decide +kernel

/-- Which of two anonymous structs goes by the name of a declared one depends on the order. -/
example : (compile (.ofList []) false
      ("type _struct_1 struct \x7b \x7d\ntype P *struct \x7b \x7d\ntype Q *struct \x7b \x7d\n" ++
        "var p P\nvar q *_struct_1 = p\n")).isOk = true ∧
    (compile (.ofList []) false
      ("type _struct_1 struct \x7b \x7d\ntype Q *struct \x7b \x7d\ntype P *struct \x7b \x7d\n" ++
        "var p P\nvar q *_struct_1 = p\n")).isOk = false := by
  constructor <;>
    rw [compile_of_toList (toList_append_of String.toList_ofList String.toList_ofList)] <;>
    decide +kernel

end GoToC
