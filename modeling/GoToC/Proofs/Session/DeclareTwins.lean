import GoToC.Proofs.Session.TypeTwins

/-!
# Names that are entered side by side

Two modules declare the same names, in whatever order. Once the names are entered, the modules
are alike: none of their names has a value yet, and those of types have handles that are not
bound.
-/

namespace GoToC

variable {file file' : SourceFile}

/-! ## Files -/

/-- Files that differ by the order of types declare the same names. -/
theorem SourceFile.Rearranges.names (h : file.Rearranges file') (kind : GlobalKind) :
    (file.names kind).Perm (file'.names kind) := by
  have hName {α : Type} {decls decls' : List α} {bare : α → α} {name : α → String}
      (hSame : (decls.map bare).Perm (decls'.map bare))
      (hKept : ∀ decl, name (bare decl) = name decl) : (decls.map name).Perm (decls'.map name) := by
    have hNames := hSame.map name
    rw [List.map_map, List.map_map] at hNames
    have hBare : name ∘ bare = name := funext hKept
    rwa [hBare] at hNames
  cases kind with
  | «import» => exact .of_eq h.imports
  | type => exact hName h.types fun _ => rfl
  | const => exact hName (.of_eq h.consts) fun _ => rfl
  | var => exact hName (.of_eq h.vars) fun _ => rfl
  | func => exact hName (.of_eq h.funcs) fun _ => rfl

theorem SourceFile.Rearranges.distinct (h : file.Rearranges file')
    (hDistinct : ((Declaration.ofFile file).map (·.name)).Nodup) :
    ((Declaration.ofFile file').map (·.name)).Nodup := by
  rw [Declaration.map_name_ofFile] at hDistinct ⊢
  have hAll := (((((h.names .import).append (h.names .type)).append (h.names .const)).append
    (h.names .var)).append (h.names .func))
  exact hAll.nodup_iff.mp hDistinct

/-! ## One module -/

namespace Job

variable {job job' : Job} {start session after : Session} {decl : Declaration}
  {rest : List Declaration}

/-- A module some of whose names were entered since the session `start`; the given declarations
are left. -/
structure Lists (job : Job) (start : Session) (rest : List Declaration) (session : Session) :
    Prop where
  tidy : session.program.Tidy
  touches : job.Touches start session
  module : ∃ module, session.program.module? job.id = some module ∧ module.Opened job rest ∧
    (∀ global ∈ module.globals, global.value = none) ∧ module.methods = []
  unshared : session.program.builtin ≠ some job.id
  bound : session.program.types.bound = start.program.types.bound
  methods : session.program.types.methods = start.program.types.methods
  supply : session.supply = start.supply

namespace Lists

theorem withHandle (h : job.Lists start rest session) (name : String) :
    job.Lists start rest (Job.withHandle session name) where
  tidy := h.tidy.newHandle name
  touches := h.touches.trans (.of_program rfl rfl rfl rfl)
  module := h.module
  unshared := h.unshared
  bound := h.bound
  methods := h.methods
  supply := h.supply

/-- A type gets a handle that no other global has. -/
theorem newHandle {bad : Session → Failure → Prop} (h : job.Lists start rest session)
    (decl : Declaration) :
    Runs bad session (SessionM.newHandle decl) fun handle after =>
      job.Lists start rest after ∧
        after.program.global? job.id decl.name = session.program.global? job.id decl.name ∧
        (handle.isSome = true ↔ decl.kind = .type) ∧
        ∀ found, handle = some found → Fresh session after found := by
  unfold SessionM.newHandle
  split
  · next hKind =>
      refine ⟨h.withHandle decl.name, rfl, by simp [hKind], ?_⟩
      rintro found ⟨⟩
      exact ⟨Nat.le_refl _, Nat.lt_succ_self _, h.tidy.numbered.unmade _ (Nat.le_refl _),
        fun other global found hHas hFound =>
          Nat.ne_of_lt (h.tidy.numbered.made other global found hHas hFound)⟩
  · next hKind => exact ⟨h, rfl, by simpa using hKind, by simp⟩

theorem addGlobal (h : job.Lists start (decl :: rest) session) {handle : Option Handle}
    (hNew : session.program.global? job.id decl.name = none)
    (hHandle : handle.isSome = true ↔ decl.kind = .type)
    (hFresh : ∀ found, handle = some found → Fresh after session found) :
    job.Lists start rest (job.withGlobal session decl handle) := by
  obtain ⟨module, hModule, hOpened, hValues, hMethods⟩ := h.module
  have hAbsent : module.get? decl.name = none := by
    rw [Program.global?, hModule] at hNew
    exact hNew
  refine ⟨h.tidy.addGlobal rfl h.unshared ?_, h.touches.trans (.updateModule _ fun _ => ⟨rfl, rfl⟩),
    ⟨module.addGlobal (decl.toGlobal job.package handle), ?_, hOpened.addGlobal hAbsent hHandle, ?_,
      hMethods⟩, h.unshared, h.bound, h.methods, h.supply⟩
  · intro found hFound
    have hFresh := hFresh found hFound
    exact ⟨hFresh.made, hFresh.unbound, hFresh.unused⟩
  · show (session.program.updateModule job.id _).module? job.id = _
    rw [Program.module?_updateModule, if_pos rfl, hModule]
    rfl
  · intro global hGlobal
    rcases List.mem_append.mp hGlobal with hGlobal | hGlobal
    · exact hValues global hGlobal
    · rw [List.mem_singleton.mp hGlobal]
      rfl

/-- Entering one name. It can fail only if a name is declared twice. -/
theorem declare (h : job.Lists start (decl :: rest) session) :
    Runs (fun _ _ => ¬ ((Declaration.ofFile job.file).map (·.name)).Nodup) session
      (SessionM.declare job decl) fun _ after => job.Lists start rest after := by
  refine Runs.global?.bind fun found _ hFound => ?_
  obtain ⟨rfl, rfl⟩ := hFound
  split
  · next previous hPrevious =>
      refine .fail fun hDistinct => ?_
      obtain ⟨module, hModule, hOpened, -⟩ := h.module
      obtain ⟨done, hGlobals, -, hDone⟩ := hOpened.globals
      rw [Program.global?, hModule] at hPrevious
      have hName : previous.name = decl.name := by simpa using List.find?_some hPrevious
      have hMem : decl.name ∈ done.map (·.name) := by
        rw [← hName, ← Global.Declares.names hGlobals]
        exact List.mem_map_of_mem (List.mem_of_find?_eq_some hPrevious)
      rw [hDone, List.map_append] at hDistinct
      have hOwn : decl.name ∈ (decl :: rest).map (·.name) := List.mem_map_of_mem List.mem_cons_self
      exact (List.nodup_append.mp hDistinct).2.2 _ hMem _ hOwn rfl
  · next hNew =>
      refine (h.newHandle decl).bind fun handle after hAfter => ?_
      obtain ⟨hLists, hSame, hHandle, hFresh⟩ := hAfter
      refine (Runs.changed _).mono fun _ last hLast => ?_
      rw [hLast]
      exact hLists.addGlobal (hSame.trans hNew) hHandle hFresh

theorem declareAll (h : job.Lists start (Declaration.ofFile job.file) session) :
    Runs (fun _ _ => ¬ ((Declaration.ofFile job.file).map (·.name)).Nodup) session
      (SessionM.declareAll job) fun _ after => job.Lists start [] after :=
  Runs.forM (job.Lists start) h fun _ _ _ hBefore => hBefore.declare

end Lists

theorem keeps_registered (session : Session) (name : String) (file : SourceFile) :
    session.program.Keeps (registered session name file).program := by
  intro id module hModule
  have hLess : id < session.program.modules.length := (List.getElem?_eq_some_iff.mp hModule).1
  exact ⟨module, (List.getElem?_append_left hLess).trans hModule, rfl, rfl⟩

/-- A module that has become known, before its names are entered. -/
theorem lists_registered (h : session.program.Tidy)
    (hShared : session.program.builtin ≠ some session.program.modules.length) (name : String)
    (file : SourceFile) :
    (⟨session.program.modules.length, name, file⟩ : Job).Lists (registered session name file)
      (Declaration.ofFile file) (registered session name file) where
  tidy := h.register name file
  touches := .refl _ _
  module := ⟨Module.ofFile name file, List.getElem?_concat_length, .ofFile ⟨_, name, file⟩,
    fun _ hGlobal => absurd hGlobal List.not_mem_nil, rfl⟩
  unshared := hShared
  bound := rfl
  methods := rfl
  supply := rfl

end Job

/-! ## Two modules -/

/-- The module that all others see, if there is one, is among those that are known. -/
def Program.Shares (program : Program) : Prop :=
  ∀ id, program.builtin = some id → id < program.modules.length

section Declared

variable {early : Prop} {ledger : Ledger} {session session' after after' : Session}
  {job job' : Job} {name : String} {file file' : SourceFile}

/-- A name that is entered in one module is entered in the other one as the same kind. -/
theorem Job.Lists.module_twin (p : Pairing) (ledger : Ledger) (hLeft : job.Lists session [] after)
    (hRight : job'.Lists session' [] after') (hPackage : job.package = job'.package)
    (hFile : job.file.Rearranges job'.file) : Option.Rel (Module.Twin p ledger)
      (after.program.module? job.id) (after'.program.module? job'.id) := by
  obtain ⟨module, hModule, hOpened, hValues, hMethods⟩ := hLeft.module
  obtain ⟨module', hModule', hOpened', hValues', hMethods'⟩ := hRight.module
  rw [hModule, hModule']
  have hNames (kind : GlobalKind) (name : String) :
      (∃ decl ∈ Declaration.ofFile job.file, decl.kind = kind ∧ decl.name = name) ↔
        ∃ decl ∈ Declaration.ofFile job'.file, decl.kind = kind ∧ decl.name = name := by
    rw [Declaration.exists_ofFile_iff, Declaration.exists_ofFile_iff]
    exact (hFile.names kind).mem_iff
  have hEntered := hOpened.entered
  have hEntered' := hOpened'.entered
  refine .some ⟨hOpened.name.trans (hPackage.trans hOpened'.name.symm), fun name => ?_, ?_⟩
  · cases hGet : module.get? name with
    | some global =>
        have hGlobal := List.mem_of_find?_eq_some hGet
        have hName : global.name = name := by simpa using List.find?_some hGet
        obtain ⟨decl, hDecl, hDeclares⟩ := hEntered.exists_decl hGlobal
        rw [hOpened.file] at hDecl
        obtain ⟨decl', hDecl', hKind, hSame⟩ := (hNames decl.kind name).mp
          ⟨decl, hDecl, rfl, hDeclares.name.symm.trans hName⟩
        rw [← hOpened'.file] at hDecl'
        obtain ⟨global', hGlobal', hGet', hDeclares'⟩ := hEntered'.exists_global hDecl'
        rw [hSame] at hGet'
        rw [hGet']
        refine .some ⟨?_, ?_, ?_⟩
        · rw [hDeclares.kind, hDeclares'.kind, hKind]
        · rw [hValues global hGlobal, hValues' global' hGlobal']
          exact .none
        · rw [Bool.eq_iff_iff, hDeclares.handle, hDeclares'.handle, hKind]
    | none =>
        cases hGet' : module'.get? name with
        | none => exact .none
        | some global' =>
            have hName : global'.name = name := by simpa using List.find?_some hGet'
            obtain ⟨decl', hDecl', hDeclares'⟩ :=
              hEntered'.exists_decl (List.mem_of_find?_eq_some hGet')
            rw [hOpened'.file] at hDecl'
            obtain ⟨decl, hDecl, -, hSame⟩ := (hNames decl'.kind name).mpr
              ⟨decl', hDecl', rfl, hDeclares'.name.symm.trans hName⟩
            rw [← hOpened.file] at hDecl
            obtain ⟨global, -, hGet'', -⟩ := hEntered.exists_global hDecl
            rw [hSame, hGet] at hGet''
            cases hGet''
  · rw [hMethods, hMethods']
    exact .nil

/-- Sessions stay alike if the names of a module are entered in both. -/
theorem Session.Twin.declared (h : session.Twin early ledger session')
    (hLeft : job.Lists session [] after) (hRight : job'.Lists session' [] after')
    (hId : job.id = job'.id) (hPackage : job.package = job'.package)
    (hFile : job.file.Rearranges job'.file) : after.Twin early ledger after' := by
  have hImp (a b : Ty) (hAlike : (session.pairing session' early).alike ledger a b) :
      (after.pairing after' early).alike ledger a b := by
    refine Alike.mono hAlike (le_refl _) (fun handle type hTarget => ?_)
      fun handle type hTarget => ?_
    · rwa [TypeStore.target?, hLeft.bound]
    · rwa [TypeStore.target?, hRight.bound]
  refine ⟨hLeft.tidy, hRight.tidy, ?_, fun id => ?_, ?_, ?_, fun a b hTwins => ?_⟩
  · rw [hLeft.touches.builtin, hRight.touches.builtin, h.builtin]
  · by_cases hOwn : id = job.id
    · have hModules := hLeft.module_twin (after.pairing after' early) ledger hRight hPackage hFile
      rw [← hId] at hModules
      rw [hOwn]
      exact hModules
    · rw [hLeft.touches.others id hOwn, hRight.touches.others id (hId ▸ hOwn)]
      exact optionRel_imp (fun _ _ => .imp hImp (le_refl _)) (h.modules id)
  · rw [hLeft.methods, hRight.methods]
    exact h.methods.imp fun _ _ => .imp hImp (le_refl _)
  · rw [hLeft.supply, hRight.supply]
    exact h.valid.imp hImp
  · rw [Session.Knows, hLeft.touches.find?]
    exact h.packages a b hTwins

/-- A module of one name becomes known in both sessions. -/
theorem Session.Twin.register (h : session.Twin early ledger session') (name : String)
    (file file' : SourceFile) :
    (Job.registered session name file).Twin early ledger (Job.registered session' name file') where
  left := h.left.register name file
  right := h.right.register name file'
  builtin := h.builtin
  modules id := by
    show Option.Rel _ (session.program.modules ++ [_])[id]? (session'.program.modules ++ [_])[id]?
    rw [List.getElem?_append, List.getElem?_append, h.count]
    split
    · exact h.modules id
    · rw [List.getElem?_singleton, List.getElem?_singleton]
      split
      · exact .some ⟨rfl, fun _ => .none, .nil⟩
      · exact .none
  methods := h.methods
  valid := h.valid
  packages a b hTwins :=
    (Job.keeps_registered session name file).find?_ne_none (h.packages a b hTwins)

/-- A module that is new is ready for its types once its names are entered. -/
theorem Session.Twin.declareAll (h : session.Twin early ledger session')
    (hShared : session.program.Shares) (hNew : session.program.find? name = none)
    (hFile : file.Rearranges file') (hJob : job = ⟨session.program.modules.length, name, file⟩)
    (hJob' : job' = ⟨session'.program.modules.length, name, file'⟩) :
    Reruns early (Job.registered session name file) (Job.registered session' name file')
      (SessionM.declareAll job) (SessionM.declareAll job') fun _ _ after after' =>
        job.Poised early job' ledger after after' ∧
          job.Touches (Job.registered session name file) after := by
  subst hJob hJob'
  intro done after hRun
  have hUnshared : session.program.builtin ≠ some session.program.modules.length :=
    fun hBuiltin => Nat.lt_irrefl _ (hShared _ hBuiltin)
  have hLeft := (Job.lists_registered h.left hUnshared name file).declareAll
  rw [Runs, hRun] at hLeft
  obtain ⟨module, hModule, hOpened, hValues, -⟩ := hLeft.module
  have hEntered := hOpened.entered
  have hDistinct := hEntered.distinct
  rw [hOpened.file] at hDistinct
  have hUnshared' : session'.program.builtin ≠ some session'.program.modules.length := by
    rw [← h.builtin, ← h.count]
    exact hUnshared
  refine ((Job.lists_registered h.right hUnshared' name file').declareAll.weaken
    fun _ _ hTwice => absurd (hFile.distinct hDistinct) hTwice).mono fun _ after' hRight => ?_
  have hTwin := (h.register name file file').declared hLeft hRight h.count rfl hFile
  have hNone {found : String} {global : Global}
      (hGlobal : after.program.global? session.program.modules.length found = some global) :
      global.value = none := by
    rw [Program.global?, hModule] at hGlobal
    exact hValues global (List.mem_of_find?_eq_some hGlobal)
  refine ⟨⟨hTwin, h.count, rfl, ⟨module, hModule, hOpened.name, hOpened.file, hEntered⟩,
    fun _ _ _ _ hGlobal => hNone hGlobal, fun _ _ _ hGlobal hValue => ?_, fun id hBuiltin => ?_,
    fun a b hTwins hSame => ?_⟩, hLeft.touches⟩
  · rw [hNone hGlobal] at hValue
    cases hValue
  · rw [hLeft.touches.builtin] at hBuiltin
    have hLess := hShared id hBuiltin
    refine ⟨Nat.ne_of_lt hLess, fun other global target hGlobal hValue => Nat.ne_of_lt ?_⟩
    have hSame : after.program.module? id = session.program.module? id :=
      (hLeft.touches.others id (Nat.ne_of_lt hLess)).trans (List.getElem?_append_left hLess)
    rw [Program.global?, hSame] at hGlobal
    exact h.left.targets id global target (Program.Has.of_global? hGlobal).1 hValue
  · have hKnows := h.packages a b hTwins
    rw [hSame] at hKnows
    exact hKnows hNew

end Declared

end GoToC
