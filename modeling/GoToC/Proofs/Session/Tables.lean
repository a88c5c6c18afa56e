import GoToC.Proofs.Session.Redefined
import GoToC.Proofs.Session.Registry

/-!
# Tables of declared names

Entering the names of a module gives a table with one global for each declaration, kind after kind
and within a kind in the order of the text, or it fails because a name is declared twice. All that
comes later finds globals in that table by their names and declarations in the file by their
numbers. It gives values to globals, and nothing else of the table ever changes: no pass over the
module, no other module that is compiled, and no failure of either.
-/

namespace GoToC

variable {decls : List Declaration} {decl : Declaration}

/-! ## Tables -/

/-- A global without its value: what is left is decided by its declaration, up to the handle. -/
def Global.entry (global : Global) : Global := { global with value := none }

/-- A global as it is entered for a declaration; types have handles. -/
def Global.Enters (package : String) (global : Global) (decl : Declaration) : Prop :=
  ∃ handle, global = decl.toGlobal package handle ∧ (handle.isSome = true ↔ decl.kind = .type)

theorem Global.Enters.names {package : String} {globals : List Global}
    (h : List.Forall₂ (Global.Enters package) globals decls) :
    globals.map (·.name) = decls.map (·.name) := by
  rw [← List.forall₂_eq_eq_eq, List.forall₂_map_left_iff, List.forall₂_map_right_iff]
  refine h.imp fun global decl hEnters => ?_
  obtain ⟨handle, rfl, -⟩ := hEnters
  rfl

/-- A module that has the table of a file which is known by a name. -/
structure Module.Tables (package : String) (source : SourceFile) (module : Module) : Prop where
  name : module.name = package
  file : module.file = source
  /-- There is one global for each declaration, kind after kind and as the file lists them. -/
  listed : module.globals.map (fun global => (global.kind, global.decl, global.name, global.span)) =
    GlobalKind.all.flatMap fun kind =>
      (source.entries kind).mapIdx fun index entry => (kind, index, entry)
  /-- The number of a global is that of its declaration among those of its kind. -/
  selects : ∀ global ∈ module.globals,
    (source.entries global.kind)[global.decl]? = some (global.name, global.span)
  named : ∀ global ∈ module.globals, global.package = package ∧
    global.cName = Declaration.cName package global.name ∧
    (global.handle.isSome = true ↔ global.kind = .type)
  distinct : (module.globals.map (·.name)).Nodup
  /-- A name finds its global and no other. -/
  found : ∀ wanted global, module.get? wanted = some global ↔
    global ∈ module.globals ∧ global.name = wanted

namespace Declaration

theorem numbered_eq_mapIdx (kind : GlobalKind) (entries : List (String × Span)) (index : Nat) :
    numbered kind index entries =
      entries.mapIdx fun position entry => ⟨kind, index + position, entry.1, entry.2⟩ := by
  induction entries generalizing index with
  | nil => rfl
  | cons entry rest ih =>
      rw [numbered, ih, List.mapIdx_cons]
      simp only [Nat.add_zero, Nat.add_assoc, Nat.add_comm 1]

theorem map_ofFile (file : SourceFile) :
    (ofFile file).map (fun decl => (decl.kind, decl.index, decl.name, decl.span)) =
      GlobalKind.all.flatMap fun kind =>
        (file.entries kind).mapIdx fun index entry => (kind, index, entry) := by
  rw [ofFile_eq, List.map_flatMap]
  refine List.flatMap_congr fun kind _ => List.ext_getElem? fun index => ?_
  simp [numbered_eq_mapIdx, Function.comp_def]

theorem getElem?_entries {file : SourceFile} (h : decl ∈ ofFile file) :
    (file.entries decl.kind)[decl.index]? = some (decl.name, decl.span) := by
  rw [ofFile_eq] at h
  obtain ⟨kind, -, hDecl⟩ := List.mem_flatMap.mp h
  rw [numbered_eq_mapIdx] at hDecl
  obtain ⟨index, hIndex, rfl⟩ := List.mem_mapIdx.mp hDecl
  simp

end Declaration

namespace Module

variable {module module' : Module} {name : String} {file : SourceFile}

/-- In a table of different names, a name finds the one global that has it. -/
theorem get?_eq_some_iff (h : (module.globals.map (·.name)).Nodup) {wanted : String}
    {global : Global} :
    module.get? wanted = some global ↔ global ∈ module.globals ∧ global.name = wanted := by
  constructor
  · intro hGet
    exact ⟨List.mem_of_find?_eq_some hGet, by simpa using List.find?_some hGet⟩
  · rintro ⟨hMem, rfl⟩
    have hSome : (module.get? global.name).isSome = true := by
      rw [get?, List.find?_isSome]
      exact ⟨global, hMem, by simp⟩
    obtain ⟨found, hFound⟩ := Option.isSome_iff_exists.mp hSome
    have hName : found.name = global.name := by simpa using List.find?_some hFound
    rw [hFound, List.inj_on_of_nodup_map h (List.mem_of_find?_eq_some hFound) hMem hName]

/-- Globals that are entered for all declarations of a file, which have different names. -/
theorem Tables.of_enters (hName : module.name = name) (hFile : module.file = file)
    (hGlobals : List.Forall₂ (Global.Enters name) module.globals (Declaration.ofFile file))
    (hDistinct : ((Declaration.ofFile file).map (·.name)).Nodup) : module.Tables name file := by
  have hEntered (global : Global) (hMem : global ∈ module.globals) :
      ∃ decl ∈ Declaration.ofFile file, Global.Enters name global decl := by
    obtain ⟨index, hIndex, rfl⟩ := List.mem_iff_getElem.mp hMem
    have hLength := hGlobals.length_eq
    exact ⟨_, List.getElem_mem (hLength ▸ hIndex), hGlobals.get hIndex (hLength ▸ hIndex)⟩
  have hNodup : (module.globals.map (·.name)).Nodup := Global.Enters.names hGlobals ▸ hDistinct
  refine ⟨hName, hFile, ?_, ?_, ?_, hNodup, fun _ _ => get?_eq_some_iff hNodup⟩
  · rw [← Declaration.map_ofFile, ← List.forall₂_eq_eq_eq, List.forall₂_map_left_iff,
      List.forall₂_map_right_iff]
    refine hGlobals.imp fun global decl hEnters => ?_
    obtain ⟨handle, rfl, -⟩ := hEnters
    rfl
  · intro global hMem
    obtain ⟨decl, hDecl, handle, rfl, -⟩ := hEntered global hMem
    exact Declaration.getElem?_entries hDecl
  · intro global hMem
    obtain ⟨decl, -, handle, rfl, hHandle⟩ := hEntered global hMem
    exact ⟨rfl, rfl, hHandle⟩

/-- A table that may have got other values. -/
theorem Tables.keep (h : module.Tables name file) (hName : module'.name = module.name)
    (hFile : module'.file = module.file)
    (hEntries : module'.globals.map Global.entry = module.globals.map Global.entry) :
    module'.Tables name file := by
  have hMap {β : Type} (f : Global → β) (hf : ∀ global : Global, f global.entry = f global) :
      module'.globals.map f = module.globals.map f := by
    have hSame := congrArg (List.map f) hEntries
    rw [List.map_map, List.map_map] at hSame
    rwa [show f ∘ Global.entry = f from funext hf] at hSame
  have hMem (global : Global) (hGlobal : global ∈ module'.globals) :
      ∃ same ∈ module.globals, same.entry = global.entry := by
    have hEntry := List.mem_map_of_mem (f := Global.entry) hGlobal
    rwa [hEntries, List.mem_map] at hEntry
  have hNodup : (module'.globals.map (·.name)).Nodup := by
    rw [hMap (·.name) fun _ => rfl]
    exact h.distinct
  refine ⟨hName.trans h.name, hFile.trans h.file, ?_, ?_, ?_, hNodup,
    fun _ _ => get?_eq_some_iff hNodup⟩
  · rw [hMap _ fun _ => rfl]
    exact h.listed
  · intro global hGlobal
    obtain ⟨same, hSame, hEntry⟩ := hMem global hGlobal
    rw [show global.kind = same.kind from (congrArg Global.kind hEntry).symm,
      show global.decl = same.decl from (congrArg Global.decl hEntry).symm,
      show global.name = same.name from (congrArg Global.name hEntry).symm,
      show global.span = same.span from (congrArg Global.span hEntry).symm]
    exact h.selects same hSame
  · intro global hGlobal
    obtain ⟨same, hSame, hEntry⟩ := hMem global hGlobal
    rw [show global.package = same.package from (congrArg Global.package hEntry).symm,
      show global.cName = same.cName from (congrArg Global.cName hEntry).symm,
      show global.name = same.name from (congrArg Global.name hEntry).symm,
      show global.handle = same.handle from (congrArg Global.handle hEntry).symm,
      show global.kind = same.kind from (congrArg Global.kind hEntry).symm]
    exact h.named same hSame

end Module

/-! ## Entering names -/

namespace Job

variable {job : Job} {session after : Session} {decl : Declaration} {rest : List Declaration}

/-- The table of a module is filled up to the given declarations. No global has a value yet. -/
def Slots (job : Job) (rest : List Declaration) (session : Session) : Prop :=
  ∃ module done, session.program.module? job.id = some module ∧ module.name = job.package ∧
    module.file = job.file ∧ List.Forall₂ (Global.Enters job.package) module.globals done ∧
    Declaration.ofFile job.file = done ++ rest

theorem slots_registered (session : Session) (name : String) (file : SourceFile) :
    (⟨session.program.modules.length, name, file⟩ : Job).Slots (Declaration.ofFile file)
      (registered session name file) :=
  ⟨Module.ofFile name file, [], List.getElem?_concat_length, rfl, rfl, .nil, rfl⟩

theorem Slots.declare (h : job.Slots (decl :: rest) session) :
    Does job session (SessionM.declare job decl) fun _ after => job.Slots rest after := by
  obtain ⟨module, done, hModule, hName, hFile, hGlobals, hDone⟩ := h
  refine (does_declare decl).mono fun _ after hAfter => ?_
  obtain ⟨-, store, handle, -, hHandle, rfl⟩ := hAfter
  refine ⟨module.addGlobal (decl.toGlobal job.package handle), done ++ [decl], ?_, hName, hFile,
    List.rel_append hGlobals (.cons ⟨handle, rfl, hHandle⟩ .nil), ?_⟩
  · show (Program.updateModule _ job.id _).module? job.id = _
    rw [Program.module?_updateModule, if_pos rfl]
    exact congrArg (Option.map (·.addGlobal (decl.toGlobal job.package handle))) hModule
  · rw [hDone, List.append_assoc, List.singleton_append]

theorem Slots.declareAll (h : job.Slots (Declaration.ofFile job.file) session) :
    Does job session (SessionM.declareAll job) fun _ after => job.Slots [] after :=
  Does.forM job.Slots h fun _ _ _ hBefore => hBefore.declare

end Job

theorem Declaration.Repeats.not_nodup {previous : Declaration} (h : Repeats decls previous decl) :
    ¬ (decls.map (·.name)).Nodup := by
  obtain ⟨before, between, after, rfl, hName, -⟩ := h
  rw [List.map_append]
  intro hDistinct
  exact (List.nodup_append.mp hDistinct).2.2 previous.name
    (List.mem_map_of_mem (List.mem_append_right _ List.mem_cons_self)) decl.name
    (List.mem_map_of_mem List.mem_cons_self) hName

section Slots

variable (session : Session) (name : String) (file : SourceFile)

/-- The names of a module are entered if and only if they are all different. -/
theorem declareAll_succeeds_iff :
    (∃ after, (SessionM.declareAll ⟨session.program.modules.length, name, file⟩).exec
      (Job.registered session name file) = (.ok (), after)) ↔
      ((Declaration.ofFile file).map (·.name)).Nodup := by
  have hReports := (Job.entering_registered session name file).declareAll
  unfold Job.Reports Runs at hReports
  cases hRun : (SessionM.declareAll ⟨session.program.modules.length, name, file⟩).exec
      (Job.registered session name file) with
  | mk result after =>
      rw [hRun] at hReports
      cases result with
      | ok value => exact iff_of_true ⟨after, rfl⟩ hReports.nodup
      | error failure =>
          obtain ⟨previous, decl, hRepeats, -⟩ := hReports
          exact iff_of_false (by simp) hRepeats.not_nodup

/-- Once the names of a module are entered, it has the table of its file, without any value. -/
theorem declareAll_tables {after : Session}
    (hRun : (SessionM.declareAll ⟨session.program.modules.length, name, file⟩).exec
      (Job.registered session name file) = (.ok (), after)) :
    ∃ module, after.program.module? session.program.modules.length = some module ∧
      module.Tables name file ∧ ∀ global ∈ module.globals, global.value = none := by
  have hDistinct := (declareAll_succeeds_iff session name file).mp ⟨after, hRun⟩
  obtain ⟨-, module, done, hModule, hName, hFile, hGlobals, hDone⟩ :=
    (Job.slots_registered session name file).declareAll.success hRun
  rw [List.append_nil] at hDone
  refine ⟨module, hModule, .of_enters hName hFile (hDone ▸ hGlobals) hDistinct, ?_⟩
  intro global hMem
  obtain ⟨index, hIndex, rfl⟩ := List.mem_iff_getElem.mp hMem
  obtain ⟨handle, hEntered, -⟩ := hGlobals.get hIndex (hGlobals.length_eq ▸ hIndex)
  exact congrArg Global.value hEntered

end Slots

end GoToC
