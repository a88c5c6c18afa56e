import GoToC.Proofs.Session.Sound

/-!
# Entered names

Once the names of a module are entered there is one global for each declaration of its
file, and they all have different names. None of them is built: a type goes by a handle
that no other global has and that is not bound.
-/

namespace GoToC

variable {name : String} {file : SourceFile} {kind : GlobalKind} {handle : Option Handle}

/-! ## Declarations of files -/

/-- The names that a file declares as one kind of global. -/
def SourceFile.names (file : SourceFile) : GlobalKind → List String
  | .import => file.imports.map (·.name)
  | .type => file.types.map (·.name)
  | .const => file.consts.map (·.name)
  | .var => file.vars.map (·.name)
  | .func => file.funcs.map (·.name)

namespace Declaration

theorem exists_numbered_iff {kind' : GlobalKind} {index : Nat} {names : List (String × Span)} :
    (∃ decl ∈ numbered kind index names, decl.kind = kind' ∧ decl.name = name) ↔
      kind = kind' ∧ name ∈ names.map (·.1) := by
  induction names generalizing index with
  | nil => simp [numbered]
  | cons entry rest ih =>
      simp only [numbered, List.mem_cons, or_and_right, exists_or, ih, List.map_cons, and_or_left,
        exists_eq_left, eq_comm (a := entry.1)]

/-- A name is entered as the kinds of globals that the file declares it as. -/
theorem exists_ofFile_iff :
    (∃ decl ∈ ofFile file, decl.kind = kind ∧ decl.name = name) ↔ name ∈ file.names kind := by
  simp only [ofFile, List.mem_append, or_and_right, exists_or, exists_numbered_iff, List.map_map]
  cases kind <;> simp [SourceFile.names]

theorem map_name_numbered (kind : GlobalKind) (index : Nat) (names : List (String × Span)) :
    (numbered kind index names).map (·.name) = names.map (·.1) := by
  induction names generalizing index with
  | nil => rfl
  | cons entry rest ih => rw [numbered, List.map_cons, List.map_cons, ih]

theorem map_name_ofFile (file : SourceFile) : (ofFile file).map (·.name) =
    file.names .import ++ file.names .type ++ file.names .const ++ file.names .var ++
      file.names .func := by
  simp only [ofFile, List.map_append, map_name_numbered, List.map_map]
  rfl

theorem nodup_names (h : ((ofFile file).map (·.name)).Nodup) (kind : GlobalKind) :
    (file.names kind).Nodup := by
  rw [map_name_ofFile] at h
  simp only [List.nodup_append] at h
  cases kind
  · exact h.1.1.1.1
  · exact h.1.1.1.2.1
  · exact h.1.1.2.1
  · exact h.1.2.1
  · exact h.2.1

end Declaration

/-! ## Modules with some of their names -/

/-- A module some of whose names are entered; the given declarations are left. -/
structure Module.Opened (job : Job) (rest : List Declaration) (module : Module) : Prop where
  name : module.name = job.package
  file : module.file = job.file
  globals : ∃ done, List.Forall₂ (Global.Declares job.package) module.globals done ∧
    (done.map (·.name)).Nodup ∧ Declaration.ofFile job.file = done ++ rest

namespace Module.Opened

variable {job : Job} {module : Module} {decl : Declaration} {rest : List Declaration}

/-- A name that is new is entered. -/
theorem addGlobal (h : module.Opened job (decl :: rest)) (hNew : module.get? decl.name = none)
    (hHandle : handle.isSome = true ↔ decl.kind = .type) :
    (module.addGlobal (decl.toGlobal job.package handle)).Opened job rest := by
  obtain ⟨done, hGlobals, hDistinct, hDone⟩ := h.globals
  have hAbsent : ∀ global ∈ module.globals, global.name ≠ decl.name := by
    simpa using List.find?_eq_none.mp hNew
  refine ⟨h.name, h.file, done ++ [decl], ?_, ?_, ?_⟩
  · exact List.rel_append hGlobals (.cons ⟨rfl, rfl, rfl, hHandle⟩ .nil)
  · rw [List.map_append, List.map_singleton]
    refine List.nodup_append.mpr ⟨hDistinct, List.nodup_singleton _, ?_⟩
    intro name hName other hOther
    rw [List.mem_singleton.mp hOther]
    rw [← Global.Declares.names hGlobals] at hName
    obtain ⟨global, hGlobal, rfl⟩ := List.mem_map.mp hName
    exact hAbsent global hGlobal
  · rw [hDone, List.append_assoc, List.singleton_append]

theorem entered (h : module.Opened job []) : module.Entered := by
  obtain ⟨done, hGlobals, hDistinct, hDone⟩ := h.globals
  rw [List.append_nil] at hDone
  refine ⟨?_, ?_⟩
  · rw [h.name, h.file, hDone]
    exact hGlobals
  · rw [h.file, hDone]
    exact hDistinct

theorem of_entered (h : module.Entered) (hName : module.name = job.package)
    (hFile : module.file = job.file) : module.Opened job [] := by
  refine ⟨hName, hFile, Declaration.ofFile job.file, ?_, ?_, by simp⟩
  · rw [← hName, ← hFile]
    exact h.globals
  · rw [← hFile]
    exact h.distinct

theorem ofFile (job : Job) :
    (Module.ofFile job.package job.file).Opened job (Declaration.ofFile job.file) :=
  ⟨rfl, rfl, [], .nil, .nil, rfl⟩

end Module.Opened

namespace Job

/-- The types of a module are not built, and their handles are not bound. -/
def Untyped (job : Job) (session : Session) : Prop :=
  ∀ global handle, session.program.Has job.id global → global.handle = some handle →
    global.value = none ∧ session.program.types.target? handle = none

/-- A session in which names of a module are entered; the given declarations are left. -/
structure Enters (sources : Sources) (start : Session) (job : Job) (k : Known)
    (rest : List Declaration) (session : Session) : Prop where
  sound : session.SoundAt sources k k
  extended : start.Extends session
  later : start.program.modules.length ≤ job.id
  sourced : sources.files job.package job.file
  module : ∃ module, session.program.module? job.id = some module ∧ module.Opened job rest
  fresh : ∀ global handle, session.program.Has job.id global → global.handle = some handle →
    start.program.types.nextHandle ≤ handle.id
  untyped : job.Untyped session
  unshared : session.program.builtin ≠ some job.id

variable {sources : Sources} {start session : Session} {job : Job} {k : Known}
  {decl : Declaration} {rest : List Declaration}

/-- A handle that a global can be given. -/
structure Fresh (start session : Session) (handle : Handle) : Prop where
  later : start.program.types.nextHandle ≤ handle.id
  made : handle.id < session.program.types.nextHandle
  unbound : session.program.types.target? handle = none
  unused : ∀ other global found, session.program.Has other global → global.handle = some found →
    found.id ≠ handle.id

/-- Another type store in place of the old one, with one handle more. -/
def withHandle (session : Session) (name : String) : Session :=
  { session with
    program := { session.program with types := (session.program.types.newHandle name).2 } }

theorem Enters.withHandle (h : job.Enters sources start k rest session) (name : String) :
    job.Enters sources start k rest (withHandle session name) where
  sound := ⟨h.sound.program.newHandle name, h.sound.made, h.sound.faithful.withTypes _,
    h.sound.items⟩
  extended := ⟨h.extended.modules, h.extended.builtin, Nat.le_succ_of_le h.extended.next,
    h.extended.targets⟩
  later := h.later
  sourced := h.sourced
  module := h.module
  fresh := h.fresh
  untyped := h.untyped
  unshared := h.unshared

theorem Enters.fresh_withHandle (h : job.Enters sources start k rest session) (name : String) :
    Fresh start (Job.withHandle session name) ⟨session.program.types.nextHandle, name⟩ where
  later := h.extended.next
  made := Nat.lt_succ_self _
  unbound := h.sound.program.numbered.unmade _ (Nat.le_refl _)
  unused other global found hHas hFound :=
    Nat.ne_of_lt (h.sound.program.numbered.made other global found hHas hFound)

/-- A type gets a handle that no other global has. -/
theorem Enters.newHandle (h : job.Enters sources start k rest session) (decl : Declaration) :
    Runs sources.Excuses session (SessionM.newHandle decl) fun handle after =>
      job.Enters sources start k rest after ∧
        after.program.global? job.id decl.name = session.program.global? job.id decl.name ∧
        (handle.isSome = true ↔ decl.kind = .type) ∧
        ∀ found, handle = some found → Fresh start after found := by
  unfold SessionM.newHandle
  split
  · next hKind =>
      refine ⟨h.withHandle decl.name, rfl, by simp [hKind], ?_⟩
      rintro found ⟨⟩
      exact h.fresh_withHandle decl.name
  · next hKind => exact ⟨h, rfl, by simpa using hKind, by simp⟩

theorem Enters.addGlobal (h : job.Enters sources start k (decl :: rest) session)
    (hNew : session.program.global? job.id decl.name = none)
    (hHandle : handle.isSome = true ↔ decl.kind = .type)
    (hFresh : ∀ found, handle = some found → Fresh start session found) :
    job.Enters sources start k rest
      { session with
        program := session.program.updateModule job.id
          (·.addGlobal (decl.toGlobal job.package handle)) } := by
  obtain ⟨module, hModule, hOpened⟩ := h.module
  have hFile := hOpened.file
  have hDecl : decl ∈ Declaration.ofFile job.file := by
    obtain ⟨done, -, -, hDone⟩ := hOpened.globals
    rw [hDone]
    simp
  have hAbsent : module.get? decl.name = none := by
    rw [Program.global?, hModule] at hNew
    exact hNew
  refine ⟨⟨h.sound.program.addGlobal rfl h.unshared ?_, h.sound.made,
    h.sound.faithful.addGlobal ?_, h.sound.items⟩, h.extended.updateModule h.later _, h.later,
    h.sourced, ?_, ?_, ?_, h.unshared⟩
  · intro found hFound
    have hFresh := hFresh found hFound
    exact ⟨hFresh.made, hFresh.unbound, hFresh.unused⟩
  · intro found hFound
    obtain rfl : module = found := Option.some.inj (hModule.symm.trans hFound)
    refine ⟨?_, by simp [Declaration.toGlobal], ?_, by simp [Declaration.toGlobal]⟩
    · rw [hFile]
      exact ⟨decl, hDecl, rfl⟩
    · rintro (⟨type, hType⟩ | ⟨found, hFound⟩)
      · cases hType
      · have hKind :
          decl.kind = .type := hHandle.mp (by rw [show handle = some found from hFound]; rfl)
        rw [hFile]
        exact List.mem_map.mp (Declaration.exists_ofFile_iff.mp ⟨decl, hDecl, hKind, rfl⟩)
  · refine ⟨module.addGlobal (decl.toGlobal job.package handle), ?_,
      hOpened.addGlobal hAbsent hHandle⟩
    show (session.program.updateModule job.id _).module? job.id = _
    rw [Program.module?_updateModule, if_pos rfl, hModule]
    rfl
  · intro global found hHas hFound
    rcases Program.has_addGlobal hHas with hHas | ⟨-, rfl⟩
    · exact h.fresh global found hHas hFound
    · exact (hFresh found hFound).later
  · intro global found hHas hFound
    rcases Program.has_addGlobal hHas with hHas | ⟨-, rfl⟩
    · exact h.untyped global found hHas hFound
    · exact ⟨rfl, (hFresh found hFound).unbound⟩

/-- Entering one name. -/
theorem Enters.declare (h : job.Enters sources start k (decl :: rest) session) :
    Runs sources.Excuses session (SessionM.declare job decl) fun _ after =>
      job.Enters sources start k rest after := by
  refine Runs.global?.bind fun found _ hFound => ?_
  obtain ⟨rfl, rfl⟩ := hFound
  split
  · exact Runs.error _ _ _
  · next hNew =>
      refine (h.newHandle decl).bind fun handle after hAfter => ?_
      obtain ⟨hEnters, hSame, hHandle, hFresh⟩ := hAfter
      refine (Runs.changed _).mono fun _ last hLast => ?_
      rw [hLast]
      exact hEnters.addGlobal (hSame.trans hNew) hHandle hFresh

theorem Enters.works (h : job.Enters sources start k [] session) :
    job.Works sources start k k session where
  sound := h.sound
  extended := h.extended
  later := h.later
  sourced := h.sourced
  entered := by
    obtain ⟨module, hModule, hOpened⟩ := h.module
    exact ⟨module, hModule, hOpened.name, hOpened.file, hOpened.entered⟩
  fresh := h.fresh

/-- The session in which a module has become known. -/
def registered (start : Session) (name : String) (file : SourceFile) : Session :=
  { start with
    program := { start.program with
      modules := start.program.modules ++ [Module.ofFile name file] } }

/-- A module that has become known, before its names are entered. -/
theorem enters_registered (h : start.SoundAt sources k k) (hFile : sources.files name file) :
    (⟨start.program.modules.length, name, file⟩ : Job).Enters sources start k
      (Declaration.ofFile file) (registered start name file) := by
  have hModule : (registered start name file).program.module? start.program.modules.length =
      some (Module.ofFile name file) := List.getElem?_concat_length
  have hEmpty {global : Global} (hHas : (registered start name file).program.Has
      start.program.modules.length global) : False := by
    obtain ⟨module, hFound, hMem⟩ := hHas
    obtain rfl : Module.ofFile name file = module := Option.some.inj (hModule.symm.trans hFound)
    cases hMem
  refine ⟨⟨h.program.register name file, h.made, h.faithful.register hFile, h.items⟩,
    ⟨?_, rfl, Nat.le_refl _, fun _ _ => rfl⟩, Nat.le_refl _, hFile,
    ⟨Module.ofFile name file, hModule, .ofFile ⟨_, name, file⟩⟩,
    fun _ _ hHas => (hEmpty hHas).elim, fun _ _ hHas => (hEmpty hHas).elim, ?_⟩
  · intro id module hBefore
    have hLess : id < start.program.modules.length := (List.getElem?_eq_some_iff.mp hBefore).1
    show (start.program.modules ++ [Module.ofFile name file])[id]? = some module
    rw [List.getElem?_append_left hLess]
    exact hBefore
  · intro hShared
    obtain ⟨module, hBefore, -⟩ := h.faithful.builtin _ hShared
    exact absurd (List.getElem?_eq_some_iff.mp hBefore).1 (Nat.lt_irrefl _)

/-- Entering all names of a module. -/
theorem Enters.declareAll (h : job.Enters sources start k (Declaration.ofFile job.file) session) :
    Runs sources.Excuses session (SessionM.declareAll job) fun _ after =>
      job.Works sources start k k after ∧ job.Untyped after :=
  (Runs.forM (job.Enters sources start k) h fun _ _ _ hBefore => hBefore.declare).mono
    fun _ _ hAfter => ⟨hAfter.works, hAfter.untyped⟩

end Job

end GoToC
