import GoToC.Proofs.Session.Declare

/-!
# Imported modules and types

The modules that a module imports are compiled while none of its own types is built. Its
types are then built one after another, each of them from the handles of all the others,
and bound to their handles; after that they are checked. From then on all handles of the
module are known to be bound to types that were validated.
-/

namespace GoToC

variable {global : Global} {after : Session} {decl : ImportDecl} {importer : Importer} {type : Ty}

theorem Global.Faithful.withValue {files : String → SourceFile → Prop} {program : Program}
    {owner : String} {file : SourceFile} {value : GlobalValue}
    (h : global.Faithful files program owner file)
    (hExpr : ∀ e, value = .expr e → GlobalMirrors files owner file global.name e.c.tree)
    (hType : ∀ type, value = .type type → ∃ decl ∈ file.types, decl.name = global.name)
    (hModule : ∀ id, value = .module id → (∃ decl ∈ file.imports, decl.name = global.name) ∧
      ∃ module, program.module? id = some module ∧ module.name = global.name) :
    ({ global with value := some value } : Global).Faithful files program owner file where
  declared := h.declared
  expr e hValue := hExpr e (Option.some.inj hValue)
  type hType' := hType'.elim (fun ⟨type, hValue⟩ => hType type (Option.some.inj hValue))
    fun hHandle => h.type (.inr hHandle)
  module id hValue := hModule id (Option.some.inj hValue)

/-- The globals of a module that was there are the same. -/
theorem Session.Extends.has_iff {before : Session} (h : before.Extends after) {id : ModuleId}
    {module : Module} (hModule : before.program.module? id = some module) :
    after.program.Has id global ↔ before.program.Has id global := by
  have hAfter := h.modules id module hModule
  constructor
  · rintro ⟨found, hFound, hMem⟩
    rw [hAfter] at hFound
    exact ⟨module, hModule, Option.some.inj hFound ▸ hMem⟩
  · rintro ⟨found, hFound, hMem⟩
    rw [hModule] at hFound
    exact ⟨module, hAfter, Option.some.inj hFound ▸ hMem⟩

namespace Job

variable {sources : Sources} {start session : Session} {job : Job} {values types : Known}

/-! ## Imports -/

/-- Another module was compiled meanwhile. -/
theorem Works.extend {values' types' : Known} (h : job.Works sources start values types session)
    (hExtends : session.Extends after) (hSound : after.SoundAt sources values' types') :
    job.Works sources start values' types' after := by
  obtain ⟨module, hModule, hEntered⟩ := h.entered
  refine ⟨hSound, h.extended.trans hExtends, h.later, h.sourced,
    ⟨module, hExtends.modules _ module hModule, hEntered⟩, fun global handle hHas => ?_⟩
  exact h.fresh global handle ((hExtends.has_iff hModule).mp hHas)

theorem Untyped.extend (h : job.Untyped session)
    (hWorks : job.Works sources start values types session) (hExtends : session.Extends after) :
    job.Untyped after := by
  obtain ⟨module, hModule, -⟩ := hWorks.entered
  intro global handle hHas hHandle
  have hBefore := (hExtends.has_iff hModule).mp hHas
  obtain ⟨hValue, hUnbound⟩ := h global handle hBefore hHandle
  refine ⟨hValue, ?_⟩
  rw [hExtends.targets handle (hWorks.sound.program.numbered.made _ global handle hBefore hHandle)]
  exact hUnbound

/-- An importer that compiles modules while the module is known. -/
def Imports (sources : Sources) (start : Session) (job : Job) (importer : Importer) : Prop :=
  ∀ name span session, session.Idle sources → start.Extends session →
    (∃ module, session.program.module? job.id = some module ∧ module.name = job.package) →
      Runs sources.Excuses session (importer name job.package span) fun id after =>
        after.Idle sources ∧ session.Extends after ∧
          ∃ module, after.program.module? id = some module ∧ module.name = name

/-- A session in which the imports of a module are followed. -/
def Begun (sources : Sources) (start : Session) (job : Job) (session : Session) : Prop :=
  ∃ handle function, job.Works sources start (sources.known handle function)
    (sources.known handle function) session ∧ job.Untyped session

theorem Works.faithful_global (h : job.Works sources start values types session)
    (hHas : session.program.Has job.id global) :
    global.Faithful sources.files session.program job.package job.file := by
  obtain ⟨module, hModule, hPackage, hFile, -⟩ := h.entered
  obtain ⟨found, hFound, hMem⟩ := hHas
  obtain rfl : module = found := Option.some.inj (hModule.symm.trans hFound)
  exact hPackage ▸ hFile ▸ h.sound.faithful.globals job.id module hModule global hMem

/-- The name of an import is set once its module is compiled. -/
theorem Begun.setImport (h : job.Begun sources start session) (hIdle : after.Idle sources)
    (hExtends : session.Extends after) (hDecl : decl ∈ job.file.imports) {target : ModuleId}
    (hTarget : ∃ module, after.program.module? target = some module ∧ module.name = decl.name) :
    Runs sources.Excuses after (SessionM.setValue job.id decl.name (.module target)) fun _ last =>
      job.Begun sources start last := by
  obtain ⟨handle, function, hWorks, hUntyped⟩ := h
  obtain ⟨handle', function', hSound⟩ := hIdle
  have hWorks' := hWorks.extend hExtends hSound
  have hUntyped' := hUntyped.extend hWorks hExtends
  obtain ⟨found, hFound, hKind, hName⟩ := Declaration.exists_ofFile_iff.mpr
    (show decl.name ∈ job.file.names .import from List.mem_map_of_mem hDecl)
  have hDeclares (global : Global) (hHas : after.program.Has job.id global)
      (hSame : global.name = found.name) : global.kind = .import ∧ global.handle = none := by
    have hDeclares := hWorks'.declares hHas hFound hSame
    refine ⟨hDeclares.kind.trans hKind, ?_⟩
    have hNoHandle := hDeclares.handle
    rw [hKind] at hNoHandle
    simpa using hNoHandle
  rw [← hName] at hTarget ⊢
  refine (hWorks'.setValue hFound (.module target)).mono fun _ last hLast => ?_
  rw [hLast]
  refine ⟨handle', function', hWorks'.withValue ?_ ?_, ?_⟩
  · intro global hHas hSame
    refine ⟨by simp, by simp, by simp, fun hFunc => ?_⟩
    cases hFunc.symm.trans (hDeclares global hHas hSame).1
  · intro global hHas hSame
    refine (hWorks'.faithful_global hHas).withValue (by simp) (by simp) ?_
    rintro id ⟨⟩
    rw [hSame]
    exact ⟨⟨decl, hDecl, hName.symm⟩, hTarget⟩
  · intro global' handle hHas hHandle
    obtain ⟨global, hBefore, rfl⟩ := has_withValue.mp hHas
    rw [Global.given_handle] at hHandle
    have hOther : global.name ≠ found.name := by
      intro hSame
      have hNone := (hDeclares global hBefore hSame).2
      cases hNone.symm.trans hHandle
    rw [Global.given, if_neg hOther]
    exact hUntyped' global handle hBefore hHandle

theorem Begun.buildImport (h : job.Begun sources start session)
    (hImports : job.Imports sources start importer) (hDecl : decl ∈ job.file.imports) :
    Runs sources.Excuses session (SessionM.buildImport importer job decl) fun _ after =>
      job.Begun sources start after := by
  have hBegun := h
  obtain ⟨handle, function, hWorks, -⟩ := h
  obtain ⟨module, hModule, hPackage, -⟩ := hWorks.entered
  refine (hImports decl.name decl.span session ⟨handle, function, hWorks.sound⟩ hWorks.extended
    ⟨module, hModule, hPackage⟩).bind fun target after hAfter => ?_
  obtain ⟨hIdle, hExtends, hTarget⟩ := hAfter
  exact hBegun.setImport hIdle hExtends hDecl hTarget

theorem Begun.buildImports (h : job.Begun sources start session)
    (hImports : job.Imports sources start importer) :
    Runs sources.Excuses session (job.file.imports.forM (SessionM.buildImport importer job))
      fun _ after => job.Begun sources start after :=
  Runs.forM_mem _ h fun _ hDecl _ hBefore => hBefore.buildImport hImports hDecl

/-! ## Types -/

/-- While types are built: those that are left are not bound, the others are bound to one of
the types that were built. -/
structure Types (sources : Sources) (start : Session) (job : Job) (values types : Known)
    (rest : List TypeDecl) (done : List (Ty × Span)) (session : Session) : Prop
    extends job.Builds sources start values types session where
  mem : ∀ decl ∈ rest, decl ∈ job.file.types
  nodup : (rest.map (·.name)).Nodup
  left : ∀ global handle, session.program.Has job.id global → global.handle = some handle →
    global.name ∈ rest.map (·.name) → session.program.types.target? handle = none
  built : ∀ global handle, session.program.Has job.id global → global.handle = some handle →
    global.name ∉ rest.map (·.name) →
      global.value ≠ none ∧ ∃ entry ∈ done, session.program.types.target? handle = some entry.1
  plain : ∀ entry ∈ done, entry.1.Plain types
  known : ∀ id, types.handle id → values.handle id ∨
    ∃ global handle, session.program.Has job.id global ∧ global.handle = some handle ∧
      handle.id = id

section Types

variable {handle handle' : Nat → Prop} {function : Prop} {decl : TypeDecl} {rest : List TypeDecl}
  {done : List (Ty × Span)}

theorem Types.withSupply (h : job.Types sources start values types rest done session)
    {supply : Supply} (hMade : session.supply.typedefs.made ≤ supply.typedefs.made) :
    job.Types sources start values types rest done { session with supply := supply } :=
  ⟨h.toBuilds.withSupply hMade, h.mem, h.nodup, h.left, h.built, h.plain, h.known⟩

/-- The global of a type that is built next has a handle that is not bound. -/
theorem Types.exists_handle (h : job.Types sources start values types (decl :: rest) done session) :
    ∃ found global handle, found ∈ Declaration.ofFile job.file ∧ found.name = decl.name ∧
      session.program.global? job.id decl.name = some global ∧
      session.program.Has job.id global ∧ global.Declares job.package found ∧
      global.kind = .type ∧ global.handle = some handle ∧
      session.program.types.target? handle = none := by
  obtain ⟨found, hFound, hKind, hName⟩ := Declaration.exists_ofFile_iff.mpr
    (show decl.name ∈ job.file.names .type from
      List.mem_map_of_mem (h.mem decl List.mem_cons_self))
  obtain ⟨global, hGlobal, hHas, hDeclares⟩ := h.exists_global hFound
  obtain ⟨handle, hHandle⟩ := Option.isSome_iff_exists.mp (hDeclares.handle.mpr hKind)
  rw [hName] at hGlobal
  refine ⟨found, global, handle, hFound, hName, hGlobal, hHas, hDeclares,
    hDeclares.kind.trans hKind, hHandle, h.left global handle hHas hHandle ?_⟩
  rw [hDeclares.name, hName]
  exact List.mem_cons_self

/-- The session after a handle was bound. -/
def bound (session : Session) (handle : Handle) (type : Ty) : Session :=
  { session with
    program := { session.program with types := session.program.types.setTarget handle type } }

theorem Builds.bound (h : job.Builds sources start values types session) {global : Global}
    {handle : Handle} {type : Ty} (hHas : session.program.Has job.id global)
    (hHandle : global.handle = some handle)
    (hUnbound : session.program.types.target? handle = none) :
    job.Builds sources start values types (bound session handle type) where
  sound := ⟨h.sound.program.setTarget hHas hHandle (h.own global handle hHas hHandle) hUnbound,
    h.sound.made, h.sound.faithful.withTypes _, h.sound.items⟩
  extended := by
    refine ⟨h.extended.modules, h.extended.builtin, h.extended.next, fun other hOther => ?_⟩
    have hFresh := h.fresh global handle hHas hHandle
    show (session.program.types.setTarget handle type).target? other = _
    rw [TypeStore.target?_setTarget, if_neg (by omega)]
    exact h.extended.targets other hOther
  later := h.later
  sourced := h.sourced
  entered := h.entered
  fresh := h.fresh
  own := h.own

/-- A type that was built takes its place. -/
theorem Types.step {handle : Handle} {span : Span}
    (h : job.Types sources start values types (decl :: rest) done session)
    (hHas : session.program.Has job.id global) (hName : global.name = decl.name)
    (hKind : global.kind = .type) (hHandle : global.handle = some handle)
    (hUnbound : session.program.types.target? handle = none) (hType : type.Plain types) :
    job.Types sources start values types rest (done ++ [(type, span)])
      (job.withValue (bound session handle type) decl.name (.type type)) := by
  have hBound : job.Builds sources start values types (bound session handle type) :=
    h.toBuilds.bound hHas hHandle hUnbound
  have hFirst : decl.name ∉ rest.map (·.name) := (List.nodup_cons.mp h.nodup).1
  have hTarget (other : Handle) : (Job.bound session handle type).program.types.target? other =
      if other.id = handle.id then some type else session.program.types.target? other :=
    TypeStore.target?_setTarget _ _ _ _
  have hOwner {other : Global} {found : Handle} (hOther : session.program.Has job.id other)
      (hFound : other.handle = some found) (hIds : found.id = handle.id) :
      other.name = decl.name := by
    obtain ⟨-, hNames⟩ := h.sound.program.numbered.distinct _ _ _ _ _ _ hOther hHas hFound hHandle
      hIds
    exact hNames.trans hName
  refine ⟨hBound.withValue (hBound.toWorks.withValue ?_ ?_), ?_, ?_, ?_, ?_, ?_, ?_⟩
  · intro other hOther hSame
    obtain rfl : global = other := h.unique hHas hOther (hName.trans hSame.symm)
    refine ⟨by simp, by simp, ?_, fun hFunc => ?_⟩
    · rintro found ⟨⟩
      exact hType
    · cases hFunc.symm.trans hKind
  · intro other hOther hSame
    refine (hBound.toWorks.faithful_global hOther).withValue (by simp) ?_ (by simp)
    rintro found -
    exact ⟨decl, h.mem decl List.mem_cons_self, hSame.symm⟩
  · exact (List.forall_mem_cons.mp h.mem).2
  · exact (List.nodup_cons.mp h.nodup).2
  · intro other' found hOther hFound hRest
    obtain ⟨other, hBefore, rfl⟩ := has_withValue.mp hOther
    rw [Global.given_handle] at hFound
    rw [Global.given_name] at hRest
    show (Job.bound session handle type).program.types.target? found = none
    rw [hTarget, if_neg]
    · exact h.left other found hBefore hFound (List.mem_cons_of_mem _ hRest)
    · exact fun hIds => hFirst (hOwner hBefore hFound hIds ▸ hRest)
  · intro other' found hOther hFound hRest
    obtain ⟨other, hBefore, rfl⟩ := has_withValue.mp hOther
    rw [Global.given_handle] at hFound
    rw [Global.given_name] at hRest
    show _ ∧ ∃ entry ∈ done ++ [(type, span)],
      (Job.bound session handle type).program.types.target? found = some entry.1
    rw [hTarget, Global.given]
    by_cases hThis : other.name = decl.name
    · obtain rfl : global = other := h.unique hHas hBefore (hName.trans hThis.symm)
      obtain rfl : handle = found := Option.some.inj (hHandle.symm.trans hFound)
      rw [if_pos hThis, if_pos rfl]
      exact ⟨by simp, (type, span), by simp, rfl⟩
    · have hDone : other.name ∉ (decl :: rest).map (·.name) := by
        rw [List.map_cons, List.mem_cons, not_or]
        exact ⟨hThis, hRest⟩
      obtain ⟨hValue, entry, hEntry, hBoundTo⟩ := h.built other found hBefore hFound hDone
      rw [if_neg hThis, if_neg fun hIds => hThis (hOwner hBefore hFound hIds)]
      exact ⟨hValue, entry, List.mem_append_left _ hEntry, hBoundTo⟩
  · intro entry hEntry
    rcases List.mem_append.mp hEntry with hEntry | hEntry
    · exact h.plain entry hEntry
    · rw [List.mem_singleton.mp hEntry]
      exact hType
  · intro id hId
    refine (h.known id hId).imp_right ?_
    rintro ⟨other, found, hBefore, hFound, hIds⟩
    exact ⟨_, found, has_withValue.mpr ⟨other, hBefore, rfl⟩,
      Global.given_handle.trans hFound, hIds⟩

theorem bindHandle_runs {metatype : Prop} {name : String} {handle : Handle}
    (hGlobal : session.program.global? job.id name = some global)
    (hHandle : global.handle = some handle)
    (hUnbound : session.program.types.target? handle = none) :
    Runs (Session.Excuses metatype) session (SessionM.bindHandle job name type) fun _ after =>
      after = bound session handle type := by
  have hStore : session.program.types.bind handle type =
      .ok (session.program.types.setTarget handle type) := by
    rw [TypeStore.bind, hUnbound]
  have hAnswers : session.program.types.Answers (session.program.types.bind handle type)
      fun _ => True := by
    rw [hStore]
    trivial
  have hAsk : Runs (Session.Excuses metatype) session (SessionM.types (·.bind handle type)) _ :=
    Runs.types hAnswers
  refine Runs.global?.bind fun found _ hFound => ?_
  rw [hFound.1, hFound.2, hGlobal, Option.bind_some, hHandle]
  refine hAsk.bind fun store after hAfter => ?_
  obtain ⟨⟨hOk, -⟩, rfl⟩ := hAfter
  obtain rfl := Except.ok.inj (hStore.symm.trans hOk)
  exact Runs.changed _

theorem Types.buildType
    (h : job.Types sources start (sources.known handle function) (sources.known handle' function)
      (decl :: rest) done session) :
    Runs sources.Excuses session (SessionM.buildType job decl) fun entry after =>
      job.Types sources start (sources.known handle function) (sources.known handle' function)
        rest (done ++ [entry]) after := by
  obtain ⟨hName, hWritten⟩ := (sources.formed h.sourced handle' function).types decl
    (h.mem decl List.mem_cons_self)
  refine (h.toBuilds.isolated
    (compileNamedType_safe h.sound.program.setting hName.1 hWritten)).bind
      fun type after hAfter => ?_
  obtain ⟨routine, hResumed⟩ := hAfter
  have hComposed : Composed .expr .any (compileNamedType decl.type decl.name) :=
    compileNamedType_composed .expr decl.type decl.name
  have h := h.withSupply (hComposed.advances hResumed.run).made
  rw [hResumed.session]
  obtain ⟨found, global, handle, hFound, hSame, hGlobal, hHas, hDeclares, hKind, hHandle,
    hUnbound⟩ := h.exists_handle
  refine (bindHandle_runs hGlobal hHandle hUnbound).bind fun _ middle hMiddle => ?_
  rw [hMiddle, ← hSame]
  refine ((h.toBuilds.bound hHas hHandle hUnbound).setValue hFound (.type type)).bind
    fun _ last hLast => .pure ?_
  rw [hLast, hSame]
  exact h.step hHas (hDeclares.name.trans hSame) hKind hHandle hUnbound hResumed.good

/-- Types that were built are checked; nothing changes thereby. -/
theorem checkTypes_runs {metatype : Prop} (built : List (Ty × Span)) :
    Runs (Session.Excuses metatype) session (built.forM fun (type, span) =>
      SessionM.checkType job type span) fun _ after => after = session ∧
        ∀ entry ∈ built, session.program.types.validate entry.1 = .ok () := by
  refine (Runs.forM (fun rest after => after = session ∧
    ∀ entry ∈ built, entry ∈ rest ∨ session.program.types.validate entry.1 = .ok ())
    ⟨rfl, fun _ => .inl⟩ ?_).mono fun _ after hAfter => ?_
  · rintro ⟨type, span⟩ rest before ⟨rfl, hBefore⟩
    refine Runs.get.bind fun found _ hFound => ?_
    obtain ⟨rfl, rfl⟩ := hFound
    split
    · next hValid =>
        refine .pure ⟨rfl, fun entry hEntry => ?_⟩
        rcases hBefore entry hEntry with hMem | hDone
        · rcases List.mem_cons.mp hMem with rfl | hMem
          · exact .inr hValid
          · exact .inl hMem
        · exact .inr hDone
    · exact .error _ _ _
  · exact ⟨hAfter.1, fun entry hEntry => (hAfter.2 entry hEntry).resolve_left (by simp)⟩

end Types

/-- A session in which the types of a module are built. What is not built yet is of some
given sort. -/
structure Ready (sources : Sources) (start : Session) (job : Job) (handle : Nat → Prop)
    (function : Prop) (left : Global → Prop) (session : Session) : Prop
    extends job.Builds sources start (sources.known handle function)
      (sources.known handle function) session where
  waiting : ∀ global, session.program.Has job.id global → global.value = none → left global

section Ready

variable {handle handle' : Nat → Prop} {function : Prop} {built : List (Ty × Span)}

/-- The handles of the module can be mentioned when its types are built. -/
theorem Begun.exists_types (h : job.Begun sources start session) : ∃ handle handle' function,
      job.Types sources start (sources.known handle function) (sources.known handle' function)
        job.file.types [] session := by
  obtain ⟨handle, function, hWorks, hUntyped⟩ := h
  let handle' : Nat → Prop := fun id => handle id ∨
    ∃ global found, session.program.Has job.id global ∧ global.handle = some found ∧ found.id = id
  have hLe : (sources.known handle function).Le (sources.known handle' function) :=
    ⟨fun _ => .inl, fun h => h, fun h => h, fun h => h⟩
  obtain ⟨module, -, -, hFile, hEntered⟩ := hWorks.entered
  have hSound : session.SoundAt sources (sources.known handle function)
      (sources.known handle' function) :=
    ⟨hWorks.sound.program.mono_types hLe, hWorks.sound.made, hWorks.sound.faithful,
      hWorks.sound.items⟩
  refine ⟨handle, handle', function, ⟨⟨hSound, hWorks.extended, hWorks.later, hWorks.sourced,
    hWorks.entered, hWorks.fresh⟩, ?_⟩, fun _ hDecl => hDecl, ?_, ?_, ?_, by simp, fun _ hId => hId⟩
  · exact fun global found hHas hFound => .inr ⟨global, found, hHas, hFound, rfl⟩
  · exact Declaration.nodup_names (hFile ▸ hEntered.distinct) .type
  · exact fun global found hHas hFound _ => (hUntyped global found hHas hFound).2
  · intro global found hHas hFound hNew
    obtain ⟨decl, hDecl, hName⟩ := (hWorks.faithful_global hHas).type (.inr ⟨found, hFound⟩)
    exact absurd (List.mem_map.mpr ⟨decl, hDecl, hName⟩) hNew

/-- Once types were checked, values may be made of them. -/
theorem Types.ready
    (h : job.Types sources start (sources.known handle function) (sources.known handle' function)
      [] built session)
    (hValid : ∀ entry ∈ built, session.program.types.validate entry.1 = .ok ()) :
    job.Ready sources start handle' function (fun global => global.kind ≠ .type) session := by
  have hSettled : session.program.types.Settled (sources.known handle' function) := by
    refine h.sound.program.settled.widen h.sound.program.le fun found hFound => ?_
    refine (h.known found.id hFound).imp_right ?_
    rintro ⟨global, own, hHas, hOwn, hIds⟩
    obtain ⟨-, entry, hEntry, hTarget⟩ := h.built global own hHas hOwn (by simp)
    rw [TypeStore.target?, hIds] at hTarget
    exact ⟨entry.1, hTarget, h.plain entry hEntry, hValid entry hEntry⟩
  refine ⟨⟨⟨⟨h.sound.program.widen (.refl _) hSettled, h.sound.made, h.sound.faithful,
    h.sound.items⟩, h.extended, h.later, h.sourced, h.entered, h.fresh⟩, h.own⟩, ?_⟩
  intro global hHas hNone hKind
  obtain ⟨decl, -, hDeclares⟩ := h.exists_decl hHas
  obtain ⟨own, hOwn⟩ := Option.isSome_iff_exists.mp
    (hDeclares.handle.mpr (hDeclares.kind.symm.trans hKind))
  exact (h.built global own hHas hOwn (by simp)).1 hNone

theorem Begun.buildTypes (h : job.Begun sources start session) :
    Runs sources.Excuses session (SessionM.buildTypes job) fun _ after =>
      ∃ handle function,
        job.Ready sources start handle function (fun global => global.kind ≠ .type) after := by
  obtain ⟨handle, handle', function, hTypes⟩ := h.exists_types
  refine (Runs.mapM _ hTypes fun _ _ _ _ hBefore => hBefore.buildType).bind
    fun built after hBuilt => ?_
  refine (checkTypes_runs built).mono fun _ last hLast => ?_
  obtain ⟨rfl, hValid⟩ := hLast
  exact ⟨handle', function, hBuilt.ready hValid⟩

end Ready

end Job

end GoToC
