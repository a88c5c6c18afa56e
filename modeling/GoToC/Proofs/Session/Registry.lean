import GoToC.Proofs.Session.Complete
import GoToC.Proofs.Session.Modules

/-!
# The registry of modules

However often modules are asked for and however that ends, a name that is known stays known as
one module, and what was written stays written. The output is made of blocks, one for each
module that wrote anything: a module first compiles what it imports and writes its own block
then, at one go. The block of a module whose compilation is complete has one declaration for
each of its types, variables, functions and methods and one definition for each of its
functions and methods.
-/

namespace GoToC

variable {id : ModuleId} {session : Session} {module : Module} {importer : Importer}
  {compile : String → String → SessionM ModuleId} {program : Program}

/-- The items that were written for a complete module. -/
structure Module.Written (module : Module) (items : List CItem) : Prop where
  marks : items.filterMap CItem.mark? = module.declarations ++ module.inits ++ module.definitions
  methods : List.Forall₂ (Method.Implements module.name) module.methods module.file.methods

/-- The items that were written for each of some modules. -/
abbrev Blocks := List (ModuleId × List CItem)

/-- What a module has left in the output whose compilation failed: nothing, or what was written up
to the failure when its own declarations were compiled. -/
def Job.Leaves (job : Job) (items : List CItem) : Prop :=
  items = [] ∨ ∃ before failure after,
    (SessionM.compileOwn job).exec before = (.error failure, after) ∧
      after.output.toList = before.output.toList ++ items

/-- A session that has come from another one by compiling modules. Modules that were known
are the same, those that are `changing` apart. Each block belongs to a module that has become known,
and to one that is complete unless it was left by a failure. -/
structure Session.Grows (changing : ModuleId → Prop) (before after : Session) : Prop where
  count : before.program.modules.length ≤ after.program.modules.length
  modules : ∀ id module, before.program.module? id = some module →
    ∃ module', after.program.module? id = some module' ∧ module'.name = module.name ∧
      (¬ changing id → module' = module)
  distinct : (before.program.modules.map (·.name)).Nodup →
    (after.program.modules.map (·.name)).Nodup
  blocks : ∃ (blocks : Blocks) (ids : List ModuleId),
    after.output.toList = before.output.toList ++ blocks.flatMap (·.2) ∧
    (blocks.map (·.1)).Nodup ∧
    (∀ block ∈ blocks, before.program.modules.length ≤ block.1 ∧
      block.1 < after.program.modules.length) ∧
    after.finished = before.finished ++ ids ∧
    (∀ id ∈ ids, ∃ module items, after.program.module? id = some module ∧ (id, items) ∈ blocks ∧
      module.Written items) ∧
    ∀ block ∈ blocks, block.1 ∈ ids ∨ ∃ module, after.program.module? block.1 = some module ∧
      (⟨block.1, module.name, module.file⟩ : Job).Leaves block.2

namespace Job.Touches

variable {job : Job} {before after : Session}

theorem exists_module (h : job.Touches before after)
    (hModule : before.program.module? id = some module) :
    ∃ module', after.program.module? id = some module' ∧ module'.name = module.name ∧
      (¬ id = job.id → module' = module) := by
  by_cases hId : id = job.id
  · have hOwn := h.own
    rw [← hId, hModule] at hOwn
    obtain ⟨module', hModule', hSame⟩ := Option.map_eq_some_iff.mp hOwn
    exact ⟨module', hModule', congrArg Prod.fst hSame, fun hOther => absurd hId hOther⟩
  · exact ⟨module, (h.others id hId).trans hModule, rfl, fun _ => rfl⟩

theorem names (h : job.Touches before after) :
    after.program.modules.map (·.name) = before.program.modules.map (·.name) := by
  refine List.ext_getElem? fun id => ?_
  rw [List.getElem?_map, List.getElem?_map]
  show (after.program.module? id).map (·.name) = (before.program.module? id).map (·.name)
  by_cases hId : id = job.id
  · have hOwn := congrArg (Option.map Prod.fst) h.own
    rw [Option.map_map, Option.map_map] at hOwn
    rw [hId]
    exact hOwn
  · rw [h.others id hId]

end Job.Touches

namespace Session.Grows

variable {changing changing' : ModuleId → Prop} {first second third : Session}

theorem refl (changing : ModuleId → Prop) (session : Session) : session.Grows changing session :=
  ⟨Nat.le_refl _, fun id module h => ⟨module, h, rfl, fun _ => rfl⟩, id, [], [], by simp⟩

theorem mono (h : first.Grows changing second) (imp : ∀ id, changing id → changing' id) :
    first.Grows changing' second where
  count := h.count
  modules id module hModule := by
    obtain ⟨module', hModule', hName, hSame⟩ := h.modules id module hModule
    exact ⟨module', hModule', hName, fun hChanging => hSame fun hId => hChanging (imp id hId)⟩
  distinct := h.distinct
  blocks := h.blocks

theorem trans (h : first.Grows changing second) (h' : second.Grows changing third)
    (hChanging : ∀ id, changing id → id < first.program.modules.length) :
    first.Grows changing third where
  count := Nat.le_trans h.count h'.count
  modules id module hModule := by
    obtain ⟨module', hModule', hName, hSame⟩ := h.modules id module hModule
    obtain ⟨module'', hModule'', hName', hSame'⟩ := h'.modules id module' hModule'
    exact ⟨module'', hModule'', hName'.trans hName, fun hId => (hSame' hId).trans (hSame hId)⟩
  distinct hDistinct := h'.distinct (h.distinct hDistinct)
  blocks := by
    obtain ⟨blocks, ids, hOutput, hOwners, hRange, hFinished, hWritten, hLeft⟩ := h.blocks
    obtain ⟨blocks', ids', hOutput', hOwners', hRange', hFinished', hWritten', hLeft'⟩ := h'.blocks
    have hKept {block : ModuleId × List CItem} {module : Module} (hBlock : block ∈ blocks)
        (hModule : second.program.module? block.1 = some module) :
        third.program.module? block.1 = some module := by
      obtain ⟨module', hModule', -, hSame⟩ := h'.modules block.1 module hModule
      refine hSame (fun hId => ?_) ▸ hModule'
      exact Nat.lt_irrefl _ (Nat.lt_of_lt_of_le (hChanging block.1 hId) (hRange block hBlock).1)
    refine ⟨blocks ++ blocks', ids ++ ids', ?_, ?_, ?_, ?_, ?_, ?_⟩
    · rw [hOutput', hOutput, List.flatMap_append, List.append_assoc]
    · rw [List.map_append]
      refine List.nodup_append.mpr ⟨hOwners, hOwners', ?_⟩
      rintro id hId other hOther rfl
      obtain ⟨block, hBlock, rfl⟩ := List.mem_map.mp hId
      obtain ⟨block', hBlock', hSame⟩ := List.mem_map.mp hOther
      have hLess := (hRange block hBlock).2
      have hLe := (hRange' block' hBlock').1
      rw [hSame] at hLe
      exact Nat.lt_irrefl _ (Nat.lt_of_lt_of_le hLess hLe)
    · intro block hBlock
      rcases List.mem_append.mp hBlock with hBlock | hBlock
      · obtain ⟨hLe, hLess⟩ := hRange block hBlock
        exact ⟨hLe, Nat.lt_of_lt_of_le hLess h'.count⟩
      · obtain ⟨hLe, hLess⟩ := hRange' block hBlock
        exact ⟨Nat.le_trans h.count hLe, hLess⟩
    · rw [hFinished', hFinished, List.append_assoc]
    · intro id hId
      rcases List.mem_append.mp hId with hId | hId
      · obtain ⟨module, items, hModule, hBlock, hItems⟩ := hWritten id hId
        exact ⟨module, items, hKept hBlock hModule, List.mem_append_left _ hBlock, hItems⟩
      · obtain ⟨module, items, hModule, hBlock, hItems⟩ := hWritten' id hId
        exact ⟨module, items, hModule, List.mem_append_right _ hBlock, hItems⟩
    · intro block hBlock
      rcases List.mem_append.mp hBlock with hBlock | hBlock
      · refine (hLeft block hBlock).imp (List.mem_append_left _) fun hLeaves => ?_
        obtain ⟨module, hModule, hLeaves⟩ := hLeaves
        exact ⟨module, hKept hBlock hModule, hLeaves⟩
      · exact (hLeft' block hBlock).imp_left (List.mem_append_right _)

/-- A module that is compiled may change itself. -/
theorem of_touches {job : Job} (h : job.Touches first second)
    (hOutput : second.output = first.output) : first.Grows (· = job.id) second where
  count := h.count.ge
  modules id module hModule := h.exists_module hModule
  distinct hDistinct := by
    rw [h.names]
    exact hDistinct
  blocks := ⟨[], [], by simp [hOutput, h.finished]⟩

end Session.Grows

/-! ## One module -/

/-- What comes of asking for the module of a name. -/
structure Session.Provides (before : Session) (name : String) (id : ModuleId) (after : Session) :
    Prop where
  grows : before.Grows (fun _ => False) after
  module : ∃ module, after.program.module? id = some module ∧ module.name = name
  complete : before.program.find? name = none → id ∈ after.finished

/-- An action that finds or compiles the module of a name. If it fails, it may have compiled
other modules. -/
def SessionM.Seeks (name : String) (action : SessionM ModuleId) : Prop :=
  ∀ session : Session, Runs (fun after _ => session.Grows (fun _ => False) after) session action
    (session.Provides name)

namespace Job

variable {job : Job} {start session middle after : Session}

/-- A module that is compiled is known by its name and its file. -/
def Known (job : Job) (session : Session) : Prop :=
  ∃ module, session.program.module? job.id = some module ∧ module.name = job.package ∧
    module.file = job.file

theorem Known.of_awaits (h : ∃ module, session.program.module? job.id = some module ∧
    module.Awaits job) : job.Known session := by
  obtain ⟨module, hModule, hAwaits⟩ := h
  exact ⟨module, hModule, hAwaits.opened.name, hAwaits.opened.file⟩

theorem Known.touches {other : Job} {after : Session} (h : job.Known session)
    (hTouches : other.Touches session after) : job.Known after := by
  obtain ⟨module, hModule, hName, hFile⟩ := h
  by_cases hId : job.id = other.id
  · have hOwn := hTouches.own
    rw [← hId, hModule] at hOwn
    obtain ⟨module', hModule', hSame⟩ := Option.map_eq_some_iff.mp hOwn
    exact ⟨module', hModule', (congrArg Prod.fst hSame).trans hName,
      (congrArg Prod.snd hSame).trans hFile⟩
  · exact ⟨module, (hTouches.others job.id hId).trans hModule, hName, hFile⟩

/-- A session that the compilation of a module has come to when it failed: modules were imported,
and then the module itself may have left something. -/
def Spreads (job : Job) (start after : Session) : Prop :=
  ∃ middle items, start.Grows (· = job.id) middle ∧ job.Known middle ∧ job.Touches middle after ∧
    after.output.toList = middle.output.toList ++ items ∧ job.Leaves items

/-- What a step does to the module comes on top. -/
theorem Spreads.does {α : Type} {action : SessionM α} {good : α → Session → Prop}
    (h : start.Grows (· = job.id) session) (hKnown : job.Known session)
    (hDoes : Does job session action good)
    (hLeft : ∀ failure after items, action.exec session = (.error failure, after) →
      after.output.toList = session.output.toList ++ items → job.Leaves items) :
    Runs (fun after _ => job.Spreads start after) session action fun value after =>
      job.Touches session after ∧ good value after := by
  unfold Does Runs at hDoes
  unfold Runs
  split at hDoes
  · exact hDoes
  · next failure after hRun =>
      obtain ⟨items, hItems⟩ := hDoes.output
      exact ⟨session, items, h, hKnown, hDoes, hItems, hLeft failure after items hRun hItems⟩

/-- Nothing is written while names are entered. -/
theorem declareAll_output (job : Job) (session : Session) :
    ((SessionM.declareAll job).exec session).2.output = session.output := by
  have hRuns : Runs (fun after _ => after.output = session.output) session (SessionM.declareAll job)
      fun _ after => after.output = session.output := by
    refine Runs.forM_mem (fun now => now.output = session.output) rfl
      fun decl _ before hBefore => ?_
    refine Runs.global?.bind fun found now hNow => ?_
    obtain ⟨-, rfl⟩ := hNow
    cases found with
    | some previous => exact .fail hBefore
    | none =>
        have hHandle : Runs (fun after _ => after.output = session.output) now
            (SessionM.newHandle decl) fun _ after => after.output = session.output := by
          unfold SessionM.newHandle
          split <;> exact hBefore
        exact hHandle.bind fun _ _ hEntered => (Runs.changed _).mono fun _ _ hAfter =>
          hAfter ▸ hEntered
  exact hRuns.always

/-- What is left belongs to the module as it is then. -/
theorem Touches.leaves (h : job.Touches middle after) (hKnown : job.Known middle)
    {items : List CItem} (hLeaves : job.Leaves items) :
    ∃ module, after.program.module? job.id = some module ∧
      (⟨job.id, module.name, module.file⟩ : Job).Leaves items := by
  obtain ⟨module, hModule, hName, hFile⟩ := hKnown.touches h
  exact ⟨module, hModule, by rwa [hName, hFile]⟩

/-- A module whose imports are followed. -/
structure Follows (job : Job) (start session : Session) : Prop where
  grows : start.Grows (· = job.id) session
  awaits : ∃ module, session.program.module? job.id = some module ∧ module.Awaits job

/-- An import is noted once it is compiled; nothing is written for that. -/
theorem Follows.buildImport
    (hImporter : ∀ name asking span, SessionM.Seeks name (importer name asking span))
    (hJob : job.id < start.program.modules.length) (decl : ImportDecl)
    (h : job.Follows start session) :
    Runs (fun after _ => job.Spreads start after) session (SessionM.buildImport importer job decl)
      fun _ after => job.Follows start after := by
  have hGrown {imported : Session} (hImported : session.Grows (fun _ => False) imported) :
      start.Grows (· = job.id) imported :=
    h.grows.trans (hImported.mono fun _ hId => hId.elim) fun id hId => hId ▸ hJob
  have hAwaits {imported : Session} (hImported : session.Grows (fun _ => False) imported) :
      ∃ module, imported.program.module? job.id = some module ∧ module.Awaits job := by
    obtain ⟨module, hModule, hAwaits⟩ := h.awaits
    obtain ⟨same, hFound, -, hSame⟩ := hImported.modules job.id module hModule
    exact ⟨same, hFound, hSame False.elim ▸ hAwaits⟩
  have hImport : Runs (fun after _ => job.Spreads start after) session
      (importer decl.name job.package decl.span) (session.Provides decl.name) :=
    Runs.weaken (hImporter decl.name job.package decl.span session) fun imported _ hImported =>
      ⟨imported, [], hGrown hImported, .of_awaits (hAwaits hImported), .refl job imported, by simp,
        .inl rfl⟩
  refine hImport.bind fun target imported hProvides => ?_
  have hImported := hProvides.grows
  obtain ⟨module, hFound, hAwaits⟩ := hAwaits hImported
  have hSet : Does job imported (SessionM.setValue job.id decl.name (.module target)) _ :=
    does_setValue decl.name (.module target)
  refine (Spreads.does (hGrown hImported) (.of_awaits ⟨module, hFound, hAwaits⟩) hSet
    fun _ _ _ hRun hItems => ?_).mono fun _ after hAfter => ?_
  · rw [(setValue_failed hRun).1, List.self_eq_append_right] at hItems
    exact .inl hItems
  obtain ⟨hTouches, rfl⟩ := hAfter
  refine ⟨(hGrown hImported).trans (.of_touches hTouches rfl) fun id hId => hId ▸ hJob,
    module.setValue decl.name (.module target), ?_, hAwaits.setImport decl.name target⟩
  show (imported.program.updateModule job.id (·.setValue decl.name (.module target))).module?
    job.id = _
  rw [Program.module?_updateModule, if_pos rfl, hFound]
  rfl

/-- A module that is complete has written its items after those of the modules that it
imports. -/
def Completes (job : Job) (start after : Session) : Prop :=
  ∃ middle items module, start.Grows (· = job.id) middle ∧ job.Touches middle after ∧
    after.output.toList = middle.output.toList ++ items ∧
    after.program.module? job.id = some module ∧ module.name = job.package ∧
    module.Written items

/-- Compiling the declarations of a module that has become known. -/
theorem compileJob_spreads
    (hImporter : ∀ name asking span, SessionM.Seeks name (importer name asking span))
    (hModule : start.program.module? job.id = some (Module.ofFile job.package job.file)) :
    Runs (fun after _ => job.Spreads start after) start (SessionM.compileJob importer job)
      fun _ after => job.Completes start after := by
  have hJob : job.id < start.program.modules.length := List.getElem?_eq_some_iff.mp hModule |>.1
  rw [SessionM.compileJob_eq]
  have hNothing (failure : Failure) (after : Session) (items : List CItem)
      (hRun : (SessionM.declareAll job).exec start = (.error failure, after))
      (hItems : after.output.toList = start.output.toList ++ items) : job.Leaves items := by
    have hOutput := declareAll_output job start
    rw [hRun] at hOutput
    rw [hOutput, List.self_eq_append_right] at hItems
    exact .inl hItems
  refine (Spreads.does (.refl _ start) ⟨_, hModule, rfl, rfl⟩ (does_declareAll hModule)
    hNothing).bind fun _ declared hDeclared => ?_
  obtain ⟨hTouches, module, hFound, hAwaits, -, hOutput⟩ := hDeclared
  refine Runs.bind (Runs.forM_mem (fun now => job.Follows start now) ?_
    fun decl _ before hBefore => hBefore.buildImport hImporter hJob decl)
    fun _ imported hImported => ?_
  · exact ⟨.of_touches hTouches hOutput, module, hFound, hAwaits⟩
  · obtain ⟨module, hFound, hAwaits⟩ := hImported.awaits
    have hFills := hAwaits.fills hFound .anything
    have hLeft (failure : Failure) (after : Session) (items : List CItem)
        (hRun : (SessionM.compileOwn job).exec imported = (.error failure, after))
        (hItems : after.output.toList = imported.output.toList ++ items) : job.Leaves items :=
      .inr ⟨imported, failure, after, hRun, hItems⟩
    refine (Spreads.does hImported.grows (.of_awaits ⟨module, hFound, hAwaits⟩) hFills.compileOwn
      hLeft).mono fun _ after hAfter => ?_
    obtain ⟨hTouches, module, declared, init, defined, hWriting, hOutput⟩ := hAfter
    refine ⟨imported, declared ++ init ++ defined, module, hImported.grows, hTouches, hOutput,
      hWriting.found, hWriting.complete.name, ?_, ?_⟩
    · rw [List.filterMap_append, List.filterMap_append, hWriting.declares, hWriting.sets,
        hWriting.defines]
    · obtain ⟨done, hDone, hMethods, -⟩ := hWriting.complete.methods
      rw [List.append_nil] at hDone
      rw [hWriting.complete.name, hWriting.complete.file, hDone]
      exact hMethods

end Job

/-! ## Modules with their imports -/

namespace Session

variable {session middle after : Session} {job : Job} {name : String} {file : SourceFile}

theorem names_registered (hNew : session.program.find? name = none)
    (h : (session.program.modules.map (·.name)).Nodup) :
    ((Job.registered session name file).program.modules.map (·.name)).Nodup := by
  show ((session.program.modules ++ [Module.ofFile name file]).map (·.name)).Nodup
  rw [List.map_append]
  refine List.nodup_append.mpr ⟨h, List.nodup_singleton _, ?_⟩
  rintro other hOther _ hName rfl
  obtain ⟨module, hModule, rfl⟩ := List.mem_map.mp hOther
  obtain ⟨id, hId⟩ := List.mem_iff_getElem?.mp hModule
  exact Program.find?_ne_none hId (List.mem_singleton.mp hName) hNew

/-- A module that was new has its own block after those of the modules that it imports. It may
be noted as complete if its block is, and has to be unless the block is left by a failure. -/
theorem Grows.register (hNew : session.program.find? name = none)
    (hId : job.id = session.program.modules.length)
    (h : (Job.registered session name file).Grows (· = job.id) middle)
    (hTouches : job.Touches middle after) {items : List CItem}
    (hItems : after.output.toList = middle.output.toList ++ items) {complete : List ModuleId}
    (hComplete : ∀ id ∈ complete, id = job.id ∧
      ∃ module, after.program.module? job.id = some module ∧ module.Written items)
    (hLeft : job.id ∈ complete ∨ ∃ module, after.program.module? job.id = some module ∧
      (⟨job.id, module.name, module.file⟩ : Job).Leaves items) :
    session.Grows (fun _ => False) { after with finished := after.finished ++ complete } := by
  have hLength : (Job.registered session name file).program.modules.length = job.id + 1 := by
    rw [hId]
    exact List.length_append
  have hCount : job.id + 1 ≤ after.program.modules.length := by
    rw [hTouches.count, ← hLength]
    exact h.count
  obtain ⟨blocks, ids, hOutput, hOwners, hRange, hFinished, hWritten, hBlocks⟩ := h.blocks
  rw [hLength] at hRange
  have hKept {block : ModuleId × List CItem} (hBlock : block ∈ blocks) :
      after.program.module? block.1 = middle.program.module? block.1 :=
    hTouches.others block.1 (Nat.ne_of_lt (hRange block hBlock).1).symm
  refine ⟨?_, ?_, ?_, blocks ++ [(job.id, items)], ids ++ complete, ?_, ?_, ?_, ?_, ?_, ?_⟩
  · rw [hId] at hCount
    exact Nat.le_of_succ_le hCount
  · intro id module hModule
    have hLess : id < session.program.modules.length := (List.getElem?_eq_some_iff.mp hModule).1
    have hOther : id ≠ job.id := hId ▸ Nat.ne_of_lt hLess
    have hBefore : (Job.registered session name file).program.module? id = some module :=
      (List.getElem?_append_left hLess).trans hModule
    obtain ⟨same, hFound, -, hSame⟩ := h.modules id module hBefore
    rw [hSame hOther] at hFound
    exact ⟨module, (hTouches.others id hOther).trans hFound, rfl, fun _ => rfl⟩
  · intro hDistinct
    show (after.program.modules.map (·.name)).Nodup
    rw [hTouches.names]
    exact h.distinct (names_registered hNew hDistinct)
  · show after.output.toList = _
    rw [hItems, hOutput, List.flatMap_append, List.append_assoc]
    simp [Job.registered]
  · rw [List.map_append]
    refine List.nodup_append.mpr ⟨hOwners, List.nodup_singleton _, ?_⟩
    rintro id hMem _ hOwn rfl
    obtain ⟨block, hBlock, rfl⟩ := List.mem_map.mp hMem
    have hLater := (hRange block hBlock).1
    rw [List.mem_singleton.mp hOwn] at hLater
    exact Nat.not_succ_le_self _ hLater
  · intro block hBlock
    rcases List.mem_append.mp hBlock with hBlock | hBlock
    · obtain ⟨hLe, hLess⟩ := hRange block hBlock
      exact ⟨Nat.le_of_succ_le (hId ▸ hLe), hTouches.count ▸ hLess⟩
    · rw [List.mem_singleton.mp hBlock]
      exact ⟨hId.ge, hCount⟩
  · show after.finished ++ complete = _
    rw [hTouches.finished, hFinished, List.append_assoc]
    rfl
  · intro id hMem
    rcases List.mem_append.mp hMem with hMem | hMem
    · obtain ⟨module, items, hModule, hBlock, hItems⟩ := hWritten id hMem
      exact ⟨module, items, (hKept hBlock).trans hModule, List.mem_append_left _ hBlock, hItems⟩
    · obtain ⟨rfl, module, hModule, hItems⟩ := hComplete id hMem
      exact ⟨module, items, hModule, by simp, hItems⟩
  · intro block hBlock
    rcases List.mem_append.mp hBlock with hBlock | hBlock
    · refine (hBlocks block hBlock).imp (List.mem_append_left _) fun hLeaves => ?_
      obtain ⟨module, hModule, hLeaves⟩ := hLeaves
      exact ⟨module, (hKept hBlock).trans hModule, hLeaves⟩
    · obtain rfl := List.mem_singleton.mp hBlock
      exact hLeft.imp_left (List.mem_append_right _)

theorem Provides.of_find? (hFound : session.program.find? name = some id) :
    session.Provides name id session where
  grows := .refl _ session
  module := Program.find?_eq_some hFound
  complete hNew := by simp [hFound] at hNew

end Session

namespace SessionM

variable {library : Library}

theorem seeks_importWith {name : String} (hCompile : ∀ text, Seeks name (compile name text))
    (asking : String) (span : Span) : Seeks name (importWith library compile name asking span) := by
  intro session
  refine Runs.get.bind fun now last hNow => ?_
  rw [hNow.1, hNow.2]
  split
  · next id hFound => exact .pure (.of_find? hFound)
  · split
    · exact hCompile _ session
    · exact .fail (.refl _ session)
    · exact .fail (.refl _ session)

/-- Reading a source changes nothing. -/
theorem runs_readSource (name text : String) (session : Session) :
    Runs (fun after _ => session.Grows (fun _ => False) after) session (readSource name text)
      fun _ after => after = session := by
  unfold readSource
  split
  · exact .pure rfl
  · exact .fail (.refl _ session)
  · exact .fail (.refl _ session)

/-- Compiling a source, however deep imports are followed. -/
theorem seeks_compileWithin (depth : Nat) (name text : String) :
    Seeks name (compileWithin library depth name text) := by
  induction depth generalizing name text with
  | zero => exact fun session => .fail (.refl _ session)
  | succ depth ih =>
      intro session
      refine Runs.get.bind fun now last hNow => ?_
      rw [hNow.1, hNow.2]
      split
      · next id hFound => exact .pure (.of_find? hFound)
      · next hNew =>
          refine (runs_readSource name text session).bind fun file last hLast => ?_
          subst hLast
          let job : Job := ⟨last.program.modules.length, name, file⟩
          have hRegister : Runs (fun after _ => last.Grows (fun _ => False) after) last
              (register name file) fun found after =>
                found = job ∧ after = Job.registered last name file := ⟨rfl, rfl⟩
          refine hRegister.bind fun found registered hFound => ?_
          obtain ⟨rfl, rfl⟩ := hFound
          have hModule : (Job.registered last name file).program.module? job.id =
              some (Module.ofFile job.package job.file) := List.getElem?_concat_length
          have hImporter : ∀ name asking span, Seeks name
              (importWith library (compileWithin library depth) name asking span) :=
            fun name => seeks_importWith (ih name)
          have hCompile := Job.compileJob_spreads hImporter hModule
          refine Runs.bind (hCompile.weaken fun after _ hAfter => ?_) fun _ after hAfter => ?_
          · obtain ⟨middle, items, hGrows, hKnown, hTouches, hItems, hLeaves⟩ := hAfter
            have hGrown := Session.Grows.register hNew rfl hGrows hTouches hItems
              (fun id (hId : id ∈ []) => absurd hId List.not_mem_nil)
              (.inr (hTouches.leaves hKnown hLeaves))
            rwa [List.append_nil] at hGrown
          · obtain ⟨middle, items, module, hGrows, hTouches, hItems, hFound, hName, hWritten⟩ :=
              hAfter
            refine (Runs.changed _).bind fun _ final hFinal => .pure ?_
            rw [hFinal]
            refine ⟨.register hNew rfl hGrows hTouches hItems (fun id hId => ?_)
              (.inl List.mem_cons_self), ⟨module, hFound, hName⟩,
              fun _ => List.mem_append_right _ List.mem_cons_self⟩
            exact ⟨List.mem_singleton.mp hId, module, hFound, hWritten⟩

theorem importWith_known {name : String} (h : session.program.find? name = some id)
    (compile : String → String → SessionM ModuleId) (asking : String) (span : Span) :
    (importWith library compile name asking span).exec session = (.ok id, session) := by
  rw [importWith, get_bind_exec, h]
  rfl

theorem compileWithin_known {name : String} (h : session.program.find? name = some id)
    (depth : Nat) (text : String) :
    (compileWithin library (depth + 1) name text).exec session = (.ok id, session) := by
  rw [compileWithin, get_bind_exec, h]
  rfl

theorem seeks_loadModule (name : String) : Seeks name (loadModule library name) :=
  seeks_importWith (fun text => seeks_compileWithin _ name text) name Span.nowhere

theorem seeks_loadBuiltin : Seeks builtinName (loadBuiltin library) := by
  intro session
  refine Runs.bind (seeks_loadModule builtinName session) fun id loaded hLoaded => ?_
  refine (Runs.changed _).bind fun _ after hAfter => .pure ?_
  rw [hAfter]
  exact ⟨⟨hLoaded.grows.count, hLoaded.grows.modules, hLoaded.grows.distinct, hLoaded.grows.blocks⟩,
    hLoaded.module, hLoaded.complete⟩

/-! ### Invariants -/

/-- An action that keeps what holds of sessions, if it succeeds. -/
def Maintains {ι α : Type} (inv : ι → Session → Prop) (action : SessionM α) : Prop :=
  ∀ index session, inv index session →
    Runs (fun _ _ => True) session action fun _ after => inv index after

/-- What holds of the sessions of a program: compiling a module that becomes known keeps it if
imports do, and it does not matter to it which module all others see. -/
structure Invariant {ι : Type} (inv : ι → Session → Prop) : Prop where
  builtin : ∀ index session id, inv index session →
    inv index { session with program := { session.program with builtin := some id } }
  job : ∀ {importer : Importer}, (∀ name asking span, Seeks name (importer name asking span)) →
    (∀ name asking span, Maintains inv (importer name asking span)) →
    ∀ index (session : Session) name file, session.program.find? name = none → inv index session →
      Runs (fun _ _ => True) (Job.registered session name file)
        (compileJob importer ⟨session.program.modules.length, name, file⟩) fun _ after =>
          inv index { after with finished := after.finished ++ [session.program.modules.length] }

namespace Invariant

variable {ι : Type} {inv : ι → Session → Prop}

theorem importWith {name : String} (hCompile : ∀ text, Maintains inv (compile name text))
    (asking : String) (span : Span) :
    Maintains inv (SessionM.importWith library compile name asking span) := by
  intro index session h
  refine Runs.get.bind fun now last hNow => ?_
  rw [hNow.1, hNow.2]
  split
  · exact .pure h
  · split
    · exact hCompile _ index session h
    · exact .fail trivial
    · exact .fail trivial

/-- Compiling a source, however deep imports are followed. -/
theorem compileWithin (hInv : Invariant inv) (depth : Nat) (name text : String) :
    Maintains inv (SessionM.compileWithin library depth name text) := by
  induction depth generalizing name text with
  | zero => exact fun _ _ _ => .fail trivial
  | succ depth ih =>
      intro index session h
      refine Runs.get.bind fun now last hNow => ?_
      rw [hNow.1, hNow.2]
      split
      · exact .pure h
      · next hNew =>
          refine Runs.bind ((runs_readSource name text session).weaken fun _ _ _ => trivial)
            fun file last hLast => ?_
          subst hLast
          have hRegister : Runs (fun _ _ => True) last (register name file) fun found after =>
              found = ⟨last.program.modules.length, name, file⟩ ∧
                after = Job.registered last name file := ⟨rfl, rfl⟩
          refine hRegister.bind fun found registered hFound => ?_
          obtain ⟨rfl, rfl⟩ := hFound
          have hSeeks (name asking : String) (span : Span) : Seeks name
              (SessionM.importWith library (SessionM.compileWithin library depth) name
                asking span) :=
            seeks_importWith (seeks_compileWithin depth name) asking span
          refine (hInv.job hSeeks (fun name => importWith (ih name)) index last name file
            hNew h).bind fun _ after hAfter => ?_
          exact (Runs.changed _).bind fun _ final hFinal => .pure (hFinal ▸ hAfter)

/-- A program that starts from nothing but headers. -/
theorem compileProgram (hInv : Invariant inv) {index : ι}
    (hStart : inv index { Session.empty with output := Session.empty.output.push .includes })
    (library : Library) (withBuiltin : Bool) (text : String) :
    Runs (fun _ _ => True) Session.empty (SessionM.compileProgram library withBuiltin text)
      fun _ after => inv index after := by
  refine (Runs.changed _).bind fun _ preamble hPreamble => ?_
  rw [← hPreamble] at hStart
  have hMain (session : Session) (h : inv index session) :
      Runs (fun _ _ => True) session (do
        let _ ← compileSource library mainName text) fun _ after => inv index after :=
    Runs.bind (hInv.compileWithin _ mainName text index session h) fun _ _ hAfter => .pure hAfter
  cases withBuiltin with
  | false => exact hMain preamble hStart
  | true =>
      have hLoad : Maintains inv (loadModule library builtinName) :=
        importWith (hInv.compileWithin _ builtinName) builtinName Span.nowhere
      refine Runs.bind (Runs.bind (hLoad index preamble hStart) fun id loaded hLoaded => ?_)
        fun _ shared hShared => hMain shared hShared
      exact (Runs.changed _).bind fun _ after hAfter =>
        .pure (hAfter ▸ hInv.builtin index loaded id hLoaded)

end Invariant

end SessionM

/-! ## Requests -/

/-- What a session may be asked for. -/
inductive ModuleRequest where
  /-- A module of the library. -/
  | load (name : String)
  /-- The module that all others see. -/
  | builtin
  /-- A source as the module of a name. -/
  | source (name text : String)

namespace ModuleRequest

/-- The module that a request is for. -/
def name : ModuleRequest → String
  | load name => name
  | builtin => SessionM.builtinName
  | source name _ => name

def run (library : Library) : ModuleRequest → SessionM ModuleId
  | load name => SessionM.loadModule library name
  | builtin => SessionM.loadBuiltin library
  | source name text => SessionM.compileSource library name text

end ModuleRequest

/-- The session after some requests, each of which may have failed. -/
def Session.serve (library : Library) (session : Session) (requests : List ModuleRequest) :
    Session :=
  requests.foldl (fun now request => ((request.run library).exec now).2) session

namespace ModuleRequest

theorem seeks (library : Library) (request : ModuleRequest) :
    SessionM.Seeks request.name (request.run library) := by
  cases request with
  | load name => exact SessionM.seeks_loadModule name
  | builtin => exact SessionM.seeks_loadBuiltin
  | source name text => exact SessionM.seeks_compileWithin _ name text

theorem grows (library : Library) (request : ModuleRequest) (session : Session) :
    session.Grows (fun _ => False) ((request.run library).exec session).2 :=
  ((request.seeks library session).mono fun _ _ hProvides => hProvides.grows).always

/-- A request for a module that is known may make it the one that all others see. -/
theorem run_known (library : Library) (request : ModuleRequest)
    (h : session.program.find? request.name = some id) :
    ∃ shared, (request.run library).exec session =
      (.ok id, { session with program := { session.program with builtin := shared } }) := by
  cases request with
  | load name => exact ⟨session.program.builtin, SessionM.importWith_known h _ name Span.nowhere⟩
  | builtin =>
      refine ⟨some id, ?_⟩
      have hLoad : (SessionM.loadModule library SessionM.builtinName).exec session =
          (.ok id, session) := SessionM.importWith_known h _ SessionM.builtinName Span.nowhere
      show (SessionM.loadBuiltin library).exec session = _
      rw [SessionM.loadBuiltin, SessionM.bind_exec, hLoad]
      rfl
  | source name text => exact ⟨session.program.builtin, SessionM.compileWithin_known h _ text⟩

end ModuleRequest

namespace Session

/-- However many requests are served, and whether they succeed or not. -/
theorem grows_serve (library : Library) (session : Session) (requests : List ModuleRequest) :
    session.Grows (fun _ => False) (session.serve library requests) := by
  induction requests generalizing session with
  | nil => exact .refl _ session
  | cons request rest ih => exact (request.grows library session).trans (ih _) fun _ hId => hId.elim

end Session

/-- Where no name is used twice, modules of one name are the same. -/
theorem Program.id_unique {other : ModuleId} {found : Module}
    (h : (program.modules.map (·.name)).Nodup) (hModule : program.module? id = some module)
    (hFound : program.module? other = some found) (hName : found.name = module.name) :
    other = id := by
  have hNames {at' : ModuleId} {module : Module} (hAt : program.module? at' = some module) :
      (program.modules.map (·.name))[at']? = some module.name := by
    rw [List.getElem?_map]
    exact congrArg (Option.map _) hAt
  have hLess := (List.getElem?_eq_some_iff.mp (hNames hFound)).1
  rw [← List.getElem?_inj hLess h, hNames hFound, hNames hModule, hName]

/-- Where no name is used twice, a module is found by its name alone. -/
theorem Program.find?_eq_some_iff {name : String} (h : (program.modules.map (·.name)).Nodup) :
    program.find? name = some id ↔ ∃ module, program.module? id = some module ∧
      module.name = name := by
  refine ⟨find?_eq_some, ?_⟩
  rintro ⟨module, hModule, hName⟩
  obtain ⟨found, hFound⟩ := Option.ne_none_iff_exists'.mp (find?_ne_none hModule hName)
  obtain ⟨other, hOther, hSame⟩ := find?_eq_some hFound
  rw [hFound, id_unique h hModule hOther (hSame.trans hName.symm)]

namespace Session

variable {library : Library} {before after : Session}

/-- A name that is known stays the name of the same module. -/
theorem Grows.find? (h : before.Grows (fun _ => False) after)
    (hDistinct : (before.program.modules.map (·.name)).Nodup) {name : String}
    (hFound : before.program.find? name = some id) : after.program.find? name = some id := by
  obtain ⟨module, hModule, hName⟩ := Program.find?_eq_some hFound
  obtain ⟨module', hModule', hName', -⟩ := h.modules id module hModule
  exact (Program.find?_eq_some_iff (h.distinct hDistinct)).mpr
    ⟨module', hModule', hName'.trans hName⟩

end Session

end GoToC
