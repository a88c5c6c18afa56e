import GoToC.Proofs.Session.Order

/-!
# Modules that are left unfinished

A request that fails leaves the modules unfinished that were on their way: the one that was asked
for, one that it imports, one that this one imports, and so on to the one that the failure was met
in. They stay known for ever in the state that they had reached, so from then on they are handed
out like complete ones. Only if the source that was asked for could not be read at all is nothing
left behind; then the same request fails again.
-/

namespace GoToC

variable {session : Session} {job : Job}

/-- What is done to a module alone touches it alone, however that ends. -/
theorem Does.touches_of_run {α : Type} {after : Session} {action : SessionM α}
    {good : α → Session → Prop} {result : Except Failure α} (h : Does job session action good)
    (hRun : action.exec session = (result, after)) : job.Touches session after := by
  have hTouches := h.touches
  rwa [hRun] at hTouches

/-- A session that has come from another one by compiling modules, some of which are complete while
each of a chain imports the next one and is left unfinished. -/
structure Session.Breaks (chain ids : List ModuleId) (before after : Session) : Prop where
  embeds : before.program.Embeds after.program
  distinct : (before.program.modules.map (·.name)).Nodup →
    (after.program.modules.map (·.name)).Nodup
  finished : after.finished = before.finished ++ ids
  added : ∀ id : Nat, id ∈ chain ∨ id ∈ ids ↔
    before.program.modules.length ≤ id ∧ id < after.program.modules.length
  disjoint : ∀ id ∈ chain, id ∉ ids
  linked : chain.IsChain after.program.Imports

namespace Session.Breaks

variable {source : String → String → Prop} {roots : ModuleId → Prop} {chain ids : List ModuleId}
  {first second third : Session}

/-- A module breaks after all that it has imported. -/
theorem of_touches (h : job.Touches first second) : first.Breaks [] [] second where
  embeds := h.embeds
  distinct hDistinct := h.names ▸ hDistinct
  finished := by rw [h.finished, List.append_nil]
  added id := by
    simp only [List.not_mem_nil, or_self, false_iff, h.count]
    exact fun hRange => Nat.lt_irrefl _ (Nat.lt_of_le_of_lt hRange.1 hRange.2)
  disjoint := by simp
  linked := .nil

theorem refl (session : Session) : session.Breaks [] [] session where
  embeds := .of_modules rfl
  distinct := id
  finished := by rw [List.append_nil]
  added id := by
    simp only [List.not_mem_nil, or_self, false_iff]
    exact fun hRange => Nat.lt_irrefl _ (Nat.lt_of_le_of_lt hRange.1 hRange.2)
  disjoint := by simp
  linked := .nil

/-- What was complete before is complete beside it. -/
theorem after (h : second.Breaks chain ids third) (h' : first.Completes source roots second) :
    ∃ ids', first.Breaks chain ids' third := by
  obtain ⟨done, hFinished, -, hDone, -⟩ := h'.added
  have hCount := h'.embeds.count_le
  have hCount' := h.embeds.count_le
  have hAdded := h.added
  refine ⟨done ++ ids, h'.embeds.trans h.embeds, fun hDistinct =>
    h.distinct (h'.distinct hDistinct),
    by rw [h.finished, hFinished, List.append_assoc], fun id => ?_, fun id hId hOther =>
      ?_, h.linked⟩
  · rw [List.mem_append, ← or_assoc, or_comm (a := id ∈ chain), or_assoc, hDone, hAdded]
    omega
  · rcases List.mem_append.mp hOther with hOther | hOther
    · exact Nat.lt_irrefl _
        (Nat.lt_of_lt_of_le ((hDone id).mp hOther).2 ((hAdded id).mp (.inl hId)).1)
    · exact h.disjoint id hId hOther

/-- A module that was new is the first one that is left unfinished. -/
theorem register {name : String} {file : SourceFile} (hNew : first.program.find? name = none)
    (h : (Job.registered first name file).Breaks chain ids second)
    (hHead : ∀ id ∈ chain.head?, second.program.Imports first.program.modules.length id) :
    first.Breaks (first.program.modules.length :: chain) ids second := by
  have hLength : (Job.registered first name file).program.modules.length =
      first.program.modules.length + 1 := List.length_append
  have hCount := h.embeds.count_le
  have hAdded := h.added
  rw [hLength] at hCount hAdded
  refine ⟨fun id module hModule => ?_, fun hDistinct =>
    h.distinct (names_registered hNew hDistinct),
    h.finished, fun id => ?_, fun id hId => ?_, h.linked.cons hHead⟩
  · exact h.embeds id module
      ((List.getElem?_append_left (List.getElem?_eq_some_iff.mp hModule).1).trans hModule)
  · rw [List.mem_cons, or_assoc, hAdded]
    omega
  · rcases List.mem_cons.mp hId with rfl | hId
    · exact fun hOther => Nat.not_succ_le_self _ ((hAdded _).mp (.inr hOther)).1
    · exact h.disjoint id hId

end Session.Breaks

namespace SessionM

variable {library : Library}

mutual

/-- A source that fails has made its module known, or it could not be read. -/
theorem Compiling.breaks {name text : String} {session after : Session} {log : List String}
    {result : Except Failure ModuleId} : Compiling library name text session log result after →
      ∀ failure, result = .error failure → ∃ chain ids, session.Breaks chain ids after ∧
        (chain = [] → after = session) ∧
        ∀ id ∈ chain.head?, ∃ module, after.program.module? id = some module ∧ module.name = name
  | .known _ => nofun
  | .unread _ _ => fun _ _ => ⟨[], [], .refl session, fun _ => rfl, by simp⟩
  | .failed hNew _ hBuilding => fun _ _ => by
      obtain ⟨chain, ids, hBreaks, hHead⟩ :=
        Building.breaks hBuilding List.getElem?_concat_length _ rfl
      obtain ⟨module, hModule, hName, -⟩ := hBreaks.embeds _ _ List.getElem?_concat_length
      refine ⟨_ :: chain, ids, hBreaks.register hNew hHead, nofun, ?_⟩
      rintro _ ⟨⟩
      exact ⟨module, hModule, hName⟩
  | .done _ _ _ => nofun

theorem Building.breaks {job : Job} {session after : Session} {log : List String}
    {result : Except Failure Unit} : Building library job session log result after →
      session.program.module? job.id = some (Module.ofFile job.package job.file) →
      ∀ failure, result = .error failure → ∃ chain ids, session.Breaks chain ids after ∧
        ∀ id ∈ chain.head?, after.program.Imports job.id id
  | .undeclared hDeclare => fun hModule _ _ =>
      ⟨[], [], .of_touches ((Job.does_declareAll hModule).touches_of_run hDeclare), by simp⟩
  | .failed hDeclare hFollowing => fun hModule _ _ => by
      have hTouches := (Job.does_declareAll hModule).touches_of_run hDeclare
      have hKnown : job.Known session := ⟨_, hModule, rfl, rfl⟩
      obtain ⟨chain, ids, hBreaks, hHead⟩ := Following.breaks hFollowing (hKnown.touches hTouches)
        (fun _ hDecl => hDecl) _ rfl
      have hFirst : session.Completes library.Offers (· = job.id) _ := .of_touches hTouches
      obtain ⟨ids', hBreaks'⟩ := hBreaks.after hFirst
      exact ⟨chain, ids', hBreaks', hHead⟩
  | .own hDeclare hFollowing hOwn => fun hModule failure hResult => by
      obtain ⟨hTouches, module, hFound, hAwaits, -⟩ :=
        (Job.does_declareAll hModule).success hDeclare
      have hKnown : job.Known session := ⟨_, hModule, rfl, rfl⟩
      obtain ⟨hCompletes, -⟩ := hFollowing.completes (hKnown.touches hTouches)
        (fun _ hDecl => hDecl) rfl
      obtain ⟨-, module', hFound', hAwaits'⟩ := hFollowing.gains module hFound hAwaits rfl
      have hLast := (hAwaits'.fills hFound' .anything).compileOwn.touches_of_run hOwn
      have hFirst : session.Completes library.Offers (· = job.id) _ := .of_touches hTouches
      obtain ⟨ids, hBreaks⟩ := (Session.Breaks.of_touches hLast).after (hFirst.trans hCompletes)
      exact ⟨[], ids, hBreaks, by simp⟩

theorem Following.breaks {job : Job} {imports : List ImportDecl} {session after : Session}
    {log : List String} {result : Except Failure Unit} :
    Following library job imports session log result after →
      job.Known session → (∀ decl ∈ imports, decl ∈ job.file.imports) →
      ∀ failure, result = .error failure → ∃ chain ids, session.Breaks chain ids after ∧
        ∀ id ∈ chain.head?, after.program.Imports job.id id
  | .nil => fun _ _ => nofun
  | .failed hImporting => fun hKnown hImports _ _ => by
      obtain ⟨chain, ids, hBreaks, -, hHead⟩ := Importing.breaks hImporting _ rfl
      refine ⟨chain, ids, hBreaks, fun id hId => ?_⟩
      obtain ⟨own, hOwn, -, hFile⟩ := hKnown.embeds hBreaks.embeds
      obtain ⟨module, hModule, hName⟩ := hHead id hId
      exact ⟨own, module, hOwn, hModule, _, hFile ▸ hImports _ List.mem_cons_self, hName.symm⟩
  | .unset hImporting hSet => fun _ _ _ _ => by
      obtain ⟨-, hImported⟩ := hImporting.completes _ rfl
      have hTouches := (Job.does_setValue _ _).touches_of_run hSet
      obtain ⟨ids, hBreaks⟩ := (Session.Breaks.of_touches hTouches).after hImported
      exact ⟨[], ids, hBreaks, by simp⟩
  | .cons hImporting hSet hFollowing => fun hKnown hImports failure hResult => by
      obtain ⟨-, hImported⟩ := hImporting.completes _ rfl
      have hNoted := (Job.does_setValue _ _).touches_of_run hSet
      obtain ⟨chain, ids, hBreaks, hHead⟩ := Following.breaks hFollowing
        ((hKnown.embeds hImported.embeds).touches hNoted)
        (List.forall_mem_cons.mp hImports).2 failure hResult
      obtain ⟨ids', hBreaks'⟩ := hBreaks.after (hImported.trans (.of_touches hNoted))
      exact ⟨chain, ids', hBreaks', hHead⟩

theorem Importing.breaks {name asking : String} {span : Span} {session after : Session}
    {log : List String} {result : Except Failure ModuleId} :
    Importing library name asking span session log result after →
      ∀ failure, result = .error failure → ∃ chain ids, session.Breaks chain ids after ∧
        (chain = [] → after = session) ∧
        ∀ id ∈ chain.head?, ∃ module, after.program.module? id = some module ∧ module.name = name
  | .known _ => nofun
  | .unloaded _ _ => fun _ _ => ⟨[], [], .refl session, fun _ => rfl, by simp⟩
  | .loaded _ _ hCompiling => Compiling.breaks hCompiling

end

/-- A request that returns an error ends as the relations without a depth tell. -/
theorem breaks_of_request {request : ModuleRequest} {after : Session} {cause : CompileError}
    (hRun : (request.run library).exec session = (.error (.error cause), after)) :
    ∃ chain ids, session.Breaks chain ids after ∧ (chain = [] → after = session) ∧
      ∀ id ∈ chain.head?, ∃ module, after.program.module? id = some module ∧
        module.name = request.name := by
  have hLoad {name : String} {result : Except Failure ModuleId}
    (hResult : result = .error (.error cause))
      (hRun : (loadModule library name).exec session = (result, after)) :
      ∃ chain ids, session.Breaks chain ids after ∧ (chain = [] → after = session) ∧
        ∀ id ∈ chain.head?, ∃ module, after.program.module? id = some module ∧
          module.name = name := by
    obtain ⟨log, hImporting⟩ := ends_importWith (ends_compileWithin _ _) _ _ _ _ _ hRun
      (by simp [hResult])
    exact hImporting.breaks _ hResult
  cases request with
  | load name => exact hLoad rfl hRun
  | builtin =>
      have hWhole : (ModuleRequest.builtin.run library).exec session =
          (loadModule library builtinName >>= fun id => setBuiltin id >>= fun _ =>
            (pure id : SessionM ModuleId)).exec session := rfl
      rw [hWhole, bind_exec] at hRun
      cases hFound : (loadModule library builtinName).exec session with
      | mk result loaded =>
          rw [hFound] at hRun
          cases result with
          | ok id => cases hRun
          | error failure =>
              cases hRun
              exact hLoad rfl hFound
  | source name text =>
      obtain ⟨log, hCompiling⟩ := ends_compileWithin _ _ _ _ _ _ hRun nofun
      exact hCompiling.breaks _ rfl

end SessionM

/-- Names are used once, and modules are known by the time they are complete. -/
structure Session.Orderly (session : Session) : Prop where
  distinct : (session.program.modules.map (·.name)).Nodup
  known : ∀ id ∈ session.finished, id < session.program.modules.length

theorem Session.Orderly.empty : Session.empty.Orderly := ⟨List.nodup_nil, by simp [Session.empty]⟩

/-- Modules that were not complete after some requests are never complete. -/
theorem Session.Orderly.serve (h : session.Orderly) (library : Library)
    (requests : List ModuleRequest) :
    (session.serve library requests).Orderly ∧
      ∀ id, session.Unfinished id → (session.serve library requests).Unfinished id := by
  have hGrows := session.grows_serve library requests
  obtain ⟨blocks, ids, -, -, hRange, hFinished, hWritten, -⟩ := hGrows.blocks
  have hNew (id : ModuleId) (hId : id ∈ ids) : session.program.modules.length ≤ id ∧
      id < (session.serve library requests).program.modules.length := by
    obtain ⟨_, items, -, hBlock, -⟩ := hWritten id hId
    exact hRange (id, items) hBlock
  refine ⟨⟨hGrows.distinct h.distinct, fun id hId => ?_⟩, fun id hUnfinished =>
    ⟨Nat.lt_of_lt_of_le hUnfinished.1 hGrows.count, fun hId => ?_⟩⟩
  · rw [hFinished] at hId
    rcases List.mem_append.mp hId with hId | hId
    · exact Nat.lt_of_lt_of_le (h.known id hId) hGrows.count
    · exact (hNew id hId).2
  · rw [hFinished] at hId
    rcases List.mem_append.mp hId with hId | hId
    · exact hUnfinished.2 hId
    · exact Nat.lt_irrefl _ (Nat.lt_of_lt_of_le hUnfinished.1 (hNew id hId).1)

/-- A request that returns an error leaves a chain of modules unfinished, each of which imports the
next one; the first one is that of the name that was asked for. Only if nothing is left does the
same request fail again. The modules of the chain are never complete, and every later request for
one of them, or import of one, gives it as it is. -/
theorem failed_request_leaves_chain {library : Library} {request : ModuleRequest}
    {session after : Session} {cause : CompileError} (hOrderly : session.Orderly)
    (hRun : (request.run library).exec session = (.error (.error cause), after)) :
    after.Orderly ∧
    (∀ id module, session.program.module? id = some module →
      after.program.module? id = some module) ∧
    ∃ chain : List ModuleId,
      (∀ id : Nat, id ∈ chain ↔ session.program.modules.length ≤ id ∧ after.Unfinished id) ∧
      chain.IsChain after.program.Imports ∧
      after.program.find? request.name = chain.head? ∧
      (chain = [] → after = session ∧
        (request.run library).exec after = (.error (.error cause), after)) ∧
      ∀ id ∈ chain, ∃ module, after.program.module? id = some module ∧ ∀ later,
        let last := after.serve library later
        last.Unfinished id ∧
        (∀ other : ModuleRequest, other.name = module.name → ∃ shared,
          (other.run library).exec last =
            (.ok id, { last with program := { last.program with builtin := shared } })) ∧
        ∀ asking span, (SessionM.importWith library (SessionM.compileSource library) module.name
          asking span).exec last = (.ok id, last) := by
  have hGrows : session.Grows (fun _ => False) after := by
    have hRequest := request.grows library session
    rwa [hRun] at hRequest
  have hAfter : after.Orderly := by
    have hServed := (hOrderly.serve library [request]).1
    rwa [Session.serve, List.foldl_cons, List.foldl_nil, hRun] at hServed
  obtain ⟨chain, ids, hBreaks, hNothing, hHead⟩ := SessionM.breaks_of_request hRun
  have hAdded := hBreaks.added
  have hMem (id : Nat) : id ∈ chain ↔
      session.program.modules.length ≤ id ∧ after.Unfinished id := by
    rw [Session.Unfinished, hBreaks.finished, List.mem_append]
    constructor
    · intro hId
      obtain ⟨hLe, hLess⟩ := (hAdded id).mp (.inl hId)
      refine ⟨hLe, hLess, ?_⟩
      rintro (hOld | hNew)
      · exact Nat.lt_irrefl _ (Nat.lt_of_lt_of_le (hOrderly.known id hOld) hLe)
      · exact hBreaks.disjoint id hId hNew
    · rintro ⟨hLe, hLess, hNot⟩
      exact ((hAdded id).mpr ⟨hLe, hLess⟩).resolve_right fun hNew => hNot (.inr hNew)
  refine ⟨hAfter, fun id module hModule => ?_, chain, hMem, hBreaks.linked, ?_, fun hEmpty => ?_,
    fun id hId => ?_⟩
  · obtain ⟨module', hModule', -, hSame⟩ := hGrows.modules id module hModule
    exact hSame not_false ▸ hModule'
  · cases hChain : chain.head? with
    | some id =>
        exact (Program.find?_eq_some_iff hAfter.distinct).mpr (hHead id hChain)
    | none =>
        obtain rfl := hNothing (List.head?_eq_none_iff.mp hChain)
        refine Option.eq_none_iff_forall_ne_some.mpr fun id hFound => ?_
        obtain ⟨shared, hKnown⟩ := request.run_known library hFound
        cases hKnown.symm.trans hRun
  · obtain rfl := hNothing hEmpty
    exact ⟨rfl, hRun⟩
  · have hUnfinished := ((hMem id).mp hId).2
    obtain ⟨module, hModule⟩ : ∃ module, after.program.module? id = some module :=
      ⟨_, List.getElem?_eq_getElem hUnfinished.1⟩
    refine ⟨module, hModule, fun later => ?_⟩
    have hFound : (after.serve library later).program.find? module.name = some id :=
      (after.grows_serve library later).find? hAfter.distinct
        ((Program.find?_eq_some_iff hAfter.distinct).mpr ⟨module, hModule, rfl⟩)
    exact ⟨(hAfter.serve library later).2 id hUnfinished,
      fun other hName => other.run_known library (hName ▸ hFound),
      fun asking span => SessionM.importWith_known hFound _ asking span⟩

/-- A module that fails, and one that imports it. -/
def failingLibrary : Library :=
  .ofList [("a", "import \"b\"\n"), ("b", "var x T\n")]

/-- What a request for a module of that library comes to in a session. -/
def requested (name : String) (session : Session) : Except Failure ModuleId × Session :=
  (SessionM.loadModule failingLibrary name).exec session

/-- Whether a request has failed with an error. -/
def isRefused : Except Failure ModuleId → Bool
  | .error (.error _) => true
  | _ => false

theorem failed_request_leaves_chain_two :
    Session.empty.Orderly ∧ ∃ cause after, requested "a" .empty = (.error (.error cause), after) ∧
      ∃ chain : List ModuleId, chain.IsChain after.program.Imports ∧ chain.head? = some 0 ∧
        1 ∈ chain := by
  refine ⟨.empty, ?_⟩
  have hFails : isRefused (requested "a" .empty).1 = true := by decide +kernel
  have hLeft : (requested "a" .empty).2.program.find? "a" = some 0 ∧
      (requested "a" .empty).2.program.modules.length = 2 ∧
      (requested "a" .empty).2.finished = [] := by
    decide +kernel
  cases hRun : requested "a" .empty with
  | mk result after =>
      rw [hRun] at hFails hLeft
      obtain ⟨hFound, hCount : after.program.modules.length = 2, hFinished : after.finished = []⟩ :=
        hLeft
      unfold isRefused at hFails
      split at hFails
      · next cause hCause =>
          obtain rfl : result = .error (.error cause) := hCause
          have hRequest : ((ModuleRequest.load "a").run failingLibrary).exec .empty =
              (.error (.error cause), after) := hRun
          obtain ⟨-, -, chain, hMem, hLinked, hHead, -⟩ :=
            failed_request_leaves_chain .empty hRequest
          refine ⟨cause, after, rfl, chain, hLinked, hHead.symm.trans hFound, (hMem 1).mpr ?_⟩
          exact ⟨Nat.zero_le 1, hCount ▸ Nat.one_lt_two, by simp [hFinished]⟩
      · cases hFails

/-- Modules that have failed are given to whoever asks for them again. -/
theorem unfinished_module_given : (requested "a" .empty).1.toOption = none ∧
      (requested "a" .empty).2.finished = [] ∧
      (requested "b" (requested "a" .empty).2).1.toOption = some 1 ∧
      (requested "a" (requested "a" .empty).2).1.toOption = some 0 ∧
      (requested "a" (requested "a" .empty).2).2.finished = [] := by
  decide +kernel

end GoToC
