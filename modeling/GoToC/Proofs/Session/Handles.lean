import GoToC.Proofs.Session.Locals
import GoToC.Proofs.Session.Steps
import GoToC.Proofs.Types.Depth

/-!
# Handles of types that were checked

A declaration that mentions a type before it is built keeps the handle of that type. The check
of types looks at what handles are bound to, from where the way to the shape is one handle
shorter. So a handle can be followed whenever its type passes the check, except for the first of
`maxHops` handles that are each bound to the next.
-/

namespace GoToC

variable {source : String} {chars : List Char}

namespace TypeStore

variable {store : TypeStore} {handle : Handle} {start start' type shape a b : Ty} {hops : Nat}

/-- The first of `maxHops` handles, each bound to the next. -/
def StartsChain (store : TypeStore) (handle : Handle) : Prop :=
  ∃ rest : List Handle, rest.length + 1 = maxHops ∧
    (handle :: rest).IsChain fun a b => store.target? a = some (.forward b)

/-! ## Following a handle -/

/-- One look less finds the same shape or is one too few. -/
theorem follow_of_succ (h : store.follow start (hops + 1) type = .ok shape) :
    store.follow start' hops type = .ok shape ∨
      store.follow start' hops type = .error (.tooDeep start'.display) := by
  induction hops generalizing type with
  | zero => exact .inr rfl
  | succ hops ih =>
      cases type with
      | forward handle =>
          rw [follow] at h ⊢
          split at h
          · cases h
          · exact ih h
      | _ => exact .inl h

/-- What is found within some looks lies at the end of a shorter row of handles. -/
theorem not_isChain_of_follow {rest : List Handle}
    (h : store.follow start (rest.length + 1) (.forward handle) = .ok shape) :
    ¬ (handle :: rest).IsChain fun a b => store.target? a = some (.forward b) := by
  intro hChain
  induction rest generalizing handle with
  | nil =>
      rw [follow] at h
      split at h <;> cases h
  | cons next rest ih =>
      obtain ⟨hTarget, hRest⟩ := List.isChain_cons_cons.mp hChain
      rw [follow, hTarget] at h
      exact ih h hRest

theorem resolve_forward (h : store.target? handle = some type) :
    store.resolve (.forward handle) = store.follow (.forward handle) (maxHops - 1) type := by
  show store.follow (.forward handle) (15 + 1) (.forward handle) = _
  rw [follow, h]
  rfl

/-- A handle that is bound to a type with a shape has that shape, unless it starts a chain. -/
theorem resolve_forward_cases (hTarget : store.target? handle = some type)
    (hShape : store.resolve type = .ok shape) :
    ¬ store.StartsChain handle ∧ store.resolve (.forward handle) = .ok shape ∨
      store.StartsChain handle ∧
        store.resolve (.forward handle) = .error (.tooDeep handle.name) := by
  rcases @follow_of_succ store type (.forward handle) type shape (maxHops - 1) hShape
    with hFound | hDeep
  · rw [← resolve_forward hTarget] at hFound
    refine .inl ⟨?_, hFound⟩
    rintro ⟨rest, hLength, hChain⟩
    unfold resolve at hFound
    rw [← hLength] at hFound
    exact not_isChain_of_follow hFound hChain
  · rw [← resolve_forward hTarget] at hDeep
    refine .inr ⟨?_, hDeep⟩
    obtain ⟨handles, hLength, hChain, hHead⟩ := chain_of_follow_tooDeep hDeep
    cases handles with
    | nil => cases hLength
    | cons first rest =>
        obtain rfl : handle = first := by simpa using hHead first rfl
        exact ⟨rest, hLength, hChain⟩

theorem exists_shape_of_validate (h : store.validate type = .ok ()) :
    ∃ shape, store.resolve type = .ok shape := by
  rw [validate, validateWithin] at h
  cases hResolve : store.resolve type with
  | error cause =>
      rw [hResolve] at h
      cases h
  | ok shape => exact ⟨shape, rfl⟩

/-! ## One type in place of another -/

theorem peel_congr (h : store.resolve a = store.resolve b) : store.peel a = store.peel b := by
  rw [peel, peel, h]

theorem validate_congr (h : store.resolve a = store.resolve b) :
    store.validate a = store.validate b := by
  rw [validate, validate, validateWithin, validateWithin, h]

theorem equalWithin_congr_left (h : store.peel a = store.peel b) (levels : Nat) (other : Ty) :
    store.equalWithin levels a other = store.equalWithin levels b other := by
  cases levels with
  | zero => rfl
  | succ levels => rw [equalWithin, equalWithin, h]

theorem equalWithin_congr_right (h : store.peel a = store.peel b) (levels : Nat) (other : Ty) :
    store.equalWithin levels other a = store.equalWithin levels other b := by
  cases levels with
  | zero => rfl
  | succ levels => rw [equalWithin, equalWithin, h]

/-- A type that has a shape and gets the answers that another one gets. -/
structure Replaces (store : TypeStore) (a b : Ty) : Prop where
  cType : ∃ text, store.cType a = .ok text ∧ store.cType b = .ok text
  element? : ∃ found, store.element? a = .ok found ∧ store.element? b = .ok found
  multi? : ∃ found, store.multi? a = .ok found ∧ store.multi? b = .ok found
  assignTo : ∀ src, store.assign a src = store.assign b src
  assignFrom : ∀ dest, store.assign dest a = store.assign dest b
  equal : ∀ other, SameAnswer (store.equal a other) (store.equal b other) ∧
    SameAnswer (store.equal other a) (store.equal other b)

theorem replaces_of_resolve (ha : store.resolve a = .ok shape) (hb : store.resolve b = .ok shape) :
    store.Replaces a b where
  cType := by
    have hShape := resolve_not_forward ha
    rw [TypeStore.cType, TypeStore.cType, peel, peel, ha, hb]
    cases shape with
    | forward handle => exact absurd rfl (hShape handle)
    | _ => exact ⟨_, rfl, rfl⟩
  element? := by
    rw [TypeStore.element?, TypeStore.element?, peel, peel, ha, hb]
    simp only [Bind.bind, Except.bind]
    split <;> exact ⟨_, rfl, rfl⟩
  multi? := by
    rw [TypeStore.multi?, TypeStore.multi?, peel, peel, ha, hb]
    simp only [Bind.bind, Except.bind]
    split <;> exact ⟨_, rfl, rfl⟩
  assignTo src := by rw [assign, assign, peel_congr (ha.trans hb.symm)]
  assignFrom dest := by rw [assign, assign, peel_congr (ha.trans hb.symm)]
  equal other := by
    have hPeel := peel_congr (ha.trans hb.symm)
    constructor
    · obtain ⟨levels, hLeft⟩ := store.exists_equalWithin a other
      obtain ⟨more, hRight⟩ := store.exists_equalWithin b other
      rw [hLeft, hRight, equalWithin_congr_left hPeel]
      exact equalWithin_levels levels more b other
    · obtain ⟨levels, hLeft⟩ := store.exists_equalWithin other a
      obtain ⟨more, hRight⟩ := store.exists_equalWithin other b
      rw [hLeft, hRight, equalWithin_congr_right hPeel]
      exact equalWithin_levels levels more other b

end TypeStore

/-! ## Names after a step -/

theorem Module.get?_setValue (module : Module) (name other : String) (value : GlobalValue) :
    (module.setValue name value).get? other = (module.get? other).map (·.given name value) := by
  have hGiven : (fun global : Global =>
      if global.name == name then { global with value := some value } else global) =
        (·.given name value) := by
    funext global
    simp only [Global.given, beq_iff_eq]
  show ((module.globals.map _).find? fun global : Global => global.name == other) = _
  rw [hGiven, List.find?_map]
  congr 1
  refine congrArg (fun test => List.find? test module.globals) (funext fun global => ?_)
  rw [Function.comp, Global.given_name]

theorem Program.global?_setValue (program : Program) (id other : ModuleId) (name name' : String)
    (value : GlobalValue) :
    (program.updateModule id (·.setValue name value)).global? other name' =
      if id = other then (program.global? other name').map (·.given name value)
      else program.global? other name' := by
  rw [Program.global?, Program.module?_updateModule, Program.global?]
  split
  · cases program.module? other with
    | none => rfl
    | some module => exact module.get?_setValue name name' value
  · rfl

namespace Job

variable {job : Job} {session : Session}

/-- The handle that a name of the module goes by. -/
def handle? (job : Job) (session : Session) (name : String) : Option Handle :=
  (session.program.global? job.id name).bind (·.handle)

/-- Names go by the handles that they had, and these stay bound. -/
structure KeepsHandles (job : Job) (before after : Session) : Prop where
  names : ∀ name, job.handle? after name = job.handle? before name
  targets : before.program.types.Extends after.program.types

theorem keepsHandles_withValue (name : String) (value : GlobalValue) :
    job.KeepsHandles session (job.withValue session name value) where
  names other := by
    show (Program.global? (session.program.updateModule job.id _) job.id other).bind _ = _
    rw [Program.global?_setValue, if_pos rfl, Option.bind_map]
    exact congrArg (Option.bind _) (funext fun global => Global.given_handle)
  targets := .refl _

/-- A type that is built is what the handle of its name is bound to. -/
theorem buildType_binds (decl : TypeDecl) :
    Runs (fun _ _ => True) session (SessionM.buildType job decl) fun entry after =>
      job.KeepsHandles session after ∧ ∀ handle ∈ job.handle? after decl.name,
          after.program.types.target? handle = some entry.1 := by
  refine Runs.bind (Runs.weaken (does_isolated _) fun _ _ _ => trivial) fun type built hBuilt => ?_
  obtain ⟨-, routine, -, rfl⟩ := hBuilt
  have hBind : Runs (fun _ _ => True) { session with supply := routine.supply }
      (SessionM.bindHandle job decl.name type) fun _ after =>
        job.KeepsHandles session after ∧ ∀ handle ∈ job.handle? after decl.name,
            after.program.types.target? handle = some type := by
    refine Runs.global?.bind fun found _ hFound => ?_
    rw [hFound.1, hFound.2]
    split
    · next handle hHandle =>
        refine Runs.bind (Runs.weaken (@Does.types _ job _ _) fun _ _ _ => trivial)
          fun store last hLast => ?_
        obtain ⟨-, hStore, rfl⟩ := hLast
        unfold TypeStore.bind at hStore
        split at hStore
        · cases hStore
        · next hUnbound =>
            cases hStore
            refine (Runs.changed _).mono fun _ after hAfter => ?_
            rw [hAfter]
            refine ⟨⟨fun _ => rfl, TypeStore.extends_setTarget hUnbound⟩, fun other hOther => ?_⟩
            obtain rfl := Option.some.inj (hOther.symm.trans hHandle)
            exact (TypeStore.target?_setTarget _ _ _ _).trans (if_pos rfl)
    · next hNone =>
        refine .pure ⟨⟨fun _ => rfl, .refl _⟩, fun other hOther => ?_⟩
        exact absurd (hOther.symm.trans hNone) (by simp)
  refine hBind.bind fun _ bound hBound => ?_
  obtain ⟨hKeeps, hTarget⟩ := hBound
  have hLast := @keepsHandles_withValue job bound decl.name (.type type)
  refine Runs.bind (Runs.weaken (@does_setValue job bound decl.name (.type type))
    fun _ _ _ => trivial) fun _ after hAfter => .pure ?_
  obtain ⟨-, rfl⟩ := hAfter
  refine ⟨⟨fun name => (hLast.names name).trans (hKeeps.names name),
    fun handle type hType => hKeeps.targets handle type hType⟩, fun handle hHandle => ?_⟩
  rw [hLast.names] at hHandle
  exact hTarget handle hHandle

/-- Once the types of a module are built, every handle of theirs is bound to a type that was
checked. -/
theorem buildTypes_binds : Runs (fun _ _ => True) session (SessionM.buildTypes job) fun _ after =>
      ∀ decl ∈ job.file.types, ∀ handle ∈ job.handle? after decl.name,
        ∃ type, after.program.types.target? handle = some type ∧
          after.program.types.validate type = .ok () := by
  refine Runs.bind (Runs.mapM (fun rest done now => ∀ decl ∈ job.file.types, decl ∈ rest ∨
    ∃ entry ∈ done, ∀ handle ∈ job.handle? now decl.name,
      now.program.types.target? handle = some entry.1) (fun _ => .inl) ?_)
    fun built after hBuilt => ?_
  · intro decl rest done before hBefore
    refine (buildType_binds decl).mono fun entry after hAfter other hOther => ?_
    obtain ⟨hKeeps, hTarget⟩ := hAfter
    rcases hBefore other hOther with hRest | ⟨found, hFound, hBound⟩
    · rcases List.mem_cons.mp hRest with rfl | hRest
      · exact .inr ⟨entry, by simp, hTarget⟩
      · exact .inl hRest
    · refine .inr ⟨found, by simp [hFound], fun handle hHandle => ?_⟩
      rw [hKeeps.names] at hHandle
      exact hKeeps.targets handle found.1 (hBound handle hHandle)
  · refine Runs.mono (Runs.weaken (@checkTypes_runs _ _ True built)
      fun _ _ _ => trivial) fun _ last hLast decl hDecl handle hHandle => ?_
    obtain ⟨rfl, hValid⟩ := hLast
    obtain ⟨entry, hEntry, hTarget⟩ := (hBuilt decl hDecl).resolve_left (by simp)
    exact ⟨entry.1, hTarget handle hHandle, hValid entry hEntry⟩

end Job

/-- The handle of a type that was built is bound to a type that passed the check, and stays so.
It passes the check itself, and gets every answer that its type gets, exactly if it does not
start a chain of `maxHops` handles; if it does, it cannot be looked at. -/
theorem built_handle_resolves {job : Job} {session after : Session}
    (hRun : (SessionM.buildTypes job).exec session = (.ok (), after)) {decl : TypeDecl}
    (hDecl : decl ∈ job.file.types) {handle : Handle}
    (hHandle : job.handle? after decl.name = some handle) {store : TypeStore}
    (hStore : after.program.types.Extends store) :
    ∃ type, store.target? handle = some type ∧ store.validate type = .ok () ∧
      (store.validate (.forward handle) = .ok () ↔ ¬ store.StartsChain handle) ∧
      (¬ store.StartsChain handle → store.Replaces (.forward handle) type) ∧
      (store.StartsChain handle →
        store.peel (.forward handle) = .error (.unresolved (.tooDeep handle.name))) := by
  have hBinds := @Job.buildTypes_binds job session
  rw [Runs, hRun] at hBinds
  obtain ⟨type, hBound, hChecked⟩ := hBinds decl hDecl handle hHandle
  have hTarget := hStore handle type hBound
  have hValid : store.validate type = .ok () := TypeStore.validateWithin_extends hStore hChecked
  obtain ⟨shape, hShape⟩ := TypeStore.exists_shape_of_validate hValid
  refine ⟨type, hTarget, hValid, ?_⟩
  rcases TypeStore.resolve_forward_cases hTarget hShape with ⟨hFree, hSame⟩ | ⟨hChain, hDeep⟩
  · have hAlso := TypeStore.validate_congr (hSame.trans hShape.symm)
    exact ⟨iff_of_true (hAlso.trans hValid) hFree,
      fun _ => TypeStore.replaces_of_resolve hSame hShape, fun hChain => absurd hChain hFree⟩
  · refine ⟨iff_of_false (fun hOk => ?_) (not_not_intro hChain), absurd hChain, fun _ => ?_⟩
    · obtain ⟨found, hFound⟩ := TypeStore.exists_shape_of_validate hOk
      rw [hDeep] at hFound
      cases hFound
    · rw [TypeStore.peel, hDeep]

/-- A struct with a field of the first of some types, each defined as the next. -/
def aliasSource (count : Nat) : String :=
  "type S struct \x7b f T0 \x7d\n" ++
    String.join ((List.range count).map fun i => s!"type T{i} T{i + 1}\n") ++
    s!"type T{count} int\n"

theorem aliasSource_toList (count : Nat) : (aliasSource count).toList =
    "type S struct \x7b f T0 \x7d\n".toList ++
      ((List.range count).flatMap fun i => (s!"type T{i} T{i + 1}\n").toList) ++
      (s!"type T{count} int\n").toList := by
  unfold aliasSource
  rw [String.toList_append, String.toList_append, String.toList_join, List.flatMap_map]

/-- The main module of a source, and the session in which its names are entered. -/
def enteredSource (source : String) : Job × Session :=
  match parse source with
  | .ok file =>
      (⟨0, SessionM.mainName, file⟩, ((SessionM.declareAll ⟨0, SessionM.mainName, file⟩).exec
          (Job.registered Session.empty SessionM.mainName file)).2)
  | .error _ => (⟨0, SessionM.mainName, .empty⟩, Session.empty)

/-- The store in which the types of a source are built. -/
def builtSource (source : String) : Bool × Session :=
  match (SessionM.buildTypes (enteredSource source).1).exec (enteredSource source).2 with
  | (.ok (), session) => (true, session)
  | (.error _, session) => (false, session)

/-! The same for the characters of a source. -/

def enteredChars (chars : List Char) : Job × Session :=
  match parseChars chars with
  | .ok file =>
      (⟨0, SessionM.mainName, file⟩, ((SessionM.declareAll ⟨0, SessionM.mainName, file⟩).exec
          (Job.registered Session.empty SessionM.mainName file)).2)
  | .error _ => (⟨0, SessionM.mainName, .empty⟩, Session.empty)

def builtChars (chars : List Char) : Bool × Session :=
  match (SessionM.buildTypes (enteredChars chars).1).exec (enteredChars chars).2 with
  | (.ok (), session) => (true, session)
  | (.error _, session) => (false, session)

theorem enteredSource_of_toList (h : source.toList = chars) :
    enteredSource source = enteredChars chars := by
  unfold enteredSource enteredChars
  rw [parse_of_toList h]

theorem builtSource_of_toList (h : source.toList = chars) :
    builtSource source = builtChars chars := by
  unfold builtSource builtChars
  rw [enteredSource_of_toList h]

theorem builtSource_complete (h : (builtSource source).1 = true) :
    (SessionM.buildTypes (enteredSource source).1).exec (enteredSource source).2 =
      (.ok (), (builtSource source).2) := by
  unfold builtSource at h ⊢
  split
  · next session hRun => exact hRun
  · next failure session hRun =>
      rw [hRun] at h
      cases h

/-- The first of fifteen types has a handle that can be followed. -/
theorem built_handle_resolves_fifteen : (builtSource (aliasSource 14)).1 = true ∧
      ¬ (builtSource (aliasSource 14)).2.program.types.StartsChain ⟨1, "T0"⟩ ∧
      ∃ type, (builtSource (aliasSource 14)).2.program.types.target? ⟨1, "T0"⟩ = some type ∧
        (builtSource (aliasSource 14)).2.program.types.Replaces (.forward ⟨1, "T0"⟩) type := by
  have hAll : (builtSource (aliasSource 14)).1 = true ∧
      "T0" ∈ (enteredSource (aliasSource 14)).1.file.types.map (·.name) ∧
      (enteredSource (aliasSource 14)).1.handle? (builtSource (aliasSource 14)).2 "T0" =
        some ⟨1, "T0"⟩ ∧
      (builtSource (aliasSource 14)).2.program.types.validate (.forward ⟨1, "T0"⟩) = .ok () := by
    rw [enteredSource_of_toList (aliasSource_toList 14),
      builtSource_of_toList (aliasSource_toList 14)]
    decide +kernel
  obtain ⟨hOk, hNames, hHandle, hValid⟩ := hAll
  obtain ⟨decl, hDecl, hName⟩ := List.mem_map.mp hNames
  obtain ⟨type, hTarget, -, hIff, hReplaces, -⟩ :=
    built_handle_resolves (builtSource_complete hOk) hDecl ((congrArg _ hName).trans hHandle)
      (.refl _)
  have hFree := hIff.mp hValid
  exact ⟨hOk, hFree, type, hTarget, hReplaces hFree⟩

/-- The first of sixteen types passes the check and its handle does not. -/
theorem built_handle_chained : (builtSource (aliasSource 15)).1 = true ∧
      ((builtSource (aliasSource 15)).2.program.types.target? ⟨1, "T0"⟩).map
        (builtSource (aliasSource 15)).2.program.types.validate = some (.ok ()) ∧
      (builtSource (aliasSource 15)).2.program.types.validate (.forward ⟨1, "T0"⟩) =
        .error (.tooDeep "T0") ∧
      (builtSource (aliasSource 15)).2.program.types.cType (.forward ⟨1, "T0"⟩) =
        .error (.unresolved (.tooDeep "T0")) := by
  rw [builtSource_of_toList (aliasSource_toList 15)]
  decide +kernel

end GoToC
