import GoToC.Proofs.Session.Emit

/-!
# Steps of compiling a module

What each step of the compilation of a module does to a session, whatever the sources are.
However a step ends, it has changed no module but its own, and of the output it has changed
nothing that was written before. If it succeeds, the session after it is told exactly.
-/

namespace GoToC

/-- A session that differs from another one by what the compilation of a module may do to it,
other modules that it imports apart. -/
structure Job.Touches (job : Job) (before after : Session) : Prop where
  others : ∀ id, id ≠ job.id → after.program.module? id = before.program.module? id
  own : (after.program.module? job.id).map (fun module => (module.name, module.file)) =
    (before.program.module? job.id).map fun module => (module.name, module.file)
  count : after.program.modules.length = before.program.modules.length
  builtin : after.program.builtin = before.program.builtin
  finished : after.finished = before.finished
  output : ∃ items, after.output.toList = before.output.toList ++ items

namespace Job.Touches

variable {job : Job} {first second third session : Session}

theorem refl (job : Job) (session : Session) : job.Touches session session :=
  ⟨fun _ _ => rfl, rfl, rfl, rfl, rfl, [], by simp⟩

theorem trans (h : job.Touches first second) (h' : job.Touches second third) :
    job.Touches first third where
  others id hId := (h'.others id hId).trans (h.others id hId)
  own := h'.own.trans h.own
  count := h'.count.trans h.count
  builtin := h'.builtin.trans h.builtin
  finished := h'.finished.trans h.finished
  output := by
    obtain ⟨items, hItems⟩ := h.output
    obtain ⟨items', hItems'⟩ := h'.output
    exact ⟨items ++ items', by rw [hItems', hItems, List.append_assoc]⟩

/-- Numbers, handles and the methods of structs do not count. -/
theorem of_program {before after : Session} (hModules :
    after.program.modules = before.program.modules)
    (hBuiltin : after.program.builtin = before.program.builtin)
    (hFinished : after.finished = before.finished) (hOutput : after.output = before.output) :
    job.Touches before after where
  others id _ := by rw [Program.module?, hModules]; rfl
  own := by rw [Program.module?, hModules]; rfl
  count := by rw [hModules]
  builtin := hBuiltin
  finished := hFinished
  output := ⟨[], by rw [hOutput, List.append_nil]⟩

theorem updateModule (update : Module → Module)
    (hSame : ∀ module, (update module).name = module.name ∧ (update module).file = module.file) :
    job.Touches session { session with program := session.program.updateModule job.id update } where
  others id hId := by
    rw [Program.module?_updateModule, if_neg (Ne.symm hId)]
  own := by
    rw [Program.module?_updateModule, if_pos rfl, Option.map_map]
    refine congrArg (fun f => Option.map f (session.program.module? job.id))
      (funext fun module => ?_)
    rw [Function.comp, (hSame module).1, (hSame module).2]
  count := List.length_modify _ _ _
  builtin := rfl
  finished := rfl
  output := ⟨[], by simp⟩

end Job.Touches

/-- A step of the compilation of a module: what it does is confined to that module, and a
success is a good one. -/
def Does {α : Type} (job : Job) (session : Session) (action : SessionM α)
    (good : α → Session → Prop) : Prop :=
  Runs (fun after _ => job.Touches session after) session action fun value after =>
    job.Touches session after ∧ good value after

namespace Does

variable {α β : Type} {job : Job} {session after : Session} {action : SessionM α}
  {good : α → Session → Prop} {value : α}

theorem touches (h : Does job session action good) :
    job.Touches session (action.exec session).2 :=
  (Runs.mono h fun _ _ hGood => hGood.1).always

theorem success (h : Does job session action good)
    (hRun : action.exec session = (.ok value, after)) :
    job.Touches session after ∧ good value after := by
  unfold Does Runs at h
  rw [hRun] at h
  exact h

theorem pure (h : good value session) : Does job session (pure value) good :=
  Runs.pure ⟨.refl job session, h⟩

theorem fail (failure : Failure) : Does job session (throw failure : SessionM α) good :=
  Runs.fail (.refl job session)

theorem error (package : String) (span : Span) (problem : Problem) :
    Does job session (SessionM.error package span problem : SessionM α) good := .fail _

theorem bind {next : α → SessionM β} {good' : β → Session → Prop} (h : Does job session action good)
    (hNext : ∀ value after, good value after → Does job after (next value) good') :
    Does job session (action >>= next) good' := by
  refine Runs.bind h fun value after hAfter => ?_
  obtain ⟨hTouches, hGood⟩ := hAfter
  have hRest := hNext value after hGood
  unfold Does Runs at hRest
  unfold Runs
  split at hRest
  · exact ⟨hTouches.trans hRest.1, hRest.2⟩
  · exact hTouches.trans hRest

theorem mono {good' : α → Session → Prop} (h : Does job session action good)
    (imp : ∀ value after, good value after → good' value after) : Does job session action good' :=
  Runs.mono h fun value after hAfter => ⟨hAfter.1, imp value after hAfter.2⟩

theorem get : Does job session get fun found after => found = session ∧ after = session :=
  ⟨.refl job session, rfl, rfl⟩

theorem changed {change : Session → Session} (h : job.Touches session (change session)) :
    Does job session (modify change) fun _ after => after = change session := ⟨h, rfl⟩

theorem set {other : Session} (h : job.Touches session other) :
    Does job session (set other) fun _ after => after = other := ⟨h, rfl⟩

theorem global? {id : ModuleId} {name : String} :
    Does job session (SessionM.global? id name) fun found after =>
      found = session.program.global? id name ∧ after = session :=
  ⟨.refl job session, rfl, rfl⟩

theorem lift (answer : Faulty α) :
    Does job session (SessionM.lift answer) fun value after => answer = .ok value ∧
      after = session := by
  cases answer with
  | ok value => exact .pure ⟨rfl, rfl⟩
  | error fault => exact .fail _

theorem types (ask : TypeStore → Faulty α) :
    Does job session (SessionM.types ask) fun value after =>
      ask session.program.types = .ok value ∧ after = session :=
  Does.get.bind fun found after hFound => by
    rw [hFound.1, hFound.2]
    exact .lift _

/-! ## Loops -/

theorem forM {items : List α} {f : α → SessionM PUnit} (inv : List α → Session → Prop)
    (h : inv items session)
    (hStep : ∀ item rest before, inv (item :: rest) before →
      Does job before (f item) fun _ after => inv rest after) :
    Does job session (items.forM f) fun _ after => inv [] after := by
  induction items generalizing session with
  | nil => exact .pure h
  | cons item rest ih => exact (hStep item rest session h).bind fun _ after hAfter => ih hAfter

/-- A loop that keeps a property and looks at the members of a list only. -/
theorem forM_mem {items : List α} {f : α → SessionM PUnit} (inv : Session → Prop) (h : inv session)
    (hStep : ∀ item ∈ items, ∀ before, inv before →
      Does job before (f item) fun _ after => inv after) :
    Does job session (items.forM f) fun _ after => inv after := by
  refine (Does.forM (fun rest after => (∀ item ∈ rest, item ∈ items) ∧ inv after)
    ⟨fun _ hItem => hItem, h⟩ ?_).mono fun _ _ hAfter => hAfter.2
  rintro item rest before ⟨hMem, hBefore⟩
  refine (hStep item (hMem item List.mem_cons_self) before hBefore).mono fun _ after hAfter => ?_
  exact ⟨(List.forall_mem_cons.mp hMem).2, hAfter⟩

theorem mapM {items : List α} {f : α → SessionM β} (inv : List α → Session → Prop)
    (h : inv items session)
    (hStep : ∀ item rest before, inv (item :: rest) before →
      Does job before (f item) fun _ after => inv rest after) :
    Does job session (items.mapM f) fun _ after => inv [] after := by
  induction items generalizing session with
  | nil => exact .pure h
  | cons item rest ih =>
      rw [List.mapM_cons]
      exact (hStep item rest session h).bind fun _ middle hMiddle =>
        (ih hMiddle).bind fun _ after hAfter => .pure hAfter

theorem foldlM {items : List α} {f : β → α → SessionM β} {start : β}
    (inv : List α → β → Session → Prop) (h : inv items start session)
    (hStep : ∀ item rest value before, inv (item :: rest) value before →
      Does job before (f value item) fun value after => inv rest value after) :
    Does job session (items.foldlM f start) fun value after => inv [] value after := by
  induction items generalizing session start with
  | nil => exact .pure h
  | cons item rest ih =>
      exact (hStep item rest start session h).bind fun value after hAfter => ih hAfter

end Does

/-! ## Routines and values -/

/-- The store comes from another one by binding one handle, or none, to a type. -/
def TypeStore.BindsIn (store before : TypeStore) (type : Ty) : Prop :=
  store.methods = before.methods ∧
    (store.bound = before.bound ∨ ∃ handle : Handle,
    store.bound = (handle.id, type) :: before.bound)

namespace Job

variable {α : Type} {job : Job} {session : Session}

theorem touches_supply (session : Session) (supply : Supply) :
    job.Touches session { session with supply := supply } :=
  .of_program rfl rfl rfl rfl

theorem routine_exec (action : RoutineM α) : (SessionM.routine job action).exec session =
      (SessionM.resume job (Routine.start session.supply) action).exec session := rfl

theorem isolated_exec (action : RoutineM α) : (SessionM.isolated job action).exec session =
      match action.exec (job.env session) (Routine.start session.supply) with
      | (.ok value, last) => (.ok value, { session with supply := last.supply })
      | (.error failure, last) => (.error failure, { session with supply := last.supply }) := by
  rw [SessionM.isolated, SessionM.bind_exec, routine_exec, resume_exec]
  simp only [Routine.start]
  generalize action.exec _ _ = outcome
  rcases outcome with ⟨_ | _, last⟩ <;> rfl

/-- A routine that is gone on with changes nothing but the numbers. -/
theorem does_resume (routine : Routine) (action : RoutineM α) :
    Does job session (SessionM.resume job routine action) fun found after =>
      action.exec (job.env session) { routine with supply := session.supply } =
        (.ok found.1, found.2) ∧ after = { session with supply := found.2.supply } := by
  rw [Does, Runs, resume_exec]
  cases action.exec (job.env session) { routine with supply := session.supply } with
  | mk result last =>
      cases result with
      | ok value => exact ⟨touches_supply session _, rfl, rfl⟩
      | error failure => exact touches_supply session _

theorem does_routine (action : RoutineM α) :
    Does job session (SessionM.routine job action) fun found after =>
      action.exec (job.env session) (Routine.start session.supply) = (.ok found.1, found.2) ∧
        after = { session with supply := found.2.supply } := by
  refine Does.get.bind fun found last hFound => ?_
  rw [hFound.1, hFound.2]
  exact does_resume (Routine.start session.supply) action

theorem does_isolated (action : RoutineM α) :
    Does job session (SessionM.isolated job action) fun value after =>
      ∃ routine, action.exec (job.env session) (Routine.start session.supply) =
        (.ok value, routine) ∧ after = { session with supply := routine.supply } :=
  (does_routine action).bind fun found _ hFound => .pure ⟨found.2, hFound⟩

theorem does_declared (name : String) :
    Does job session (SessionM.declared job.id name) fun global after =>
      session.program.global? job.id name = some global ∧ after = session := by
  refine Does.global?.bind fun found after hFound => ?_
  rw [hFound.1, hFound.2]
  split
  · next global hGlobal => exact .pure ⟨hGlobal, rfl⟩
  · exact .fail _

theorem does_setValue (name : String) (value : GlobalValue) :
    Does job session (SessionM.setValue job.id name value) fun _ after =>
      after = job.withValue session name value := by
  refine (does_declared name).bind fun _ after hAfter => ?_
  rw [hAfter.2]
  exact .changed (.updateModule (·.setValue name value) fun _ => ⟨rfl, rfl⟩)

/-- Setting a value fails only where nothing of the name is declared. That changes nothing and
raises no error. -/
theorem setValue_failed {id : ModuleId} {name : String} {value : GlobalValue} {failure : Failure}
    {after : Session}
    (hRun : (SessionM.setValue id name value).exec session = (.error failure, after)) :
    after = session ∧ ∃ fault, failure = .fault fault := by
  have hDeclared : Runs (fun after failure => after = session ∧ ∃ fault, failure = .fault fault)
      session (SessionM.declared id name) fun _ _ => True := by
    refine Runs.global?.bind fun found _ hFound => ?_
    split
    · exact .pure trivial
    · exact .fail ⟨hFound.2, _, rfl⟩
  have hSet : Runs (fun after failure => after = session ∧ ∃ fault, failure = .fault fault)
      session (SessionM.setValue id name value) fun _ _ => True :=
    hDeclared.bind fun _ _ _ => (Runs.changed _).mono fun _ _ _ => trivial
  rwa [Runs, hRun] at hSet

theorem does_setType (name : String) (type : Ty) :
    Does job session (SessionM.setType job.id name type) fun cName after =>
      ∃ global, session.program.global? job.id name = some global ∧ cName = global.cName ∧
        after = job.withValue session name (.expr ⟨.global global.cName, type⟩) := by
  refine (does_declared name).bind fun global after hAfter => ?_
  rw [hAfter.2]
  exact (does_setValue name _).bind fun _ last hLast => .pure ⟨global, hAfter.1, rfl, hLast⟩

/-! ## Declared names -/

/-- A session with one name more in the module. -/
def withGlobal (job : Job) (session : Session) (decl : Declaration) (handle : Option Handle) :
    Session :=
  { session with
    program := session.program.updateModule job.id
      (·.addGlobal (decl.toGlobal job.package handle)) }

/-- A name that is entered is new. What it may have changed before are handles. -/
theorem does_declare (decl : Declaration) :
    Does job session (SessionM.declare job decl) fun _ after =>
      session.program.global? job.id decl.name = none ∧
      ∃ store handle, (store.methods = session.program.types.methods ∧
          store.bound = session.program.types.bound) ∧
        (handle.isSome = true ↔ decl.kind = .type) ∧
        after = job.withGlobal { session with program := { session.program with types := store } }
          decl handle := by
  refine Does.global?.bind fun found last hFound => ?_
  rw [hFound.1, hFound.2]
  split
  · exact .error _ _ _
  · next hNew =>
      have hHandle : Does job session (SessionM.newHandle decl) fun handle after =>
          (handle.isSome = true ↔ decl.kind = .type) ∧
            ∃ store, (store.methods = session.program.types.methods ∧
                store.bound = session.program.types.bound) ∧
              after = { session with program := { session.program with types := store } } := by
        unfold SessionM.newHandle
        split
        · next hKind =>
            refine Does.get.bind fun now last hNow => ?_
            rw [hNow.1, hNow.2]
            refine (Does.changed (.of_program rfl rfl rfl rfl)).bind fun _ after hAfter => .pure ?_
            exact ⟨by simp [hKind], (session.program.types.newHandle decl.name).2,
              ⟨rfl, rfl⟩, hAfter⟩
        · next hKind =>
            exact .pure ⟨by simpa using hKind, session.program.types, ⟨rfl, rfl⟩, rfl⟩
      refine hHandle.bind fun handle middle hMiddle => ?_
      obtain ⟨hIsSome, store, hStore, rfl⟩ := hMiddle
      refine (Does.changed (.updateModule (·.addGlobal (decl.toGlobal job.package handle))
        fun _ => ⟨rfl, rfl⟩)).mono fun _ after hAfter => ?_
      exact ⟨hNew, store, handle, hStore, hIsSome, hAfter⟩

/-! ## Declarations that are built -/

/-- A type that is built is bound to its handle and becomes the value of its name. -/
theorem does_buildType (decl : TypeDecl) :
    Does job session (SessionM.buildType job decl) fun entry after =>
      ∃ routine store, (compileNamedType decl.type decl.name).exec (job.env session)
          (Routine.start session.supply) = (.ok entry.1, routine) ∧
        store.BindsIn session.program.types entry.1 ∧
        after = job.withValue { session with
          supply := routine.supply, program := { session.program with types := store } }
          decl.name (.type entry.1) := by
  refine (does_isolated _).bind fun type built hBuilt => ?_
  obtain ⟨routine, hRun, rfl⟩ := hBuilt
  have hBind : Does job { session with supply := routine.supply }
      (SessionM.bindHandle job decl.name type) fun _ after =>
        ∃ store, store.BindsIn session.program.types type ∧
          after = { session with
            supply := routine.supply, program := { session.program with types := store } } := by
    refine Does.global?.bind fun found last hFound => ?_
    rw [hFound.1, hFound.2]
    split
    · next handle hHandle =>
        refine (Does.types _).bind fun store last hStore => ?_
        obtain ⟨hStore, rfl⟩ := hStore
        refine (Does.changed (.of_program rfl rfl rfl rfl)).mono fun _ after hAfter =>
          ⟨store, ?_, hAfter⟩
        unfold TypeStore.bind at hStore
        split at hStore
        · cases hStore
        · cases hStore
          exact ⟨rfl, .inr ⟨handle, rfl⟩⟩
    · exact .pure ⟨session.program.types, ⟨rfl, .inl rfl⟩, rfl⟩
  refine hBind.bind fun _ bound hBound => ?_
  obtain ⟨store, hStore, rfl⟩ := hBound
  exact (does_setValue decl.name (.type type)).bind fun _ after hAfter =>
    .pure ⟨routine, store, hRun, hStore, hAfter⟩

theorem does_checkType (type : Ty) (span : Span) :
    Does job session (SessionM.checkType job type span) fun _ after => after = session := by
  refine Does.get.bind fun found last hFound => ?_
  rw [hFound.1, hFound.2]
  split
  · exact .pure rfl
  · exact .error _ _ _

theorem does_buildConst (decl : ConstDecl) :
    Does job session (SessionM.buildConst job decl) fun _ after =>
      ∃ value routine, (operand decl.value).value.exec (job.env session)
          (Routine.start session.supply) = (.ok value, routine) ∧ routine.isPristine = true ∧
        after = job.withValue { session with supply := routine.supply } decl.name
          (.expr value) := by
  unfold SessionM.buildConst
  split
  · exact .error _ _ _
  · refine (does_routine _).bind fun found built hBuilt => ?_
    obtain ⟨value, routine⟩ := found
    obtain ⟨hRun, rfl⟩ := hBuilt
    dsimp only
    split
    · exact .error _ _ _
    · next hPristine =>
        exact (does_setValue decl.name (.expr value)).mono fun _ after hAfter =>
          ⟨value, routine, hRun, by simpa using hPristine, hAfter⟩

/-- A variable that is written without a type gets its value later. -/
theorem does_buildVar (decl : VarDecl) :
    Does job session (SessionM.buildVar job decl) fun _ after =>
      (decl.type = none ∧ decl.init.isSome = true ∧ after = session) ∨
      ∃ written type routine global, decl.type = some written ∧
        (operand written).type.exec (job.env session) (Routine.start session.supply) =
          (.ok type, routine) ∧
        session.program.types.hasZeroValue type = .ok true ∧
        session.program.global? job.id decl.name = some global ∧
        after = job.withValue { session with supply := routine.supply } decl.name
          (.expr ⟨.global global.cName, type⟩) := by
  unfold SessionM.buildVar
  split
  · next written hWritten =>
      refine (does_isolated _).bind fun type built hBuilt => ?_
      obtain ⟨routine, hRun, rfl⟩ := hBuilt
      refine (Does.types _).bind fun hasZero last hLast => ?_
      obtain ⟨hZero, rfl⟩ := hLast
      split
      · exact .error _ _ _
      · next hTrue =>
          obtain rfl : hasZero = true := by simpa using hTrue
          refine (does_setType decl.name type).bind fun cName after hAfter => .pure (.inr ?_)
          obtain ⟨global, hGlobal, -, hAfter⟩ := hAfter
          exact ⟨written, type, routine, global, hWritten, hRun, hZero, hGlobal, hAfter⟩
  · next hType hInit => exact .pure (.inl ⟨hType, by rw [hInit]; rfl, rfl⟩)
  · exact .error _ _ _

theorem does_buildFunc (decl : FuncDecl) :
    Does job session (SessionM.buildFunc job decl) fun _ after =>
      ∃ routine func, (compileSignature none decl.signature).exec (job.env session)
          (Routine.start session.supply) = (.ok func, routine) ∧
        after = job.withValue { session with supply := routine.supply } decl.name
          (.expr ⟨.global (Declaration.cName job.package decl.name), .func func⟩) := by
  refine (does_isolated _).bind fun func built hBuilt => ?_
  obtain ⟨routine, hRun, rfl⟩ := hBuilt
  exact (does_setValue decl.name _).mono fun _ after hAfter => ⟨routine, func, hRun, hAfter⟩

theorem does_inferType (decl : VarDecl) (type : Ty) :
    Does job session (SessionM.inferType job decl type) fun found after =>
      (found = .prim .int ∨
        found = type ∧ session.program.types.hasZeroValue type = .ok true) ∧ after = session := by
  refine (Does.types _).bind fun isConst last hLast => ?_
  rw [hLast.2]
  split
  · exact .pure ⟨.inl rfl, rfl⟩
  · refine (Does.types _).bind fun hasZero last hLast => ?_
    obtain ⟨hZero, rfl⟩ := hLast
    refine (Does.types _).bind fun isNil last hLast => ?_
    rw [hLast.2]
    split
    · next hBoth =>
        obtain rfl : hasZero = true := (Bool.and_eq_true_iff.mp hBoth).1
        exact .pure ⟨.inr ⟨rfl, hZero⟩, rfl⟩
    · exact .error _ _ _

/-- The variables are told as they are declared. -/
theorem does_declaredTypes : Does job session (SessionM.declaredTypes job) fun vars after =>
      (vars.map (·.1) = job.file.vars ∧ ∀ entry ∈ vars,
        entry.2 = (session.program.global? job.id entry.1.name).bind (·.type?)) ∧
      after = session := by
  have hLoop (decls : List VarDecl) : Does job session (decls.mapM fun decl => do
      return (decl, (← SessionM.global? job.id decl.name).bind (·.type?))) fun vars after =>
        (vars.map (·.1) = decls ∧ ∀ entry ∈ vars,
          entry.2 = (session.program.global? job.id entry.1.name).bind (·.type?)) ∧
        after = session := by
    induction decls with
    | nil => exact .pure ⟨⟨rfl, by simp⟩, rfl⟩
    | cons decl rest ih =>
        rw [List.mapM_cons]
        refine Does.bind (Does.global?.bind fun found last hFound =>
          .pure ⟨rfl, by rw [hFound.1], hFound.2⟩)
          fun entry last (hLast : entry.1 = decl ∧
            entry.2 = (session.program.global? job.id decl.name).bind (·.type?) ∧
            last = session) => ?_
        obtain ⟨rfl, hType, rfl⟩ := hLast
        refine ih.bind fun vars after hAfter => .pure ⟨⟨?_, ?_⟩, hAfter.2⟩
        · rw [List.map_cons, hAfter.1.1]
        · rintro other (_ | ⟨_, hOther⟩)
          · exact hType
          · exact hAfter.1.2 other hOther
  exact hLoop job.file.vars

/-- A method is given to a struct of the module and goes by the names of both. No other method
of the module goes by that name. -/
theorem does_buildMethod (index : Nat) (decl : FuncDecl) :
    Does job session (SessionM.buildMethod job index decl) fun _ after =>
      ∃ routine record func, (compileSignature decl.receiver decl.signature).exec (job.env session)
          (Routine.start session.supply) = (.ok func, routine) ∧
        session.program.types.pointeeStruct? ((func.inputs.head?.map (·.type)).getD (.prim .void)) =
          .ok (some record) ∧
        record.package = job.package ∧
        (∀ module, session.program.module? job.id = some module →
          SessionM.methodName record decl.name ∉ module.methods.map (·.cName)) ∧
        after = job.withMethod { session with supply := routine.supply } record
          ⟨decl.name, .func func⟩
          ⟨SessionM.methodName record decl.name, .func func, index, decl.span⟩ := by
  refine (does_isolated _).bind fun func built hBuilt => ?_
  obtain ⟨routine, hRun, rfl⟩ := hBuilt
  dsimp only
  refine Does.bind ((Does.types _).bind fun found last hLast => .pure ?_)
    fun found last (hLast : (∀ record ∈ found, session.program.types.pointeeStruct?
          ((func.inputs.head?.map (·.type)).getD (.prim .void)) = .ok (some record) ∧
        record.package = job.package) ∧
      last = { session with supply := routine.supply }) => ?_
  · refine ⟨fun record hRecord => ?_, hLast.2⟩
    obtain ⟨hFound, hPackage⟩ := Option.filter_eq_some_iff.mp hRecord
    exact ⟨hFound ▸ hLast.1, by simpa using hPackage⟩
  obtain ⟨hPackage, rfl⟩ := hLast
  split
  · exact .error _ _ _
  · next record =>
      refine Does.bind (Does.get.bind fun _ _ hGet => .pure ⟨by rw [hGet.1], hGet.2⟩)
        fun methods last (hLast : methods =
            ((session.program.module? job.id).map (·.methods)).getD [] ∧
          last = { session with supply := routine.supply }) => ?_
      rw [hLast.2]
      split
      · exact .error _ _ _
      · next hNone =>
        have hNew (module : Module) (hModule : session.program.module? job.id = some module) :
            SessionM.methodName record decl.name ∉ module.methods.map (·.cName) := by
          rw [hLast.1, hModule] at hNone
          simpa using hNone
        refine Does.get.bind fun now last hNow => ?_
        rw [hNow.1, hNow.2]
        refine (Does.changed (.of_program rfl rfl rfl rfl)).bind fun _ middle hMiddle => ?_
        rw [hMiddle]
        refine (Does.changed (.updateModule (·.addMethod ⟨SessionM.methodName record decl.name,
          .func func, index, decl.span⟩) fun _ => ⟨rfl, rfl⟩)).mono fun _ after hAfter => ?_
        exact ⟨routine, record, func, hRun, (hPackage record rfl).1, (hPackage record rfl).2, hNew,
          hAfter⟩

end Job

end GoToC
