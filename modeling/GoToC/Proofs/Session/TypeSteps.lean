import GoToC.Proofs.Session.Twins

/-!
# Types that are built one after another

The building of the types of a module as a list of steps. Each step compiles one type against
the session that the steps before it have left, where a type that was built stands for itself
and one that was not is told by its handle. Nothing else of a session changes but numbers.
-/

namespace GoToC

variable {id : ModuleId}

/-- The building of one type. -/
structure TypeStep where
  decl : TypeDecl
  /-- The number of types of the module that were built before. -/
  index : Nat
  before : Session
  handle : Handle
  type : Ty
  routine : Routine

namespace TypeStep

/-- The session in which the type has taken its place. -/
def after (job : Job) (step : TypeStep) : Session :=
  job.withValue (Job.bound { step.before with supply := step.routine.supply } step.handle step.type)
    step.decl.name (.type step.type)

/-- The step is one that the building of a module takes. -/
structure Taken (job : Job) (step : TypeStep) : Prop where
  handle : job.handle? step.before step.decl.name = some step.handle
  unbound : step.before.program.types.target? step.handle = none
  run : (compileNamedType step.decl.type step.decl.name).exec (job.env step.before)
    (Routine.start step.before.supply) = (.ok step.type, step.routine)

theorem Taken.serial_le {job : Job} {step : TypeStep} (h : step.Taken job) :
    step.before.supply.serial ≤ step.routine.supply.serial := by
  have hComposed : Composed .expr .any
      (compileNamedType step.decl.type step.decl.name) := compileNamedType_composed .expr _ _
  exact (hComposed.advances h.run).serial

end TypeStep

namespace Job

variable {job : Job} {session : Session} {decl : TypeDecl} {handle : Handle}

theorem exists_global_of_handle? {name : String} (h : job.handle? session name = some handle) :
    ∃ global, session.program.global? job.id name = some global ∧ global.handle = some handle :=
  Option.bind_eq_some_iff.mp h

theorem bindHandle_exec {name : String} (hHandle : job.handle? session name = some handle)
    (hUnbound : session.program.types.target? handle = none) (type : Ty) :
    (SessionM.bindHandle job name type).exec session = (.ok (), bound session handle type) := by
  have hFound : (session.program.global? job.id name).bind (·.handle) = some handle := hHandle
  have hStore : session.program.types.bind handle type =
      .ok (session.program.types.setTarget handle type) := by
    rw [TypeStore.bind, hUnbound]
  rw [SessionM.bindHandle, SessionM.global?_bind_exec, hFound]
  show SessionM.exec (do
    SessionM.setTypes (← SessionM.lift (session.program.types.bind handle type))) session = _
  rw [hStore]
  rfl

/-- A handle that is bound cannot be bound again. -/
theorem bindHandle_ne_ok {name : String} (hHandle : job.handle? session name = some handle)
    {target : Ty} (hBound : session.program.types.target? handle = some target) (type : Ty)
    (after : Session) : (SessionM.bindHandle job name type).exec session ≠ (.ok (), after) := by
  have hFound : (session.program.global? job.id name).bind (·.handle) = some handle := hHandle
  have hStore : session.program.types.bind handle type = .error (.boundTwice handle.name) := by
    rw [TypeStore.bind, hBound]
  rw [SessionM.bindHandle, SessionM.global?_bind_exec, hFound]
  show SessionM.exec (do
    SessionM.setTypes (← SessionM.lift (session.program.types.bind handle type))) session ≠ _
  rw [hStore]
  intro hRun
  cases hRun

/-- A type is built by a step, or it is the compilation of what is written that fails. -/
theorem buildType_exec (hHandle : job.handle? session decl.name = some handle)
    (hUnbound : session.program.types.target? handle = none) (index : Nat) :
    (SessionM.buildType job decl).exec session =
      match (compileNamedType decl.type decl.name).exec (job.env session)
          (Routine.start session.supply) with
      | (.ok type, routine) => (.ok (type, decl.span),
          TypeStep.after job ⟨decl, index, session, handle, type, routine⟩)
      | (.error failure, routine) =>
          (.error failure, { session with supply := routine.supply }) := by
  rw [SessionM.buildType, SessionM.bind_exec, isolated_exec]
  generalize (compileNamedType decl.type decl.name).exec _ _ = outcome
  rcases outcome with ⟨failure | type, routine⟩
  · rfl
  · obtain ⟨global, hGlobal, -⟩ := exists_global_of_handle? hHandle
    have hBind := @bindHandle_exec job { session with supply := routine.supply } handle decl.name
      hHandle hUnbound type
    have hFound : (bound { session with supply := routine.supply } handle type).program.global?
        job.id decl.name = some global := hGlobal
    dsimp only
    rw [SessionM.bind_exec, hBind]
    dsimp only
    rw [SessionM.bind_exec, Abreast.setValue_exec hFound]
    rfl

/-- What is built under a handle is built by a step. -/
theorem exists_taken (hHandle : job.handle? session decl.name = some handle) (index : Nat)
    {entry : Ty × Span} {after : Session}
    (hRun : (SessionM.buildType job decl).exec session = (.ok entry, after)) :
    ∃ type routine, TypeStep.Taken job ⟨decl, index, session, handle, type, routine⟩ ∧
      entry = (type, decl.span) ∧
        after = TypeStep.after job ⟨decl, index, session, handle, type, routine⟩ := by
  cases hTarget : session.program.types.target? handle with
  | none =>
      rw [buildType_exec hHandle hTarget index] at hRun
      cases hType : (compileNamedType decl.type decl.name).exec (job.env session)
          (Routine.start session.supply) with
      | mk result routine =>
          rw [hType] at hRun
          cases result with
          | error failure => cases hRun
          | ok type =>
              cases hRun
              exact ⟨type, routine, ⟨hHandle, hTarget, hType⟩, rfl, rfl⟩
  | some target =>
      obtain ⟨type, middle, hType, hRest⟩ := SessionM.bind_eq_ok.mp hRun
      obtain ⟨done, last, hBind, -⟩ := SessionM.bind_eq_ok.mp hRest
      obtain ⟨-, routine, -, rfl⟩ := (does_isolated _).success hType
      exact absurd hBind (@bindHandle_ne_ok job { session with supply := routine.supply } handle
        decl.name hHandle target hTarget type last)

/-! ## Rows of steps -/

/-- The steps that lead from one session to another, the latest first. -/
inductive TypeRun (job : Job) (start : Session) : List TypeStep → Session → Prop
  | nil : TypeRun job start [] start
  | cons {steps step} : TypeRun job start steps step.before →
      step.index = steps.length → step.Taken job →
        TypeRun job start (step :: steps) (step.after job)

end Job

/-- A global before and after types were built. -/
structure Global.BuiltBy (steps : List TypeStep) (before after : Global) : Prop where
  kind : after.kind = before.kind
  handle : after.handle = before.handle
  name : after.name = before.name
  value : (after.value = before.value ∧ ∀ step ∈ steps, step.decl.name ≠ before.name) ∨
    ∃ step ∈ steps, step.decl.name = before.name ∧ after.value = some (.type step.type)

namespace Job.TypeRun

variable {job : Job} {start session : Session} {steps : List TypeStep} {step : TypeStep}

/-- Steps lead on from sessions that steps lead to. -/
theorem earlier (h : job.TypeRun start steps session) (hStep : step ∈ steps) :
    ∃ before, before ⊆ steps ∧ before.length = step.index ∧
      job.TypeRun start before step.before ∧ step.Taken job := by
  induction h with
  | nil => cases hStep
  | @cons steps last hRun hIndex hTaken ih =>
      rcases List.mem_cons.mp hStep with rfl | hStep
      · exact ⟨steps, List.subset_cons_self _ _, hIndex.symm, hRun, hTaken⟩
      · obtain ⟨before, hSub, hRest⟩ := ih hStep
        exact ⟨before, List.subset_cons_of_subset _ hSub, hRest⟩

theorem index_lt (h : job.TypeRun start steps session) (hStep : step ∈ steps) :
    step.index < steps.length := by
  induction h with
  | nil => cases hStep
  | cons _ hIndex _ ih =>
      rcases List.mem_cons.mp hStep with rfl | hStep
      · rw [hIndex]
        exact Nat.lt_succ_self _
      · exact Nat.lt_succ_of_lt (ih hStep)

theorem touches (h : job.TypeRun start steps session) : job.Touches start session := by
  induction h with
  | nil => exact .refl job start
  | @cons steps step _ _ _ ih =>
      have hBound : job.Touches step.before
          (Job.bound { step.before with supply := step.routine.supply } step.handle step.type) :=
        .of_program rfl rfl rfl rfl
      exact (ih.trans hBound).trans
        (.updateModule (·.setValue step.decl.name (.type step.type)) fun _ => ⟨rfl, rfl⟩)

theorem methods (h : job.TypeRun start steps session) :
    session.program.types.methods = start.program.types.methods := by
  induction h with
  | nil => rfl
  | cons _ _ _ ih => exact ih

theorem moduleMethods (h : job.TypeRun start steps session) :
    (session.program.module? job.id).map (·.methods) =
      (start.program.module? job.id).map (·.methods) := by
  induction h with
  | nil => rfl
  | @cons steps step _ _ _ ih =>
      rw [← ih]
      show ((step.before.program.updateModule job.id _).module? job.id).map _ = _
      rw [Program.module?_updateModule, if_pos rfl, Option.map_map]
      rfl

theorem extends' (h : job.TypeRun start steps session) :
    start.program.types.Extends session.program.types := by
  induction h with
  | nil => exact .refl _
  | cons _ _ hTaken ih =>
      exact fun handle type hTarget =>
        TypeStore.extends_setTarget hTaken.unbound handle type (ih handle type hTarget)

theorem handle? (h : job.TypeRun start steps session) (name : String) :
    job.handle? session name = job.handle? start name := by
  induction h with
  | nil => rfl
  | @cons steps step _ _ _ ih =>
      refine Eq.trans ?_ ih
      exact (@keepsHandles_withValue job
        (Job.bound { step.before with supply := step.routine.supply } step.handle step.type)
        step.decl.name (.type step.type)).names name

/-- The handle of a type that was built is bound to it. -/
theorem target? (h : job.TypeRun start steps session) (hStep : step ∈ steps) :
    session.program.types.target? step.handle = some step.type := by
  induction h with
  | nil => cases hStep
  | @cons steps last _ _ hTaken ih =>
      show (last.before.program.types.setTarget last.handle last.type).target? step.handle = _
      rcases List.mem_cons.mp hStep with rfl | hStep
      · rw [TypeStore.target?_setTarget, if_pos rfl]
      · exact TypeStore.extends_setTarget hTaken.unbound _ _ (ih hStep)

theorem handle_eq (h : job.TypeRun start steps session) (hStep : step ∈ steps) :
    job.handle? start step.decl.name = some step.handle := by
  obtain ⟨before, -, -, hRun, hTaken⟩ := h.earlier hStep
  rw [← hRun.handle?]
  exact hTaken.handle

/-- No name is built twice. -/
theorem eq_of_name (h : job.TypeRun start steps session) {other : TypeStep} (hStep : step ∈ steps)
    (hOther : other ∈ steps) (hName : step.decl.name = other.decl.name) : step = other := by
  have hNew {steps : List TypeStep} {last found : TypeStep}
      (hRun : job.TypeRun start steps last.before) (hTaken : last.Taken job)
        (hFound : found ∈ steps) :
      found.decl.name ≠ last.decl.name := by
    intro hSame
    have hHandle := hRun.handle_eq hFound
    rw [hSame, ← hRun.handle?, hTaken.handle] at hHandle
    have hTarget := hRun.target? hFound
    rw [← Option.some.inj hHandle, hTaken.unbound] at hTarget
    cases hTarget
  induction h with
  | nil => cases hStep
  | cons hRun _ hTaken ih =>
      rcases List.mem_cons.mp hStep with rfl | hMem <;>
        rcases List.mem_cons.mp hOther with rfl | hMem'
      · rfl
      · exact absurd hName.symm (hNew hRun hTaken hMem')
      · exact absurd hName (hNew hRun hTaken hMem)
      · exact ih hMem hMem'

theorem serial_le (h : job.TypeRun start steps session) :
    start.supply.serial ≤ session.supply.serial := by
  induction h with
  | nil => exact Nat.le_refl _
  | cons _ _ hTaken ih => exact Nat.le_trans ih hTaken.serial_le

/-- The numbers that a step takes are among those that all steps together take. -/
theorem step_serial_le (h : job.TypeRun start steps session) (hStep : step ∈ steps) :
    step.routine.supply.serial ≤ session.supply.serial := by
  induction h with
  | nil => cases hStep
  | @cons steps last _ _ hTaken ih =>
      rcases List.mem_cons.mp hStep with rfl | hStep
      · exact Nat.le_refl _
      · exact Nat.le_trans (ih hStep) hTaken.serial_le

/-- A step takes its numbers after those of the steps before it. -/
theorem serial_le_of_index_lt (h : job.TypeRun start steps session) {other : TypeStep}
    (hStep : step ∈ steps) (hOther : other ∈ steps) (hLess : step.index < other.index) :
    step.routine.supply.serial ≤ other.before.supply.serial := by
  induction h with
  | nil => cases hStep
  | @cons steps last hRun hIndex _ ih =>
      rcases List.mem_cons.mp hStep with rfl | hMem
      · rcases List.mem_cons.mp hOther with rfl | hMem'
        · exact absurd hLess (Nat.lt_irrefl _)
        · have hEarlier := hRun.index_lt hMem'
          omega
      · rcases List.mem_cons.mp hOther with rfl | hMem'
        · exact hRun.step_serial_le hMem
        · exact ih hMem hMem'

theorem eq_of_index (h : job.TypeRun start steps session) {other : TypeStep} (hStep : step ∈ steps)
    (hOther : other ∈ steps) (hIndex : step.index = other.index) : step = other := by
  induction h with
  | nil => cases hStep
  | @cons steps last hRun hLast _ ih =>
      rcases List.mem_cons.mp hStep with rfl | hMem <;>
        rcases List.mem_cons.mp hOther with rfl | hMem'
      · rfl
      · exact absurd (hIndex.symm.trans hLast) (Nat.ne_of_lt (hRun.index_lt hMem'))
      · exact absurd (hIndex.trans hLast) (Nat.ne_of_lt (hRun.index_lt hMem))
      · exact ih hMem hMem'

theorem nodup (h : job.TypeRun start steps session) : steps.Nodup := by
  induction h with
  | nil => exact .nil
  | cons hRun hIndex _ ih =>
      refine List.nodup_cons.mpr ⟨fun hMem => ?_, ih⟩
      exact absurd hIndex (Nat.ne_of_lt (hRun.index_lt hMem))

/-- Steps that took one number are the same. -/
theorem eq_of_serial (h : job.TypeRun start steps session) {other : TypeStep} {n : Nat}
    (hStep : step ∈ steps) (hOther : other ∈ steps) (hBefore : step.before.supply.serial < n)
    (hAfter : n ≤ step.routine.supply.serial) (hBefore' : other.before.supply.serial < n)
    (hAfter' : n ≤ other.routine.supply.serial) : step = other := by
  rcases Nat.lt_trichotomy step.index other.index with hLess | hSame | hLess
  · have hLe := h.serial_le_of_index_lt hStep hOther hLess
    omega
  · exact h.eq_of_index hStep hOther hSame
  · have hLe := h.serial_le_of_index_lt hOther hStep hLess
    omega

theorem tidy (h : job.TypeRun start steps session) (hTidy : start.program.Tidy) :
    session.program.Tidy := by
  induction h with
  | nil => exact hTidy
  | @cons steps step _ _ hTaken ih =>
      obtain ⟨global, hGlobal, hHandle⟩ := exists_global_of_handle? hTaken.handle
      obtain ⟨hHas, hName⟩ := Program.Has.of_global? hGlobal
      have hBound := ih.bindType hHas hHandle step.type
      rw [hName] at hBound
      exact hBound

/-- The globals of the module after types were built. -/
theorem global? (h : job.TypeRun start steps session) (name : String) :
    Option.Rel (Global.BuiltBy steps) (start.program.global? job.id name)
      (session.program.global? job.id name) := by
  induction h with
  | nil =>
      cases start.program.global? job.id name with
      | none => exact .none
      | some global => exact .some ⟨rfl, rfl, rfl, .inl ⟨rfl, fun _ => by simp⟩⟩
  | @cons steps step _ _ _ ih =>
      have hAfter : (step.after job).program.global? job.id name =
          (step.before.program.global? job.id name).map
            (·.given step.decl.name (.type step.type)) :=
        (Program.global?_setValue _ _ _ _ _ _).trans (if_pos rfl)
      rw [hAfter]
      revert ih
      generalize step.before.program.global? job.id name = found
      generalize start.program.global? job.id name = found'
      intro ih
      cases ih with
      | none => exact .none
      | @some before after hBuilt =>
          refine .some ⟨?_, Global.given_handle.trans hBuilt.handle,
            Global.given_name.trans hBuilt.name, ?_⟩
          · show (after.given step.decl.name (.type step.type)).kind = before.kind
            unfold Global.given
            split <;> exact hBuilt.kind
          · show ((after.given step.decl.name (.type step.type)).value = before.value ∧ _) ∨
              ∃ found ∈ step :: steps, found.decl.name = before.name ∧
                (after.given step.decl.name (.type step.type)).value = some (.type found.type)
            unfold Global.given
            by_cases hName : after.name = step.decl.name
            · rw [if_pos hName]
              exact .inr ⟨step, List.mem_cons_self, hName.symm.trans hBuilt.name, rfl⟩
            · rw [if_neg hName]
              rcases hBuilt.value with ⟨hSame, hNone⟩ | ⟨found, hFound, hRest⟩
              · refine .inl ⟨hSame, fun other hOther => ?_⟩
                rcases List.mem_cons.mp hOther with rfl | hOther
                · exact fun hOwn => hName (hBuilt.name.trans hOwn.symm)
                · exact hNone other hOther
              · exact .inr ⟨found, List.mem_cons_of_mem _ hFound, hRest⟩

/-- The globals of the module are those from before, and those with a name that was built have a
value. -/
theorem has (h : job.TypeRun start steps session) {after : Global}
    (hHas : session.program.Has job.id after) :
    ∃ before, start.program.Has job.id before ∧ before.name = after.name ∧
      before.handle = after.handle ∧
        (after.value = none → ∀ step ∈ steps, step.decl.name ≠ after.name) := by
  induction h generalizing after with
  | nil => exact ⟨after, hHas, rfl, rfl, fun _ _ => by simp⟩
  | @cons steps step _ _ _ ih =>
      obtain ⟨global, hGlobal, rfl⟩ := has_withValue.mp hHas
      obtain ⟨before, hBefore, hName, hHandle, hLeft⟩ := ih hGlobal
      refine ⟨before, hBefore, hName.trans Global.given_name.symm,
        hHandle.trans Global.given_handle.symm, fun hNone other hOther => ?_⟩
      rw [Global.given_name]
      unfold Global.given at hNone
      split at hNone
      · cases hNone
      · next hOwn =>
          rcases List.mem_cons.mp hOther with rfl | hOther
          · exact fun hSame => hOwn hSame.symm
          · exact hLeft hNone other hOther

/-- Other modules are as they were. -/
theorem global?_other (h : job.TypeRun start steps session) (hId : id ≠ job.id) (name : String) :
    session.program.global? id name = start.program.global? id name := by
  rw [Program.global?, Program.global?, h.touches.others id hId]

theorem globalValue?_other (h : job.TypeRun start steps session) (hId : id ≠ job.id)
    (name : String) :
    session.program.globalValue? id name = start.program.globalValue? id name := by
  rw [Program.globalValue?, Program.globalValue?, h.global?_other hId]

end Job.TypeRun

namespace Job

variable {job : Job} {start session : Session} {steps : List TypeStep} {name : String}
  {handle : Handle}

/-- What a declared type of a module may be told by: its handle or, once it is built, itself. -/
def Stands (job : Job) (start : Session) (steps : List TypeStep) (bound : Nat) (name : String)
    (type : Ty) : Prop :=
  (∃ handle, job.handle? start name = some handle ∧ type = .forward handle) ∨
    ∃ step ∈ steps, step.index < bound ∧ step.decl.name = name ∧ type = step.type

theorem Stands.mono {steps' : List TypeStep} {bound bound' : Nat} {type : Ty}
    (h : job.Stands start steps bound name type) (hSub : steps ⊆ steps') (hLe : bound ≤ bound') :
    job.Stands start steps' bound' name type := by
  rcases h with hHandle | ⟨step, hStep, hIndex, hRest⟩
  · exact .inl hHandle
  · exact .inr ⟨step, hSub hStep, Nat.lt_of_lt_of_le hIndex hLe, hRest⟩

/-- A name that has no handle has the value that it had. -/
theorem TypeRun.value_eq (h : job.TypeRun start steps session)
    (hNone : job.handle? start name = none) {before after : Global}
    (hBefore : start.program.global? job.id name = some before)
    (hAfter : session.program.global? job.id name = some after) :
    after.value = before.value ∧ after.handle = before.handle := by
  have hBuilt := h.global? name
  rw [hBefore, hAfter] at hBuilt
  cases hBuilt with
  | some hBuilt =>
      refine ⟨?_, hBuilt.handle⟩
      rcases hBuilt.value with ⟨hSame, -⟩ | ⟨step, hStep, hName, -⟩
      · exact hSame
      · rw [(Program.Has.of_global? hBefore).2] at hName
        have hHandle := h.handle_eq hStep
        rw [hName, hNone] at hHandle
        cases hHandle

theorem TypeRun.globalValue?_eq (h : job.TypeRun start steps session)
    (hNone : job.handle? start name = none) :
    session.program.globalValue? job.id name = start.program.globalValue? job.id name := by
  have hBuilt := h.global? name
  unfold Program.globalValue?
  cases hBefore : start.program.global? job.id name with
  | none =>
      rw [hBefore] at hBuilt
      cases hAfter : session.program.global? job.id name with
      | none => rfl
      | some after =>
          rw [hAfter] at hBuilt
          cases hBuilt
  | some before =>
      rw [hBefore] at hBuilt
      cases hAfter : session.program.global? job.id name with
      | none =>
          rw [hAfter] at hBuilt
          cases hBuilt
      | some after =>
          obtain ⟨hValue, hHandle⟩ := h.value_eq hNone hBefore hAfter
          rw [Option.map_some, Option.map_some, hValue, hHandle]

/-- Values that are no types are those from before. -/
theorem TypeRun.expr_before (h : job.TypeRun start steps session) {e : Typed}
    (hValue : (session.program.global? id name).bind (·.value) = some (.expr e)) :
    (start.program.global? id name).bind (·.value) = some (.expr e) := by
  by_cases hId : id = job.id
  · subst hId
    obtain ⟨after, hAfter, hBuilt⟩ := Option.bind_eq_some_iff.mp hValue
    have hGlobal := h.global? name
    rw [hAfter] at hGlobal
    cases hBefore : start.program.global? job.id name with
    | none =>
        rw [hBefore] at hGlobal
        cases hGlobal
    | some before =>
        rw [hBefore] at hGlobal
        cases hGlobal with
        | some hGlobal =>
            rcases hGlobal.value with ⟨hSame, -⟩ | ⟨step, -, -, hStep⟩
            · exact hSame.symm.trans hBuilt
            · exact absurd (hBuilt.symm.trans hStep) (by simp)
  · rw [← h.global?_other hId]
    exact hValue

theorem TypeRun.expr_after (h : job.TypeRun start steps session)
    (hNone : id = job.id → job.handle? start name = none) {value : GlobalValue}
    (hValue : (start.program.global? id name).bind (·.value) = some value) :
    (session.program.global? id name).bind (·.value) = some value := by
  by_cases hId : id = job.id
  · subst hId
    obtain ⟨before, hBefore, hBuilt⟩ := Option.bind_eq_some_iff.mp hValue
    have hGlobal := h.global? name
    rw [hBefore] at hGlobal
    cases hAfter : session.program.global? job.id name with
    | none =>
        rw [hAfter] at hGlobal
        cases hGlobal
    | some after => exact (h.value_eq (hNone rfl) hBefore hAfter).1.trans hBuilt
  · rw [h.global?_other hId]
    exact hValue

/-- A name that has a handle stands for a type, which may be the handle. -/
theorem TypeRun.exists_stands (h : job.TypeRun start steps session)
    (hUntyped : ∀ global, start.program.global? job.id name = some global → global.value = none)
    (hHandle : job.handle? start name = some handle) :
    ∃ type, session.program.globalValue? job.id name = some (.type type) ∧
      job.Stands start steps steps.length name type := by
  obtain ⟨before, hBefore, hOwn⟩ := exists_global_of_handle? hHandle
  have hBuilt := h.global? name
  rw [hBefore] at hBuilt
  unfold Program.globalValue?
  cases hAfter : session.program.global? job.id name with
  | none =>
      rw [hAfter] at hBuilt
      cases hBuilt
  | some after =>
      rw [hAfter] at hBuilt
      cases hBuilt with
      | some hBuilt =>
          rcases hBuilt.value with ⟨hSame, -⟩ | ⟨step, hStep, hName, hValue⟩
          · refine ⟨.forward handle, ?_, .inl ⟨handle, hHandle, rfl⟩⟩
            rw [Option.map_some, hSame, hUntyped before hBefore, hBuilt.handle, hOwn]
          · rw [(Program.Has.of_global? hBefore).2] at hName
            refine ⟨step.type, ?_, .inr ⟨step, hStep, h.index_lt hStep, hName, rfl⟩⟩
            rw [Option.map_some, hValue]
            rfl

/-- Building all types of a list is a row of steps. -/
theorem exists_typeRun {decls : List TypeDecl}
    (hHandles : ∀ decl ∈ decls, ∃ handle, job.handle? start decl.name = some handle)
    {built : List (Ty × Span)}
    (hRun : (decls.mapM (SessionM.buildType job)).exec start = (.ok built, session)) :
    ∃ steps, job.TypeRun start steps session ∧ (steps.map (·.decl)).reverse = decls ∧
      built = steps.reverse.map fun step => (step.type, step.decl.span) := by
  have hLoop : Runs (fun _ _ => True) start (decls.mapM (SessionM.buildType job))
      fun built after => ∃ steps, job.TypeRun start steps after ∧
        (steps.map (·.decl)).reverse ++ [] = decls ∧
          built = steps.reverse.map fun step => (step.type, step.decl.span) := by
    refine Runs.mapM (fun rest done after => ∃ steps, job.TypeRun start steps after ∧
      (steps.map (·.decl)).reverse ++ rest = decls ∧
        done = steps.reverse.map fun step => (step.type, step.decl.span)) ⟨[], .nil, rfl, rfl⟩ ?_
    rintro decl rest done before ⟨steps, hSteps, hDecls, rfl⟩
    obtain ⟨handle, hHandle⟩ := hHandles decl (by rw [← hDecls]; simp)
    unfold Runs
    cases hStep : (SessionM.buildType job decl).exec before with
    | mk result after =>
        cases result with
        | error failure => trivial
        | ok entry =>
            obtain ⟨type, routine, hTaken, rfl, rfl⟩ :=
              exists_taken ((hSteps.handle? decl.name).trans hHandle) steps.length hStep
            refine ⟨_ :: steps, .cons hSteps rfl hTaken, ?_, ?_⟩
            · rw [← hDecls]
              simp
            · simp
  unfold Runs at hLoop
  rw [hRun] at hLoop
  simpa using hLoop

end Job

end GoToC
