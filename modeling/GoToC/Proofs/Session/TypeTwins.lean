import GoToC.Proofs.Session.TypeSteps

/-!
# Types that are built in different orders

Two sessions build the types of one module, each in an order of its own. Meanwhile a type of the
module is told by itself in one session and by its handle in the other one, as the order has it,
so types are compared by the names that they are told by. Once all types are built and those of
one session have passed the check, following the handles shows that they are alike.
-/

namespace GoToC

variable {handle : Handle} {value : Value} {ledger : Ledger} {left right : TypeStore}
  {own own' : String → Ty → Prop} {a b : Ty}

/-! ## Types told by names -/

/-- Types that are made of types which were built before, and of types of the module, which are
told by the names that they stand for. -/
inductive Midway (ledger : Ledger) (left right : TypeStore) (own own' : String → Ty → Prop) :
    Ty → Ty → Prop
  | built {a b : Ty} : Alike ledger left right a b → Midway ledger left right own own' a b
  | own {name a b} : own name a → own' name b →
      Midway ledger left right own own' a b
  | pointer {a b : Ty} : Midway ledger left right own own' a b →
      Midway ledger left right own own' (.pointer a) (.pointer b)
  | slice {a b : Ty} : Midway ledger left right own own' a b →
      Midway ledger left right own own' (.slice a) (.slice b)
  | map {key value key' value'} : Midway ledger left right own own' key key' →
      Midway ledger left right own own' value value' →
        Midway ledger left right own own' (.map key value) (.map key' value')

theorem Midway.imp {ledger' : Ledger} {more more' : String → Ty → Prop}
    (h : Midway ledger left right own own' a b) (le : ledger ≤ ledger')
    (hOwn : ∀ name a, own name a → more name a) (hOwn' : ∀ name b, own' name b → more' name b) :
    Midway ledger' left right more more' a b := by
  induction h with
  | built h => exact .built (h.mono le (.refl _) (.refl _))
  | own ha hb => exact .own (hOwn _ _ ha) (hOwn' _ _ hb)
  | pointer _ ih => exact .pointer ih
  | slice _ ih => exact .slice ih
  | map _ _ ihKey ihValue => exact .map ihKey ihValue

theorem Midway.formed (h : Shapes (Midway ledger left right own own') ledger a b)
    (hWritten : a.Written) : Midway ledger left right own own' a b := by
  cases h with
  | prim p => exact .built (.prim p)
  | pointer h => exact .pointer h
  | slice h => exact .slice h
  | map hKey hValue => exact .map hKey hValue
  | struct h => exact .built (.struct h)
  | interface h => exact .built (.interface h)
  | universal => exact .built .universal
  | func => exact hWritten.elim
  | multi => exact hWritten.elim

/-- How types are compared while those of a module are built. Its own types may be looked for in
the module only if that may fail. -/
def Pairing.midway (early : Prop) (job : Job) (start start' session session' : Session)
    (own own' : String → Ty → Prop) : Pairing where
  left := session.program.types
  right := session'.program.types
  alike ledger := Midway ledger start.program.types start'.program.types own own'
  mono le h := h.imp le (fun _ _ => id) fun _ _ => id
  formed := Midway.formed
  early := early
  names id := id ≠ job.id ∨ early

/-- A name that leads to a module has it as its value. -/
theorem Program.exists_import {program : Program} {id target : ModuleId} {name : String}
    (hValue : program.globalValue? id name = some (.module target)) :
    ∃ global, program.global? id name = some global ∧ global.value = some (.module target) := by
  obtain ⟨global, hFound, hSame⟩ := Option.map_eq_some_iff.mp hValue
  refine ⟨global, hFound, ?_⟩
  cases hBuilt : global.value with
  | none =>
      rw [hBuilt] at hSame
      cases hHandle : global.handle with
      | none =>
          rw [hHandle] at hSame
          cases hSame
      | some handle =>
          rw [hHandle] at hSame
          cases hSame
  | some built =>
      rw [hBuilt] at hSame
      cases built with
      | module found =>
          cases hSame
          rfl
      | _ => cases hSame

/-- Two sessions in which the types of a module are about to be built. -/
structure Job.Poised (early : Prop) (job job' : Job) (ledger : Ledger)
    (session session' : Session) : Prop where
  twin : session.Twin early ledger session'
  id : job.id = job'.id
  package : job.package = job'.package
  module : ∃ module, session.program.module? job.id = some module ∧ module.name = job.package ∧
    module.file = job.file ∧ module.Entered
  untyped : ∀ name handle global, job.handle? session name = some handle →
    session.program.global? job.id name = some global → global.value = none
  imports : ∀ name global target, session.program.global? job.id name = some global →
    global.value = some (.module target) → target ≠ job.id ∨ early
  shared : ∀ id, session.program.builtin = some id → id ≠ job.id ∧
    ∀ name global target, session.program.global? id name = some global →
      global.value = some (.module target) → target ≠ job.id
  fresh : ∀ a b, ledger.twins a b → a.package ≠ job.package

namespace Job.Poised

variable {early : Prop} {job job' : Job} {ledger : Ledger} {start start' session session' : Session}
  {steps steps' : List TypeStep} {name : String}

/-- The globals of one name have handles in both sessions or in neither. -/
theorem handle?_isSome (h : job.Poised early job' ledger start start') (name : String) :
    (job.handle? start name).isSome = (job'.handle? start' name).isSome := by
  have hGlobal := h.twin.global? job.id name
  unfold Job.handle?
  rw [← h.id]
  revert hGlobal
  generalize start.program.global? job.id name = found
  generalize start'.program.global? job.id name = found'
  intro hGlobal
  cases hGlobal with
  | none => rfl
  | some hTwin => exact hTwin.handle

theorem handle?_none (h : job.Poised early job' ledger start start')
    (hNone : job.handle? start name = none) : job'.handle? start' name = none := by
  have hSame := h.handle?_isSome name
  rw [hNone] at hSame
  simpa using hSame.symm

theorem exists_handle (h : job.Poised early job' ledger start start')
    (hHandle : job.handle? start name = some handle) :
    ∃ handle', job'.handle? start' name = some handle' := by
  have hSame := h.handle?_isSome name
  rw [hHandle] at hSame
  exact Option.isSome_iff_exists.mp hSame.symm

/-- What has a handle has no value yet. -/
theorem untyped_left (h : job.Poised early job' ledger start start')
    (hHandle : job.handle? start name = some handle) {global : Global}
    (hGlobal : start.program.global? job.id name = some global) : global.value = none :=
  h.untyped name handle global hHandle hGlobal

theorem untyped_right (h : job.Poised early job' ledger start start')
    (hHandle : job.handle? start name = some handle) {global' : Global}
    (hGlobal' : start'.program.global? job'.id name = some global') : global'.value = none := by
  obtain ⟨global, hGlobal, -⟩ := exists_global_of_handle? hHandle
  obtain ⟨found, hFound, hTwin⟩ := h.twin.exists_global hGlobal
  rw [h.id] at hFound
  obtain rfl := Option.some.inj (hFound.symm.trans hGlobal')
  rcases hTwin.cases with ⟨value, -, hValue, -, -⟩ | ⟨-, hNone, -⟩
  · exact absurd (hValue.symm.trans (h.untyped_left hHandle hGlobal)) (by simp)
  · exact hNone

/-! ### What types are compiled against -/

section Env

variable {own own' : String → Ty → Prop}

/-- What was built before is compared as it was then. -/
theorem later {value value' : Value} (h : value.Twin (start.pairing start' early) ledger value') :
    value.Twin (.midway early job start start' session session' own own') ledger value' :=
  h.imp fun _ _ => Midway.built

theorem foreign {value' : Value} (hLeft : start.program.types.Extends session.program.types)
    (hRight : start'.program.types.Extends session'.program.types)
    (h : value.Twin (start.pairing start' early) ledger value') :
    value.ForeignTwin (.midway early job start start' session session' own own') ledger value' := by
  cases value with
  | type a =>
      cases value' with
      | type b =>
          have hAlike : Alike ledger start.program.types start'.program.types a b := h
          refine ⟨b, rfl, fun hValid => ⟨.built hAlike, ?_⟩⟩
          rcases (hAlike.mono (le_refl _) hLeft hRight).validate hValid with hOk | hDeep
          · exact .inl hOk
          · exact .inr (.inl hDeep)
      | _ => exact h.elim
  | _ => exact later h

variable (h : job.Poised early job' ledger start start') (hRun : job.TypeRun start steps session)
  (hRun' : job'.TypeRun start' steps' session')

include h

/-- The value of a name without a handle. -/
theorem exists_plain (hNone : job.handle? start name = none)
    (hValue : start.program.globalValue? job.id name = some value) :
    ∃ value', start'.program.globalValue? job.id name = some value' ∧
      value.Twin (start.pairing start' early) ledger value' := by
  obtain ⟨global, hFound, rfl⟩ := Option.map_eq_some_iff.mp hValue
  obtain ⟨global', hFound', hTwin⟩ := h.twin.exists_global hFound
  refine ⟨_, Option.map_eq_some_iff.mpr ⟨global', hFound', rfl⟩, ?_⟩
  have hHandle : global.handle = none := by
    rw [handle?, hFound] at hNone
    exact hNone
  rcases hTwin.cases with ⟨built, built', hBuilt, hBuilt', hSame⟩ | ⟨hOwn, hOwn', hHandles⟩
  · rw [hBuilt, hBuilt']
    exact hSame
  · rcases hHandles with ⟨handle, -, hSome, -⟩ | ⟨-, hHandle'⟩
    · exact absurd (hSome.symm.trans hHandle) (by simp)
    · rw [hOwn, hOwn', hHandle, hHandle']
      exact ⟨rfl, rfl⟩

include hRun hRun'

theorem kinds (id : ModuleId) (name : String) : (session.program.global? id name).map (·.kind) =
      (session'.program.global? id name).map (·.kind) := by
  have hKind {job : Job} {start session : Session} {steps : List TypeStep}
      (hRun : job.TypeRun start steps session) : (session.program.global? id name).map (·.kind) =
        (start.program.global? id name).map (·.kind) := by
    by_cases hId : id = job.id
    · subst hId
      have hBuilt := hRun.global? name
      revert hBuilt
      generalize start.program.global? job.id name = found
      generalize session.program.global? job.id name = found'
      intro hBuilt
      cases hBuilt with
      | none => rfl
      | some hBuilt => exact congrArg some hBuilt.kind
    · rw [hRun.global?_other hId]
  rw [hKind hRun, hKind hRun']
  have hGlobal := h.twin.global? id name
  revert hGlobal
  generalize start.program.global? id name = found
  generalize start'.program.global? id name = found'
  intro hGlobal
  cases hGlobal with
  | none => rfl
  | some hTwin => exact congrArg some hTwin.kind

/-- The value of a name of another module. -/
theorem exists_foreign {id : ModuleId} (hId : id ≠ job.id)
    (hValue : session.program.globalValue? id name = some value) :
    ∃ value', session'.program.globalValue? id name = some value' ∧
      value.ForeignTwin (.midway early job start start' session session' own own') ledger
        value' := by
  have hStart : start.program.globalValue? id name = some value :=
    (hRun.globalValue?_other hId name).symm.trans hValue
  have hSame := hRun'.globalValue?_other (h.id ▸ hId) name
  obtain ⟨global, hFound, rfl⟩ := Option.map_eq_some_iff.mp hStart
  obtain ⟨global', hFound', hTwin⟩ := h.twin.exists_global hFound
  refine ⟨_, hSame.trans (Option.map_eq_some_iff.mpr ⟨global', hFound', rfl⟩), ?_⟩
  rcases hTwin.cases with ⟨built, built', hBuilt, hBuilt', hTwins⟩ | ⟨hNone, hNone', hHandles⟩
  · rw [hBuilt, hBuilt']
    exact foreign hRun.extends' hRun'.extends' hTwins
  · rw [hNone, hNone']
    rcases hHandles with ⟨handle, handle', hOwner, hOwner'⟩ | ⟨hHandle, hHandle'⟩
    · rw [hOwner, hOwner']
      refine ⟨.forward handle', rfl, fun hValid => ?_⟩
      have hGlobal := (hRun.global?_other hId name).trans hFound
      have hUnbound := (hRun.tidy h.twin.left).pending id global handle
        (Program.Has.of_global? hGlobal).1 hNone hOwner
      exact absurd hValid (Program.not_validate_forward hUnbound)
    · rw [hHandle, hHandle']
      exact ⟨rfl, rfl⟩

variable (hOwn : ∀ name a, job.Stands start steps steps.length name a → own name a)
  (hOwn' : ∀ name b, job'.Stands start' steps' steps'.length name b → own' name b)

include hOwn hOwn'

/-- A type of the module, told by its name. -/
theorem exists_own (hHandle : job.handle? start name = some handle) :
    ∃ a b, session.program.globalValue? job.id name = some (.type a) ∧
      session'.program.globalValue? job.id name = some (.type b) ∧
        Midway ledger start.program.types start'.program.types own own' a b := by
  obtain ⟨handle', hHandle'⟩ := h.exists_handle hHandle
  obtain ⟨a, hLeft, ha⟩ := hRun.exists_stands (fun _ => h.untyped_left hHandle) hHandle
  obtain ⟨b, hRight, hb⟩ := hRun'.exists_stands (fun _ => h.untyped_right hHandle) hHandle'
  rw [← h.id] at hRight
  exact ⟨a, b, hLeft, hRight, .own (hOwn _ _ ha) (hOwn' _ _ hb)⟩

/-- A value of the module is one that was there, or a type that was built since. -/
theorem exists_value (hValue : session.program.globalValue? job.id name = some value) :
    ∃ value', session'.program.globalValue? job.id name = some value' ∧
      (start.program.globalValue? job.id name = some value ∧
          value.Twin (start.pairing start' early) ledger value' ∨
        ∃ a b, value = .type a ∧ value' = .type b ∧
          Midway ledger start.program.types start'.program.types own own' a b) := by
  cases hHandle : job.handle? start name with
  | none =>
      have hStart : start.program.globalValue? job.id name = some value :=
        (hRun.globalValue?_eq hHandle).symm.trans hValue
      obtain ⟨value', hFound, hTwin⟩ := h.exists_plain hHandle hStart
      have hSame := hRun'.globalValue?_eq (h.handle?_none hHandle)
      rw [← h.id] at hSame
      exact ⟨value', hSame.trans hFound, .inl ⟨hStart, hTwin⟩⟩
  | some handle =>
      obtain ⟨a, b, hLeft, hRight, hMidway⟩ := exists_own h hRun hRun' hOwn hOwn' hHandle
      obtain rfl : Value.type a = value := Option.some.inj (hLeft.symm.trans hValue)
      exact ⟨.type b, hRight, .inr ⟨a, b, rfl, rfl, hMidway⟩⟩

theorem env : (job.env session).Twin (.midway early job start start' session session' own own')
    ledger (job'.env session') where
  left := rfl
  right := rfl
  module := h.id
  package := h.package
  builtin := hRun.touches.builtin.trans (h.twin.builtin.trans hRun'.touches.builtin.symm)
  kinds := kinds h hRun hRun'
  own name value hValue := by
    obtain ⟨value', hFound, ⟨hStart, hTwin⟩ | ⟨a, b, rfl, rfl, hMidway⟩⟩ :=
      exists_value h hRun hRun' hOwn hOwn' hValue
    · refine ⟨value', hFound, later hTwin, fun target hTarget => ?_⟩
      subst hTarget
      obtain ⟨global, hGlobal, hBuilt⟩ := Program.exists_import hStart
      exact h.imports name global target hGlobal hBuilt
    · exact ⟨.type b, hFound, hMidway, fun _ => Value.noConfusion⟩
  shared id name value hShared hValue := by
    have hBuiltin : start.program.builtin = some id :=
      hRun.touches.builtin.symm.trans hShared
    obtain ⟨hId, hTargets⟩ := h.shared id hBuiltin
    have hStart : start.program.globalValue? id name = some value :=
      (hRun.globalValue?_other hId name).symm.trans hValue
    obtain ⟨value', hFound, hNamed⟩ := h.twin.globalValue? (h.twin.left.shared id hBuiltin) hStart
    refine ⟨value', ?_, later hNamed.twin, fun target hTarget => ?_⟩
    · show session'.program.globalValue? id name = some value'
      rw [hRun'.globalValue?_other (h.id ▸ hId)]
      exact hFound
    · subst hTarget
      obtain ⟨global, hGlobal, hBuilt⟩ := Program.exists_import hStart
      exact .inl (hTargets name global target hGlobal hBuilt)
  foreign id name value hNames hValue := by
    by_cases hId : id = job.id
    · have hEarly : early := hNames.resolve_left (not_not_intro hId)
      subst hId
      obtain ⟨value', hFound, ⟨-, hTwin⟩ | ⟨a, b, rfl, rfl, hMidway⟩⟩ :=
        exists_value h hRun hRun' hOwn hOwn' hValue
      · exact ⟨value', hFound, foreign hRun.extends' hRun'.extends' hTwin⟩
      · refine ⟨.type b, hFound, b, rfl, fun _ => ⟨hMidway, ?_⟩⟩
        cases hValid : session'.program.types.validate b with
        | ok done => exact .inl hValid
        | error cause =>
            cases cause with
            | tooDeep name => exact .inr (.inl ⟨name, hValid⟩)
            | unbound name => exact .inr (.inr ⟨hEarly, name, hValid⟩)
    · exact exists_foreign h hRun hRun' hId hValue
  exprs id name e hValue := by
    obtain ⟨e', hFound', hAlike⟩ := h.twin.exists_expr (hRun.expr_before hValue)
    refine ⟨e', hRun'.expr_after (fun hId => ?_) hFound', .built hAlike⟩
    cases hHandle : job.handle? start name with
    | none => exact h.handle?_none hHandle
    | some handle =>
        obtain ⟨before, hBefore, hBuilt⟩ := Option.bind_eq_some_iff.mp (hRun.expr_before hValue)
        rw [hId, ← h.id] at hBefore
        exact absurd (hBuilt.symm.trans (h.untyped_left hHandle hBefore)) (by simp)
  methods := by
    show List.Forall₂ _ session.program.types.methods session'.program.types.methods
    rw [hRun.methods, hRun'.methods]
    exact h.twin.methods.imp fun _ _ => .imp (fun _ _ => Midway.built) (le_refl _)
  func _ hFunc := by cases hFunc
  namedResult := rfl
  loop := rfl

end Env

end Job.Poised

end GoToC
