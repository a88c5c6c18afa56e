import GoToC.Proofs.Session.Course
import GoToC.Proofs.Session.Symbols
import GoToC.Proofs.Types.Alike

/-!
# Structs and interfaces

How structs and interfaces are made and named, in one routine and in a whole program.
-/

/-!
## Structs and interfaces that are made

A struct or interface that is written down is made anew each time it is compiled. It belongs to
the package that is compiled, under the name of its declaration or, if it has none, under a name
that is invented from the next serial number. Two of them are equal types if they are of one
kind, package and name, whatever their members are.
-/

namespace GoToC

variable {name : String} {e : Expr} {a : NamedType}

/-- An expression that writes a struct or an interface down. -/
def Expr.IsRecord : Expr → Prop
  | .structType _ _ => True
  | .interfaceType _ _ => True
  | _ => False

namespace NamedType

variable {a b : NamedType}

theorem title_eq_iff :
    a.title = b.title ↔ a.tag = b.tag ∧ a.package = b.package ∧ a.name = b.name := by
  simp [title]

end NamedType

/-! ### Comparison -/

namespace TypeStore

variable (store : TypeStore)

theorem peel_toTy (a : NamedType) : store.peel a.toTy = .ok a.toTy := by cases a <;> rfl

theorem peel_pointer (inner : Ty) : store.peel (.pointer inner) = .ok (.pointer inner) := rfl

/-- Structs and interfaces are compared by their titles. -/
theorem equalWithin_toTy (a b : NamedType) (levels : Nat) :
    store.equalWithin (levels + 1) a.toTy b.toTy = .ok (decide (a.title = b.title)) := by
  rw [equalWithin, peel_toTy, peel_toTy]
  cases a <;> cases b <;>
    simp [NamedType.toTy, NamedType.title, NamedType.tag, NamedType.package, NamedType.name,
      Bind.bind, Except.bind, Pure.pure, Except.pure, Bool.decide_and, beq_eq_decide]

theorem equal_toTy (a b : NamedType) :
    store.equal a.toTy b.toTy = .ok (decide (a.title = b.title)) := by
  obtain ⟨levels, hLevels⟩ : ∃ levels, usualDepth = levels + 1 := ⟨1023, rfl⟩
  rw [equal, hLevels, equalWithin_toTy]

theorem equal_pointers (a b : NamedType) :
    store.equal (.pointer a.toTy) (.pointer b.toTy) = .ok (decide (a.title = b.title)) := by
  obtain ⟨levels, hLevels⟩ : ∃ levels, usualDepth = levels + 1 + 1 := ⟨1022, rfl⟩
  have hWithin : store.equalWithin (levels + 1 + 1) (.pointer a.toTy) (.pointer b.toTy) =
      .ok (decide (a.title = b.title)) := by
    rw [equalWithin, peel_pointer, peel_pointer]
    exact store.equalWithin_toTy a b levels
  rw [equal, hLevels, hWithin]

/-- A pointer is stored in place of another one only if they point to equal types. -/
theorem assign_pointers (a b : NamedType) : store.assign (.pointer a.toTy) (.pointer b.toTy) =
      .ok (if a.title = b.title then some .keep else none) := by
  have hAssign : store.assign (.pointer a.toTy) (.pointer b.toTy) = (do
      if ← store.equal (.pointer a.toTy) (.pointer b.toTy) then return some .keep
      return none) := rfl
  rw [hAssign, equal_pointers]
  by_cases hTitle :
    a.title = b.title <;> simp [hTitle, Bind.bind, Except.bind, Pure.pure, Except.pure]

end TypeStore

/-! ### Names -/

/-- An action takes numbers one after another. -/
theorem Composed.flows {α : Type} {extent : Extent} {action : RoutineM α}
    (h : Composed extent .any action) {env : Env} {routine after : Routine} {value : α}
    (hRun : action.exec env routine = (.ok value, after)) : routine.supply.Flows after.supply :=
  h.carries Routine.carried_flows hRun

/-- The numbers after an expression has taken its own. That is done before its parts are
compiled, so these and all that comes later find its number taken. -/
def Supply.numbered (supply : Supply) : Supply := { supply with serial := supply.serial + 1 }

section

variable {env : Env} {routine after : Routine} {type : Ty}

theorem Operand.structType_eq_ok {fields : List (Param Operand)}
    (h : (Operand.structType name fields).exec env routine = (.ok type, after)) :
    ∃ record : StructType Ty,
      type = .struct record ∧ record.package = env.package ∧ record.name = name := by
  obtain ⟨members, middle, -, h⟩ := RoutineM.bind_eq_ok.mp h
  cases h
  exact ⟨_, rfl, rfl, rfl⟩

theorem Operand.interfaceType_eq_ok {specs : List (MethodSpec Operand)}
    (h : (Operand.interfaceType name specs).exec env routine = (.ok type, after)) :
    ∃ record : InterfaceType Ty,
      type = .interface record ∧ record.package = env.package ∧ record.name = name := by
  obtain ⟨members, middle, -, h⟩ := RoutineM.bind_eq_ok.mp h
  cases h
  exact ⟨_, rfl, rfl, rfl⟩

/-- A declared struct or interface takes the name of its declaration. -/
theorem compileNamedType_eq_ok (he : e.IsRecord)
    (h : (compileNamedType e name).exec env routine = (.ok a.toTy, after)) :
    a.package = env.package ∧ a.name = name := by
  unfold compileNamedType at h
  split at h
  · obtain ⟨record, hType, hRecord⟩ := Operand.structType_eq_ok h
    obtain rfl : a = .struct record := NamedType.toTy_injective hType
    exact hRecord
  · obtain ⟨record, hType, hRecord⟩ := Operand.interfaceType_eq_ok h
    obtain rfl : a = .interface record := NamedType.toTy_injective hType
    exact hRecord
  · next hStruct hInterface =>
      cases e with
      | structType span fields => exact absurd rfl (hStruct span fields)
      | interfaceType span specs => exact absurd rfl (hInterface span specs)
      | _ => exact he.elim

/-- One that is written within other declarations gets a name that is invented from the next
number, which it takes before anything else. -/
theorem compileExpr_invented (he : e.IsRecord)
    (h : (compileExpr e).exec env routine = (.ok (.type a.toTy), after)) :
    a.package = env.package ∧ a.Invented routine.supply.numbered.serial ∧
      routine.supply.numbered.Flows after.supply := by
  cases e with
  | structType span fields =>
      rw [compileExpr] at h
      obtain ⟨type, last, hType, hDone⟩ := RoutineM.bind_eq_ok.mp h
      obtain ⟨number, next, hNumber, hType⟩ := RoutineM.bind_eq_ok.mp hType
      cases hNumber
      have hFlows := (Composed.structType _ (paramOperands_composed .expr fields)).flows hType
      obtain ⟨record, rfl, hPackage, hName⟩ := Operand.structType_eq_ok hType
      rw [RoutineM.pure_eq_ok] at hDone
      obtain ⟨hSame, rfl⟩ := hDone
      obtain rfl : NamedType.struct record = a := NamedType.toTy_injective (Value.type.inj hSame)
      exact ⟨hPackage, hName, hFlows⟩
  | interfaceType span specs =>
      rw [compileExpr] at h
      obtain ⟨type, last, hType, hDone⟩ := RoutineM.bind_eq_ok.mp h
      rw [RoutineM.pure_eq_ok] at hDone
      obtain ⟨hSame, rfl⟩ := hDone
      obtain rfl : type = a.toTy := Value.type.inj hSame
      unfold Operand.anonymousInterface at hType
      split at hType
      · rw [RoutineM.pure_eq_ok] at hType
        cases a <;> cases hType.1
      · obtain ⟨number, next, hNumber, hType⟩ := RoutineM.bind_eq_ok.mp hType
        cases hNumber
        have hFlows := (Composed.interfaceType _ (specOperands_composed .expr specs)).flows hType
        obtain ⟨record, hRecord, hPackage, hName⟩ := Operand.interfaceType_eq_ok hType
        obtain rfl : a = .interface record := NamedType.toTy_injective hRecord
        exact ⟨hPackage, hName, hFlows⟩
  | _ => exact he.elim

end

end GoToC

/-!
## Structs and interfaces of a whole program

The serial numbers of a compilation are taken one after another, so no two structs or interfaces
that are written within other declarations are given the same name; and declared ones are told
apart by the names of their modules and their own. Only a declaration that is spelled like an
invented name goes by a name that another struct or interface of its module may have.
-/

namespace GoToC

variable {package name : String} {decl : TypeDecl}

/-! ### Declared types -/

/-- A type as it is compiled from a declaration of a module. -/
def Module.Compiles (module : Module) (name : String) (type : Ty) : Prop :=
  ∃ decl ∈ module.file.types, decl.name = name ∧ ∃ env routine after, env.package = module.name ∧
      (compileNamedType decl.type decl.name).exec env routine = (.ok type, after)

namespace Program

/-- All types that are the values of globals are compiled from their declarations. -/
def TypesCompiled (program : Program) : Prop :=
  ∀ id module, program.module? id = some module → ∀ global ∈ module.globals,
    ∀ type, global.value = some (.type type) → module.Compiles global.name type

variable {program : Program} {id : ModuleId}

theorem TypesCompiled.setValue (h : program.TypesCompiled) {value : GlobalValue}
    (hValue : ∀ type, value = .type type →
      ∀ module, program.module? id = some module → module.Compiles name type) :
    (program.updateModule id (·.setValue name value)).TypesCompiled := by
  refine forall_updateModule h fun module hModule global' hGlobal' type hType => ?_
  obtain ⟨global, hGlobal, rfl⟩ := mem_setValue.mp hGlobal'
  split at hType
  · next hName =>
      rw [if_pos hName, hName]
      exact hValue type (Option.some.inj hType) module hModule
  · next hName =>
      rw [if_neg hName]
      exact h id module hModule global hGlobal type hType

/-- Globals that are entered have no values, and methods are no globals. -/
theorem TypesCompiled.update (h : program.TypesCompiled) {update : Module → Module}
    (hName : ∀ module, (update module).name = module.name)
    (hFile : ∀ module, (update module).file = module.file)
    (hGlobals : ∀ module, ∀ global ∈ (update module).globals,
      global ∈ module.globals ∨ global.value = none) :
    (program.updateModule id update).TypesCompiled := by
  refine forall_updateModule h fun module hModule global hGlobal type hType => ?_
  rcases hGlobals module global hGlobal with hOld | hNone
  · have hCompiles := h id module hModule global hOld type hType
    rw [Module.Compiles, hName, hFile]
    exact hCompiles
  · cases hNone.symm.trans hType

end Program

section

variable {work next : Work} {job : Job}

theorem Job.Step.typesCompiled (h : work.session.program.TypesCompiled)
    (hKnown : job.Known work.session) (hStep : job.Step work next) :
    next.session.program.TypesCompiled := by
  have hOther {session : Session} (hSame : session.program.modules = work.session.program.modules) :
      session.program.TypesCompiled := by
    intro id module hModule
    refine h id module ?_
    rwa [Program.module?, ← hSame]
  cases hStep with
  | enter decl handle =>
      refine Program.TypesCompiled.update (hOther rfl) (fun _ => rfl) (fun _ => rfl) ?_
      intro module global hGlobal
      rcases List.mem_append.mp hGlobal with hOld | hNew
      · exact .inl hOld
      · rw [List.mem_singleton.mp hNew]
        exact .inr rfl
  | note => exact .setValue (hOther rfl) (by simp)
  | @type decl type routine store hDecl hRun _ =>
      refine .setValue (hOther rfl) ?_
      rintro _ ⟨⟩ module hModule
      obtain ⟨found, hFound, hName, hFile⟩ := hKnown
      obtain rfl : found = module := Option.some.inj (hFound.symm.trans hModule)
      exact ⟨decl, hFile ▸ hDecl, rfl, _, _, _, hName.symm, hRun⟩
  | const | var | func | init => exact .setValue (hOther rfl) (by simp)
  | method =>
      exact Program.TypesCompiled.update (hOther rfl) (fun _ => rfl) (fun _ => rfl)
        fun _ _ hGlobal => .inl hGlobal
  | begin | flush | request | declare | prototype | inits | define => exact h

theorem Work.Step.typesCompiled (h : work.session.program.TypesCompiled) (hStep : work.Step next) :
    next.session.program.TypesCompiled := by
  cases hStep with
  | register => exact Program.forall_register h nofun
  | own hKnown hOwn => exact hOwn.typesCompiled h hKnown
  | finish | share | includes => exact h

theorem Work.Passes.typesCompiled (h : Work.start.Passes work) :
    work.session.program.TypesCompiled := by
  refine h.keeps (fun work => work.session.program.TypesCompiled) ?_ fun _ _ hBefore hStep =>
    hStep.typesCompiled hBefore
  intro id module hModule
  cases hModule

end

/-! ### Origins -/

/-- What a struct or interface is made for: a declaration of a module, or an expression that is
come to when some numbers were taken. -/
inductive Origin where
  | declaration (package : String) (decl : TypeDecl)
  | expression (supply : Supply)

/-- Origins that are not the same: declarations that differ, a declaration and an expression, or
expressions one of which is come to after the other one. -/
inductive Origin.Apart : Origin → Origin → Prop
  | declarations {package package' decl decl'} :
      (package, decl) ≠ (package', decl') →
        Apart (.declaration package decl) (.declaration package' decl')
  | before {package decl supply} :
      Apart (.declaration package decl) (.expression supply)
  | after {package decl supply} :
      Apart (.expression supply) (.declaration package decl)
  | later {supply supply'} : supply.numbered.Flows supply' →
      Apart (.expression supply) (.expression supply')
  | earlier {supply supply'} : supply'.numbered.Flows supply →
      Apart (.expression supply) (.expression supply')

/-- A declaration is spelled like the name that is invented for an expression. -/
def Origin.Imitates (tag : String) : Origin → Origin → Prop
  | .declaration _ decl, .expression supply => decl.name = tag ++ toString supply.numbered.serial
  | _, _ => False

/-- The structs and interfaces of a compilation with their origins. One of a declaration is the
value of its global; one of an expression comes of compiling the expression for some module,
between the start and the end of the compilation. -/
inductive Session.Makes (session : Session) : Origin → NamedType → Prop
  | declaration {id module decl global made} :
      session.program.module? id = some module → decl ∈ module.file.types → decl.type.IsRecord →
      global ∈ module.globals → global.name = decl.name →
      global.value = some (.type made.toTy) → Makes session (.declaration module.name decl) made
  | expression {e env routine after made} :
      e.IsRecord → (∃ module ∈ session.program.modules, env.package = module.name) →
      Supply.empty.Flows routine.supply →
      (compileExpr e).exec env routine = (.ok (.type made.toTy), after) →
      after.supply.Flows session.supply → Makes session (.expression routine.supply) made

namespace Session

variable {session : Session} {made : NamedType}

/-- A declared struct or interface goes by the names of its module and of its declaration. -/
theorem Makes.name_eq (hAccounts : session.Accounts fun _ => False)
    (hTypes : session.program.TypesCompiled) (h : session.Makes (.declaration package decl) made) :
    made.package = package ∧ made.name = decl.name := by
  cases h with
  | @declaration id module _ global _ hModule hDecl hRecord hGlobal hName hValue =>
      obtain ⟨found, hFound, hSame, env, routine, after, hPackage, hRun⟩ :=
        hTypes id module hModule global hGlobal _ hValue
      obtain ⟨built, hBuilt, hEntered⟩ := hAccounts.complete id
        ((hAccounts.all id (List.getElem?_eq_some_iff.mp hModule).1).resolve_right not_false)
      obtain rfl : built = module := Option.some.inj (hBuilt.symm.trans hModule)
      have hDistinct := Declaration.nodup_names hEntered.entered.distinct .type
      obtain rfl : found = decl :=
        List.inj_on_of_nodup_map hDistinct hFound hDecl (hSame.trans hName)
      obtain ⟨hOwn, hDeclared⟩ := compileNamedType_eq_ok hRecord hRun
      exact ⟨hOwn.trans hPackage, hDeclared⟩

/-- No two declarations of a program have the names of module and declaration in common. -/
theorem Makes.decl_eq (hAccounts : session.Accounts fun _ => False) {decl' : TypeDecl}
    {made' : NamedType} (h : session.Makes (.declaration package decl) made)
    (h' : session.Makes (.declaration package decl') made') (hName : decl.name = decl'.name) :
    decl = decl' := by
  generalize hOrigin : Origin.declaration package decl' = origin at h'
  cases h with
  | @declaration id module _ _ _ hModule hDecl =>
      cases h' with
      | expression => cases hOrigin
      | @declaration id' module' _ _ _ hModule' hDecl' =>
          injection hOrigin with hPackage hSame
          subst hSame
          obtain rfl := hAccounts.id_eq hModule hModule' hPackage
          obtain rfl : module = module' := Option.some.inj (hModule.symm.trans hModule')
          obtain ⟨built, hBuilt, hEntered⟩ := hAccounts.complete id
            ((hAccounts.all id (List.getElem?_eq_some_iff.mp hModule).1).resolve_right not_false)
          obtain rfl : built = module := Option.some.inj (hBuilt.symm.trans hModule)
          exact List.inj_on_of_nodup_map
            (Declaration.nodup_names hEntered.entered.distinct .type) hDecl hDecl' hName

/-- One that is written within other declarations goes by a name invented from its number. -/
theorem Makes.invented {supply : Supply} (h : session.Makes (.expression supply) made) :
    made.Invented supply.numbered.serial := by
  cases h with
  | expression hRecord _ _ hRun _ => exact (compileExpr_invented hRecord hRun).2.1

end Session

/-- Structs or interfaces of different origins have a title in common only if one is declared
under the name that was invented for the other. -/
theorem Origin.Apart.title_eq_iff {session : Session} (hAccounts : session.Accounts fun _ => False)
    (hTypes : session.program.TypesCompiled) {o o' : Origin} (h : o.Apart o') {a b : NamedType}
    (ha : session.Makes o a) (hb : session.Makes o' b) :
    a.title = b.title ↔ a.tag = b.tag ∧ a.package = b.package ∧
      (o.Imitates a.tag o' ∨ o'.Imitates a.tag o) := by
  rw [NamedType.title_eq_iff]
  refine and_congr_right fun hTag => and_congr_right fun hPackage => ?_
  have hNumbers {supply supply' : Supply} (hFlows : supply.numbered.Flows supply') :
      supply.numbered.serial ≠ supply'.numbered.serial :=
    Nat.ne_of_lt (Nat.lt_succ_of_le hFlows.serial_le)
  cases h with
  | declarations hApart =>
      obtain ⟨haPackage, haName⟩ := ha.name_eq hAccounts hTypes
      obtain ⟨hbPackage, hbName⟩ := hb.name_eq hAccounts hTypes
      simp only [Imitates, or_self, iff_false]
      intro hName
      obtain rfl := haPackage.symm.trans (hPackage.trans hbPackage)
      obtain rfl := ha.decl_eq hAccounts hb (haName.symm.trans (hName.trans hbName))
      exact hApart rfl
  | before =>
      rw [(ha.name_eq hAccounts hTypes).2, hb.invented, ← hTag]
      simp [Imitates]
  | after =>
      rw [(hb.name_eq hAccounts hTypes).2, ha.invented]
      simp only [Imitates, false_or]
      exact eq_comm
  | later hFlows =>
      simp only [Imitates, or_self, iff_false]
      exact fun hName => hNumbers hFlows
        (ha.invented.unique hb.invented (NamedType.title_eq_iff.mpr ⟨hTag, hPackage, hName⟩))
  | earlier hFlows =>
      simp only [Imitates, or_self, iff_false]
      exact fun hName => hNumbers hFlows
        (ha.invented.unique hb.invented (NamedType.title_eq_iff.mpr ⟨hTag, hPackage, hName⟩)).symm

/-! ### Equality -/

/-- In a program that compiles, structs or interfaces of different origins are equal types exactly
if they are of one kind and module and one of them is declared under the name that was invented
for the other. Then and only then can pointers to them be stored in place of each other. So no two
that are declared are equal, and no two that are written within other declarations. -/
theorem records_equal_iff {library : Library} {withBuiltin : Bool} {text : String}
    {session : Session}
    (hRun : (SessionM.compileProgram library withBuiltin text).exec .empty = (.ok (), session))
    {o o' : Origin} (hApart : o.Apart o') {a b : NamedType} (ha : session.Makes o a)
    (hb : session.Makes o' b) (store : TypeStore) :
    ∃ same : Bool, (same = true ↔ a.tag = b.tag ∧ a.package = b.package ∧
        (o.Imitates a.tag o' ∨ o'.Imitates a.tag o)) ∧
      store.equal a.toTy b.toTy = .ok same ∧
      store.equal (.pointer a.toTy) (.pointer b.toTy) = .ok same ∧
      store.assign (.pointer a.toTy) (.pointer b.toTy) =
        .ok (if same then some .keep else none) := by
  have hAccounts := SessionM.accounts_compileProgram library withBuiltin text
  rw [Runs, hRun] at hAccounts
  obtain ⟨work, rfl, hPasses⟩ := Work.passes_of_compileProgram hRun
  refine ⟨decide (a.title = b.title), ?_, store.equal_toTy a b, store.equal_pointers a b, ?_⟩
  · rw [decide_eq_true_iff]
    exact hApart.title_eq_iff hAccounts hPasses.typesCompiled ha hb
  · simp only [decide_eq_true_eq]
    exact store.assign_pointers a b

/-- A function that returns a pointer to a declared struct and takes one to another struct. -/
def pointerSource (name returned : String) : String :=
  "type " ++ name ++ " struct \x7b\n a int\n\x7d\n" ++
    "func f(p *struct \x7b\n\x7d) *" ++ name ++ " \x7b\n return " ++ returned ++ "\n\x7d\n"

theorem pointerSource_toList (name returned : String) : (pointerSource name returned).toList =
    "type ".toList ++ name.toList ++ " struct \x7b\n a int\n\x7d\n".toList ++
      "func f(p *struct \x7b\n\x7d) *".toList ++ name.toList ++ " \x7b\n return ".toList ++
      returned.toList ++ "\n\x7d\n".toList := by
  unfold pointerSource
  repeat rw [String.toList_append]

/-- The declaration that a session's program starts with and the struct that is made for it. -/
def Session.firstStruct? (session : Session) : Option (String × TypeDecl × StructType Ty) := do
  let module ← session.program.module? 0
  let decl ← module.file.types.head?
  let global ← module.globals.head?
  match decl.type, global.value with
  | .structType _ _, some (.type (.struct record)) =>
      if global.name = decl.name then some (module.name, decl, record) else none
  | _, _ => none

namespace Session

variable {session : Session}

theorem Makes.of_firstStruct? {record : StructType Ty}
    (h : session.firstStruct? = some (package, decl, record)) :
    session.Makes (.declaration package decl) (.struct record) := by
  simp only [firstStruct?, Option.bind_eq_bind, Option.bind_eq_some_iff] at h
  obtain ⟨module, hModule, decl', hDecl, global, hGlobal, h⟩ := h
  split at h
  · next hType hValue =>
      split at h
      · next hName =>
          cases h
          refine .declaration hModule (List.mem_of_mem_head? hDecl) ?_
            (List.mem_of_mem_head? hGlobal) hName hValue
          rw [hType]
          trivial
      · cases h
  · cases h

/-- The struct without fields that is come to when one struct was built. -/
def unnamedStruct : NamedType := .struct ⟨1, "main", "_struct_1", []⟩

theorem Makes.unnamedStruct (hModule : ∃ module ∈ session.program.modules, "main" = module.name)
    (hSupply : session.supply = ⟨1, ⟨1, []⟩, 2⟩) :
    session.Makes (.expression ⟨0, .empty, 1⟩) unnamedStruct := by
  have hRecord : (Expr.structType ⟨0, 0⟩ []).IsRecord := trivial
  have hRun : (compileExpr (.structType ⟨0, 0⟩ [])).exec
      ⟨session.program, 0, "main", none, none, none⟩ (.start ⟨0, .empty, 1⟩) =
        (.ok (.type Session.unnamedStruct.toTy), .start ⟨1, .empty, 2⟩) := rfl
  have hLater : Supply.Flows ⟨1, .empty, 2⟩ session.supply := by
    rw [hSupply]
    exact .single .func
  exact .expression hRecord hModule (.single .struct) hRun hLater

/-- A struct of a name was built first, and one that has no name after it. -/
def BuildsTwo (session : Session) (name : String) : Prop :=
  session.firstStruct?.any (fun (package, decl, record) =>
    package == "main" && decl.name == name && record.package == "main" && record.name == name &&
      record.fields.length == 1) = true ∧
  (∃ module ∈ session.program.modules, "main" = module.name) ∧
  session.supply.serial = 1 ∧ session.supply.typedefs.made = 1 ∧
  session.supply.typedefs.handedOut = [] ∧ session.supply.structs = 2

instance (session : Session) (name : String) : Decidable (session.BuildsTwo name) :=
  inferInstanceAs (Decidable (_ ∧ _))

/-- The two structs of a source as above. -/
theorem exists_made (h : session.BuildsTwo name) :
    ∃ decl a, decl.name = name ∧ a.title = ("_struct_", "main", name) ∧ a.members.length = 1 ∧
      session.Makes (.declaration "main" decl) a ∧
      session.Makes (.expression ⟨0, .empty, 1⟩) unnamedStruct := by
  obtain ⟨hFirst, hModule, hSerial, hMade, hHanded, hStructs⟩ := h
  have hTypedefs : session.supply.typedefs = ⟨1, []⟩ := by rw [← hMade, ← hHanded]
  have hSupply : session.supply = ⟨1, ⟨1, []⟩, 2⟩ := by rw [← hTypedefs, ← hStructs, ← hSerial]
  cases hFound : session.firstStruct? with
  | none => simp [hFound] at hFirst
  | some found =>
      obtain ⟨package, decl, record⟩ := found
      simp only [hFound, Option.any_some, Bool.and_eq_true, beq_iff_eq] at hFirst
      obtain ⟨⟨⟨⟨rfl, hName⟩, hPackage⟩, hOwn⟩, hLength⟩ := hFirst
      refine ⟨decl, .struct record, hName, ?_, hLength, .of_firstStruct? hFound,
        .unnamedStruct hModule hSupply⟩
      rw [← hPackage, ← hOwn]
      rfl

end Session

/-- A struct that is declared under a name of its own. -/
theorem records_equal_iff_named :
    ∃ decl a b, (runOf (pointerSource "T" "nil")).2.Makes (.declaration "main" decl) a ∧
      (runOf (pointerSource "T" "nil")).2.Makes (.expression ⟨0, .empty, 1⟩) b ∧
      ∀ store : TypeStore, store.equal a.toTy b.toTy = .ok false ∧
        store.assign (.pointer a.toTy) (.pointer b.toTy) = .ok none := by
  have hRan : (runOf (pointerSource "T" "nil")).1 = true ∧
      (runOf (pointerSource "T" "nil")).2.BuildsTwo "T" := by
    rw [runOf_of_toList (pointerSource_toList _ _)]
    decide +kernel
  obtain ⟨decl, a, hName, hTitle, -, ha, hb⟩ := Session.exists_made hRan.2
  refine ⟨decl, a, _, ha, hb, fun store => ?_⟩
  obtain ⟨same, hSame, hEqual, -, hAssign⟩ :=
    records_equal_iff (runOf_complete hRan.1) .before ha hb store
  have hTag : a.tag = "_struct_" := congrArg Prod.fst hTitle
  have hOther : ¬ "T" = "_struct_" ++ toString (Supply.numbered ⟨0, .empty, 1⟩).serial := by decide
  obtain rfl : same = false := by
    rw [← Bool.not_eq_true, hSame]
    simp only [Origin.Imitates, hTag, hName, or_false, hOther, and_false, not_false_iff]
  exact ⟨hEqual, hAssign⟩

/-- A struct that is declared under the name that is invented for another one. They have not the
same fields, but a pointer to the one is returned for a pointer to the other. -/
theorem records_equal_imitated : (runOf (pointerSource "_struct_1" "p")).1 = true ∧
      ∃ decl a b, a.members.length = 1 ∧ b.members.length = 0 ∧
        (runOf (pointerSource "_struct_1" "p")).2.Makes (.declaration "main" decl) a ∧
        (runOf (pointerSource "_struct_1" "p")).2.Makes (.expression ⟨0, .empty, 1⟩) b ∧
        ∀ store : TypeStore, store.equal a.toTy b.toTy = .ok true ∧
          store.assign (.pointer a.toTy) (.pointer b.toTy) = .ok (some .keep) := by
  have hRan : (runOf (pointerSource "_struct_1" "p")).1 = true ∧
      (runOf (pointerSource "_struct_1" "p")).2.BuildsTwo "_struct_1" := by
    rw [runOf_of_toList (pointerSource_toList _ _)]
    decide +kernel
  obtain ⟨hDone, hTwo⟩ := hRan
  obtain ⟨decl, a, -, hTitle, hLength, ha, hb⟩ := Session.exists_made hTwo
  refine ⟨hDone, decl, a, _, hLength, rfl, ha, hb, fun store => ?_⟩
  rw [store.equal_toTy, store.assign_pointers, hTitle]
  exact ⟨rfl, rfl⟩

end GoToC
