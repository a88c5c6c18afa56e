import GoToC.Proofs.Routine.Mentions
import GoToC.Proofs.Session.Output

/-!
# Complete modules

Building a module fills it: types, constants, variables and functions get their values, and
methods are added in the order of the file. Meanwhile the program mentions names that were
known before, and those of the variables, functions and methods of the module. Once all is
built, every type, variable, function and method is declared, and every function and method
is defined, each of them once and in the order of the file.
-/

namespace GoToC

variable {α : Type} {name : String} {decl : FuncDecl} {module : Module} {session : Session}
  {id : ModuleId} {value : GlobalValue} {record : StructType Ty} {global : Global} {index : Nat}
  {routine : Routine} {job : Job}

/-! ## Names that a program mentions -/

namespace Program.Speaks

variable {names names' : String → Prop} {program program' : Program}

theorem mono (h : program.Speaks names) (imp : ∀ x, names x → names' x) :
    program.Speaks names' where
  values id module hModule global hGlobal e hValue x hx :=
    imp x (h.values id module hModule global hGlobal e hValue x hx)
  methods entry hEntry := imp _ (h.methods entry hEntry)

/-- Handles do not matter. -/
theorem of_same (h : program.Speaks names) (hModules : program'.modules = program.modules)
    (hMethods : program'.types.methods = program.types.methods) : program'.Speaks names where
  values id module hModule := by
    rw [Program.module?, hModules] at hModule
    exact h.values id module hModule
  methods := by rw [hMethods]; exact h.methods

theorem anything : program.Speaks fun _ => True :=
  ⟨fun _ _ _ _ _ _ _ _ _ => trivial, fun _ _ => trivial⟩

theorem setValue (h : program.Speaks names) (hValue : ∀ e, value = .expr e → e.c.Speaks names) :
    (program.updateModule id (·.setValue name value)).Speaks names where
  values other module' hModule' global' hGlobal' e hExpr := by
    obtain ⟨global, ⟨module, hModule, hGlobal⟩, hSame⟩ :=
      Program.has_setValue ⟨module', hModule', hGlobal'⟩
    rcases hSame with rfl | ⟨-, -, rfl⟩
    · exact h.values other module hModule _ hGlobal e hExpr
    · exact hValue e (Option.some.inj hExpr)
  methods := h.methods

theorem addMethod (h : program.Speaks names) {member : Member Ty} (method : Method)
    (hName : names (record.cName ++ "__" ++ member.name)) :
    (Program.updateModule { program with types := program.types.addMethod record member } id
      (·.addMethod method)).Speaks names where
  values other module' hModule' global hGlobal e hExpr := by
    rcases Program.of_module?_updateModule hModule' with ⟨-, module, hModule, rfl⟩ | ⟨-, hModule⟩
    · exact h.values other module hModule global hGlobal e hExpr
    · exact h.values other module' hModule global hGlobal e hExpr
  methods entry hEntry := by
    rcases List.mem_append.mp hEntry with hEntry | hEntry
    · exact h.methods entry hEntry
    · obtain rfl := List.mem_singleton.mp hEntry
      exact hName

end Program.Speaks

theorem Routine.Speaks.start (names : String → Prop) (supply : Supply) :
    (Routine.start supply).Speaks names :=
  ⟨by simp [Routine.start], by simp [Routine.start]⟩

/-- What is stored in a variable is named as the value that it is given. -/
theorem Job.store_spells {g : Idiom} {known : Set OwnName} (decl : VarDecl) (type : Ty)
    {value : Typed} {cName : String} (hValue : value.c.Spelled g.d known)
    (hName : g.d.globals cName) : Spells g known (store decl type value cName) fun _ _ => True :=
  .bind (.convert _ hValue _ _) fun _ _ _ hc => .bind (.cType _) fun _ _ le hType =>
    .emit ⟨hName, hType, hc.mono le⟩

/-! ## Modules that are filled -/

/-- The names that the routines of a module may mention: those that are known, those of its
variables and functions, and those of the methods that it has. -/
def Job.Vocabulary (job : Job) (known : String → Prop) (methods : List Method)
    (x : String) : Prop :=
  known x ∨ (∃ name ∈ job.file.names .var ++ job.file.names .func,
    x = Declaration.cName job.package name) ∨ ∃ method ∈ methods, x = method.cName

/-- A method that was built from a declaration goes by the names of a struct of its package and
of the declaration. -/
def Method.Implements (package : String) (method : Method) (decl : FuncDecl) : Prop :=
  ∃ record : StructType Ty, record.package = package ∧
    method.cName = SessionM.methodName record decl.name

/-- A module all of whose names are entered. Those of `typed` have types, and the methods in
`rest` are left to build. -/
structure Module.Filled (job : Job) (typed : String → Prop) (rest : List FuncDecl)
    (module : Module) : Prop where
  name : module.name = job.package
  file : module.file = job.file
  entered : module.Entered
  typed : ∀ global ∈ module.globals, typed global.name → global.type?.isSome = true
  methods : ∃ done, job.file.methods = done ++ rest ∧
    List.Forall₂ (Method.Implements job.package) module.methods done ∧
    module.methods.map (·.decl) = List.range done.length
  distinct : (module.methods.map (·.cName)).Nodup

/-- A session in which a module is filled and nothing is written meanwhile. -/
structure Job.Fills (job : Job) (known : String → Prop) (output : Array CItem)
    (typed : String → Prop) (rest : List FuncDecl) (session : Session) : Prop where
  module : ∃ module, session.program.module? job.id = some module ∧ module.Filled job typed rest ∧
    session.program.Speaks (job.Vocabulary known module.methods)
  output : session.output = output

namespace Job.Fills

variable {job : Job} {known : String → Prop} {output : Array CItem} {typed typed' : String → Prop}
  {rest : List FuncDecl} {session after : Session}

theorem mono (h : job.Fills known output typed rest session) (imp : ∀ x, typed' x → typed x) :
    job.Fills known output typed' rest session := by
  obtain ⟨module, hModule, hFilled, hSpeaks⟩ := h.module
  exact ⟨⟨module, hModule, ⟨hFilled.name, hFilled.file, hFilled.entered,
    fun global hGlobal hTyped => hFilled.typed global hGlobal (imp _ hTyped), hFilled.methods,
    hFilled.distinct⟩, hSpeaks⟩, h.output⟩

/-- Numbers and handles do not matter. -/
theorem of_same (h : job.Fills known output typed rest session)
    (hModules : after.program.modules = session.program.modules)
    (hMethods : after.program.types.methods = session.program.types.methods)
    (hOutput : after.output = session.output) : job.Fills known output typed rest after := by
  obtain ⟨module, hModule, hFilled, hSpeaks⟩ := h.module
  refine ⟨⟨module, ?_, hFilled, hSpeaks.of_same hModules hMethods⟩, hOutput.trans h.output⟩
  rw [Program.module?, hModules]
  exact hModule

/-- The C name of a global of the module. -/
theorem cName_eq (h : job.Fills known output typed rest session)
    (hGlobal : session.program.global? job.id name = some global) :
    global.cName = Declaration.cName job.package name := by
  obtain ⟨module, hModule, hFilled, -⟩ := h.module
  rw [Program.global?, hModule] at hGlobal
  have hGet : module.get? name = some global := hGlobal
  obtain ⟨decl, -, hDeclares⟩ := hFilled.entered.exists_decl (List.mem_of_find?_eq_some hGet)
  have hName : global.name = name := by simpa using List.find?_some hGet
  rw [hDeclares.cName, ← hDeclares.name, hName, hFilled.name]

/-- A name gets a value that has a type. -/
theorem withValue (h : job.Fills known output typed rest session) (name : String)
    (hTyped : ∀ id, value ≠ .module id)
    (hValue : ∀ e, value = .expr e → ∀ module, session.program.module? job.id = some module →
      e.c.Speaks (job.Vocabulary known module.methods)) :
    job.Fills known output (fun x => typed x ∨ x = name) rest
      (job.withValue session name value) := by
  obtain ⟨module, hModule, hFilled, hSpeaks⟩ := h.module
  refine ⟨⟨module.setValue name value, ?_, ?_, ?_⟩, h.output⟩
  · show (session.program.updateModule job.id (·.setValue name value)).module? job.id = _
    rw [Program.module?_updateModule, if_pos rfl, hModule]
    rfl
  · refine ⟨hFilled.name, hFilled.file, hFilled.entered.setValue name value, ?_, hFilled.methods,
      hFilled.distinct⟩
    intro global' hGlobal' hName
    obtain ⟨global, hGlobal, rfl⟩ := Program.mem_setValue.mp hGlobal'
    split
    · cases value with
      | expr e => rfl
      | type denoted => rfl
      | module id => exact absurd rfl (hTyped id)
    · next hOther =>
        rw [if_neg hOther] at hName
        exact hFilled.typed global hGlobal (hName.resolve_right hOther)
  · exact hSpeaks.setValue fun e he => hValue e he module hModule

/-- The next method of the file is given to its struct. -/
theorem withMethod (h : job.Fills known output typed (decl :: rest) session)
    (hIndex : index + (decl :: rest).length = job.file.methods.length) {func : FuncType Ty}
    (hPackage : record.package = job.package)
    (hNew : ∀ module, session.program.module? job.id = some module →
      SessionM.methodName record decl.name ∉ module.methods.map (·.cName)) :
    job.Fills known output typed rest (job.withMethod session record ⟨decl.name, .func func⟩
      ⟨SessionM.methodName record decl.name, .func func, index, decl.span⟩) := by
  obtain ⟨module, hModule, hFilled, hSpeaks⟩ := h.module
  obtain ⟨done, hDone, hMethods, hDecls⟩ := hFilled.methods
  have hLength : done.length = index := by
    have hTotal : job.file.methods.length = done.length + (decl :: rest).length := by
      rw [hDone, List.length_append]
    omega
  let method : Method := ⟨SessionM.methodName record decl.name, .func func, index, decl.span⟩
  refine ⟨⟨module.addMethod method, ?_, ?_, ?_⟩, h.output⟩
  · show (Program.updateModule _ job.id (·.addMethod method)).module? job.id = _
    rw [Program.module?_updateModule, if_pos rfl]
    exact congrArg (Option.map (·.addMethod method)) hModule
  · refine ⟨hFilled.name, hFilled.file, ⟨hFilled.entered.globals, hFilled.entered.distinct⟩,
      hFilled.typed, ⟨done ++ [decl], ?_, ?_, ?_⟩, ?_⟩
    · rw [hDone, List.append_assoc, List.singleton_append]
    · exact List.rel_append hMethods (.cons ⟨record, hPackage, rfl⟩ .nil)
    · show (module.methods ++ [method]).map (·.decl) = _
      rw [List.map_append, hDecls, List.length_append, List.length_singleton, List.range_succ,
        List.map_singleton, hLength]
    · show ((module.methods ++ [method]).map (·.cName)).Nodup
      rw [List.map_append]
      refine List.nodup_append.mpr ⟨hFilled.distinct, List.nodup_singleton _, ?_⟩
      rintro x hx _ hOwn rfl
      rw [List.mem_singleton.mp hOwn] at hx
      exact hNew module hModule hx
  · refine Program.Speaks.addMethod (hSpeaks.mono ?_) method (.inr (.inr ⟨method, ?_, rfl⟩))
    · rintro x (hx | hx | ⟨other, hOther, rfl⟩)
      · exact .inl hx
      · exact .inr (.inl hx)
      · exact .inr (.inr ⟨other, List.mem_append_left _ hOther, rfl⟩)
    · exact List.mem_append_right _ List.mem_cons_self

/-- A loop that fills in values; each step makes sure that some names have types. -/
theorem forM {items : List α} {f : α → SessionM PUnit} {adds : α → String → Prop}
    (h : job.Fills known output typed rest session)
    (hStep : ∀ item ∈ items, ∀ typed before, job.Fills known output typed rest before →
      Does job before (f item) fun _ after =>
        job.Fills known output (fun x => typed x ∨ adds item x) rest after) :
    Does job session (items.forM f) fun _ after =>
      job.Fills known output (fun x => typed x ∨ ∃ item ∈ items, adds item x) rest after := by
  induction items generalizing session typed with
  | nil => exact .pure (h.mono fun x hx => by simpa using hx)
  | cons item others ih =>
      refine (hStep item List.mem_cons_self typed session h).bind fun _ middle hMiddle => ?_
      refine (ih hMiddle fun other hOther => hStep other (List.mem_cons_of_mem item hOther)).mono
        fun _ after hAfter => hAfter.mono fun x hx => ?_
      rw [List.exists_mem_cons_iff] at hx
      rcases hx with hx | hx | hx
      · exact .inl (.inl hx)
      · exact .inl (.inr hx)
      · exact .inr hx

/-! ## Declarations that are built -/

theorem buildTypes (h : job.Fills known output typed rest session) :
    Does job session (SessionM.buildTypes job) fun _ after =>
      job.Fills known output (fun x => typed x ∨ x ∈ job.file.names .type) rest after := by
  have hFirst : job.Fills known output (fun x => typed x ∨ x ∈ ([] : List TypeDecl).map (·.name))
      rest session := h.mono fun x hx => by simpa using hx
  refine Does.bind (Does.mapM (fun left before => ∃ done, job.file.types = done ++ left ∧
    job.Fills known output (fun x => typed x ∨ x ∈ done.map (·.name)) rest before)
    ⟨[], rfl, hFirst⟩ ?_) fun built middle hMiddle => ?_
  · rintro decl left before ⟨done, hDone, hBefore⟩
    refine (does_buildType decl).mono fun entry after hAfter => ?_
    obtain ⟨routine, store, -, ⟨hMethods, -⟩, rfl⟩ := hAfter
    refine ⟨done ++ [decl], by rw [hDone]; simp, ?_⟩
    have hNext : job.Fills known output (fun x => typed x ∨ x ∈ done.map (·.name)) rest
        { before with
          supply := routine.supply, program := { before.program with types := store } } :=
      hBefore.of_same rfl hMethods rfl
    refine (hNext.withValue decl.name (by simp) (by simp)).mono fun x hx => ?_
    simpa [or_assoc] using hx
  · obtain ⟨done, hDone, hMiddle⟩ := hMiddle
    rw [List.append_nil] at hDone
    refine Does.forM_mem (fun after => job.Fills known output
      (fun x => typed x ∨ x ∈ job.file.names .type) rest after) ?_ fun entry _ before hBefore => ?_
    · rw [← hDone] at hMiddle
      exact hMiddle
    · exact (does_checkType entry.1 entry.2).mono fun _ after hAfter => hAfter ▸ hBefore

/-- Something that is compiled for the module mentions what the module may mention. -/
theorem speaks {action : RoutineM α} {good : Set OwnName → α → Prop}
    (h : job.Fills known output typed rest session)
    (hModule : session.program.module? job.id = some module)
    (hSpells : Spells (.wording (.speaking (job.Vocabulary known module.methods)))
      (Diction.speaking (job.Vocabulary known module.methods)).words action good) {last : Routine}
    {value : α} (hRoutine : routine.Speaks (job.Vocabulary known module.methods))
    (hRun : action.exec (job.env session) routine = (.ok value, last)) :
    good (Diction.speaking (job.Vocabulary known module.methods)).words value ∧
      last.Speaks (job.Vocabulary known module.methods) := by
  obtain ⟨found, hFound, -, hSpeaks⟩ := h.module
  obtain rfl : found = module := Option.some.inj (hFound.symm.trans hModule)
  exact hSpells.speaks hSpeaks hRoutine hRun

theorem buildConst (h : job.Fills known output typed rest session) (decl : ConstDecl) :
    Does job session (SessionM.buildConst job decl) fun _ after =>
      job.Fills known output (fun x => typed x ∨ x = decl.name) rest after := by
  refine (does_buildConst decl).mono fun _ after hAfter => ?_
  obtain ⟨value, routine, hRun, -, rfl⟩ := hAfter
  have hNext : job.Fills known output typed rest { session with supply := routine.supply } :=
    h.of_same rfl rfl rfl
  refine hNext.withValue decl.name (by simp) fun e he module hModule => ?_
  cases he
  have hFound := h.speaks hModule (.value (.speaking decl.value)) (.start _ _) hRun
  exact CExpr.worded_speaking.mp hFound.1.c

/-- The module may mention its variables and functions. -/
theorem speaks_global {kind : GlobalKind} (hKind : kind = .var ∨ kind = .func)
    (hName : name ∈ job.file.names kind) (methods : List Method) :
    (CExpr.global (Declaration.cName job.package name)).Speaks (job.Vocabulary known methods) := by
  intro x hx
  rw [CExpr.globals, List.mem_singleton] at hx
  refine .inr (.inl ⟨name, List.mem_append.mpr ?_, hx⟩)
  rcases hKind with rfl | rfl
  · exact .inl hName
  · exact .inr hName

theorem setVar (h : job.Fills known output typed rest session) {decl : VarDecl}
    (hDecl : decl ∈ job.file.vars)
    (hGlobal : session.program.global? job.id decl.name = some global) (type : Ty) :
    job.Fills known output (fun x => typed x ∨ x = decl.name) rest
      (job.withValue session decl.name (.expr ⟨.global global.cName, type⟩)) := by
  refine h.withValue decl.name (by simp) fun e he module _ => ?_
  cases he
  rw [h.cName_eq hGlobal]
  exact speaks_global (.inl rfl) (List.mem_map_of_mem hDecl) _

/-- A variable without an initializer has a type from now on. -/
theorem buildVar (h : job.Fills known output typed rest session) {decl : VarDecl}
    (hDecl : decl ∈ job.file.vars) :
    Does job session (SessionM.buildVar job decl) fun _ after =>
      job.Fills known output (fun x => typed x ∨ x = decl.name ∧ decl.init = none) rest after := by
  refine (does_buildVar decl).mono fun _ after hAfter => ?_
  rcases hAfter with ⟨-, hInit, rfl⟩ | ⟨-, type, routine, global, -, -, -, hGlobal, rfl⟩
  · refine h.mono fun x hx => hx.resolve_right fun hNone => ?_
    rw [hNone.2] at hInit
    cases hInit
  · have hNext : job.Fills known output typed rest { session with supply := routine.supply } :=
      h.of_same rfl rfl rfl
    exact (hNext.setVar hDecl hGlobal type).mono fun x hx => hx.imp_right fun hx => hx.1

theorem buildFunc (h : job.Fills known output typed rest session) (hDecl : decl ∈ job.file.funcs) :
    Does job session (SessionM.buildFunc job decl) fun _ after =>
      job.Fills known output (fun x => typed x ∨ x = decl.name) rest after := by
  refine (does_buildFunc decl).mono fun _ after hAfter => ?_
  obtain ⟨routine, func, -, rfl⟩ := hAfter
  have hNext : job.Fills known output typed rest { session with supply := routine.supply } :=
    h.of_same rfl rfl rfl
  refine hNext.withValue decl.name (by simp) fun e he module _ => ?_
  cases he
  exact speaks_global (.inr rfl) (List.mem_map_of_mem hDecl) _

theorem buildMethods (h : job.Fills known output typed rest session)
    (hIndex : index + rest.length = job.file.methods.length) :
    Does job session (SessionM.buildMethods job index rest) fun _ after =>
      job.Fills known output typed [] after := by
  induction rest generalizing session index with
  | nil => exact .pure h
  | cons decl rest ih =>
      refine (does_buildMethod index decl).bind fun _ middle hMiddle => ?_
      obtain ⟨routine, record, func, -, -, hPackage, hNew, rfl⟩ := hMiddle
      have hNext :
          job.Fills known output typed (decl :: rest) { session with supply := routine.supply } :=
        h.of_same rfl rfl rfl
      refine ih (hNext.withMethod hIndex hPackage hNew) ?_
      rw [← hIndex, List.length_cons]
      omega

/-! ## Initializers -/

/-- A routine of initializers that mentions what the module may mention. -/
structure Initializes (job : Job) (known : String → Prop) (session : Session) (routine : Routine) :
    Prop where
  defines : routine.Defines
  speaks : ∀ module, session.program.module? job.id = some module →
    routine.Speaks (job.Vocabulary known module.methods)

theorem buildInit (h : job.Fills known output typed rest session)
    (hRoutine : Initializes job known session routine) {decl : VarDecl}
    (hDecl : decl ∈ job.file.vars) (declared : Option Ty) :
    Does job session (SessionM.buildInit job routine decl declared) fun last after =>
      job.Fills known output (fun x => typed x ∨ x = decl.name ∧ decl.init ≠ none) rest after ∧
        Initializes job known after last := by
  unfold SessionM.buildInit
  split
  · next hNone => exact .pure ⟨h.mono fun x hx => hx.resolve_right fun hInit =>
      hInit.2 hNone, hRoutine⟩
  · next init _ =>
      refine (does_resume routine (operand init).value).bind fun found middle hFound => ?_
      obtain ⟨value, next⟩ := found
      obtain ⟨hRun, rfl⟩ := hFound
      have hNext : job.Fills known output typed rest { session with supply := next.supply } :=
        h.of_same rfl rfl rfl
      have hComposed : Composed .expr .any (operand init).value := value_composed .expr init
      have hDefines : next.Defines := hComposed.defines hRun hRoutine.defines
      have hSpeaks (module : Module) (hModule : session.program.module? job.id = some module) :
          value.c.Worded (.speaking (job.Vocabulary known module.methods)) ∧
            next.Speaks (job.Vocabulary known module.methods) := by
        have hStart : ({ routine with supply := session.supply } : Routine).Speaks
            (job.Vocabulary known module.methods) :=
          ⟨(hRoutine.speaks module hModule).scopes, (hRoutine.speaks module hModule).body⟩
        have hFound := h.speaks hModule (.value (.speaking init)) hStart hRun
        exact ⟨hFound.1.c, hFound.2⟩
      have hStore (type : Ty) : Does job { session with supply := next.supply } (do
          let cName ← SessionM.setType job.id decl.name type
          return (← SessionM.resume job next (store decl type value cName)).2) fun last after =>
          job.Fills known output (fun x => typed x ∨ x = decl.name) rest after ∧
            Initializes job known after last := by
        refine (does_setType decl.name type).bind fun cName set hSet => ?_
        obtain ⟨global, hGlobal, rfl, rfl⟩ := hSet
        have hSet := hNext.setVar hDecl hGlobal type
        refine (does_resume next _).bind fun found after hFound => .pure ?_
        obtain ⟨⟨⟩, last⟩ := found
        obtain ⟨hLast, rfl⟩ := hFound
        refine ⟨hSet.of_same rfl rfl rfl, (store_composed decl type value _).defines hLast hDefines,
          fun module' hModule' => ?_⟩
        rcases Program.of_module?_updateModule hModule' with ⟨-, module, hModule, rfl⟩ | ⟨hOther, -⟩
        · obtain ⟨hValue, hNextSpeaks⟩ := hSpeaks module hModule
          have hStart : ({ next with supply := next.supply } : Routine).Speaks
              (job.Vocabulary known module.methods) := hNextSpeaks
          have hTarget : job.Vocabulary known module.methods global.cName := by
            rw [hNext.cName_eq hGlobal]
            exact speaks_global (.inl rfl) (List.mem_map_of_mem hDecl) _ _ List.mem_cons_self
          exact (hSet.speaks hModule' (store_spells decl type hValue hTarget) hStart hLast).2
        · exact absurd rfl hOther
      have hDone {type : Ty} : Does job { session with supply := next.supply } (do
          let cName ← SessionM.setType job.id decl.name type
          return (← SessionM.resume job next (store decl type value cName)).2) fun last after =>
          job.Fills known output (fun x => typed x ∨ x = decl.name ∧ decl.init ≠ none) rest after ∧
            Initializes job known after last :=
        (hStore type).mono fun _ _ hAfter =>
          ⟨hAfter.1.mono fun _ hx => hx.imp_right fun hx => hx.1, hAfter.2⟩
      cases declared with
      | some type => exact hDone
      | none =>
          refine (does_inferType decl value.type).bind fun type last hLast => ?_
          rw [hLast.2]
          exact hDone

/-- All initializers are compiled into one routine, if there are any. -/
theorem buildInits (h : job.Fills known output typed rest session) :
    Does job session (SessionM.buildInits job) fun init after =>
      ∃ filled, job.Fills known output
          (fun x => typed x ∨ ∃ decl ∈ job.file.vars, x = decl.name ∧ decl.init ≠ none)
            rest filled ∧
        job.Adds filled [] after ∧
        (init.isNone = job.file.vars.all (·.init.isNone)) ∧
        ∀ routine ∈ init, Initializes job known after routine := by
  unfold SessionM.buildInits
  split
  · next hNone =>
      refine .pure ⟨session, h.mono fun x hx => hx.resolve_right ?_, .refl job session, hNone.symm,
        by simp⟩
      rintro ⟨decl, hDecl, -, hInit⟩
      have hAll := List.all_eq_true.mp hNone decl hDecl
      exact hInit (Option.isNone_iff_eq_none.mp hAll)
  · next hSome =>
      refine (does_declaredTypes).bind fun vars last hVars => ?_
      obtain ⟨⟨hVars, -⟩, rfl⟩ := hVars
      refine Does.get.bind fun now last hNow => ?_
      rw [hNow.1, hNow.2]
      refine Does.bind (Does.foldlM (fun left routine before => ∃ done, vars = done ++ left ∧
        job.Fills known output
          (fun x => typed x ∨ ∃ entry ∈ done, x = entry.1.name ∧ entry.1.init ≠ none) rest before ∧
        Initializes job known before routine) ⟨[], rfl, h.mono fun x hx => by simpa using hx,
          by simp [Routine.Defines, Routine.start], fun _ _ => .start _ _⟩ ?_)
        fun routine built hBuilt => ?_
      · rintro ⟨decl, declared⟩ left routine before ⟨done, hDone, hBefore, hRoutine⟩
        have hDecl : decl ∈ job.file.vars := by
          rw [← hVars, hDone]
          simp
        refine (hBefore.buildInit hRoutine hDecl declared).mono fun last after hAfter => ?_
        refine ⟨done ++ [(decl, declared)], by rw [hDone]; simp, hAfter.1.mono fun x hx =>
          ?_, hAfter.2⟩
        simpa [or_and_right, exists_or, or_assoc] using hx
      · obtain ⟨done, hDone, hFills, hRoutine⟩ := hBuilt
        rw [List.append_nil] at hDone
        refine (does_writeTypedefItems hRoutine.defines).bind fun _ after hAfter => .pure ?_
        refine ⟨built, hFills.mono fun x hx => hx.imp_right ?_, hAfter, ?_, ?_⟩
        · rintro ⟨decl, hDecl, hx⟩
          rw [← hVars, hDone] at hDecl
          obtain ⟨entry, hEntry, rfl⟩ := List.mem_map.mp hDecl
          exact ⟨entry, hEntry, hx⟩
        · simpa using hSome
        · rintro found ⟨⟩
          refine ⟨hRoutine.defines, fun module hModule => hRoutine.speaks module ?_⟩
          rw [← hAfter.program]
          exact hModule

end Job.Fills

/-! ## What is written for a complete module -/

/-- The marks of the declarations of a module. -/
def Module.declarations (module : Module) : List Mark :=
  module.file.types.map (fun decl => .type (Declaration.cName module.name decl.name)) ++
    module.file.vars.map (fun decl => .variable (Declaration.cName module.name decl.name)) ++
    module.file.funcs.map (fun decl => .prototype (Declaration.cName module.name decl.name)) ++
    module.methods.map fun method => .prototype method.cName

/-- The mark of the routine that sets the variables of a module, if it has initializers. -/
def Module.inits (module : Module) : List Mark :=
  if module.file.vars.all (·.init.isNone) then [] else [.init module.name]

/-- The marks of the definitions of a module. -/
def Module.definitions (module : Module) : List Mark :=
  module.file.funcs.map (fun decl => decl.mark (Declaration.cName module.name decl.name)) ++
    List.zipWith (fun method decl => decl.mark method.cName) module.methods module.file.methods

/-- A module whose types, variables, functions and methods are all built. -/
abbrev Module.Complete (job : Job) (module : Module) : Prop :=
  module.Filled job
    (fun x => x ∈ job.file.names .type ∨ x ∈ job.file.names .var ∨ x ∈ job.file.names .func) []

namespace Module.Complete

variable {job : Job} {module : Module}

/-- Globals are declared as the declarations say that they come from. -/
theorem flatMap_marks {package : String} {globals : List Global} {decls : List Declaration}
    (h : List.Forall₂ (Global.Declares package) globals decls)
    (hTyped : ∀ global ∈ globals, global.kind ≠ .import → global.kind ≠ .const →
      global.type?.isSome = true) :
    globals.flatMap Global.marks =
      decls.flatMap fun decl => decl.kind.marks (Declaration.cName package decl.name) := by
  induction h with
  | nil => rfl
  | @cons global decl globals decls hDeclares _ ih =>
      have hHead : global.marks = decl.kind.marks (Declaration.cName package decl.name) := by
        unfold Global.marks
        rw [← hDeclares.kind, ← hDeclares.cName]
        split
        · rfl
        · next hNone =>
            cases hKind : global.kind with
            | «import» => rfl
            | const => rfl
            | type => exact absurd (hTyped global List.mem_cons_self (by simp [hKind])
                (by simp [hKind])) hNone
            | var => exact absurd (hTyped global List.mem_cons_self (by simp [hKind])
                (by simp [hKind])) hNone
            | func => exact absurd (hTyped global List.mem_cons_self (by simp [hKind])
                (by simp [hKind])) hNone
      rw [List.flatMap_cons, List.flatMap_cons, hHead, ih (List.forall_mem_cons.mp hTyped).2]

theorem flatMap_numbered (package : String) (kind : GlobalKind) (index : Nat)
    (names : List (String × Span)) :
    (Declaration.numbered kind index names).flatMap
        (fun decl => decl.kind.marks (Declaration.cName package decl.name)) =
      names.flatMap fun entry => kind.marks (Declaration.cName package entry.1) := by
  induction names generalizing index with
  | nil => rfl
  | cons entry rest ih => simp [Declaration.numbered, ih]

/-- The globals of a complete module are declared as the file lists them. -/
theorem flatMap_globals (h : module.Complete job) : module.globals.flatMap Global.marks =
      module.file.types.map (fun decl => .type (Declaration.cName module.name decl.name)) ++
        module.file.vars.map (fun decl => .variable (Declaration.cName module.name decl.name)) ++
        module.file.funcs.map (fun decl => .prototype
          (Declaration.cName module.name decl.name)) := by
  have hTyped : ∀ global ∈ module.globals, global.kind ≠ .import → global.kind ≠ .const →
      global.type?.isSome = true := by
    intro global hGlobal hImport hConst
    obtain ⟨decl, hDecl, hDeclares⟩ := h.entered.exists_decl hGlobal
    have hName : global.name ∈ job.file.names global.kind := by
      rw [← h.file]
      exact Declaration.exists_ofFile_iff.mp ⟨decl, hDecl, hDeclares.kind.symm, hDeclares.name.symm⟩
    refine h.typed global hGlobal ?_
    cases hKind : global.kind with
    | «import» => exact absurd hKind hImport
    | const => exact absurd hKind hConst
    | type => exact .inl (hKind ▸ hName)
    | var => exact .inr (.inl (hKind ▸ hName))
    | func => exact .inr (.inr (hKind ▸ hName))
  have hNil {α : Type} (decls : List α) : (decls.flatMap fun _ => ([] : List Mark)) = [] := by simp
  rw [flatMap_marks h.entered.globals hTyped, Declaration.ofFile]
  simp only [List.flatMap_append, flatMap_numbered]
  simp [GlobalKind.marks, List.flatMap_map, ← List.map_eq_flatMap, hNil]

/-- Methods whose declarations are numbered from some point of the file on. -/
theorem flatMap_methodMarks (methods : List Method) (done rest : List FuncDecl)
    (h : methods.map (·.decl) = List.range' done.length rest.length) :
    (methods.flatMap fun method =>
        ((done ++ rest)[method.decl]?.map fun decl => decl.mark method.cName).toList) =
      List.zipWith (fun method decl => decl.mark method.cName) methods rest := by
  induction rest generalizing methods done with
  | nil =>
      have hNil : methods = [] := by simpa using h
      rw [hNil]
      rfl
  | cons decl rest ih =>
      cases methods with
      | nil => simp [List.range'] at h
      | cons method others =>
          simp only [List.map_cons, List.length_cons, List.range'_succ, List.cons.injEq] at h
          have hOthers := ih others (done ++ [decl]) (by simpa using h.2)
          rw [List.append_assoc, List.singleton_append] at hOthers
          rw [List.flatMap_cons, hOthers, h.1]
          simp

/-- The methods of a complete module are defined as the file lists them. -/
theorem flatMap_methods (h : module.Complete job) : module.methods.flatMap job.methodMarks =
      List.zipWith (fun method decl => decl.mark method.cName) module.methods
        module.file.methods := by
  obtain ⟨done, hDone, -, hDecls⟩ := h.methods
  rw [List.append_nil] at hDone
  have hMarks := flatMap_methodMarks module.methods [] job.file.methods
    (by rw [hDecls, ← hDone, List.range_eq_range']; rfl)
  rw [h.file]
  exact hMarks

/-- Every declaration of a method has become one. -/
theorem exists_method (h : module.Complete job) (hDecl : decl ∈ job.file.methods) :
    ∃ method ∈ module.methods, job.file.methods[method.decl]? = some decl := by
  obtain ⟨done, hDone, -, hDecls⟩ := h.methods
  rw [List.append_nil] at hDone
  obtain ⟨index, hIndex⟩ := List.mem_iff_getElem?.mp hDecl
  have hLess : index < done.length := hDone ▸ (List.getElem?_eq_some_iff.mp hIndex).1
  obtain ⟨method, hMethod, rfl⟩ := List.mem_map.mp (hDecls ▸ List.mem_range.mpr hLess)
  exact ⟨method, hMethod, hIndex⟩

end Module.Complete

/-- What is written for a complete module, part after part: its declarations, the routine of its
initializers, and its definitions. -/
structure Job.Writing (job : Job) (known : String → Prop) (module : Module) (program : Program)
    (declared init defined : List CItem) : Prop where
  complete : module.Complete job
  found : program.module? job.id = some module
  speaks : program.Speaks (job.Vocabulary known module.methods)
  declares : declared.filterMap CItem.mark? = module.declarations
  sets : init.filterMap CItem.mark? = module.inits
  defines : defined.filterMap CItem.mark? = module.definitions
  derived : ∀ item ∈ defined, job.Derives program item
  compiled : ∀ decl, decl ∈ job.file.funcs ∨ decl ∈ job.file.methods → decl.Compiled job
  setting : ∀ item ∈ init, ∃ routine : Routine,
    routine.Speaks (job.Vocabulary known module.methods) ∧
    item = .routine (.init job.package) routine.locals.toList routine.body.toList

namespace Job

variable {job : Job} {known : String → Prop} {session : Session}

/-- The item that initializers become. -/
def initItems (job : Job) (init : Option Routine) : List CItem :=
  (init.map fun routine =>
    CItem.routine (.init job.package) routine.locals.toList routine.body.toList).toList

theorem does_writeInit (init : Option Routine) :
    Does job session (SessionM.writeInit job init) fun _ after =>
      after.program = session.program ∧
        after.output.toList = session.output.toList ++ job.initItems init := by
  cases init with
  | none => exact .pure ⟨rfl, by simp [initItems]⟩
  | some routine =>
      refine Does.mono (does_push _) fun _ after hAfter => ?_
      rw [hAfter]
      exact ⟨rfl, Array.toList_push⟩

/-- Writing a complete module. -/
theorem does_writeAll (h : module.Complete job)
    (hFound : session.program.module? job.id = some module)
    (hSpeaks : session.program.Speaks (job.Vocabulary known module.methods))
    {init : Option Routine} (hNone : init.isNone = job.file.vars.all (·.init.isNone))
    (hInit : ∀ routine ∈ init, routine.Speaks (job.Vocabulary known module.methods)) :
    Does job session (do
      SessionM.writeDeclarations job.id
      SessionM.writeInit job init
      SessionM.writeFuncs job) fun _ after =>
        after.program = session.program ∧ ∃ declared defined,
          job.Writing known module session.program declared (job.initItems init) defined ∧
          after.output.toList =
            session.output.toList ++ (declared ++ job.initItems init ++ defined) := by
  have hNames : ∀ global ∈ module.globals,
      global.cName = Declaration.cName job.package global.name := by
    intro global hGlobal
    obtain ⟨decl, -, hDeclares⟩ := h.entered.exists_decl hGlobal
    rw [hDeclares.cName, hDeclares.name, h.name]
  refine (does_writeDeclarations hFound).bind fun _ first hFirst => ?_
  obtain ⟨declared, hDeclared, hMarks, -⟩ := hFirst.items
  refine (does_writeInit init).bind fun _ second hSecond => ?_
  have hSame : second.program = session.program := hSecond.1.trans hFirst.program
  refine (does_writeFuncs (hSame ▸ hFound) hNames).mono fun _ after hAfter => ?_
  obtain ⟨hAfter, hFuncs, hMethods⟩ := hAfter
  obtain ⟨defined, hDefined, hMarks', hDerives⟩ := hAfter.items
  refine ⟨hAfter.program.trans hSame, declared, defined,
    ⟨h, hFound, hSpeaks, ?_, ?_, ?_, ?_, ?_, ?_⟩, ?_⟩
  · rw [hMarks, h.flatMap_globals]
    rfl
  · unfold initItems Module.inits
    rw [h.file, ← hNone]
    cases init with
    | none => rfl
    | some routine =>
        rw [h.name]
        rfl
  · rw [hMarks', h.flatMap_methods, ← h.file, ← h.name]
    rfl
  · rw [← hSame]
    exact hDerives
  · rintro decl (hDecl | hDecl)
    · exact hFuncs decl hDecl
    · obtain ⟨method, hMethod, hIndex⟩ := h.exists_method hDecl
      exact hMethods method hMethod decl hIndex
  · intro item hItem
    obtain ⟨routine, hRoutine, rfl⟩ := Option.map_eq_some_iff.mp (Option.mem_toList.mp hItem)
    exact ⟨routine, hInit routine hRoutine, rfl⟩
  · rw [hDefined, hSecond.2, hDeclared]
    simp only [List.append_assoc]

end Job

/-! ## Modules whose imports are followed -/

/-- A module whose names are entered and of which nothing but imports is built. -/
structure Module.Awaits (job : Job) (module : Module) : Prop where
  opened : module.Opened job []
  values : ∀ global ∈ module.globals, ∀ e, global.value ≠ some (.expr e)
  methods : module.methods = []

namespace Module.Awaits

variable {job : Job} {module : Module}

theorem setImport (h : module.Awaits job) (name : String) (target : ModuleId) :
    (module.setValue name (.module target)).Awaits job := by
  refine ⟨.of_entered (h.opened.entered.setValue name _) h.opened.name h.opened.file, ?_, h.methods⟩
  intro global' hGlobal' e hValue
  obtain ⟨global, hGlobal, rfl⟩ := Program.mem_setValue.mp hGlobal'
  split at hValue
  · cases hValue
  · exact h.values global hGlobal e hValue

/-- What is built next is to be filled in. -/
theorem fills (h : module.Awaits job) {known : String → Prop}
    (hModule : session.program.module? job.id = some module)
    (hSpeaks : session.program.Speaks known) :
    job.Fills known session.output (fun _ => False) job.file.methods session := by
  refine ⟨⟨module, hModule, ⟨h.opened.name, h.opened.file, h.opened.entered,
    fun _ _ hFalse => hFalse.elim, ⟨[], rfl, ?_, ?_⟩, ?_⟩, hSpeaks.mono fun x hx => .inl hx⟩, rfl⟩
  · rw [h.methods]
    exact .nil
  · rw [h.methods]
    rfl
  · rw [h.methods]
    exact .nil

end Module.Awaits

/-- Entering the names of a module that has become known. -/
theorem Job.does_declareAll
    (hModule : session.program.module? job.id = some (Module.ofFile job.package job.file)) :
    Does job session (SessionM.declareAll job) fun _ after =>
      ∃ module, after.program.module? job.id = some module ∧ module.Awaits job ∧
        after.program.types.methods = session.program.types.methods ∧
        after.output = session.output := by
  refine (Does.forM (fun rest before => ∃ module, before.program.module? job.id = some module ∧
    module.Opened job rest ∧ (∀ global ∈ module.globals, global.value = none) ∧
    module.methods = [] ∧ before.program.types.methods = session.program.types.methods ∧
    before.output = session.output)
    ⟨_, hModule, .ofFile job, by simp [Module.ofFile], rfl, rfl, rfl⟩ ?_).mono
      fun _ after hAfter => ?_
  · rintro decl rest before ⟨module, hModule, hOpened, hValues, hMethods, hTypes, hOutput⟩
    refine (does_declare decl).mono fun _ after hAfter => ?_
    obtain ⟨hNew, store, handle, ⟨hStore, -⟩, hHandle, rfl⟩ := hAfter
    have hAbsent : module.get? decl.name = none := by
      rw [Program.global?, hModule] at hNew
      exact hNew
    refine ⟨module.addGlobal (decl.toGlobal job.package handle), ?_,
      hOpened.addGlobal hAbsent hHandle, ?_, hMethods, hStore.trans hTypes, hOutput⟩
    · show (Program.updateModule _ job.id _).module? job.id = _
      rw [Program.module?_updateModule, if_pos rfl]
      exact congrArg (Option.map (·.addGlobal (decl.toGlobal job.package handle))) hModule
    · intro global hGlobal
      rcases List.mem_append.mp hGlobal with hGlobal | hGlobal
      · exact hValues global hGlobal
      · rw [List.mem_singleton.mp hGlobal]
        rfl
  · obtain ⟨module, hModule, hOpened, hValues, hMethods, hTypes, hOutput⟩ := hAfter
    refine ⟨module, hModule, ⟨hOpened, fun global hGlobal e hValue => ?_, hMethods⟩,
      hTypes, hOutput⟩
    rw [hValues global hGlobal] at hValue
    cases hValue

/-- Compiles a module whose imports are built. -/
def SessionM.compileOwn (job : Job) : SessionM Unit := do
  buildTypes job
  job.file.consts.forM (buildConst job)
  job.file.vars.forM (buildVar job)
  job.file.funcs.forM (buildFunc job)
  buildMethods job 0 job.file.methods
  let init ← buildInits job
  writeDeclarations job.id
  writeInit job init
  writeFuncs job

theorem SessionM.compileJob_eq (importer : Importer) (job : Job) :
    compileJob importer job = (do
      declareAll job
      job.file.imports.forM (buildImport importer job)
      compileOwn job) := by
  simp only [compileJob, build, compileOwn, bind_assoc]

namespace Job.Fills

variable {job : Job} {known : String → Prop} {session : Session}

/-- A module whose imports are built is written once and as a whole. -/
theorem compileOwn (h : job.Fills known session.output (fun _ => False) job.file.methods session) :
    Does job session (SessionM.compileOwn job) fun _ after =>
      ∃ module declared init defined, job.Writing known module after.program declared init defined ∧
        after.output.toList = session.output.toList ++ (declared ++ init ++ defined) := by
  refine h.buildTypes.bind fun _ first hFirst => ?_
  refine Does.bind (hFirst.forM fun decl _ typed before hBefore => hBefore.buildConst decl)
    fun _ second hSecond => ?_
  refine Does.bind (hSecond.forM fun decl hDecl typed before hBefore => hBefore.buildVar hDecl)
    fun _ third hThird => ?_
  refine Does.bind (hThird.forM fun decl hDecl typed before hBefore => hBefore.buildFunc hDecl)
    fun _ fourth hFourth => ?_
  refine (hFourth.buildMethods (by simp)).bind fun _ fifth hFifth => ?_
  refine hFifth.buildInits.bind fun init sixth hSixth => ?_
  obtain ⟨filled, hFilled, hAdds, hNone, hInit⟩ := hSixth
  obtain ⟨module, hModule, hModuleFilled, hSpeaks⟩ := hFilled.module
  have hOutput := hFilled.output
  have hComplete : module.Complete job := by
    refine ⟨hModuleFilled.name, hModuleFilled.file, hModuleFilled.entered,
      fun global hGlobal hName => hModuleFilled.typed global hGlobal ?_, hModuleFilled.methods,
      hModuleFilled.distinct⟩
    rcases hName with hType | hVar | hFunc
    · exact .inl (.inl (.inl (.inl (.inr hType))))
    · obtain ⟨decl, hDecl, hName⟩ := List.mem_map.mp hVar
      by_cases hNone : decl.init = none
      · exact .inl (.inl (.inr ⟨decl, hDecl, hName.symm, hNone⟩))
      · exact .inr ⟨decl, hDecl, hName.symm, hNone⟩
    · obtain ⟨decl, hDecl, hName⟩ := List.mem_map.mp hFunc
      exact .inl (.inr ⟨decl, hDecl, hName.symm⟩)
  have hFound : sixth.program.module? job.id = some module := by
    rw [hAdds.program]
    exact hModule
  refine (does_writeAll hComplete hFound (hAdds.program ▸ hSpeaks) hNone
    fun routine hRoutine => (hInit routine hRoutine).speaks module hFound).mono
      fun _ after hAfter => ?_
  obtain ⟨hProgram, declared, defined, hWriting, hWritten⟩ := hAfter
  obtain ⟨typedefs, hTypedefs, hMarks, -⟩ := hAdds.items
  refine ⟨module, typedefs ++ declared, job.initItems init, defined, ?_, ?_⟩
  · rw [hProgram]
    refine { hWriting with declares := ?_ }
    rw [List.filterMap_append, hMarks, hWriting.declares]
    rfl
  · rw [hWritten, hTypedefs, hOutput]
    simp only [List.append_assoc]

end Job.Fills

/-- A module whose own declarations are compiled is written as a whole. -/
theorem Module.Awaits.written {after : Session} (h : module.Awaits job)
    (hModule : session.program.module? job.id = some module)
    (hRun : (SessionM.compileOwn job).exec session = (.ok (), after)) :
    ∃ written declared init defined,
      job.Writing (fun _ => True) written after.program declared init defined := by
  obtain ⟨-, written, declared, init, defined, hWriting, -⟩ :=
    (h.fills hModule .anything).compileOwn.success hRun
  exact ⟨written, declared, init, defined, hWriting⟩

end GoToC
