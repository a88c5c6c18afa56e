import GoToC.Proofs.Routine.Blames
import GoToC.Proofs.Session.Complete

/-!
# Where modules find fault

Whatever is done to a module, it is blamed for what stands in its own text.
-/

/-!
## Where modules find fault

What is done to a module raises errors of that module only, at places of its declarations. To say
so of names that are defined twice, the places of what is already defined are kept in sight: they
are those of declarations too.
-/

namespace GoToC

variable {decl : VarDecl} {session after : Session} {problem : Problem}

/-- A module whose globals and methods are defined at places of a kind. -/
structure Module.Placed (fits : Span → Prop) (module : Module) : Prop where
  globals : ∀ global ∈ module.globals, fits global.span
  methods : ∀ method ∈ module.methods, fits method.span

namespace Module.Placed

variable {fits : Span → Prop} {module : Module}

theorem ofFile (name : String) (file : SourceFile) : (Module.ofFile name file).Placed fits :=
  ⟨by simp [Module.ofFile], by simp [Module.ofFile]⟩

theorem setValue (h : module.Placed fits) (name : String) (value : GlobalValue) :
    (module.setValue name value).Placed fits := by
  refine ⟨fun global' hGlobal' => ?_, h.methods⟩
  obtain ⟨global, hGlobal, rfl⟩ := Program.mem_setValue.mp hGlobal'
  split
  · exact h.globals global hGlobal
  · exact h.globals global hGlobal

theorem addGlobal (h : module.Placed fits) {global : Global} (hGlobal : fits global.span) :
    (module.addGlobal global).Placed fits :=
  ⟨Grammar.forall_mem_concat h.globals hGlobal, h.methods⟩

theorem addMethod (h : module.Placed fits) {method : Method} (hMethod : fits method.span) :
    (module.addMethod method).Placed fits :=
  ⟨h.globals, Grammar.forall_mem_concat h.methods hMethod⟩

end Module.Placed

/-- A session in which the module that is compiled is placed. -/
def Job.Placed (job : Job) (fits : Span → Prop) (session : Session) : Prop :=
  ∀ module, session.program.module? job.id = some module → module.Placed fits

/-- What is done to a placed module leaves it placed and gives what is promised, or fails with an
error of that module at a place of a kind. -/
def Job.Blames {α : Type} (job : Job) (fits : Span → Prop) (action : SessionM α)
    (good : α → Prop) : Prop :=
  ∀ session, job.Placed fits session →
    Runs (fun _ failure => failure.BlamedOn job.package fits) session action fun value after =>
      good value ∧ job.Placed fits after

namespace Job.Blames

variable {α β : Type} {job : Job} {fits : Span → Prop} {action : SessionM α} {good : α → Prop}
  {good' : β → Prop} {span : Span}

theorem pure {value : α} (h : good value) : job.Blames fits (pure value) good :=
  fun _ hPlaced => .pure ⟨h, hPlaced⟩

theorem bind {next : α → SessionM β} (h : job.Blames fits action good)
    (hNext : ∀ value, good value → job.Blames fits (next value) good') :
    job.Blames fits (action >>= next) good' :=
  fun session hPlaced => (h session hPlaced).bind fun value after hAfter =>
    hNext value hAfter.1 after hAfter.2

theorem success {value : α} (h : job.Blames fits action good) (hPlaced : job.Placed fits session)
    (hRun : action.exec session = (.ok value, after)) : good value ∧ job.Placed fits after := by
  have hRuns := h session hPlaced
  rwa [Runs, hRun] at hRuns

theorem failure {failure : Failure} (h : job.Blames fits action good)
    (hPlaced : job.Placed fits session) (hRun : action.exec session = (.error failure, after)) :
    failure.BlamedOn job.package fits := by
  have hRuns := h session hPlaced
  rwa [Runs, hRun] at hRuns

theorem fault (cause : Fault) : job.Blames fits (throw (.fault cause) : SessionM α) good :=
  fun _ _ => .fail trivial

theorem error (hSpan : fits span) (hProblem : ∀ previous ∈ problem.previous?, fits previous) :
    job.Blames fits (SessionM.error job.package span problem : SessionM α) good :=
  fun _ _ => .fail ⟨rfl, hSpan, hProblem⟩

/-- A check that fails with an error or goes on. -/
theorem errorIf {check : Prop} [Decidable check] (hSpan : fits span)
    (hProblem : ∀ previous ∈ problem.previous?, fits previous) (h : job.Blames fits action good) :
    job.Blames fits (do
      if check then SessionM.error job.package span problem
      action) good := by
  by_cases hCheck : check
  · have hError : job.Blames fits (SessionM.error job.package span problem : SessionM Unit)
        fun _ => True := .error hSpan hProblem
    simp only [hCheck, if_true]
    exact hError.bind fun _ _ => h
  · simp only [hCheck, if_false]
    exact h

/-! ### Looking at a session and changing it -/

theorem get : job.Blames fits get (job.Placed fits) := fun _ hPlaced => ⟨hPlaced, hPlaced⟩

theorem set {session : Session} (h : job.Placed fits session) :
    job.Blames fits (set session) fun _ => True := fun _ _ => ⟨trivial, h⟩

/-- A change that has to do with no module. -/
theorem changed {change : Session → Session}
    (h : ∀ session, (change session).program.modules = session.program.modules) :
    job.Blames fits (modify change) fun _ => True := by
  intro session hPlaced
  refine ⟨trivial, fun module hModule => hPlaced module ?_⟩
  change (change session).program.modules[job.id]? = some module at hModule
  rw [h session] at hModule
  exact hModule

theorem updateModule {update : Module → Module}
    (h : ∀ module, module.Placed fits → (update module).Placed fits) :
    job.Blames fits (SessionM.updateModule job.id update) fun _ => True := by
  intro session hPlaced
  refine ⟨trivial, fun module' hModule' => ?_⟩
  rcases Program.of_module?_updateModule hModule' with ⟨-, module, hModule, rfl⟩ | ⟨hOther, -⟩
  · exact h module (hPlaced module hModule)
  · exact absurd rfl hOther

theorem lift (answer : Faulty α) : job.Blames fits (SessionM.lift answer) fun _ => True := by
  cases answer with
  | ok value => exact .pure trivial
  | error cause => exact .fault cause

theorem types (ask : TypeStore → Faulty α) : job.Blames fits (SessionM.types ask) fun _ => True :=
  .bind .get fun _ _ => .lift _

theorem setTypes (store : TypeStore) : job.Blames fits (SessionM.setTypes store) fun _ => True :=
  .changed fun _ => rfl

theorem write (item : CItem) : job.Blames fits (SessionM.write item) fun _ => True :=
  .changed fun _ => rfl

theorem global? (name : String) :
    job.Blames fits (SessionM.global? job.id name) fun found => ∀ global ∈ found,
      fits global.span := by
  refine .bind .get fun session hPlaced => .pure fun global hGlobal => ?_
  obtain ⟨module, hModule, hFound⟩ := Option.bind_eq_some_iff.mp hGlobal
  exact (hPlaced module hModule).globals global (List.mem_of_find?_eq_some hFound)

theorem globals : job.Blames fits (SessionM.globals job.id) fun _ => True :=
  .bind .get fun _ _ => .pure trivial

theorem methods :
    job.Blames fits (SessionM.methods job.id) fun found => ∀ method ∈ found, fits method.span := by
  refine .bind .get fun session hPlaced => .pure ?_
  cases hModule : session.program.module? job.id with
  | none => simp
  | some module => exact (hPlaced module hModule).methods

theorem declared (name : String) :
    job.Blames fits (SessionM.declared job.id name) fun _ => True := by
  refine .bind (.global? name) fun found _ => ?_
  split
  · exact .pure trivial
  · exact .fault _

theorem setValue (name : String) (value : GlobalValue) :
    job.Blames fits (SessionM.setValue job.id name value) fun _ => True :=
  .bind (.declared name) fun _ _ => .updateModule fun _ hModule => hModule.setValue name value

theorem setType (name : String) (type : Ty) :
    job.Blames fits (SessionM.setType job.id name type) fun _ => True :=
  .bind (.declared name) fun _ _ => .bind (.setValue _ _) fun _ _ => .pure trivial

/-! ### Routines -/

theorem resume (routine : Routine) {action : RoutineM α} (h : GoToC.Blames fits action) :
    job.Blames fits (SessionM.resume job routine action) fun _ => True := by
  intro session hPlaced
  unfold Runs
  rw [Job.resume_exec]
  cases hRun : action.exec (job.env session) { routine with supply := session.supply } with
  | mk result last =>
      cases result with
      | ok value => exact ⟨trivial, hPlaced⟩
      | error failure => exact h _ _ _ _ hRun

theorem routine {action : RoutineM α} (h : GoToC.Blames fits action) :
    job.Blames fits (SessionM.routine job action) fun _ => True :=
  .bind .get fun _ _ => .resume _ h

theorem isolated {action : RoutineM α} (h : GoToC.Blames fits action) :
    job.Blames fits (SessionM.isolated job action) fun _ => True :=
  .bind (.routine h) fun _ _ => .pure trivial

/-! ### Loops -/

theorem forM {items : List α} {f : α → SessionM PUnit}
    (h : ∀ item ∈ items, job.Blames fits (f item) fun _ => True) :
    job.Blames fits (items.forM f) fun _ => True := by
  induction items with
  | nil => exact .pure trivial
  | cons item rest ih =>
      rw [List.forall_mem_cons] at h
      rw [List.forM_eq_forM, List.forM_cons]
      exact h.1.bind fun _ _ => ih h.2

theorem writeAll (items : Array CItem) :
    job.Blames fits (items.forM SessionM.write) fun _ => True := by
  obtain ⟨items⟩ := items
  rw [Array.forM_eq_forM, List.forM_toArray]
  exact .forM fun item _ => .write item

theorem mapM {items : List α} {f : α → SessionM β}
    (h : ∀ item ∈ items, job.Blames fits (f item) good') :
    job.Blames fits (items.mapM f) fun values => ∀ value ∈ values, good' value := by
  induction items with
  | nil => exact .pure (by simp)
  | cons item rest ih =>
      rw [List.forall_mem_cons] at h
      rw [List.mapM_cons]
      refine h.1.bind fun value hValue => (ih h.2).bind fun values hValues => .pure ?_
      exact List.forall_mem_cons.mpr ⟨hValue, hValues⟩

theorem foldlM {items : List α} {f : β → α → SessionM β} (start : β)
    (h : ∀ item ∈ items, ∀ value, job.Blames fits (f value item) fun _ => True) :
    job.Blames fits (items.foldlM f start) fun _ => True := by
  induction items generalizing start with
  | nil => exact .pure trivial
  | cons item rest ih =>
      rw [List.forall_mem_cons] at h
      rw [List.foldlM_cons]
      exact (h.1 start).bind fun value _ => ih value h.2

/-! ### Declared names -/

theorem declare (hSpan : fits span) (kind : GlobalKind) (index : Nat) (name : String) :
    job.Blames fits (SessionM.declare job ⟨kind, index, name, span⟩) fun _ => True := by
  refine .bind (.global? name) fun found hFound => ?_
  split
  · next previous =>
      refine .error hSpan fun place hPlace => ?_
      cases hPlace
      exact hFound previous rfl
  · have hHandle :
      job.Blames fits (SessionM.newHandle ⟨kind, index, name, span⟩) fun _ => True := by
      unfold SessionM.newHandle
      split
      · exact .bind .get fun _ _ => .bind (.setTypes _) fun _ _ => .pure trivial
      · exact .pure trivial
    exact hHandle.bind fun handle _ => .updateModule fun _ hModule => hModule.addGlobal hSpan

theorem declareNumbered (kind : GlobalKind) {names : List (String × Span)}
    (h : ∀ entry ∈ names, fits entry.2) (index : Nat) :
    ∀ decl ∈ Declaration.numbered kind index names,
      job.Blames fits (SessionM.declare job decl) fun _ => True := by
  induction names generalizing index with
  | nil => simp [Declaration.numbered]
  | cons entry rest ih =>
      rw [List.forall_mem_cons] at h
      rw [Declaration.numbered, List.forall_mem_cons]
      exact ⟨.declare h.1 _ _ _, ih h.2 (index + 1)⟩

/-- Names are entered at the places of their declarations. -/
theorem declareAll (h : job.file.Placed fits) :
    job.Blames fits (SessionM.declareAll job) fun _ => True := by
  refine .forM fun decl hDecl => ?_
  simp only [Declaration.ofFile, List.mem_append] at hDecl
  rcases hDecl with (((hDecl | hDecl) | hDecl) | hDecl) | hDecl
  · exact declareNumbered .import (by simpa using h.imports) 0 decl hDecl
  · exact declareNumbered .type (by simpa using fun decl hDecl => (h.types decl hDecl).span) 0
      decl hDecl
  · exact declareNumbered .const (by simpa using fun decl hDecl =>
      (h.consts decl hDecl).span) 0 decl hDecl
  · exact declareNumbered .var (by simpa using fun decl hDecl => (h.vars decl hDecl).span) 0
      decl hDecl
  · exact declareNumbered .func (by simpa using fun decl hDecl => (h.funcs decl hDecl).span) 0 decl
      hDecl

end Job.Blames

end GoToC

/-!
## Modules that are blamed for themselves

A module whose imports are built is compiled on its own. Whatever declaration it fails at, the
error is one of the module, at a place of that declaration.
-/

namespace GoToC.Job.Blames

variable {job : Job} {fits : Span → Prop} {span : Span}

/-! ### Types and constants -/

theorem bindHandle (name : String) (type : Ty) :
    job.Blames fits (SessionM.bindHandle job name type) fun _ => True := by
  refine .bind (.global? name) fun found _ => ?_
  split
  · exact .bind (.types _) fun store _ => .setTypes store
  · exact .pure trivial

theorem buildType {decl : TypeDecl} (h : decl.Placed fits) :
    job.Blames fits (SessionM.buildType job decl) fun built => fits built.2 :=
  .bind (.isolated (compileNamedType_blames h.type decl.name)) fun type _ =>
    .bind (.bindHandle decl.name type) fun _ _ => .bind (.setValue _ _) fun _ _ => .pure h.span

theorem checkType (hSpan : fits span) (type : Ty) :
    job.Blames fits (SessionM.checkType job type span) fun _ => True := by
  refine .bind .get fun session _ => ?_
  split
  · exact .pure trivial
  · exact .error hSpan nofun

theorem buildTypes (h : job.file.Placed fits) :
    job.Blames fits (SessionM.buildTypes job) fun _ => True :=
  .bind (.mapM fun decl hDecl => .buildType (h.types decl hDecl)) fun _ hBuilt =>
    .forM fun pair hPair => .checkType (hBuilt pair hPair) pair.1

theorem buildConst {decl : ConstDecl} (h : decl.Placed fits) :
    job.Blames fits (SessionM.buildConst job decl) fun _ => True :=
  .errorIf h.span nofun <| .bind (.routine (value_blames h.value)) fun _ _ =>
    .errorIf h.span nofun (.setValue _ _)

/-! ### Variables and functions -/

theorem buildVar (h : decl.Placed fits) :
    job.Blames fits (SessionM.buildVar job decl) fun _ => True := by
  have hType := h.type
  unfold SessionM.buildVar
  split
  · next written hWritten =>
      rw [hWritten] at hType
      refine .bind (.isolated (type_blames hType)) fun type _ =>
        .bind (.types _) fun hasZero _ => .errorIf h.span nofun ?_
      exact .bind (.setType _ _) fun _ _ => .pure trivial
  · exact .pure trivial
  · exact .error h.span nofun

theorem buildFunc {decl : FuncDecl} (h : decl.Placed fits) :
    job.Blames fits (SessionM.buildFunc job decl) fun _ => True :=
  .bind (.isolated (compileSignature_blames (by simp [ParamsPlaced]) h.signature)) fun _ _ =>
    .setValue _ _

theorem receiverStruct? (receiver : Ty) :
    job.Blames fits (SessionM.receiverStruct? job receiver) fun _ => True :=
  .bind (.types _) fun _ _ => .pure trivial

/-- A method that is defined twice is blamed at both of its places. -/
theorem buildMethod (index : Nat) {decl : FuncDecl} (h : decl.Placed fits) :
    job.Blames fits (SessionM.buildMethod job index decl) fun _ => True := by
  refine .bind (.isolated (compileSignature_blames h.receiver h.signature)) fun func _ =>
    .bind (.receiverStruct? _) fun found _ => ?_
  split
  · exact .error h.span nofun
  · refine .bind .methods fun methods hMethods => ?_
    split
    · next previous hPrevious =>
        refine .error h.span fun place hPlace => ?_
        cases hPlace
        exact hMethods previous (List.mem_of_find?_eq_some hPrevious)
    · exact .bind .get fun _ _ => .bind (.setTypes _) fun _ _ =>
        .updateModule fun _ hModule => hModule.addMethod h.span

theorem buildMethods {methods : List FuncDecl} (h : ∀ decl ∈ methods, decl.Placed fits)
    (index : Nat) : job.Blames fits (SessionM.buildMethods job index methods) fun _ => True := by
  induction methods generalizing index with
  | nil => exact .pure trivial
  | cons decl rest ih =>
      rw [List.forall_mem_cons] at h
      exact .bind (.buildMethod index h.1) fun _ _ => ih h.2 (index + 1)

/-! ### Initializers -/

theorem inferType (hSpan : fits decl.span) (type : Ty) :
    job.Blames fits (SessionM.inferType job decl type) fun _ => True := by
  have hFound (storable : Bool) : job.Blames fits (do
      if storable then return type
      SessionM.error job.package decl.span (.notStorable type.display)) fun _ => True := by
    split
    · exact .pure trivial
    · exact .error hSpan nofun
  refine .bind (.types _) fun isInt _ => ?_
  split
  · exact .pure trivial
  · exact .bind (.types _) fun hasZero _ => .bind (.types _) fun isNil _ =>
      hFound (hasZero && !isNil)

theorem storeInit (hSpan : fits span) (type : Ty) (value : Typed) (cName : String) :
    GoToC.Blames fits (do
      let converted ← RoutineM.convert type value span "in variable initializer"
      let cType ← RoutineM.types (·.cType type)
      RoutineM.emit (.store (.global cName) cType converted)) :=
  .bind (convert_blames hSpan type value _) fun _ =>
    .bind (.types _) fun _ => .emit _

theorem buildInit (routine : Routine) (h : decl.Placed fits) (declared : Option Ty) :
    job.Blames fits (SessionM.buildInit job routine decl declared) fun _ => True := by
  have hInit := h.init
  unfold SessionM.buildInit
  split
  · exact .pure trivial
  · next init hSome =>
      rw [hSome] at hInit
      refine .bind (.resume routine (value_blames hInit)) fun run _ => ?_
      have hStore (type : Ty) : job.Blames fits (do
          let cName ← SessionM.setType job.id decl.name type
          let store : RoutineM Unit := do
            let converted ← RoutineM.convert type run.1 decl.span "in variable initializer"
            let cType ← RoutineM.types (·.cType type)
            RoutineM.emit (.store (.global cName) cType converted)
          return (← SessionM.resume job run.2 store).2) fun _ => True :=
        .bind (.setType _ _) fun cName _ =>
          .bind (.resume _ (storeInit h.span type run.1 cName)) fun _ _ => .pure trivial
      cases declared with
      | some type => exact hStore type
      | none => exact .bind (.inferType h.span run.1.type) fun type _ => hStore type

theorem declaredTypes :
    job.Blames fits (SessionM.declaredTypes job) fun vars => ∀ entry ∈ vars,
      entry.1 ∈ job.file.vars :=
  .mapM fun decl hDecl => .bind (.global? decl.name) fun _ _ => .pure hDecl

theorem buildInits (h : job.file.Placed fits) :
    job.Blames fits (SessionM.buildInits job) fun _ => True := by
  unfold SessionM.buildInits
  split
  · exact .pure trivial
  · refine .bind .declaredTypes fun vars hVars => .bind .get fun session _ => ?_
    refine .bind (.foldlM _ fun entry hEntry routine =>
      .buildInit routine (h.vars entry.1 (hVars entry hEntry)) entry.2) fun routine _ => ?_
    exact .bind (.writeAll _) fun _ _ => .pure trivial

/-! ### Writing -/

/-- Types are written without fault of the module. -/
theorem writeTypedef (type : Ty) : job.Blames fits (SessionM.writeTypedef type) fun _ => True := by
  refine .bind .get fun session hSession => .bind (.set hSession) fun _ _ =>
    .bind (.lift _) fun item _ => ?_
  split
  · exact .write _
  · exact .pure trivial

theorem writeTypedefsWithin (levels : Nat) (type : Ty) :
    job.Blames fits (SessionM.writeTypedefsWithin levels type) fun _ => True := by
  induction levels generalizing type with
  | zero => exact .fault .endless
  | succ levels ih =>
      refine .bind (.types _) fun func _ => ?_
      split
      · exact .pure trivial
      · exact .bind (.forM fun member _ => ih member.type) fun _ _ => .writeTypedef type

theorem writeTypedefs (type : Ty) : job.Blames fits (SessionM.writeTypedefs type) fun _ => True :=
  .bind .get fun _ _ => .writeTypedefsWithin _ type

theorem declareFunc (cName : String) (type : Ty) :
    job.Blames fits (SessionM.declareFunc cName type) fun _ => True := by
  refine .bind (.types _) fun func _ => ?_
  split
  · exact .fault _
  · exact .bind (.forM fun member _ => .writeTypedefs member.type) fun _ _ =>
      .bind (.types _) fun _ _ => .write _

theorem writeGlobal (global : Global) :
    job.Blames fits (SessionM.writeGlobal global) fun _ => True := by
  have hTyped (type : Ty) (item : String → CItem) : job.Blames fits (do
      SessionM.writeTypedefs type
      SessionM.write (item (← SessionM.types (·.cType type)))) fun _ => True :=
    .bind (.writeTypedefs type) fun _ _ => .bind (.types _) fun _ _ => .write _
  unfold SessionM.writeGlobal
  cases global.type? with
  | none => exact .pure trivial
  | some type =>
      cases global.kind with
      | «import» => exact .pure trivial
      | const => exact .pure trivial
      | type => exact hTyped type _
      | var => exact hTyped type _
      | func => exact .declareFunc global.cName type

theorem writeDeclarations : job.Blames fits (SessionM.writeDeclarations job.id) fun _ => True :=
  .bind .globals fun _ _ => .bind (.forM fun global _ => .writeGlobal global) fun _ _ =>
    .bind .methods fun _ _ => .forM fun method _ => .declareFunc method.cName method.type

theorem writeInit (init : Option Routine) :
    job.Blames fits (SessionM.writeInit job init) fun _ => True := by
  cases init with
  | none => exact .pure trivial
  | some routine => exact .write _

theorem writeFunc (cName : String) (type : Option Ty) {decl : FuncDecl} (h : decl.Placed fits) :
    job.Blames fits (SessionM.writeFunc job cName type decl) fun _ => True := by
  have hBody := h.body
  unfold SessionM.writeFunc
  cases type with
  | none => exact .fault _
  | some type =>
      refine .bind (.types _) fun func _ => ?_
      cases func with
      | none => exact .fault _
      | some func =>
          refine .bind (.types _) fun prototype _ => ?_
          cases hSome : decl.body with
          | none => exact .write _
          | some body =>
              rw [hSome] at hBody
              exact .bind (.routine (compileBody_blames h.span func hBody)) fun _ _ =>
                .bind (.writeAll _) fun _ _ => .write _

theorem writeFuncs (h : job.file.Placed fits) :
    job.Blames fits (SessionM.writeFuncs job) fun _ => True := by
  refine .bind (.forM fun decl hDecl => .bind (.global? decl.name) fun found _ => ?_)
    fun _ _ => .bind .methods fun _ _ => .forM fun method _ => ?_
  · split
    · exact .writeFunc _ _ (h.funcs decl hDecl)
    · exact .fault _
  · unfold SessionM.writeMethod
    split
    · next decl hDecl => exact .writeFunc _ _ (h.methods decl (List.mem_of_getElem? hDecl))
    · exact .fault _

/-- Whatever a module fails at once its imports are built, it is to blame itself. -/
theorem compileOwn (h : job.file.Placed fits) :
    job.Blames fits (SessionM.compileOwn job) fun _ => True :=
  .bind (.buildTypes h) fun _ _ =>
  .bind (.forM fun decl hDecl => .buildConst (h.consts decl hDecl)) fun _ _ =>
  .bind (.forM fun decl hDecl => .buildVar (h.vars decl hDecl)) fun _ _ =>
  .bind (.forM fun decl hDecl => .buildFunc (h.funcs decl hDecl)) fun _ _ =>
  .bind (.buildMethods h.methods 0) fun _ _ =>
  .bind (.buildInits h) fun init _ =>
  .bind .writeDeclarations fun _ _ =>
  .bind (.writeInit init) fun _ _ => .writeFuncs h

end GoToC.Job.Blames
