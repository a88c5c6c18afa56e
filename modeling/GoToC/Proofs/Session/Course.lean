import GoToC.Proofs.Session.Registry

/-!
# The course of a compilation

A compilation that succeeds is a sequence of steps: modules become known, their names are
entered, their declarations are built, and items are written. Here it is said once what each
step does, and that a compilation does nothing else. Whatever holds at the start and is kept by
every step holds in the end.
-/

namespace GoToC

variable {α : Type} {job : Job} {type : Ty} {global : Global} {items : List α}
  {f : α → SessionM PUnit} {action : SessionM α} {decl : FuncDecl} {cName : String} {id : ModuleId}
  {session : Session} {importer : Importer}

/-- A session, and what is kept beside it while the initializers of a module are compiled. -/
structure Work where
  session : Session
  /-- The routine of the initializers. -/
  inits : Routine
  /-- The types that variables of the module have before. -/
  written : List Ty

/-- Writing changes neither the program nor the routine of the initializers. -/
structure Work.Wrote (work next : Work) : Prop where
  program : next.session.program = work.session.program
  inits : next.inits = work.inits

theorem Work.Wrote.refl (work : Work) : work.Wrote work := ⟨rfl, rfl⟩

theorem Work.Wrote.trans {first second third : Work} (h : first.Wrote second)
    (h' : second.Wrote third) : first.Wrote third :=
  ⟨h'.program.trans h.program, h'.inits.trans h.inits⟩

/-- Whatever the initializers have handed out is written. -/
def Work.Settled (work : Work) : Prop := work.inits.typedefs = #[]

theorem Work.Wrote.settled {work next : Work} (h : work.Wrote next) (hSettled : work.Settled) :
    next.Settled := by
  rw [Settled, h.inits]
  exact hSettled

/-- A type that a program has given to a global or a method. -/
def Program.Gives (program : Program) (type : Ty) : Prop :=
  (∃ id global, program.Has id global ∧ global.type? = some type) ∨
    ∃ id module, program.module? id = some module ∧ ∃ method ∈ module.methods, method.type = type

/-- A type that is met on the way down from what a program has given to a global or a method,
through the inputs and outputs of functions. -/
inductive Program.Meets (program : Program) : Ty → Prop
  | given {type : Ty} : program.Gives type → program.Meets type
  | member {type func member} :
      program.Meets type → program.types.func? type = .ok (some func) →
      member ∈ func.inputs ++ func.outputs → program.Meets member.type

/-- A C name that a module calls a function or method by. -/
def Job.Calls (job : Job) (program : Program) (name : String) : Prop :=
  (∃ global, program.Has job.id global ∧ name = global.cName ∧
    (global.kind ≠ .import ∨ ∃ decl ∈ job.file.funcs, decl.name = global.name)) ∨
  ∃ module, program.module? job.id = some module ∧ ∃ method ∈ module.methods, name = method.cName

/-- The session after some items were written. -/
def Session.writing (session : Session) (items : List CItem) : Session :=
  { session with output := session.output ++ items.toArray }

@[simp] theorem Session.toList_writing (session : Session) (items : List CItem) :
    (session.writing items).output.toList = session.output.toList ++ items := by
  simp [writing]

/-- An item more is written. -/
theorem Session.push_writing (session : Session) (items : List CItem) (item : CItem) :
    { session.writing items with output := (session.writing items).output.push item } =
      session.writing (items ++ [item]) := by
  simp [writing]

theorem Session.writing_append (session : Session) (items items' : List CItem) :
    session.writing (items ++ items') = (session.writing items).writing items' := by
  simp [writing]

/-- One step of the compilation of a module. -/
inductive Job.Step (job : Job) : Work → Work → Prop
  | enter {work store} (decl : Declaration) (handle : Option Handle) :
      store.methods = work.session.program.types.methods →
      store.bound = work.session.program.types.bound →
      decl ∈ Declaration.ofFile job.file →
      Step job work { work with
        session := job.withGlobal
          { work.session with program := { work.session.program with types := store } }
            decl handle }
  | note {work} (name : String) (target : ModuleId) :
      Step job work { work with session := job.withValue work.session name (.module target) }
  | type {work decl type routine store} :
      decl ∈ job.file.types →
      (compileNamedType decl.type decl.name).exec (job.env work.session)
        (.start work.session.supply) = (.ok type, routine) →
      store.BindsIn work.session.program.types type →
      Step job work { work with
        session := job.withValue { work.session with
          supply := routine.supply, program := { work.session.program with types := store } }
          decl.name (.type type) }
  | const {work decl value routine} :
      decl ∈ job.file.consts →
      (operand decl.value).value.exec (job.env work.session) (.start work.session.supply) =
        (.ok value, routine) →
      routine.isPristine = true →
      Step job work { work with
        session := job.withValue { work.session with supply := routine.supply } decl.name
          (.expr value) }
  | var {work decl written type routine global} :
      decl ∈ job.file.vars → decl.type = some written →
      (operand written).type.exec (job.env work.session) (.start work.session.supply) =
        (.ok type, routine) →
      work.session.program.types.hasZeroValue type = .ok true →
      work.session.program.global? job.id decl.name = some global →
      Step job work { work with
        session := job.withValue { work.session with supply := routine.supply } decl.name
          (.expr ⟨.global global.cName, type⟩) }
  | func {work decl func routine} :
      decl ∈ job.file.funcs →
      (compileSignature none decl.signature).exec (job.env work.session)
        (.start work.session.supply) = (.ok func, routine) →
      Step job work { work with
        session := job.withValue { work.session with supply := routine.supply } decl.name
          (.expr ⟨.global (Declaration.cName job.package decl.name), .func func⟩) }
  | method {work decl func routine record} (index : Nat) :
      decl ∈ job.file.methods →
      (compileSignature decl.receiver decl.signature).exec (job.env work.session)
        (.start work.session.supply) = (.ok func, routine) →
      work.session.program.types.pointeeStruct?
        ((func.inputs.head?.map (·.type)).getD (.prim .void)) = .ok (some record) →
      record.package = job.package →
      Step job work { work with
        session := job.withMethod { work.session with supply := routine.supply } record
          ⟨decl.name, .func func⟩
          ⟨SessionM.methodName record decl.name, .func func, index, decl.span⟩ }
  /-- The compilation of the initializers begins. -/
  | begin {work written} :
      work.Settled → (∀ type ∈ written, work.session.program.Gives type) →
      Step job work ⟨work.session, .start work.session.supply, written⟩
  | init {work decl init value middle last type global} :
      decl ∈ job.file.vars → decl.init = some init →
      (operand init).value.exec (job.env work.session)
        { work.inits with supply := work.session.supply } = (.ok value, middle) →
      type ∈ work.written ∨ type = .prim .int ∨
        type = value.type ∧ work.session.program.types.hasZeroValue type = .ok true →
      (store decl type value global.cName).exec
        (job.env (job.withValue { work.session with supply := middle.supply } decl.name
          (.expr ⟨.global global.cName, type⟩))) middle = (.ok (), last) →
      work.session.program.global? job.id decl.name = some global →
      Step job work ⟨{ job.withValue work.session decl.name
        (.expr ⟨.global global.cName, type⟩) with
        supply := last.supply }, last, work.written⟩
  /-- What the initializers handed out is written once all of them are compiled. -/
  | flush {work} :
      Step job work { work with
        session := work.session.writing work.inits.typedefs.toList
        inits := { work.inits with typedefs := #[] } }
  | request {work type typedefs item} :
      work.session.supply.typedefs.request work.session.program.types type = (.ok item, typedefs) →
      work.session.program.Meets type →
      Step job work { work with
        session := { work.session with
          supply := { work.session.supply with typedefs := typedefs } }.writing item.toList }
  | declare {work type cType item global} :
      work.Settled → work.session.program.Has job.id global →
      work.session.program.types.cType type = .ok cType →
      (∀ func, work.session.program.types.func? type = .ok (some func) →
        func.number ∈ work.session.supply.typedefs.handedOut) →
      item = .typeAlias cType global.cName ∨ item = .globalVar cType global.cName →
      global.kind ≠ .import →
      Step job work { work with session := work.session.writing [item] }
  | prototype {work type func name prototype item} :
      work.session.program.types.prototype func name = .ok prototype →
      item = .declared prototype ∨ item = .native prototype →
      work.session.program.Gives type →
      work.session.program.types.func? type = .ok (some func) →
      job.Calls work.session.program name →
      Step job work { work with session := work.session.writing [item] }
  | inits {work} : work.Settled →
      Step job work { work with
        session := work.session.writing
          [CItem.routine (.init job.package) work.inits.locals.toList work.inits.body.toList] }
  | define {work decl type func name prototype body routine} :
      work.Settled → decl ∈ job.file.funcs ∨ decl ∈ job.file.methods → decl.body = some body →
      work.session.program.Gives type →
      work.session.program.types.func? type = .ok (some func) →
      work.session.program.types.prototype func name = .ok prototype →
      (compileBody func body decl.span).exec (job.env work.session) (.start work.session.supply) =
        (.ok (), routine) →
      job.Calls work.session.program name →
      Step job work { work with
        session := { work.session with supply := routine.supply }.writing
          (routine.typedefs.toList ++
            [CItem.routine (.func prototype) routine.locals.toList routine.body.toList]) }

/-- One step of a compilation. -/
inductive Work.Step : Work → Work → Prop
  | register {work name text file} :
      work.session.program.find? name = none → parse text = .ok file →
      Step work { work with session := Job.registered work.session name file }
  | own {work next : Work} {job : Job} : job.Known work.session → job.Step work next →
      Step work next
  | finish {work} (finished : List ModuleId) :
      Step work { work with session := { work.session with finished := finished } }
  | share {work} (builtin : ModuleId) :
      Step work { work with
        session := { work.session with
          program := { work.session.program with builtin := some builtin } } }
  | includes {work} : Step work { work with session := work.session.writing [.includes] }

/-- Any number of steps of a compilation. -/
abbrev Work.Passes : Work → Work → Prop := Relation.ReflTransGen Work.Step

/-! ## Actions that go some steps -/

/-- An action that succeeds goes any number of steps, and what it gives is good for the work
that they end with. -/
def Leads {α : Type} (step : Work → Work → Prop) (work : Work) (action : SessionM α)
    (good : α → Work → Prop) : Prop :=
  Runs (fun _ _ => True) work.session action fun value after =>
    ∃ next, next.session = after ∧ Relation.ReflTransGen step work next ∧ good value next

namespace Leads

variable {α β : Type} {step : Work → Work → Prop} {work : Work} {action : SessionM α}
  {good : α → Work → Prop}

theorem success (h : Leads step work action good) {value : α} {after : Session}
    (hRun : action.exec work.session = (.ok value, after)) :
    ∃ next, next.session = after ∧ Relation.ReflTransGen step work next ∧ good value next := by
  unfold Leads Runs at h
  rw [hRun] at h
  exact h

theorem of_success (h : ∀ value after, action.exec work.session = (.ok value, after) →
    ∃ next, next.session = after ∧ Relation.ReflTransGen step work next ∧ good value next) :
    Leads step work action good := by
  unfold Leads Runs
  split
  · next value after hRun => exact h value after hRun
  · trivial

theorem pure {value : α} (h : good value work) : Leads step work (pure value) good :=
  Runs.pure ⟨work, rfl, .refl, h⟩

theorem fail (failure : Failure) : Leads step work (throw failure : SessionM α) good := trivial

theorem bind {next : α → SessionM β} {good' : β → Work → Prop} (h : Leads step work action good)
    (hNext : ∀ value middle, good value middle → Leads step middle (next value) good') :
    Leads step work (action >>= next) good' := by
  refine Runs.bind h fun value after hAfter => ?_
  obtain ⟨middle, rfl, hSteps, hGood⟩ := hAfter
  refine (hNext value middle hGood).mono fun value' after' hLast => ?_
  obtain ⟨last, hLast, hRest, hGood'⟩ := hLast
  exact ⟨last, hLast, hSteps.trans hRest, hGood'⟩

theorem mono {good' : α → Work → Prop} (h : Leads step work action good)
    (imp : ∀ value next, good value next → good' value next) : Leads step work action good' :=
  Runs.mono h fun value _ ⟨next, hNext, hSteps, hGood⟩ =>
    ⟨next, hNext, hSteps, imp value next hGood⟩

/-- Whether steps count as steps of another kind may depend on where they start. -/
theorem embed {step' : Work → Work → Prop} (keeps : Work → Prop) (hWork : keeps work)
    (hStep : ∀ before after, keeps before → step before after → step' before after ∧ keeps after)
    (h : Leads step work action good) :
    Leads step' work action fun value next => good value next ∧ keeps next := by
  refine Runs.mono h fun value after hAfter => ?_
  obtain ⟨next, hNext, hSteps, hGood⟩ := hAfter
  suffices Relation.ReflTransGen step' work next ∧ keeps next from
    ⟨next, hNext, this.1, hGood, this.2⟩
  clear hNext hGood
  induction hSteps with
  | refl => exact ⟨.refl, hWork⟩
  | tail _ hLast ih =>
      obtain ⟨hStep', hKeeps⟩ := hStep _ _ ih.2 hLast
      exact ⟨ih.1.tail hStep', hKeeps⟩

/-- A success that is told exactly is told by the steps that it goes. -/
theorem of_does {good' : α → Session → Prop} (h : Does job work.session action good')
    (hSteps : ∀ value after, good' value after →
      ∃ next, next.session = after ∧ Relation.ReflTransGen step work next ∧ good value next) :
    Leads step work action good :=
  of_success fun value after hRun => hSteps value after (h.success hRun).2

/-- What only looks at the session. -/
theorem asks (job : Job) {good' : α → Prop}
    (h : Does job work.session action fun value after => good' value ∧ after = work.session) :
    Leads step work action fun value next => good' value ∧ next = work :=
  of_does h fun _ _ hAfter => ⟨work, hAfter.2.symm, .refl, hAfter.1, rfl⟩

theorem get : Leads step work get fun found next => found = work.session ∧ next = work :=
  ⟨work, rfl, .refl, rfl, rfl⟩

/-- A change of the session that is one step. -/
theorem changed {change : Session → Session}
    (h : step work { work with session := change work.session }) (hSettled : work.Settled) :
    Leads step work (modify change : SessionM PUnit) fun _ next => next.Settled :=
  ⟨_, rfl, .single h, hSettled⟩

/-- A loop that keeps a property and looks at the members of a list only. -/
theorem forM (keeps : Work → Prop) (h : keeps work)
    (hStep : ∀ item ∈ items, ∀ before, keeps before →
      Leads step before (f item) fun _ after => keeps after) :
    Leads step work (items.forM f) fun _ after => keeps after := by
  induction items generalizing work with
  | nil => exact .pure h
  | cons item rest ih =>
      rw [List.forM_eq_forM, List.forM_cons]
      exact (hStep item List.mem_cons_self work h).bind fun _ after hAfter =>
        ih hAfter (List.forall_mem_cons.mp hStep).2

end Leads

/-! ## The declarations of a module -/

namespace Job

variable {job : Job} {work : Work}

/-- An action of a module of which nothing is told but its steps, and that these begin and end
where no initializers are compiled. -/
def Goes {α : Type} (job : Job) (work : Work) (action : SessionM α) : Prop :=
  work.Settled → Leads job.Step work action fun _ next => next.Settled

theorem Goes.forM (hStep : ∀ item ∈ items, ∀ before, job.Goes before (f item)) :
    job.Goes work (items.forM f) :=
  fun hSettled => Leads.forM Work.Settled hSettled hStep

theorem Goes.bind {α β : Type} {action : SessionM α} {next : α → SessionM β}
    (h : job.Goes work action) (hNext : ∀ value middle, job.Goes middle (next value)) :
    job.Goes work (action >>= next) :=
  fun hSettled => Leads.bind (h hSettled) hNext

theorem Goes.pure {value : α} : job.Goes work (pure value) := fun hSettled => .pure hSettled

/-- A success that is told exactly is a single step. -/
theorem Goes.of_does {good : α → Session → Prop} (h : Does job work.session action good)
    (hStep : ∀ value after, good value after → job.Step work { work with session := after }) :
    job.Goes work action :=
  fun hSettled => Leads.of_does h fun value after hAfter =>
    ⟨_, rfl, .single (hStep value after hAfter), hSettled⟩

theorem goes_declareAll : job.Goes work (SessionM.declareAll job) := by
  refine Goes.forM fun decl hDecl before => .of_does (does_declare decl) fun _ after hAfter => ?_
  obtain ⟨-, store, handle, ⟨hMethods, hBound⟩, -, rfl⟩ := hAfter
  exact .enter decl handle hMethods hBound hDecl

theorem goes_buildTypes : job.Goes work (SessionM.buildTypes job) := by
  have hBuild (decls : List TypeDecl) (hDecls : ∀ decl ∈ decls, decl ∈ job.file.types) :
      ∀ work, job.Goes work (decls.mapM (SessionM.buildType job)) := by
    induction decls with
    | nil => exact fun work => Goes.pure
    | cons decl rest ih =>
        intro work
        rw [List.mapM_cons]
        refine Goes.bind (.of_does (does_buildType decl) fun entry after hAfter => ?_)
          fun entry middle => Goes.bind (ih (fun other hOther =>
            hDecls other (.tail _ hOther)) middle) fun _ _ => Goes.pure
        obtain ⟨routine, store, hRun, hStore, rfl⟩ := hAfter
        exact .type (hDecls decl List.mem_cons_self) hRun hStore
  refine (hBuild job.file.types (fun _ hDecl => hDecl) work).bind fun built middle => ?_
  refine Goes.forM fun entry _ before hSettled => ?_
  exact Leads.of_does (does_checkType entry.1 entry.2) fun _ _ hAfter =>
    ⟨before, hAfter.symm, .refl, hSettled⟩

theorem goes_buildConst {decl : ConstDecl} (hDecl : decl ∈ job.file.consts) :
    job.Goes work (SessionM.buildConst job decl) := by
  refine .of_does (does_buildConst decl) fun _ after hAfter => ?_
  obtain ⟨value, routine, hRun, hPristine, rfl⟩ := hAfter
  exact .const hDecl hRun hPristine

theorem goes_buildVar {decl : VarDecl} (hDecl : decl ∈ job.file.vars) :
    job.Goes work (SessionM.buildVar job decl) := by
  refine fun hSettled => Leads.of_does (does_buildVar decl) fun _ after hAfter => ?_
  rcases hAfter with
    ⟨-, -, rfl⟩ | ⟨written, type, routine, global, hWritten, hRun, hZero, hGlobal, rfl⟩
  · exact ⟨work, rfl, .refl, hSettled⟩
  · exact ⟨_, rfl, .single (.var hDecl hWritten hRun hZero hGlobal), hSettled⟩

theorem goes_buildFunc (hDecl : decl ∈ job.file.funcs) :
    job.Goes work (SessionM.buildFunc job decl) := by
  refine .of_does (does_buildFunc decl) fun _ after hAfter => ?_
  obtain ⟨routine, func, hRun, rfl⟩ := hAfter
  exact .func hDecl hRun

theorem goes_buildMethods {index : Nat} {decls : List FuncDecl}
    (hDecls : ∀ decl ∈ decls, decl ∈ job.file.methods) :
    job.Goes work (SessionM.buildMethods job index decls) := by
  induction decls generalizing index work with
  | nil => exact Goes.pure
  | cons decl rest ih =>
      refine Goes.bind (.of_does (does_buildMethod index decl) fun _ after hAfter => ?_)
        fun _ middle => ih fun other hOther => hDecls other (.tail _ hOther)
      obtain ⟨routine, record, func, hRun, hReceiver, hPackage, -, rfl⟩ := hAfter
      exact .method index (hDecls decl List.mem_cons_self) hRun hReceiver hPackage

/-! ## Initializers -/

/-- Items that are written one after another. -/
theorem forM_write (items : List CItem) (session : Session) :
    (items.forM SessionM.write).exec session = (.ok (), session.writing items) := by
  induction items generalizing session with
  | nil => simp [Session.writing]; rfl
  | cons item rest ih =>
      rw [List.forM_eq_forM, List.forM_cons, SessionM.bind_exec]
      show (rest.forM SessionM.write).exec { session with output := session.output.push item } = _
      rw [ih]
      simp [Session.writing]

theorem touches_writing (session : Session) (items : List CItem) :
    job.Touches session (session.writing items) :=
  ⟨fun _ _ => rfl, rfl, rfl, rfl, rfl, items, session.toList_writing items⟩

theorem does_forM_write (items : Array CItem) (session : Session) :
    Does job session (items.forM SessionM.write) fun _ after =>
      after = session.writing items.toList := by
  obtain ⟨items⟩ := items
  rw [Array.forM_eq_forM, List.forM_toArray]
  unfold Does Runs
  rw [forM_write]
  exact ⟨touches_writing session items, rfl⟩

/-- The routine of the initializers is kept beside the session, and the types that variables
had before stay noted. -/
theorem leads_buildInit {decl : VarDecl} (hDecl : decl ∈ job.file.vars) {declared : Option Ty}
    (hDeclared : ∀ type ∈ declared, type ∈ work.written) :
    Leads job.Step work (SessionM.buildInit job work.inits decl declared) fun routine next =>
      next.inits = routine ∧ next.written = work.written := by
  unfold SessionM.buildInit
  split
  · exact .pure ⟨rfl, rfl⟩
  · next init hInit =>
      have hDone (value : Typed) (middle : Routine) (type : Ty)
          (hRun : (operand init).value.exec (job.env work.session)
            { work.inits with supply := work.session.supply } = (.ok value, middle))
          (hType : type ∈ work.written ∨ type = .prim .int ∨
            type = value.type ∧ work.session.program.types.hasZeroValue type = .ok true) :
          Does job { work.session with supply := middle.supply } (do
            let cName ← SessionM.setType job.id decl.name type
            return (← SessionM.resume job middle (store decl type value cName)).2)
            fun routine after => job.Step work ⟨after, routine, work.written⟩ := by
        refine (does_setType decl.name type).bind fun cName set hSet => ?_
        obtain ⟨global, hGlobal, rfl, rfl⟩ := hSet
        refine (does_resume middle _).bind fun found after hFound => .pure ?_
        obtain ⟨⟨⟩, last⟩ := found
        obtain ⟨hStore, rfl⟩ := hFound
        exact .init hDecl hInit hRun hType hStore hGlobal
      have hAll : Does job work.session (SessionM.buildInit job work.inits decl declared)
          fun routine after => job.Step work ⟨after, routine, work.written⟩ := by
        unfold SessionM.buildInit
        rw [hInit]
        refine (does_resume work.inits (operand init).value).bind fun found middle hFound => ?_
        obtain ⟨value, middle⟩ := found
        obtain ⟨hRun, rfl⟩ := hFound
        cases declared with
        | some type => exact hDone value middle type hRun (.inl (hDeclared type rfl))
        | none =>
            refine (does_inferType decl value.type).bind fun type last hLast => ?_
            obtain ⟨hType, rfl⟩ := hLast
            refine hDone value middle type hRun (.inr (hType.imp_right ?_))
            rintro ⟨rfl, hZero⟩
            exact ⟨rfl, hZero⟩
      unfold SessionM.buildInit at hAll
      rw [hInit] at hAll
      exact .of_does hAll fun routine after hStep => ⟨_, rfl, .single hStep, rfl, rfl⟩

/-- What the variables are written with has been given to globals. -/
theorem leads_buildInits (hSettled : work.Settled) :
    Leads job.Step work (SessionM.buildInits job) fun init next => next.Settled ∧
      ∀ routine ∈ init, next.inits.locals = routine.locals ∧ next.inits.body = routine.body := by
  unfold SessionM.buildInits
  split
  · exact .pure ⟨hSettled, by simp⟩
  · refine (Leads.asks job does_declaredTypes).bind fun vars same hVars => ?_
    obtain ⟨⟨hNames, hTypes⟩, hSame⟩ := hVars
    rw [hSame]
    refine Leads.get.bind fun now same hNow => ?_
    rw [hNow.1, hNow.2]
    let begun : Work := ⟨work.session, .start work.session.supply, vars.filterMap (·.2)⟩
    have hBegin : job.Step work begun := by
      refine .begin hSettled fun type hType => ?_
      obtain ⟨entry, hEntry, hSome⟩ := List.mem_filterMap.mp hType
      rw [hTypes entry hEntry, Option.bind_eq_some_iff] at hSome
      obtain ⟨global, hGlobal, hType⟩ := hSome
      exact .inl ⟨job.id, global, (Program.Has.of_global? hGlobal).1, hType⟩
    have hLoop (entries : List (VarDecl × Option Ty)) (hEntries : ∀ entry ∈ entries, entry ∈ vars) :
        ∀ work : Work, work.written = begun.written → Leads job.Step work
          (entries.foldlM (fun routine entry =>
            SessionM.buildInit job routine entry.1 entry.2) work.inits)
          fun routine next => next.inits = routine := by
      induction entries with
      | nil => exact fun work _ => .pure rfl
      | cons entry rest ih =>
          intro work hWritten
          rw [List.foldlM_cons]
          have hEntry := hEntries entry List.mem_cons_self
          have hDecl : entry.1 ∈ job.file.vars := hNames ▸ List.mem_map_of_mem hEntry
          refine (leads_buildInit hDecl fun type hType => ?_).bind fun routine middle hMiddle => ?_
          · rw [hWritten]
            exact List.mem_filterMap.mpr ⟨entry, hEntry, hType⟩
          · obtain ⟨rfl, hSame⟩ := hMiddle
            exact ih (fun other hOther => hEntries other (.tail _ hOther)) middle
              (hSame.trans hWritten)
    have hStart : Leads job.Step work (vars.foldlM (fun routine entry =>
        SessionM.buildInit job routine entry.1 entry.2) (Routine.start work.session.supply))
        fun routine next => next.inits = routine := by
      refine .of_success fun routine after hRun => ?_
      obtain ⟨next, hNext, hSteps, hInits⟩ :=
        (hLoop vars (fun _ hEntry => hEntry) begun rfl).success hRun
      exact ⟨next, hNext, .head hBegin hSteps, hInits⟩
    refine hStart.bind fun routine middle hMiddle => ?_
    obtain rfl := hMiddle
    have hWrite : Does job middle.session (middle.inits.typedefs.forM SessionM.write) _ :=
      does_forM_write _ _
    refine Leads.bind (Leads.of_does hWrite fun _ after hAfter =>
      ⟨_, hAfter.symm, .single .flush, rfl, rfl, rfl⟩) fun _ last (hLast : last.Settled ∧
        last.inits.locals = middle.inits.locals ∧ last.inits.body = middle.inits.body) => .pure ?_
    refine ⟨hLast.1, ?_⟩
    rintro _ ⟨⟩
    exact hLast.2

/-! ## Written modules -/

/-- The number of a function type is handed out by the time its definition was asked for. -/
theorem leads_writeTypedef (hMet : work.session.program.Meets type) :
    Leads job.Step work (SessionM.writeTypedef type) fun _ next =>
      work.Wrote next ∧ ∀ func, work.session.program.types.func? type = .ok (some func) →
          func.number ∈ next.session.supply.typedefs.handedOut := by
  refine .of_success fun _ after hRun => ?_
  let request := work.session.supply.typedefs.request work.session.program.types type
  rw [SessionM.writeTypedef_exec] at hRun
  change (SessionM.writeHandedOut request.1).exec
    { work.session with supply := { work.session.supply with typedefs := request.2 } } = _ at hRun
  cases hAnswer : request.1 with
  | error fault =>
      rw [hAnswer] at hRun
      cases hRun
  | ok item =>
      have hStep : job.Step work { work with
          session := { work.session with
            supply := { work.session.supply with typedefs := request.2 } }.writing item.toList } :=
        .request (Prod.ext hAnswer rfl) hMet
      refine ⟨_, ?_, .single hStep, ⟨rfl, rfl⟩, fun func hFunc => ?_⟩
      · rw [hAnswer] at hRun
        cases item <;> cases hRun <;> simp [Session.writing]
      · show func.number ∈ request.2.handedOut
        simp only [request, TypedefSupply.request, hFunc]
        split
        · next hOld => simpa using hOld
        · exact List.mem_cons_self

theorem leads_writeTypedefsWithin (levels : Nat) {type : Ty}
    (hMet : work.session.program.Meets type) :
    Leads job.Step work (SessionM.writeTypedefsWithin levels type) fun _ next =>
      work.Wrote next ∧ ∀ func, work.session.program.types.func? type = .ok (some func) →
          func.number ∈ next.session.supply.typedefs.handedOut := by
  induction levels generalizing work type with
  | zero => exact .fail _
  | succ levels ih =>
      refine (Leads.asks job (Does.types _)).bind fun found same hSame => ?_
      obtain ⟨hFound, rfl⟩ := hSame
      split
      · exact .pure ⟨.refl _, fun func hFunc => by rw [hFound] at hFunc; cases hFunc⟩
      · next func =>
          have hMember {before : Work} (hBefore : same.Wrote before) (member : Member Ty)
              (hMember : member ∈ func.inputs ++ func.outputs) :
              before.session.program.Meets member.type := by
            rw [hBefore.program]
            exact .member hMet hFound hMember
          refine Leads.bind (Leads.forM same.Wrote (.refl same) fun member hMem before hBefore =>
            (ih (hMember hBefore member hMem)).mono fun _ next hNext => hBefore.trans hNext.1)
            fun _ middle hMiddle => ?_
          have hStill : middle.session.program.Meets type := by
            rw [hMiddle.program]
            exact hMet
          refine (leads_writeTypedef hStill).mono fun _ next hNext => ⟨hMiddle.trans hNext.1, ?_⟩
          rw [← hMiddle.program]
          exact hNext.2

theorem leads_writeTypedefs (hMet : work.session.program.Meets type) :
    Leads job.Step work (SessionM.writeTypedefs type) fun _ next =>
      work.Wrote next ∧ ∀ func, work.session.program.types.func? type = .ok (some func) →
          func.number ∈ next.session.supply.typedefs.handedOut := by
  refine Leads.get.bind fun now same hNow => ?_
  rw [hNow.1, hNow.2]
  exact leads_writeTypedefsWithin _ hMet

/-- An item that is written leaves the program as it is. -/
theorem leads_write {item : CItem} (h : job.Step work
    { work with session := work.session.writing [item] }) :
    Leads job.Step work (SessionM.write item) fun _ next => work.Wrote next := by
  have hPush : Does job work.session (SessionM.write item) _ := does_push item
  refine .of_does hPush fun _ after hAfter => ⟨_, ?_, .single h, rfl, rfl⟩
  simp [hAfter, Session.writing]

theorem leads_declareFunc (hType : work.session.program.Gives type)
    (hName : job.Calls work.session.program cName) :
    Leads job.Step work (SessionM.declareFunc cName type) fun _ next => work.Wrote next := by
  refine (Leads.asks job (Does.types _)).bind fun found same hSame => ?_
  obtain ⟨hFound, rfl⟩ := hSame
  split
  · exact .fail _
  · next func =>
      have hMember {before : Work} (hBefore : same.Wrote before) (member : Member Ty)
          (hMember : member ∈ func.inputs ++ func.outputs) :
          before.session.program.Meets member.type := by
        rw [hBefore.program]
        exact .member (.given hType) hFound hMember
      refine Leads.bind (Leads.forM same.Wrote (.refl same) fun member hMem before hBefore =>
        (leads_writeTypedefs (hMember hBefore member hMem)).mono fun _ next hNext =>
          hBefore.trans hNext.1) fun _ middle hMiddle => ?_
      refine (Leads.asks job (Does.types _)).bind fun prototype last hLast => ?_
      obtain ⟨hPrototype, rfl⟩ := hLast
      rw [← hMiddle.program] at hType hFound hName
      exact (leads_write (.prototype hPrototype (.inl rfl) hType hFound hName)).mono
        fun _ _ hNext => hMiddle.trans hNext

/-- A type or variable is declared after the pointer types that it is made of. -/
theorem leads_declareTyped (hSettled : work.Settled)
    (hHas : work.session.program.Has job.id global) (hKind : global.kind ≠ .import)
    (hType : work.session.program.Gives type) {item : String → CItem} (hItem : ∀ cType,
      item cType = .typeAlias cType global.cName ∨ item cType = .globalVar cType global.cName) :
    Leads job.Step work (do
      SessionM.writeTypedefs type
      SessionM.write (item (← SessionM.types (·.cType type)))) fun _ next =>
        work.Wrote next := by
  refine (leads_writeTypedefs (.given hType)).bind fun _ middle hMiddle => ?_
  obtain ⟨hWrote, hHanded⟩ := hMiddle
  refine (Leads.asks job (Does.types _)).bind fun cType last hLast => ?_
  obtain ⟨hType, rfl⟩ := hLast
  refine (leads_write (.declare (hWrote.settled hSettled) ?_ hType ?_ (hItem cType) hKind)).mono
    fun _ _ hNext => hWrote.trans hNext
  · rw [hWrote.program]
    exact hHas
  · rw [hWrote.program]
    exact hHanded

theorem leads_writeGlobal (hSettled : work.Settled) {global : Global}
    (hHas : work.session.program.Has job.id global) :
    Leads job.Step work (SessionM.writeGlobal global) fun _ next => work.Wrote next := by
  unfold SessionM.writeGlobal
  cases hFound : global.type? with
  | none => exact .pure (.refl work)
  | some type =>
      have hType : work.session.program.Gives type := .inl ⟨job.id, global, hHas, hFound⟩
      cases hKind : global.kind with
      | «import» => exact .pure (.refl work)
      | const => exact .pure (.refl work)
      | type => exact leads_declareTyped hSettled hHas (by simp [hKind]) hType fun _ => .inl rfl
      | var => exact leads_declareTyped hSettled hHas (by simp [hKind]) hType fun _ => .inr rfl
      | func => exact leads_declareFunc hType (.inl ⟨global, hHas, rfl, .inl (by simp [hKind])⟩)

/-- A method of the module has a type of the program and is called by its C name. -/
theorem gives_of_method {program : Program} {method : Method}
    (h : method ∈ ((program.module? job.id).map (·.methods)).getD []) :
    program.Gives method.type ∧ job.Calls program method.cName := by
  cases hModule : program.module? job.id with
  | none => simp [hModule] at h
  | some module =>
      rw [hModule] at h
      exact ⟨.inr ⟨job.id, module, hModule, method, h, rfl⟩, .inr ⟨module, hModule, method, h, rfl⟩⟩

/-- Writing declarations leaves the routine of the initializers as it is. -/
theorem leads_writeDeclarations (hSettled : work.Settled) :
    Leads job.Step work (SessionM.writeDeclarations job.id) fun _ next => work.Wrote next := by
  refine Leads.bind (Leads.get.bind fun now same hNow => .pure ⟨by rw [hNow.1], hNow.2⟩)
    fun globals same (hSame : globals =
      ((work.session.program.module? job.id).map (·.globals)).getD [] ∧ same = work) => ?_
  obtain ⟨hGlobals, rfl⟩ := hSame
  have hHas (global : Global) (hGlobal : global ∈ globals) :
      same.session.program.Has job.id global := by
    cases hModule : same.session.program.module? job.id with
    | none => simp [hGlobals, hModule] at hGlobal
    | some module =>
        rw [hGlobals, hModule] at hGlobal
        exact ⟨module, hModule, hGlobal⟩
  refine Leads.bind (Leads.forM same.Wrote (.refl same) fun global hGlobal before hBefore => ?_)
    fun _ middle hMiddle => ?_
  · exact (leads_writeGlobal (hBefore.settled hSettled)
      (hBefore.program ▸ hHas global hGlobal)).mono fun _ _ hNext => hBefore.trans hNext
  · refine Leads.bind (Leads.get.bind fun now same hNow => .pure ⟨by rw [hNow.1], hNow.2⟩)
      fun methods last (hLast : methods =
        ((middle.session.program.module? job.id).map (·.methods)).getD [] ∧ last = middle) => ?_
    obtain ⟨hMethods, rfl⟩ := hLast
    refine Leads.forM same.Wrote hMiddle fun method hMethod before hBefore => ?_
    have hGiven := gives_of_method (hMethods ▸ hMethod)
    rw [hMiddle.program, ← hBefore.program] at hGiven
    exact (leads_declareFunc hGiven.1 hGiven.2).mono fun _ _ hNext => hBefore.trans hNext

/-- A function or method that has a body is compiled, and what it needs is written first. -/
theorem leads_writeFunc (hSettled : work.Settled) {type : Option Ty}
    (hType : ∀ type' ∈ type, work.session.program.Gives type')
    (hName : job.Calls work.session.program cName)
    (hDecl : decl ∈ job.file.funcs ∨ decl ∈ job.file.methods) :
    Leads job.Step work (SessionM.writeFunc job cName type decl) fun _ next =>
      work.Wrote next := by
  unfold SessionM.writeFunc
  cases type with
  | none => exact .fail _
  | some type =>
      refine (Leads.asks job (Does.types _)).bind fun found same hSame => ?_
      obtain ⟨hFound, rfl⟩ := hSame
      cases found with
      | none => exact .fail _
      | some func =>
          refine (Leads.asks job (Does.types _)).bind fun prototype same hSame => ?_
          obtain ⟨hPrototype, rfl⟩ := hSame
          cases hBody : decl.body with
          | none =>
              exact leads_write (.prototype hPrototype (.inr rfl) (hType type rfl) hFound hName)
          | some body =>
              have hAll : Does job same.session
                  (SessionM.writeBody job func prototype body decl.span) fun _ after => ∃ routine,
                  (compileBody func body decl.span).exec (job.env same.session)
                    (.start same.session.supply) = (.ok (), routine) ∧
                  after = { same.session with supply := routine.supply }.writing
                    (routine.typedefs.toList ++
                      [CItem.routine (.func prototype) routine.locals.toList
                        routine.body.toList]) := by
                refine (does_routine _).bind fun run middle hRun => ?_
                obtain ⟨⟨⟩, routine⟩ := run
                obtain ⟨hRun, rfl⟩ := hRun
                refine (does_forM_write _ _).bind fun _ last hLast => ?_
                refine (does_push _).mono fun _ after hAfter => ⟨routine, hRun, ?_⟩
                rw [hAfter, hLast, Session.push_writing]
              refine .of_does hAll fun _ after hAfter => ?_
              obtain ⟨routine, hRun, rfl⟩ := hAfter
              have hStep :=
                Step.define hSettled hDecl hBody (hType type rfl) hFound hPrototype hRun hName
              exact ⟨_, rfl, .single hStep, rfl, rfl⟩

theorem leads_writeFuncs (hSettled : work.Settled) :
    Leads job.Step work (SessionM.writeFuncs job) fun _ next => work.Wrote next := by
  refine Leads.bind (Leads.forM work.Wrote (.refl work) fun decl hDecl before hBefore => ?_)
    fun _ middle hMiddle => ?_
  · refine (Leads.asks job Does.global?).bind fun found same hSame => ?_
    obtain ⟨rfl, rfl⟩ := hSame
    cases hGlobal : same.session.program.global? job.id decl.name with
    | none => exact .fail _
    | some global =>
        obtain ⟨hHas, hSame⟩ := Program.Has.of_global? hGlobal
        refine (leads_writeFunc (hBefore.settled hSettled) (fun type hType => ?_)
          (.inl ⟨global, hHas, rfl, .inr ⟨decl, hDecl, hSame.symm⟩⟩) (.inl hDecl)).mono
            fun _ next hNext => hBefore.trans hNext
        exact .inl ⟨job.id, global, hHas, hType⟩
  · refine Leads.bind (Leads.get.bind fun now same hNow => .pure ⟨by rw [hNow.1], hNow.2⟩)
      fun methods same (hSame : methods =
        ((middle.session.program.module? job.id).map (·.methods)).getD [] ∧ same = middle) => ?_
    obtain ⟨hMethods, rfl⟩ := hSame
    refine Leads.forM work.Wrote hMiddle fun method hMethod before hBefore => ?_
    have hGiven := gives_of_method (hMethods ▸ hMethod)
    rw [hMiddle.program, ← hBefore.program] at hGiven
    unfold SessionM.writeMethod
    split
    · next decl hDecl =>
      refine (leads_writeFunc (hBefore.settled hSettled) (fun type hType => ?_) hGiven.2
        (.inr (List.mem_of_getElem? hDecl))).mono fun _ next hNext => hBefore.trans hNext
      rw [← Option.mem_some_iff.mp hType]
      exact hGiven.1
    · exact .fail _

/-! ## One module -/

/-- A module whose imports are built goes its own steps only. -/
theorem goes_compileOwn : job.Goes work (SessionM.compileOwn job) := by
  refine goes_buildTypes.bind fun _ _ => ?_
  refine Goes.bind (.forM fun decl hDecl _ => goes_buildConst hDecl) fun _ _ => ?_
  refine Goes.bind (.forM fun decl hDecl _ => goes_buildVar hDecl) fun _ _ => ?_
  refine Goes.bind (.forM fun decl hDecl _ => goes_buildFunc hDecl) fun _ _ => ?_
  refine (goes_buildMethods fun _ hDecl => hDecl).bind fun _ _ => ?_
  intro hSettled
  refine (leads_buildInits hSettled).bind fun init built hInit => ?_
  obtain ⟨hBuilt, hInit⟩ := hInit
  refine (leads_writeDeclarations hBuilt).bind fun _ declared hDeclared => ?_
  have hWriteInit : job.Goes declared (SessionM.writeInit job init) := by
    cases init with
    | none => exact Goes.pure
    | some routine =>
        intro hSettled
        obtain ⟨hLocals, hBody⟩ := hInit routine rfl
        refine (leads_write ?_).mono fun _ _ hNext => hNext.settled hSettled
        rw [← hLocals, ← hBody, ← hDeclared.inits]
        exact .inits hSettled
  refine hWriteInit.bind (fun _ last hLast => ?_) (hDeclared.settled hBuilt)
  exact (leads_writeFuncs hLast).mono fun _ _ hNext => hNext.settled hLast

/-! ## What steps keep -/

theorem touches_withValue (session : Session) (name : String) (value : GlobalValue) :
    job.Touches session (job.withValue session name value) :=
  .updateModule (·.setValue name value) fun _ => ⟨rfl, rfl⟩

/-- A step of a module touches no other module. -/
theorem Step.touches {next : Work} (h : job.Step work next) :
    job.Touches work.session next.session := by
  cases h with
  | enter decl handle =>
      refine Touches.trans ?_ (.updateModule (·.addGlobal (decl.toGlobal job.package handle))
        fun _ => ⟨rfl, rfl⟩)
      exact .of_program rfl rfl rfl rfl
  | note | init => exact (touches_withValue _ _ _).trans (.of_program rfl rfl rfl rfl)
  | type | const | var | func =>
      refine Touches.trans ?_ (touches_withValue _ _ _)
      exact .of_program rfl rfl rfl rfl
  | @method decl func routine record index =>
      have hTypes : job.Touches work.session { work.session with
          supply := routine.supply
          program := { work.session.program with
            types := work.session.program.types.addMethod record ⟨decl.name, .func func⟩ } } :=
        .of_program rfl rfl rfl rfl
      exact hTypes.trans (.updateModule (·.addMethod ⟨SessionM.methodName record decl.name,
        .func func, index, decl.span⟩) fun _ => ⟨rfl, rfl⟩)
  | begin => exact .refl job _
  | flush | declare | prototype | inits => exact touches_writing _ _
  | request | define =>
      refine Touches.trans ?_ (touches_writing _ _)
      exact .of_program rfl rfl rfl rfl

/-- A global after a step is one from before, perhaps with a value, or one that was entered. -/
theorem Step.has {next : Work} (h : job.Step work next)
    (hHas : next.session.program.Has id global) :
    (∃ old, work.session.program.Has id old ∧
      (global = old ∨ ∃ value, global = { old with value := some value })) ∨
    ∃ decl handle, global = Declaration.toGlobal job.package decl handle := by
  have hValue {session : Session} {name : String} {value : GlobalValue}
      (hSame : session.program.modules = work.session.program.modules)
      (hHas : (job.withValue session name value).program.Has id global) :
      ∃ old, work.session.program.Has id old ∧
        (global = old ∨ ∃ value, global = { old with value := some value }) := by
    obtain ⟨old, ⟨module, hModule, hMem⟩, hGiven⟩ := Program.has_setValue hHas
    refine ⟨old, ⟨module, ?_, hMem⟩, hGiven.imp_right fun hGiven => ⟨value, hGiven.2.2⟩⟩
    rw [Program.module?, ← hSame]
    exact hModule
  cases h with
  | enter decl handle =>
      rcases Program.has_addGlobal hHas with hOld | ⟨-, hNew⟩
      · exact .inl ⟨global, hOld, .inl rfl⟩
      · exact .inr ⟨decl, handle, hNew⟩
  | note | init => exact .inl (hValue rfl hHas)
  | type | const | var | func => exact .inl (hValue rfl hHas)
  | method =>
      obtain ⟨module', hModule', hMem⟩ := hHas
      rcases Program.of_module?_updateModule hModule' with ⟨-, module, hModule, rfl⟩ | ⟨-, hModule⟩
      · exact .inl ⟨global, ⟨module, hModule, hMem⟩, .inl rfl⟩
      · exact .inl ⟨global, ⟨module', hModule, hMem⟩, .inl rfl⟩
  | begin | flush | request | declare | prototype | inits | define =>
      exact .inl ⟨global, hHas, .inl rfl⟩

/-- What goes steps of a module touches no other module. -/
theorem touches_of_goes {α : Type} {action : SessionM α} {session after : Session} {value : α}
    (h : ∀ work, job.Goes work action) (hRun : action.exec session = (.ok value, after)) :
    job.Touches session after := by
  obtain ⟨last, rfl, hSteps, -⟩ := Leads.success (h ⟨session, .start session.supply, []⟩ rfl) hRun
  clear hRun
  induction hSteps with
  | refl => exact .refl job _
  | tail _ hLast ih => exact ih.trans hLast.touches

/-- A module that is known stays known. -/
theorem Known.step {next : Work} (h : job.Known work.session) (hStep : work.Step next) :
    job.Known next.session := by
  cases hStep with
  | @register name text file =>
      obtain ⟨module, hModule, hSame⟩ := h
      refine ⟨module, ?_, hSame⟩
      show (work.session.program.modules ++ [Module.ofFile name file])[job.id]? = some module
      rw [List.getElem?_append_left (List.getElem?_eq_some_iff.mp hModule).1]
      exact hModule
  | own _ hOwn => exact h.touches hOwn.touches
  | finish => exact h
  | share => exact h
  | includes => exact h

end Job

/-- A global after a step of a compilation is one from before or one that was entered. -/
theorem Work.Step.has {work next : Work} (h : work.Step next)
    (hHas : next.session.program.Has id global) :
    (∃ old, work.session.program.Has id old ∧
      (global = old ∨ ∃ value, global = { old with value := some value })) ∨
    ∃ package decl handle, global = Declaration.toGlobal package decl handle := by
  cases h with
  | register =>
      obtain ⟨module, hModule, hMem⟩ := hHas
      rcases Program.module?_register hModule with hModule | ⟨-, rfl⟩
      · exact .inl ⟨global, ⟨module, hModule, hMem⟩, .inl rfl⟩
      · cases hMem
  | own _ hOwn => exact (hOwn.has hHas).imp_right fun hNew => ⟨_, hNew⟩
  | finish | share | includes => exact .inl ⟨global, hHas, .inl rfl⟩

/-! ## Modules with their imports -/

variable {library : Library} {work : Work}

/-- An action that asks for a module. -/
abbrev SessionM.Proceeds (action : SessionM ModuleId) : Prop :=
  ∀ work : Work, work.Settled → Leads Work.Step work action fun _ next => next.Settled

/-- Where the compilation of a module goes on. -/
structure Job.Ongoing (job : Job) (work : Work) : Prop where
  known : job.Known work.session
  settled : work.Settled

/-- Steps of a known module are steps of the compilation. -/
theorem Job.Goes.proceeds (h : job.Goes work action) (hWork : job.Ongoing work) :
    Leads Work.Step work action fun _ next => job.Ongoing next :=
  (Leads.embed (fun work => job.Known work.session) hWork.known
    (fun _ _ hBefore hStep => ⟨.own hBefore hStep, hBefore.touches hStep.touches⟩)
    (h hWork.settled)).mono fun _ _ hAfter => ⟨hAfter.2, hAfter.1⟩

theorem Job.leads_buildImport
    (hImporter : ∀ name asking span, (importer name asking span).Proceeds) (decl : ImportDecl)
    (hWork : job.Ongoing work) :
    Leads Work.Step work (SessionM.buildImport importer job decl) fun _ next =>
      job.Ongoing next := by
  have hImport := (hImporter decl.name job.package decl.span work hWork.settled).embed
    (fun work => job.Known work.session) hWork.known
    fun _ _ hBefore hStep => ⟨hStep, hBefore.step hStep⟩
  refine hImport.bind fun target middle hMiddle => ?_
  refine Job.Goes.proceeds (.of_does (does_setValue decl.name (.module target))
    fun _ after hAfter => ?_) ⟨hMiddle.2, hMiddle.1⟩
  rw [hAfter]
  exact .note decl.name target

theorem Job.leads_compileJob (hImporter : ∀ name asking span, (importer name asking span).Proceeds)
    (hWork : job.Ongoing work) :
    Leads Work.Step work (SessionM.compileJob importer job) fun _ next => next.Settled := by
  rw [SessionM.compileJob_eq]
  refine (goes_declareAll.proceeds hWork).bind fun _ declared hDeclared => ?_
  refine Leads.bind (Leads.forM job.Ongoing hDeclared
    fun decl _ before hBefore => leads_buildImport hImporter decl hBefore)
      fun _ imported hImported => ?_
  exact (goes_compileOwn.proceeds hImported).mono fun _ _ hNext => hNext.settled

namespace SessionM

theorem proceeds_importWith {compile : String → String → SessionM ModuleId}
    (hCompile : ∀ name text, (compile name text).Proceeds) (name asking : String) (span : Span) :
    (importWith library compile name asking span).Proceeds := by
  intro work hSettled
  refine Leads.get.bind fun now same hNow => ?_
  rw [hNow.1, hNow.2]
  split
  · exact .pure hSettled
  · split
    · exact hCompile name _ work hSettled
    · exact .fail _
    · exact .fail _

/-- A source that is read is one that parses. -/
theorem leads_readSource (name text : String) :
    Leads Work.Step work (readSource name text) fun file next =>
      parse text = .ok file ∧ next = work := by
  unfold readSource
  split
  · next file hFile => exact .pure ⟨hFile, rfl⟩
  · exact .fail _
  · exact .fail _

theorem proceeds_compileWithin (depth : Nat) (name text : String) :
    (compileWithin library depth name text).Proceeds := by
  induction depth generalizing name text with
  | zero => exact fun work _ => .fail _
  | succ depth ih =>
      intro work hSettled
      refine Leads.get.bind fun now same hNow => ?_
      rw [hNow.1, hNow.2]
      split
      · exact .pure hSettled
      · next hNew =>
          refine (leads_readSource name text).bind fun file same hFile => ?_
          obtain ⟨hFile, rfl⟩ := hFile
          have hRegister : Leads Work.Step same (register name file) fun job next =>
              job.Ongoing next := by
            refine ⟨{ same with session := Job.registered same.session name file }, rfl,
              .single (.register hNew hFile), ⟨Module.ofFile name file, ?_, rfl, rfl⟩, hSettled⟩
            exact List.getElem?_concat_length
          refine hRegister.bind fun job middle hJob => ?_
          refine (Job.leads_compileJob (proceeds_importWith ih) hJob).bind fun _ last hLast => ?_
          exact (Leads.changed (.finish _) hLast).bind fun _ _ hNext => .pure hNext

theorem proceeds_loadBuiltin : (loadBuiltin library).Proceeds := by
  intro work hSettled
  refine (proceeds_importWith (proceeds_compileWithin _) _ _ _ work hSettled).bind
    fun id middle hMiddle => ?_
  exact (Leads.changed (.share id) hMiddle).bind fun _ _ hNext => .pure hNext

/-- The compilation of a program goes steps only. -/
theorem leads_compileProgram (withBuiltin : Bool) (text : String) (hSettled : work.Settled) :
    Leads Work.Step work (compileProgram library withBuiltin text) fun _ next =>
      next.Settled := by
  have hPreamble : Leads Work.Step work writePreamble fun _ next => next.Settled :=
    ⟨_, by simp [Session.writing], .single .includes, hSettled⟩
  refine hPreamble.bind fun _ middle hMiddle => ?_
  cases withBuiltin with
  | false =>
      exact (proceeds_compileWithin _ mainName text middle hMiddle).bind
        fun _ _ hNext => .pure hNext
  | true =>
      refine (proceeds_loadBuiltin middle hMiddle).bind fun _ loaded hLoaded => ?_
      exact (proceeds_compileWithin _ mainName text loaded hLoaded).bind
        fun _ _ hNext => .pure hNext

end SessionM

/-- What holds at the start of a compilation and is kept by every step holds in the end. -/
theorem Work.Passes.keeps {first last : Work} (inv : Work → Prop) (h : first.Passes last)
    (hFirst : inv first) (hStep : ∀ before after, inv before → before.Step after → inv after) :
    inv last := by
  induction h with
  | refl => exact hFirst
  | tail _ hLast ih => exact hStep _ _ ih hLast

/-- The work that a compilation begins with. -/
def Work.start : Work := ⟨.empty, .start .empty, []⟩

/-- A compilation that succeeds has gone steps from the start. -/
theorem Work.passes_of_compileProgram {withBuiltin : Bool} {text : String}
    (h : (SessionM.compileProgram library withBuiltin text).exec .empty = (.ok (), session)) :
    ∃ last : Work, last.session = session ∧ Work.start.Passes last := by
  have hLeads : Leads Work.Step Work.start (SessionM.compileProgram library withBuiltin text) _ :=
    SessionM.leads_compileProgram withBuiltin text rfl
  obtain ⟨last, hLast, hSteps, -⟩ := hLeads.success h
  exact ⟨last, hLast, hSteps⟩

end GoToC
