import GoToC.Proofs.Session.Steps

/-!
# What is written for a module

Every item of the output is there for one declaration of a module, for its initializers, or
for a function pointer type that one of them needs. What each step of writing a module adds
is told by marks: one for the declaration of each type, variable, function and method, and one
for the definition of each function and method.
-/

namespace GoToC

variable {α : Type} {items : List α} {f : α → SessionM PUnit} {module : Module} {item : CItem}

/-- What an item of the output is there for. -/
inductive Mark where
  | type (cName : String)
  | variable (cName : String)
  | prototype (cName : String)
  | init (package : String)
  | native (cName : String)
  | definition (cName : String)
  deriving Repr, DecidableEq

/-- Headers and function pointer types are there for no declaration of their own. -/
def CItem.mark? : CItem → Option Mark
  | .includes => none
  | .funcTypedef _ _ => none
  | .typeAlias _ name => some (.type name)
  | .globalVar _ name => some (.variable name)
  | .declared prototype => some (.prototype prototype.name)
  | .native prototype => some (.native prototype.name)
  | .routine (.func prototype) _ _ => some (.definition prototype.name)
  | .routine (.init package) _ _ => some (.init package)

/-- How a global of a kind is declared in C; imports and constants are not. -/
def GlobalKind.marks : GlobalKind → String → List Mark
  | .type, cName => [.type cName]
  | .var, cName => [.variable cName]
  | .func, cName => [.prototype cName]
  | _, _ => []

/-- How a global is declared in C, if it is built. -/
def Global.marks (global : Global) : List Mark :=
  if global.type?.isSome then global.kind.marks global.cName else []

/-- How a function or method is defined in C. -/
def FuncDecl.mark (decl : FuncDecl) (cName : String) : Mark :=
  if decl.body.isNone then .native cName else .definition cName

/-- Where an item comes from that is written after the initializers of a module are built. -/
def Job.Derives (job : Job) (program : Program) : CItem → Prop
  | .routine (.func _) _ body => ∃ func stmts span supply routine,
      (compileBody func stmts span).exec ⟨program, job.id, job.package, none, none, none⟩
          (Routine.start supply) = (.ok (), routine) ∧
        body = routine.body.toList
  | .routine (.init _) _ _ => False
  | _ => True

/-- A declaration that has no body or one that a module compiles. -/
def FuncDecl.Compiled (job : Job) (decl : FuncDecl) : Prop :=
  ∀ body ∈ decl.body, ∃ func program supply routine,
    (compileBody func body decl.span).exec ⟨program, job.id, job.package, none, none, none⟩
      (Routine.start supply) = (.ok (), routine)

/-- A session that differs from another one by numbers and by items with the given marks. -/
structure Job.Adds (job : Job) (before : Session) (marks : List Mark) (after : Session) : Prop where
  program : after.program = before.program
  items : ∃ items, after.output.toList = before.output.toList ++ items ∧
    items.filterMap CItem.mark? = marks ∧ ∀ item ∈ items, job.Derives before.program item

theorem CItem.IsTypedef.derives (h : item.IsTypedef) (job : Job) (program : Program) :
    item.mark? = none ∧ job.Derives program item := by
  obtain ⟨number, prototype, rfl⟩ := h
  exact ⟨rfl, trivial⟩

namespace SessionM

/-- Writes the definition of a pointer type, if there is one to write. -/
def writeHandedOut (answer : Faulty (Option CItem)) : SessionM Unit := do
  match ← lift answer with
  | some item => write item
  | none => return

/-- The numbers are taken first; then the definition is written, if there is one. -/
theorem writeTypedef_exec (type : Ty) (session : Session) : (writeTypedef type).exec session =
      (writeHandedOut (session.supply.typedefs.request session.program.types type).1).exec
        { session with supply := { session.supply with
          typedefs := (session.supply.typedefs.request session.program.types type).2 } } := rfl

/-- Writes a function or method that has a body. -/
def writeBody (job : Job) (func : FuncType Ty) (prototype : Prototype) (body : List Stmt)
    (span : Span) : SessionM Unit := do
  let (_, routine) ← routine job (compileBody func body span)
  routine.typedefs.forM write
  write (.routine (.func prototype) routine.locals.toList routine.body.toList)

/-- Writes a function or method whose type is known. -/
def writeBuilt (job : Job) (cName : String) (decl : FuncDecl) : Option (FuncType Ty) → SessionM Unit
  | none => throw (.fault (.funcNotBuilt cName))
  | some func => do
      let prototype ← types (·.prototype func cName)
      match decl.body with
      | none => write (.native prototype)
      | some body => writeBody job func prototype body decl.span

end SessionM

namespace Job

variable {job : Job} {session first second third : Session} {marks marks' : List Mark}

namespace Adds

theorem refl (job : Job) (session : Session) : job.Adds session [] session :=
  ⟨rfl, [], by simp⟩

theorem trans (h : job.Adds first marks second) (h' : job.Adds second marks' third) :
    job.Adds first (marks ++ marks') third where
  program := h'.program.trans h.program
  items := by
    obtain ⟨items, hOutput, hMarks, hItems⟩ := h.items
    obtain ⟨items', hOutput', hMarks', hItems'⟩ := h'.items
    refine ⟨items ++ items', ?_, ?_, ?_⟩
    · rw [hOutput', hOutput, List.append_assoc]
    · rw [List.filterMap_append, hMarks, hMarks']
    · intro item hItem
      rcases List.mem_append.mp hItem with hItem | hItem
      · exact hItems item hItem
      · rw [← h.program]
        exact hItems' item hItem

/-- What was added has a part without marks. -/
theorem trans_nil (h : job.Adds first marks second) (h' : job.Adds second [] third) :
    job.Adds first marks third := by
  simpa using h.trans h'

theorem nil_trans (h : job.Adds first [] second) (h' : job.Adds second marks third) :
    job.Adds first marks third := h.trans h'

theorem withSupply (session : Session) (supply : Supply) :
    job.Adds session [] { session with supply := supply } :=
  ⟨rfl, [], by simp⟩

end Adds

/-! ## Single items -/

theorem does_push (item : CItem) : Does job session (SessionM.write item) fun _ after =>
      after = { session with output := session.output.push item } :=
  .changed ⟨fun _ _ => rfl, rfl, rfl, rfl, rfl, [item], Array.toList_push⟩

theorem does_write (h : job.Derives session.program item) :
    Does job session (SessionM.write item) fun _ after =>
      job.Adds session item.mark?.toList after := by
  refine (does_push item).mono fun _ after hAfter => ?_
  rw [hAfter]
  refine ⟨rfl, [item], Array.toList_push, ?_, by simpa using h⟩
  cases hMark : item.mark? <;> simp [hMark]

/-- A loop that adds the marks of each of its items, and is done only if each of them is fine. -/
theorem does_forM_fine {marksOf : α → List Mark} {fine : α → Prop}
    (hStep : ∀ item ∈ items, ∀ before, before.program = session.program →
      Does job before (f item) fun _ after => job.Adds before (marksOf item) after ∧ fine item) :
    Does job session (items.forM f) fun _ after =>
      job.Adds session (items.flatMap marksOf) after ∧ ∀ item ∈ items, fine item := by
  induction items generalizing session with
  | nil => exact .pure ⟨.refl job session, nofun⟩
  | cons item rest ih =>
      refine (hStep item List.mem_cons_self session rfl).bind fun _ middle hMiddle => ?_
      have hRest : Does job middle (rest.forM f) fun _ after =>
          job.Adds middle (rest.flatMap marksOf) after ∧ ∀ item ∈ rest, fine item :=
        ih fun other hOther before hBefore =>
          hStep other (List.mem_cons_of_mem item hOther) before (hBefore.trans hMiddle.1.program)
      exact hRest.mono fun _ after hAfter =>
        ⟨hMiddle.1.trans hAfter.1, List.forall_mem_cons.mpr ⟨hMiddle.2, hAfter.2⟩⟩

/-- A loop that adds the marks of each of its items. -/
theorem does_forM {marksOf : α → List Mark}
    (hStep : ∀ item ∈ items, ∀ before, before.program = session.program →
      Does job before (f item) fun _ after => job.Adds before (marksOf item) after) :
    Does job session (items.forM f) fun _ after =>
      job.Adds session (items.flatMap marksOf) after := by
  have hFine : Does job session (items.forM f) fun _ after =>
      job.Adds session (items.flatMap marksOf) after ∧ ∀ item ∈ items, True :=
    does_forM_fine fun item hItem before hBefore =>
      (hStep item hItem before hBefore).mono fun _ _ hAfter => ⟨hAfter, trivial⟩
  exact hFine.mono fun _ _ hAfter => hAfter.1

/-- A loop over items that are there for no declaration. -/
theorem does_forM_nil (hStep : ∀ item ∈ items, ∀ before,
      Does job before (f item) fun _ after => job.Adds before [] after) :
    Does job session (items.forM f) fun _ after => job.Adds session [] after := by
  have hLoop : Does job session (items.forM f) fun _ after =>
      job.Adds session (items.flatMap fun _ => []) after :=
    does_forM fun item hItem before _ => hStep item hItem before
  have hNil : (items.flatMap fun _ => []) = ([] : List Mark) := by simp
  rwa [hNil] at hLoop

/-- The definitions that a routine handed out. -/
theorem does_writeTypedefItems {routine : Routine} (h : routine.Defines) :
    Does job session (routine.typedefs.forM SessionM.write) fun _ after =>
      job.Adds session [] after := by
  obtain ⟨supply, scopes, locals, ⟨typedefs⟩, body⟩ := routine
  rw [Array.forM_eq_forM, List.forM_toArray]
  refine does_forM_nil fun item hItem before => ?_
  have hDerives := (h item hItem).derives job before.program
  have hWrite := does_write hDerives.2
  rw [hDerives.1] at hWrite
  exact hWrite

/-! ## Function pointer types -/

theorem does_writeTypedef (type : Ty) :
    Does job session (SessionM.writeTypedef type) fun _ after => job.Adds session [] after := by
  let request := session.supply.typedefs.request session.program.types type
  let next : Session := { session with supply := { session.supply with typedefs := request.2 } }
  have hNext : job.Adds session [] next := .withSupply session _
  show Does job session (set next >>= fun _ => SessionM.writeHandedOut request.1) _
  refine (Does.set (touches_supply session _)).bind fun _ middle hMiddle => ?_
  rw [hMiddle]
  refine (Does.lift _).bind fun found last hFound => ?_
  rw [hFound.2]
  split
  · next item =>
      have hDerives := (TypedefSupply.isTypedef_request hFound.1).derives job next.program
      refine (does_write hDerives.2).mono fun _ after hAfter => hNext.trans_nil ?_
      rwa [hDerives.1] at hAfter
  · exact .pure hNext

theorem does_writeTypedefsWithin (levels : Nat) (type : Ty) :
    Does job session (SessionM.writeTypedefsWithin levels type) fun _ after =>
      job.Adds session [] after := by
  induction levels generalizing session type with
  | zero => exact .fail _
  | succ levels ih =>
      refine (Does.types _).bind fun found last hFound => ?_
      rw [hFound.2]
      split
      · exact .pure (.refl job session)
      · next func =>
          refine Does.bind (does_forM_nil fun member _ before => ih member.type)
            fun _ middle hMiddle => ?_
          exact (does_writeTypedef type).mono fun _ after hAfter => hMiddle.trans_nil hAfter

theorem does_writeTypedefs (type : Ty) :
    Does job session (SessionM.writeTypedefs type) fun _ after => job.Adds session [] after := by
  refine Does.get.bind fun now last hNow => ?_
  rw [hNow.1, hNow.2]
  exact does_writeTypedefsWithin _ type

/-! ## Declarations -/

theorem does_declareFunc (cName : String) (type : Ty) :
    Does job session (SessionM.declareFunc cName type) fun _ after =>
      job.Adds session [.prototype cName] after := by
  refine (Does.types _).bind fun found last hFound => ?_
  rw [hFound.2]
  split
  · exact .fail _
  · next func =>
      refine Does.bind (does_forM_nil fun member _ before => does_writeTypedefs member.type)
        fun _ middle hMiddle => ?_
      refine (Does.types _).bind fun prototype last hPrototype => ?_
      rw [hPrototype.2]
      have hName := TypeStore.prototype_name hPrototype.1
      refine Does.mono (does_write trivial) fun _ after hAfter => hMiddle.nil_trans ?_
      rw [← hName]
      exact hAfter

/-- A type or variable is declared after the pointer types that it is made of. -/
theorem does_declareTyped (type : Ty) {item : String → CItem} {mark : Mark}
    (hItem : ∀ cType, (item cType).mark? = some mark)
    (hDerives : ∀ cType program, job.Derives program (item cType)) :
    Does job session (do
      SessionM.writeTypedefs type
      SessionM.write (item (← SessionM.types (·.cType type)))) fun _ after =>
        job.Adds session [mark] after := by
  refine (does_writeTypedefs type).bind fun _ middle hMiddle => ?_
  refine (Does.types _).bind fun cType last hLast => ?_
  rw [hLast.2]
  refine (does_write (hDerives cType _)).mono fun _ after hAfter => hMiddle.nil_trans ?_
  rwa [hItem cType] at hAfter

theorem does_writeGlobal (global : Global) :
    Does job session (SessionM.writeGlobal global) fun _ after =>
      job.Adds session global.marks after := by
  unfold SessionM.writeGlobal Global.marks
  cases global.type? with
  | none => exact .pure (.refl job session)
  | some type =>
      cases global.kind with
      | «import» => exact .pure (.refl job session)
      | const => exact .pure (.refl job session)
      | type => exact does_declareTyped type (fun _ => rfl) fun _ _ => trivial
      | var => exact does_declareTyped type (fun _ => rfl) fun _ _ => trivial
      | func => exact does_declareFunc global.cName type

/-- All declarations of a module. -/
theorem does_writeDeclarations (h : session.program.module? job.id = some module) :
    Does job session (SessionM.writeDeclarations job.id) fun _ after =>
      job.Adds session (module.globals.flatMap Global.marks ++
        module.methods.map fun method => .prototype method.cName) after := by
  refine Does.get.bind fun now last hNow => ?_
  rw [hNow.1, hNow.2, h]
  refine Does.bind (does_forM fun global _ before _ => does_writeGlobal global)
    fun _ middle hMiddle => ?_
  refine Does.get.bind fun now last hNow => ?_
  rw [hNow.1, hNow.2, hMiddle.program, h]
  refine Does.mono (does_forM fun method _ before _ => does_declareFunc method.cName method.type)
    fun _ after hAfter => ?_
  rw [← List.map_eq_flatMap] at hAfter
  exact hMiddle.trans hAfter

/-! ## Definitions -/

theorem does_writeFunc (cName : String) (type : Option Ty) (decl : FuncDecl) :
    Does job session (SessionM.writeFunc job cName type decl) fun _ after =>
      job.Adds session [decl.mark cName] after ∧ decl.Compiled job := by
  have hFound (found : Option (FuncType Ty)) :
      Does job session (SessionM.writeBuilt job cName decl found) fun _ after =>
        job.Adds session [decl.mark cName] after ∧ decl.Compiled job := by
    cases found with
    | none => exact .fail _
    | some func =>
        refine (Does.types _).bind fun prototype last hPrototype => ?_
        rw [hPrototype.2]
        have hName := TypeStore.prototype_name hPrototype.1
        unfold FuncDecl.mark FuncDecl.Compiled
        cases decl.body with
        | none =>
            refine Does.mono (does_write trivial) fun _ after hAfter => ⟨?_, nofun⟩
            rw [← hName]
            exact hAfter
        | some body =>
            refine (does_routine _).bind fun run middle hRun => ?_
            obtain ⟨⟨⟩, routine⟩ := run
            obtain ⟨hRun, rfl⟩ := hRun
            have hDefines : routine.Defines :=
              compileBody_defines hRun (by simp [Routine.Defines, Routine.start])
            refine (does_writeTypedefItems hDefines).bind fun _ last hLast => ?_
            have hDerives : job.Derives last.program
                (.routine (.func prototype) routine.locals.toList routine.body.toList) := by
              rw [hLast.program]
              exact ⟨func, body, decl.span, session.supply, routine, hRun, rfl⟩
            refine (does_write hDerives).mono fun _ after hAfter => ⟨?_, ?_⟩
            · rw [← hName]
              exact ((Adds.withSupply session routine.supply).trans_nil hLast).nil_trans hAfter
            · rintro _ ⟨⟩
              exact ⟨func, session.program, session.supply, routine, hRun⟩
  unfold SessionM.writeFunc
  cases type with
  | none => exact hFound none
  | some type =>
      refine (Does.types _).bind fun found last hLast => ?_
      rw [hLast.2]
      exact hFound found

/-- How a method of a module is defined in C. -/
def methodMarks (job : Job) (method : Method) : List Mark :=
  (job.file.methods[method.decl]?.map fun decl => decl.mark method.cName).toList

theorem does_writeMethod (method : Method) :
    Does job session (SessionM.writeMethod job method) fun _ after =>
      job.Adds session (job.methodMarks method) after ∧
        ∀ decl ∈ job.file.methods[method.decl]?, decl.Compiled job := by
  unfold SessionM.writeMethod methodMarks
  cases job.file.methods[method.decl]? with
  | none => exact .fail _
  | some decl =>
      refine (does_writeFunc method.cName (some method.type) decl).mono fun _ after hAfter =>
        ⟨hAfter.1, ?_⟩
      rintro _ ⟨⟩
      exact hAfter.2

theorem does_writeDeclaredFunc (hModule : session.program.module? job.id = some module)
    (hNames : ∀ global ∈ module.globals, global.cName = Declaration.cName job.package global.name)
    (decl : FuncDecl) :
    Does job session (SessionM.writeDeclaredFunc job decl) fun _ after =>
      job.Adds session [decl.mark (Declaration.cName job.package decl.name)] after ∧
        decl.Compiled job := by
  refine Does.global?.bind fun found last hFound => ?_
  rw [hFound.1, hFound.2]
  split
  · next global hGlobal =>
      have hGet : module.get? decl.name = some global := by
        rw [Program.global?, hModule] at hGlobal
        exact hGlobal
      have hMem : global ∈ module.globals := List.mem_of_find?_eq_some hGet
      have hName : global.name = decl.name := by simpa using List.find?_some hGet
      rw [← hName, ← hNames global hMem]
      exact does_writeFunc global.cName global.type? decl
  · exact .fail _

/-- All definitions of a module. -/
theorem does_writeFuncs (hModule : session.program.module? job.id = some module)
    (hNames : ∀ global ∈ module.globals, global.cName = Declaration.cName job.package global.name) :
    Does job session (SessionM.writeFuncs job) fun _ after =>
      job.Adds session
        (job.file.funcs.map (fun decl => decl.mark (Declaration.cName job.package decl.name)) ++
          module.methods.flatMap job.methodMarks) after ∧
        (∀ decl ∈ job.file.funcs, decl.Compiled job) ∧
        ∀ method ∈ module.methods, ∀ decl ∈ job.file.methods[method.decl]?, decl.Compiled job := by
  refine Does.bind (does_forM_fine fun decl _ before hBefore =>
    does_writeDeclaredFunc (hBefore ▸ hModule) hNames decl) fun _ middle hMiddle => ?_
  obtain ⟨hMiddle, hFuncs⟩ := hMiddle
  rw [← List.map_eq_flatMap] at hMiddle
  refine Does.get.bind fun now last hNow => ?_
  rw [hNow.1, hNow.2, hMiddle.program, hModule]
  exact Does.mono (does_forM_fine fun method _ before _ => does_writeMethod method)
    fun _ after hAfter => ⟨hMiddle.trans hAfter.1, hFuncs, hAfter.2⟩

end Job

end GoToC
