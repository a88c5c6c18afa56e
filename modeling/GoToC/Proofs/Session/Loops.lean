import GoToC.Proofs.Routine.Requests
import GoToC.Proofs.Routine.Strays
import GoToC.Proofs.Session.Compiled
import GoToC.Proofs.Session.Locals

/-!
# Loops of a whole program

The serial numbers of a compilation are taken one after another by all its modules, so the loops
of all routines have different numbers, and no label is defined twice in the output. In each
routine the jumps are those of the source that it is compiled from.
-/

namespace GoToC

variable {α : Type} {routine : Routine} {work next : Work} {item : CItem} {job : Job}
  {action : RoutineM α} {env : Env} {value : α} {items : List CItem}

open CStmt

/-- The numbers of the loops of an item. -/
def CItem.loops : CItem → List Nat
  | .routine _ _ body => CStmt.loops body
  | _ => []

/-- The labels that an item defines. -/
def CItem.labels : CItem → List String
  | .routine _ _ body => CStmt.labels body
  | _ => []

theorem CItem.labels_eq (item : CItem) : item.labels = item.loops.flatMap labelsOf := by
  cases item <;> rfl

/-- An item that is a routine. -/
def CItem.IsRoutine (item : CItem) : Prop := ∃ heading locals body,
    item = .routine heading locals body

theorem CItem.IsTypedef.not_isRoutine (h : item.IsTypedef) : ¬ item.IsRoutine := by
  obtain ⟨number, prototype, rfl⟩ := h
  rintro ⟨_, _, _, ⟨⟩⟩

theorem CItem.loops_of_not_isRoutine (h : ¬ item.IsRoutine) : item.loops = [] := by
  cases item with
  | routine heading locals body => exact absurd ⟨heading, locals, body, rfl⟩ h
  | _ => rfl

/-- A function or method that a module of a program declares. -/
def Program.Declares (program : Program) (decl : FuncDecl) : Prop :=
  ∃ id module, program.module? id = some module ∧
    (decl ∈ module.file.funcs ∨ decl ∈ module.file.methods)

/-- How a routine under a heading jumps: the initializers of a module not at all, and a function
or method like the body that it is compiled from. -/
def Heading.Jumps (program : Program) (body : List CStmt) : Heading → Prop
  | .init _ => outlineAll body = [] ∧ CStmt.labels body = []
  | .func prototype => ∃ decl source func names, program.Declares decl ∧ decl.body = some source ∧
      decl.WrittenAs func source prototype names body ∧ JumpsLike source body

/-- A program that declares all that another one does. -/
def Program.Retains (before after : Program) : Prop :=
  ∀ decl, before.Declares decl → after.Declares decl

theorem Program.Retains.of_modules {before after : Program} (h : after.modules = before.modules) :
    before.Retains after := by
  rintro decl ⟨id, module, hModule, hDecl⟩
  exact ⟨id, module, by rwa [Program.module?, h], hDecl⟩

theorem Job.Touches.retains {before after : Session} (h : job.Touches before after) :
    before.program.Retains after.program := by
  rintro decl ⟨id, module, hModule, hDecl⟩
  obtain ⟨module', hModule', hFile, -⟩ := (Session.Gains.of_touches h).modules id module hModule
  exact ⟨id, module', hModule', hFile ▸ hDecl⟩

theorem Heading.Jumps.mono {before after : Program} (h : before.Retains after) {heading : Heading}
    {body : List CStmt} (hJumps : heading.Jumps before body) : heading.Jumps after body := by
  cases heading with
  | init package => exact hJumps
  | func prototype =>
      obtain ⟨decl, source, func, names, hDecl, hSource⟩ := hJumps
      exact ⟨decl, source, func, names, h decl hDecl, hSource⟩

/-! ## What holds at every point -/

/-- The initializers neither loop nor jump, and hand out definitions of types only. -/
structure Routine.Straight (routine : Routine) : Prop where
  flat : ∀ stmt ∈ routine.body.toList, stmt.isFlat = true
  defines : routine.Defines

theorem Routine.Straight.start (supply : Supply) : (start supply).Straight := by
  refine ⟨?_, ?_⟩
  · simp [Routine.start]
  · simp [Routine.Defines, Routine.start]

/-- Expressions add to initializers what may stand there. -/
theorem Routine.Straight.run {limits : Limits} (hComposed : Composed .expr limits action)
    {after : Routine} (hRun : action.exec env routine = (.ok value, after)) (h : routine.Straight) :
    after.Straight := by
  obtain ⟨⟨stmts, hStmts, hFlat⟩, -⟩ := hComposed.appended_flat rfl hRun
  refine ⟨fun stmt hStmt => ?_, hComposed.defines hRun h.defines⟩
  rw [hStmts] at hStmt
  exact (List.mem_append.mp hStmt).elim (h.flat stmt) (hFlat stmt)

/-- Straight statements have neither loops nor jumps. -/
theorem Routine.Straight.silent (h : routine.Straight) :
    outlineAll routine.body.toList = [] ∧ CStmt.loops routine.body.toList = [] := by
  have hOutlined : Outlined none 0 0 [] routine.body.toList := .flat h.flat (Nat.le_refl 0)
  refine ⟨hOutlined.outline, List.eq_nil_iff_forall_not_mem.mpr fun number hNumber => ?_⟩
  obtain ⟨hLess, hLe⟩ := hOutlined.counted.bounds number hNumber
  exact Nat.not_lt_of_le hLe hLess

/-- The loops in the output have numbers that ascend, and its routines jump as they should. -/
structure Work.Numbers (work : Work) : Prop where
  ascending : (work.session.output.toList.flatMap CItem.loops).Pairwise (· < ·)
  bounds : ∀ number ∈ work.session.output.toList.flatMap CItem.loops,
    number ≤ work.session.supply.serial
  inits : work.inits.Straight
  jumps : ∀ heading locals body, .routine heading locals body ∈ work.session.output.toList →
    heading.Jumps work.session.program body

namespace Work.Numbers

variable {work next : Work}

/-- Items that are written may take the numbers after those that were taken before. -/
theorem write (h : work.Numbers)
    (hOutput : next.session.output.toList = work.session.output.toList ++ items)
    (hSerial : work.session.supply.serial ≤ next.session.supply.serial)
    (hAscending : (items.flatMap CItem.loops).Pairwise (· < ·))
    (hBounds : ∀ number ∈ items.flatMap CItem.loops,
      work.session.supply.serial < number ∧ number ≤ next.session.supply.serial)
    (hInits : next.inits.Straight) (hRetains : work.session.program.Retains next.session.program)
    (hJumps : ∀ heading locals body, .routine heading locals body ∈ items →
      heading.Jumps next.session.program body) : next.Numbers where
  ascending := by
    rw [hOutput, List.flatMap_append, List.pairwise_append]
    refine ⟨h.ascending, hAscending, fun number hNumber other hOther => ?_⟩
    exact Nat.lt_of_le_of_lt (h.bounds number hNumber) (hBounds other hOther).1
  bounds number hNumber := by
    rw [hOutput, List.flatMap_append, List.mem_append] at hNumber
    rcases hNumber with hNumber | hNumber
    · exact Nat.le_trans (h.bounds number hNumber) hSerial
    · exact (hBounds number hNumber).2
  inits := hInits
  jumps heading locals body hItem := by
    rw [hOutput] at hItem
    rcases List.mem_append.mp hItem with hItem | hItem
    · exact (h.jumps heading locals body hItem).mono hRetains
    · exact hJumps heading locals body hItem

/-- Items that are no routines take no numbers. -/
theorem write_others (h : work.Numbers)
    (hOutput : next.session.output.toList = work.session.output.toList ++ items)
    (hItems : ∀ item ∈ items, ¬ item.IsRoutine)
    (hSerial : work.session.supply.serial ≤ next.session.supply.serial)
    (hInits : next.inits.Straight) (hRetains : work.session.program.Retains next.session.program) :
    next.Numbers := by
  have hNone : items.flatMap CItem.loops = [] :=
    List.flatMap_eq_nil_iff.mpr fun item hItem => CItem.loops_of_not_isRoutine (hItems item hItem)
  refine h.write hOutput hSerial (hNone ▸ .nil) (by simp [hNone]) hInits hRetains ?_
  exact fun heading locals body hItem => absurd ⟨heading, locals, body, rfl⟩ (hItems _ hItem)

/-- Nothing is written. -/
theorem keep (h : work.Numbers) (hOutput : next.session.output = work.session.output)
    (hSerial : work.session.supply.serial ≤ next.session.supply.serial)
    (hInits : next.inits.Straight)
    (hRetains : work.session.program.Retains next.session.program) : next.Numbers := by
  have hNothing : next.session.output.toList = work.session.output.toList ++ [] := by
    rw [hOutput, List.append_nil]
  exact h.write_others hNothing (by simp) hSerial hInits hRetains

theorem start : Work.start.Numbers where
  ascending := .nil
  bounds := by simp [Work.start, Session.empty]
  inits := .start _
  jumps := by simp [Work.start, Session.empty]

end Work.Numbers

theorem Composed.serial_le (h : Composed .expr .any action) {supply : Supply}
    (hRun : action.exec env (.start supply) = (.ok value, routine)) :
    supply.serial ≤ routine.supply.serial :=
  (h.advances hRun).serial

/-! ## Steps -/

theorem Job.Step.numbers (h : work.Numbers) (hKnown : job.Known work.session)
    (hStep : job.Step work next) : next.Numbers := by
  have hRetains : work.session.program.Retains next.session.program := hStep.touches.retains
  cases hStep with
  | enter | note => exact h.keep rfl (Nat.le_refl _) h.inits hRetains
  | type _ hRun =>
      exact h.keep rfl ((compileNamedType_composed _ _ _).serial_le hRun) h.inits hRetains
  | const _ hRun =>
      exact h.keep rfl ((value_composed .expr _).serial_le hRun) h.inits hRetains
  | var _ _ hRun =>
      exact h.keep rfl ((type_composed .expr _).serial_le hRun) h.inits hRetains
  | func _ hRun | method _ _ hRun =>
      exact h.keep rfl ((compileSignature_composed _ _ _).serial_le hRun) h.inits hRetains
  | begin => exact h.keep rfl (Nat.le_refl _) (.start _) hRetains
  | @init decl init value middle last type global _ _ hRun _ hStore =>
      have hValue : Composed .expr .any (operand init).value := value_composed .expr init
      have hStored : Composed .expr .any (store decl type value global.cName) :=
        store_composed _ _ _ _
      have hBefore : Routine.Straight { work.inits with supply := work.session.supply } :=
        ⟨h.inits.flat, h.inits.defines⟩
      exact h.keep rfl (Nat.le_trans (hValue.advances hRun).serial (hStored.advances hStore).serial)
        (.run hStored hStore (.run hValue hRun hBefore)) hRetains
  | flush =>
      refine h.write_others (Session.toList_writing _ _) (fun item hItem => ?_) (Nat.le_refl _)
        ⟨h.inits.flat, by simp [Routine.Defines]⟩ hRetains
      exact (h.inits.defines item hItem).not_isRoutine
  | @request type typedefs item hRequest =>
      refine h.write_others (Session.toList_writing _ _) (fun found hFound => ?_) (Nat.le_refl _)
        h.inits hRetains
      rw [Option.mem_toList.mp hFound] at hRequest
      exact (TypedefSupply.isTypedef_request (congrArg Prod.fst hRequest)).not_isRoutine
  | declare _ _ _ _ hItem | prototype _ hItem =>
      refine h.write_others (Session.toList_writing _ _) (fun other hOther => ?_) (Nat.le_refl _)
        h.inits hRetains
      rw [List.mem_singleton.mp hOther]
      rcases hItem with rfl | rfl <;> rintro ⟨_, _, _, ⟨⟩⟩
  | inits =>
      obtain ⟨hOutline, hLoops⟩ := h.inits.silent
      have hNone : [CItem.routine (.init job.package) work.inits.locals.toList
          work.inits.body.toList].flatMap CItem.loops = [] :=
        List.flatMap_eq_nil_iff.mpr fun item hItem => by
          rw [List.mem_singleton.mp hItem]; exact hLoops
      refine h.write (Session.toList_writing _ _) (Nat.le_refl _) (hNone ▸ .nil) (by simp [hNone])
        h.inits hRetains fun heading locals body hItem => ?_
      cases List.mem_singleton.mp hItem
      exact ⟨hOutline, by rw [CStmt.labels, hLoops]; rfl⟩
  | @define decl type func name prototype body routine hSettled hDecl hBody _ _ hPrototype hRun =>
      have hOutlined := compileBody_lays rfl hRun
      have hDefines : routine.Defines := compileBody_defines hRun (Routine.Straight.start _).defines
      have hLoops : (routine.typedefs.toList ++ [CItem.routine (.func prototype)
          routine.locals.toList routine.body.toList]).flatMap CItem.loops =
            CStmt.loops routine.body.toList := by
        have hNone : routine.typedefs.toList.flatMap CItem.loops = [] :=
          List.flatMap_eq_nil_iff.mpr fun item hItem =>
            CItem.loops_of_not_isRoutine (hDefines item hItem).not_isRoutine
        rw [List.flatMap_append, hNone, List.flatMap_singleton]
        rfl
      refine h.write (Session.toList_writing _ _) hOutlined.counted.le ?_ ?_ h.inits hRetains
        fun heading locals stmts hItem => ?_
      · rw [hLoops]
        exact hOutlined.counted.ascending
      · rw [hLoops]
        exact hOutlined.counted.bounds
      · rcases List.mem_append.mp hItem with hItem | hItem
        · exact absurd ⟨_, _, _, rfl⟩ (hDefines _ hItem).not_isRoutine
        · cases List.mem_singleton.mp hItem
          obtain ⟨module, hModule, -, hFile⟩ := hKnown
          exact ⟨decl, body, func, _, hRetains decl ⟨job.id, module, hModule, hFile ▸ hDecl⟩, hBody,
            ⟨name, _, _, routine, hPrototype, hRun, rfl, rfl⟩, hOutlined.jumpsLike⟩

theorem Work.Numbers.step (h : work.Numbers) (hStep : work.Step next) : next.Numbers := by
  cases hStep with
  | register =>
      refine h.keep rfl (Nat.le_refl _) h.inits ?_
      rintro decl ⟨id, module, hModule, hDecl⟩
      have hLess := (List.getElem?_eq_some_iff.mp hModule).1
      exact ⟨id, module, (List.getElem?_append_left hLess).trans hModule, hDecl⟩
  | own hKnown hOwn => exact hOwn.numbers h hKnown
  | finish | share => exact h.keep rfl (Nat.le_refl _) h.inits (.of_modules rfl)
  | includes =>
      refine h.write_others (Session.toList_writing _ _) (fun item hItem => ?_) (Nat.le_refl _)
        h.inits (.of_modules rfl)
      rw [List.mem_singleton.mp hItem]
      rintro ⟨_, _, _, ⟨⟩⟩

/-! ## The whole output -/

/-- The labels that items define, if the numbers of their loops ascend. -/
theorem Work.Numbers.nodup_labels (h : work.Numbers) :
    (work.session.output.toList.flatMap CItem.labels).Nodup := by
  have hLabels : work.session.output.toList.flatMap CItem.labels =
      (work.session.output.toList.flatMap CItem.loops).flatMap labelsOf := by
    rw [List.flatMap_assoc]
    exact congrArg (work.session.output.toList.flatMap ·) (funext CItem.labels_eq)
  rw [hLabels]
  exact nodup_flatMap_labelsOf (h.ascending.imp Nat.ne_of_lt)

/-- A body is compiled to the loops and jumps that it has: each jump leads to a label of the
innermost loop around it, in the same way in the source and in the routine, which has that label
once. A jump with no loop around it is an error in its place, unless the body fails before and
would without such jumps too. In the output of a whole program no label is defined twice, the
routine of each function or method jumps like its body, and none of the bodies has a jump with no
loop around it. -/
theorem jumps_reach_their_loops : (∀ func body span, (∀ (env : Env) supply after, env.loop = none →
        (compileBody func body span).exec env (.start supply) = (.ok (), after) →
        JumpsLike body after.body.toList) ∧
      strayJumps (mendedOf body) = [] ∧
      ∀ stray rest, strayJumps body = stray :: rest →
        Stops stray (compileBody func body span) (compileBody func (mendedOf body) span)) ∧
    ∀ library withBuiltin text session,
      (SessionM.compileProgram library withBuiltin text).exec .empty = (.ok (), session) →
      (session.output.toList.flatMap CItem.labels).Nodup ∧
      (∀ heading locals body, .routine heading locals body ∈ session.output.toList →
        heading.Jumps session.program body) ∧
      ∀ decl, session.program.Declares decl → ∀ body ∈ decl.body, strayJumps body = [] := by
  refine ⟨fun func body span => ⟨fun env supply after hLoop hRun => ?_, strayJumps_mendedOf body,
    (compileBody_meets func body span).stops⟩, fun library withBuiltin text session hRun => ?_⟩
  · exact (compileBody_lays hLoop hRun).jumpsLike
  · obtain ⟨work, rfl, hPasses⟩ := Work.passes_of_compileProgram hRun
    have hNumbers : work.Numbers :=
      hPasses.keeps Work.Numbers .start fun _ _ hBefore hStep => hBefore.step hStep
    refine ⟨hNumbers.nodup_labels, hNumbers.jumps, ?_⟩
    rintro decl ⟨id, module, hModule, hDecl⟩ body hBody
    obtain ⟨job, hCompiled⟩ := SourceFile.compiled hRun hModule hDecl
    obtain ⟨func, program, supply, routine, hRun⟩ := hCompiled body hBody
    exact strayJumps_of_compileBody rfl hRun

/-- Two loops, and jumps to both of them. -/
def nestedSource : String :=
  "func f(s []int) \x7b\n for i := 0; i < 9; i++ \x7b\n  for _, x := range s \x7b\n" ++
    "   if x == i \x7b\n    continue\n   \x7d\n   break\n  \x7d\n" ++
    "  switch i \x7b\n  case 3:\n   break\n  \x7d\n \x7d\n\x7d\n"

/-- The labels of a routine and those that it jumps to. -/
def CItem.labelsAndGotos? : CItem → Option (List String × List String)
  | .routine _ _ body => some (CStmt.labels body, gotos body)
  | _ => none

theorem jumps_reach_their_loops_nested :
    ∃ heading locals body, .routine heading locals body ∈ (runOf nestedSource).2.output.toList ∧
      CStmt.labels body = ["Cont_1", "Break_1", "Cont_2", "Break_2"] ∧
      gotos body = ["Cont_2", "Break_2", "Break_1"] ∧
      heading.Jumps (runOf nestedSource).2.program body := by
  have hRan : (runOf nestedSource).1 = true ∧
      (["Cont_1", "Break_1", "Cont_2", "Break_2"], ["Cont_2", "Break_2", "Break_1"]) ∈
        (runOf nestedSource).2.output.toList.filterMap CItem.labelsAndGotos? := by
    rw [@runOf_of_toList nestedSource _ (toList_append_of (toList_append_of
      String.toList_ofList String.toList_ofList) String.toList_ofList)]
    decide +kernel
  obtain ⟨hDone, hLabels⟩ := hRan
  have hRun := runOf_complete hDone
  obtain ⟨item, hItem, hSame⟩ := List.mem_filterMap.mp hLabels
  unfold CItem.labelsAndGotos? at hSame
  split at hSame
  · next heading locals body =>
      obtain ⟨hLabels, hGotos⟩ := Prod.mk.inj (Option.some.inj hSame)
      have hJumps := (jumps_reach_their_loops.2 _ _ _ _ hRun).2.1
      exact ⟨heading, locals, body, hItem, hLabels, hGotos, hJumps heading locals body hItem⟩
  · cases hSame

end GoToC
