import GoToC.Proofs.Routine.Denotes
import GoToC.Proofs.Routine.Requests
import GoToC.Proofs.Session.Course
import GoToC.Proofs.Session.Locals

/-!
# Pointer types in the output

The definitions of pointer types come from four places: the initializers of a module, its
declarations, its routines, and the types that other ones are made of. Wherever one is written,
its number was noted then and there for the first time, or noted by the initializers, which write
all that they noted before anything else is written. So at every point of a compilation the
numbers in the output are those that are noted, each of them once; and a variable of a pointer
type is declared after the definition of that type.
-/

namespace GoToC

variable {work next : Work} {item : CItem} {n : Nat} {items : List CItem} {supply : Supply}

open TypedefSupply (typeName)

/-- An item defines a type of that name. A pointer type goes by a name in parentheses. -/
def CItem.Defines (name : String) : CItem → Prop
  | .funcTypedef _ prototype => prototype.name = "(*" ++ name ++ ")"
  | .typeAlias _ global => global = name
  | _ => False

/-- The C types of the variables that an item declares: a global, or those of a routine. -/
def CItem.variableTypes : CItem → List String
  | .globalVar type _ => [type]
  | .routine _ locals _ => locals.map (·.type)
  | _ => []

def CItem.Stores (type : String) (item : CItem) : Prop := type ∈ item.variableTypes

/-- The numbers of the pointer types that items define. -/
def CItem.pointers (items : List CItem) : List Nat := items.filterMap CItem.pointerNumber?

@[simp] theorem CItem.pointers_append (items items' : List CItem) :
    pointers (items ++ items') = pointers items ++ pointers items' := List.filterMap_append

/-- Every variable of a pointer type comes after the definition of that type. -/
def CItem.Ordered (items : List CItem) : Prop :=
  ∀ before item after, items = before ++ item :: after →
    ∀ n, item.Stores (typeName n) → n ∈ pointers before

theorem CItem.Ordered.append {more : List CItem} (h : Ordered items)
    (hMore : ∀ gap item after, more = gap ++ item :: after →
      ∀ n, item.Stores (typeName n) → n ∈ pointers (items ++ gap)) : Ordered (items ++ more) := by
  intro before item after hSplit n hStores
  rcases List.append_eq_append_iff.mp hSplit with ⟨gap, hBefore, hGap⟩ | ⟨gap, hItems, hGap⟩
  · rw [hBefore]
    exact hMore gap item after hGap n hStores
  · cases gap with
    | nil =>
        have hSame := hMore [] item after hGap.symm n hStores
        rw [hItems, List.append_nil, List.append_nil] at hSame
        exact hSame
    | cons other rest =>
        obtain ⟨rfl, -⟩ := List.cons.inj hGap
        exact h before item rest hItems n hStores

/-- A definition declares no variables. -/
theorem CItem.NamesPointer.not_stores (h : item.NamesPointer n) (type : String) :
    ¬ item.Stores type := by
  obtain ⟨prototype, rfl, -⟩ := h
  exact List.not_mem_nil

/-! ## What is noted at every point -/

/-- The numbers that are noted are those of the definitions in the output, and of those that the
initializers will write. -/
structure Work.Noted (work : Work) : Prop where
  distinct : work.session.supply.typedefs.handedOut.Nodup
  numbers : (CItem.pointers (work.session.output.toList ++ work.inits.typedefs.toList)).Perm
    work.session.supply.typedefs.handedOut
  named : ∀ item ∈ work.session.output.toList,
    ∀ n, item.pointerNumber? = some n → item.NamesPointer n
  pending : ∀ item ∈ work.inits.typedefs.toList, ∃ n, item.NamesPointer n
  locals : ∀ var ∈ work.inits.locals.toList, ∀ n, var.type = typeName n →
    n ∈ work.session.supply.typedefs.handedOut
  ordered : CItem.Ordered work.session.output.toList
  aliases : ∀ type name, .typeAlias type name ∈ work.session.output.toList →
    ∃ package global, name = Declaration.cName package global

namespace Work.Noted

variable {work next : Work}

/-- What is noted is written where no initializers are compiled. -/
theorem mem_pointers (h : work.Noted) (hSettled : work.Settled) :
    n ∈ CItem.pointers work.session.output.toList ↔
      n ∈ work.session.supply.typedefs.handedOut := by
  have hNumbers := h.numbers
  rw [hSettled, List.append_nil] at hNumbers
  exact hNumbers.mem_iff

theorem of_same (h : work.Noted) (hHanded : next.session.supply.typedefs.handedOut =
    work.session.supply.typedefs.handedOut) (hOutput : next.session.output = work.session.output)
    (hInits : next.inits = work.inits) : next.Noted where
  distinct := hHanded ▸ h.distinct
  numbers := by rw [hHanded, hOutput, hInits]; exact h.numbers
  named := hOutput ▸ h.named
  pending := hInits ▸ h.pending
  locals := by rw [hHanded, hInits]; exact h.locals
  ordered := hOutput ▸ h.ordered
  aliases := hOutput ▸ h.aliases

/-- More definitions of pointer types may be written. -/
theorem define (h : work.Noted) {items : List CItem}
    (hItems : ∀ item ∈ items, ∃ n, item.NamesPointer n) :
    (∀ item ∈ work.session.output.toList ++ items,
      ∀ n, item.pointerNumber? = some n → item.NamesPointer n) ∧
    CItem.Ordered (work.session.output.toList ++ items) ∧
    ∀ type name, .typeAlias type name ∈ work.session.output.toList ++ items →
      ∃ package global, name = Declaration.cName package global := by
  refine ⟨fun item hItem n hNumber => ?_, h.ordered.append
    fun gap item after hSplit _ hStores => ?_, fun type name hItem => ?_⟩
  · rcases List.mem_append.mp hItem with hItem | hItem
    · exact h.named item hItem n hNumber
    · obtain ⟨number, hNames⟩ := hItems item hItem
      exact hNames.of_number hNumber
  · obtain ⟨number, hNames⟩ := hItems item (hSplit ▸ List.mem_append_right _ List.mem_cons_self)
    exact absurd hStores (hNames.not_stores _)
  · rcases List.mem_append.mp hItem with hItem | hItem
    · exact h.aliases type name hItem
    · obtain ⟨number, prototype, hTypedef, -⟩ := hItems _ hItem
      cases hTypedef

/-- Definitions that are handed out are written at once. -/
theorem grant (h : work.Noted)
    (hGrants : TypedefSupply.Grants work.session.supply.typedefs.handedOut items
      supply.typedefs.handedOut) :
    Noted { work with session := { work.session with supply := supply }.writing items } where
  distinct := hGrants.distinct h.distinct
  numbers := by
    have hNumbers := h.numbers
    rw [Session.toList_writing]
    show (CItem.pointers (work.session.output.toList ++ items ++ work.inits.typedefs.toList)).Perm
      supply.typedefs.handedOut
    rw [hGrants.numbers]
    simp only [CItem.pointers_append, List.append_assoc] at hNumbers ⊢
    calc CItem.pointers work.session.output.toList ++
          (CItem.pointers items ++ CItem.pointers work.inits.typedefs.toList)
        |>.Perm (CItem.pointers items ++ (CItem.pointers work.session.output.toList ++
          CItem.pointers work.inits.typedefs.toList)) := List.perm_append_comm_assoc _ _ _
      _ |>.Perm (CItem.pointers items ++ work.session.supply.typedefs.handedOut) :=
          hNumbers.append_left _
      _ |>.Perm ((CItem.pointers items).reverse ++ work.session.supply.typedefs.handedOut) :=
          (List.reverse_perm _).symm.append_right _
  named := by
    rw [Session.toList_writing]
    exact (h.define hGrants.named).1
  pending := h.pending
  locals var hVar n hType := hGrants.subset (h.locals var hVar n hType)
  ordered := by
    rw [Session.toList_writing]
    exact (h.define hGrants.named).2.1
  aliases := by
    rw [Session.toList_writing]
    exact (h.define hGrants.named).2.2

/-- An item that defines no pointer type may declare variables of those that are written. -/
theorem push (h : work.Noted) (hNumber : item.pointerNumber? = none)
    (hStores : ∀ n, item.Stores (typeName n) → n ∈ CItem.pointers work.session.output.toList)
    (hAlias : ∀ type name, item = .typeAlias type name →
      ∃ package global, name = Declaration.cName package global) :
    Noted { work with session := work.session.writing [item] } := by
  have hPointers : CItem.pointers [item] = [] := by simp [CItem.pointers, hNumber]
  refine ⟨h.distinct, ?_, ?_, h.pending, h.locals, ?_, ?_⟩
  · rw [Session.toList_writing]
    have hNumbers := h.numbers
    rw [CItem.pointers_append] at hNumbers ⊢
    rwa [CItem.pointers_append, hPointers, List.append_nil]
  · intro other hOther n hOtherNumber
    rw [Session.toList_writing, List.mem_append, List.mem_singleton] at hOther
    rcases hOther with hOther | rfl
    · exact h.named other hOther n hOtherNumber
    · rw [hNumber] at hOtherNumber
      cases hOtherNumber
  · rw [Session.toList_writing]
    refine h.ordered.append fun gap other after hSplit n hOther => ?_
    rw [CItem.pointers_append]
    obtain ⟨rfl, rfl⟩ : gap = [] ∧ other = item := by
      cases gap with
      | nil => exact ⟨rfl, (List.cons.inj hSplit).1.symm⟩
      | cons first rest => simp at hSplit
    exact List.mem_append_left _ (hStores n hOther)
  · intro type name hItem
    rw [Session.toList_writing, List.mem_append, List.mem_singleton] at hItem
    exact hItem.elim (h.aliases type name) fun hSame => hAlias type name hSame.symm

/-- An item that defines no type and declares no variables. -/
theorem push_quiet (h : work.Noted) (hNumber : item.pointerNumber? = none)
    (hStores : ∀ type, ¬ item.Stores type) (hAlias : ∀ type name, item ≠ .typeAlias type name) :
    Noted { work with session := work.session.writing [item] } :=
  h.push hNumber (fun _ hStored => absurd hStored (hStores _))
    fun type name hSame => absurd hSame (hAlias type name)

/-- What the initializers have handed out is written. -/
theorem flush (h : work.Noted) : Noted { work with
    session := work.session.writing work.inits.typedefs.toList
    inits := { work.inits with typedefs := #[] } } where
  distinct := h.distinct
  numbers := by
    rw [Session.toList_writing]
    exact (List.append_nil _).symm ▸ h.numbers
  named := by
    rw [Session.toList_writing]
    exact (h.define h.pending).1
  pending := by simp
  locals := h.locals
  ordered := by
    rw [Session.toList_writing]
    exact (h.define h.pending).2.1
  aliases := by
    rw [Session.toList_writing]
    exact (h.define h.pending).2.2

/-- The initializers hand out definitions, to be written later. -/
theorem init (h : work.Noted) {session : Session} {routine : Routine}
    (hOutput : session.output = work.session.output) (hSupply : session.supply = routine.supply)
    (hRequests : Routine.Requests { work.inits with supply := work.session.supply } routine)
    {written : List Ty} : Noted ⟨session, routine, written⟩ := by
  obtain ⟨items, added, hTypedefs, hGrants, hLocals, -, hNoted⟩ := hRequests
  have hTypedefs : routine.typedefs.toList = work.inits.typedefs.toList ++ items := hTypedefs
  have hLocals : routine.locals.toList = work.inits.locals.toList ++ added := hLocals
  have hGrants : TypedefSupply.Grants work.session.supply.typedefs.handedOut items
      routine.supply.typedefs.handedOut := hGrants
  refine ⟨?_, ?_, hOutput ▸ h.named, ?_, ?_, hOutput ▸ h.ordered, hOutput ▸ h.aliases⟩
  · rw [hSupply]
    exact hGrants.distinct h.distinct
  · show (CItem.pointers (session.output.toList ++ routine.typedefs.toList)).Perm
      session.supply.typedefs.handedOut
    rw [hOutput, hSupply, hTypedefs, hGrants.numbers, ← List.append_assoc, CItem.pointers_append]
    exact (List.perm_append_comm.trans ((List.reverse_perm _).symm.append_right _)).trans
      (h.numbers.append_left _)
  · intro item hItem
    have hItem : item ∈ routine.typedefs.toList := hItem
    rw [hTypedefs] at hItem
    exact (List.mem_append.mp hItem).elim (h.pending item) (hGrants.named item)
  · intro var hVar n hType
    have hVar : var ∈ routine.locals.toList := hVar
    rw [hLocals] at hVar
    show n ∈ session.supply.typedefs.handedOut
    rw [hSupply]
    rcases List.mem_append.mp hVar with hVar | hVar
    · exact hGrants.subset (h.locals var hVar n hType)
    · exact hNoted var hVar n hType

end Work.Noted

/-! ## Steps -/

/-- The C name of every global is made of the names of its module and its own. -/
def Program.CNamed (program : Program) : Prop :=
  ∀ id global, program.Has id global → ∃ package name, global.cName = Declaration.cName package name

theorem Program.CNamed.step (h : work.session.program.CNamed) (hStep : work.Step next) :
    next.session.program.CNamed := by
  intro id global hHas
  rcases hStep.has hHas with ⟨old, hOld, hSame⟩ | ⟨package, decl, handle, rfl⟩
  · obtain ⟨package, name, hName⟩ := h id old hOld
    rcases hSame with rfl | ⟨value, rfl⟩
    · exact ⟨package, name, hName⟩
    · exact ⟨package, name, hName⟩
  · exact ⟨package, decl.name, rfl⟩

/-- An action that declares no variables notes no numbers. -/
theorem Composed.handedOut_eq {α : Type} {action : RoutineM α} (h : Composed .expr .any action)
    {env : Env} {value : α} {routine : Routine}
    (hRun : action.exec env (.start supply) = (.ok value, routine))
    (hLocals : routine.locals = #[]) :
    routine.supply.typedefs.handedOut = supply.typedefs.handedOut := by
  have hRequests : (Routine.start supply).Requests routine :=
    h.carries Routine.Requests.carried hRun
  exact hRequests.handedOut_eq hLocals

theorem Job.Step.noted {job : Job} (h : work.Noted) (hNamed : work.session.program.CNamed)
    (hStep : job.Step work next) : next.Noted := by
  cases hStep with
  | enter => exact h.of_same rfl rfl rfl
  | note => exact h.of_same rfl rfl rfl
  | type _ hRun =>
      have hSame := (compileNamedType_composed _ _ _).handedOut_eq hRun
        (compileNamedType_still _ _ _ _ _ _ hRun).locals
      exact h.of_same hSame rfl rfl
  | const _ hRun hPristine =>
      have hSame := (value_composed .expr _).handedOut_eq hRun
        (Routine.locals_of_isPristine hPristine)
      exact h.of_same hSame rfl rfl
  | var _ _ hRun =>
      have hSame := (type_composed .expr _).handedOut_eq hRun
        (typeOperand_still _ _ _ _ _ hRun).locals
      exact h.of_same hSame rfl rfl
  | func _ hRun =>
      have hSame := (compileSignature_composed _ _ _).handedOut_eq hRun
        (compileSignature_still _ _ _ _ _ _ hRun).locals
      exact h.of_same hSame rfl rfl
  | method _ _ hRun =>
      have hSame := (compileSignature_composed _ _ _).handedOut_eq hRun
        (compileSignature_still _ _ _ _ _ _ hRun).locals
      exact h.of_same hSame rfl rfl
  | begin hSettled =>
      have hNumbers := h.numbers
      rw [hSettled] at hNumbers
      exact ⟨h.distinct, hNumbers, h.named, by simp [Routine.start], by simp [Routine.start],
        h.ordered, h.aliases⟩
  | @init decl init _ _ _ _ _ _ _ hRun _ hStore =>
      have hValue : Composed .expr .any (operand init).value := value_composed .expr init
      have hStored := (store_composed _ _ _ _).carries Routine.Requests.carried hStore
      refine h.init ?_ ?_ ((hValue.carries Routine.Requests.carried hRun).trans hStored) <;> rfl
  | flush => exact h.flush
  | request hRequest => exact h.grant (TypedefSupply.request_grants hRequest).1
  | declare hSettled hHas hType hHanded hItem =>
      obtain ⟨package, name, hName⟩ := hNamed _ _ hHas
      refine h.push ?_ (fun n hStores => ?_) fun type name' hSame => ?_
      · rcases hItem with rfl | rfl <;> rfl
      · rcases hItem with rfl | rfl
        · exact absurd hStores List.not_mem_nil
        · rw [h.mem_pointers hSettled]
          obtain rfl := List.mem_singleton.mp hStores
          obtain ⟨func, hFunc, rfl⟩ := TypeStore.func?_of_cType hType
          exact hHanded func hFunc
      · rcases hItem with rfl | rfl
        · cases hSame
          exact ⟨package, name, hName⟩
        · cases hSame
  | prototype _ hItem =>
      rcases hItem with rfl | rfl
      · exact h.push_quiet rfl (fun _ => List.not_mem_nil) (by simp)
      · exact h.push_quiet rfl (fun _ => List.not_mem_nil) (by simp)
  | inits hSettled =>
      refine h.push rfl (fun n hStores => ?_) (by simp)
      obtain ⟨var, hVar, hType⟩ := List.mem_map.mp hStores
      rw [h.mem_pointers hSettled]
      exact h.locals var hVar n hType
  | define hSettled _ _ _ _ _ hRun =>
      obtain ⟨items, added, hTypedefs, hGrants, hLocals, -, hNoted⟩ :=
        compileBody_carries Routine.Requests.carried hRun
      have hTypedefs : _ = [] ++ items := hTypedefs
      rw [Session.writing_append, hTypedefs]
      have hWritten := h.grant hGrants
      refine hWritten.push rfl (fun n hStores => ?_) (by simp)
      obtain ⟨var, hVar, hType⟩ := List.mem_map.mp hStores
      rw [hWritten.mem_pointers hSettled]
      refine hNoted var ?_ n hType
      rw [hLocals] at hVar
      exact hVar

theorem Work.Noted.step (h : work.Noted) (hNamed : work.session.program.CNamed)
    (hStep : work.Step next) : next.Noted := by
  cases hStep with
  | register | finish | share => exact h.of_same rfl rfl rfl
  | own _ hOwn => exact hOwn.noted h hNamed
  | includes => exact h.push_quiet rfl (fun _ => List.not_mem_nil) (by simp)

theorem Work.noted_start : Work.start.Noted where
  distinct := .nil
  numbers := .nil
  named := by simp [start, Session.empty]
  pending := by simp [start, Routine.start]
  locals := by simp [start, Routine.start]
  ordered := by
    intro before item after hSplit
    simp [start, Session.empty] at hSplit
  aliases := by simp [start, Session.empty]

theorem Work.noted_passes (h : Work.start.Passes work) : work.Noted := by
  have hNone : Work.start.session.program.CNamed := by
    rintro id global ⟨module, hModule, -⟩
    simp [start, Session.empty, Program.empty, Program.module?] at hModule
  refine (h.keeps (fun work => work.Noted ∧ work.session.program.CNamed) ⟨noted_start, hNone⟩
    fun before after hBefore hStep => ?_).1
  exact ⟨hBefore.1.step hBefore.2 hStep, hBefore.2.step hStep⟩

/-! ## The whole output -/

/-- The name of a global has two underscores in a row. -/
theorem cName_ne_typeName (package name : String) (n : Nat) :
    Declaration.cName package name ≠ typeName n := by
  intro h
  have hCount := congrArg (fun text => text.toList.count '_') h
  simp only [Declaration.cName, TypedefSupply.typeName, String.toList_append, List.count_append]
    at hCount
  have hDigits : (toString n).toList.count '_' = 0 :=
    List.count_eq_zero.mpr (LocalName.underscore_not_mem_toString n)
  rw [hDigits] at hCount
  have hTwo : "__".toList.count '_' = 2 := rfl
  have hOne : "funk_".toList.count '_' = 1 := rfl
  omega

/-- Among the items of a compilation the definitions of pointer types tell their numbers. -/
theorem Work.Noted.of_defines (h : work.Noted) (hItem : item ∈ work.session.output.toList)
    (hDefines : item.Defines (typeName n)) : item.NamesPointer n := by
  cases item with
  | funcTypedef number prototype =>
      obtain ⟨other, hSame, hName⟩ := h.named _ hItem number rfl
      cases hSame
      refine ⟨prototype, ?_, hDefines⟩
      have hNames : "(*" ++ typeName number ++ ")" = "(*" ++ typeName n ++ ")" :=
        hName.symm.trans hDefines
      rw [String.append_left_inj, String.append_right_inj] at hNames
      rw [TypedefSupply.typeName_inj hNames]
  | typeAlias type name =>
      obtain ⟨package, global, rfl⟩ := h.aliases type name hItem
      exact absurd hDefines (cName_ne_typeName package global n)
  | _ => exact hDefines.elim

/-- In the output of every compilation no pointer type is defined twice, and every variable of a
pointer type, a global or a variable of a routine, is declared after the definition of its type. -/
theorem pointerTypes_defined_first {library : Library} {withBuiltin : Bool} {text : String}
    {session : Session}
    (hRun : (SessionM.compileProgram library withBuiltin text).exec .empty = (.ok (), session))
    (n : Nat) {before after : List CItem} {item : CItem}
    (hSplit : session.output.toList = before ++ item :: after) :
    (item.Defines (typeName n) → ∀ other ∈ before ++ after, ¬ other.Defines (typeName n)) ∧
      (item.Stores (typeName n) → ∃ definition ∈ before, definition.Defines (typeName n)) := by
  obtain ⟨work, rfl, hPasses⟩ := Work.passes_of_compileProgram hRun
  have hNoted := Work.noted_passes hPasses
  refine ⟨fun hDefines other hOther hSame => ?_, fun hStores => ?_⟩
  · have hDistinct : (CItem.pointers work.session.output.toList).Nodup := by
      have hAll := (hNoted.numbers.nodup_iff.mpr hNoted.distinct)
      rw [CItem.pointers_append] at hAll
      exact hAll.of_append_left
    have hItem : item.NamesPointer n := hNoted.of_defines (by simp [hSplit]) hDefines
    have hOther' : other.NamesPointer n := by
      refine hNoted.of_defines ?_ hSame
      rw [hSplit]
      rcases List.mem_append.mp hOther with hOther | hOther
      · exact List.mem_append_left _ hOther
      · exact List.mem_append_right _ (List.mem_cons_of_mem item hOther)
    have hPointer : n ∈ CItem.pointers (before ++ after) :=
      List.mem_filterMap.mpr ⟨other, hOther, hOther'.pointerNumber?⟩
    rw [hSplit, ← List.singleton_append, CItem.pointers_append, CItem.pointers_append] at hDistinct
    have hNumber : CItem.pointers [item] = [n] := by
      simp [CItem.pointers, hItem.pointerNumber?]
    rw [hNumber, List.singleton_append, List.nodup_middle] at hDistinct
    rw [CItem.pointers_append] at hPointer
    exact (List.nodup_cons.mp hDistinct).1 hPointer
  · have hPointer := hNoted.ordered before item after hSplit n hStores
    obtain ⟨definition, hMem, hNumber⟩ := List.mem_filterMap.mp hPointer
    refine ⟨definition, hMem, ?_⟩
    obtain ⟨prototype, rfl, hName⟩ := hNoted.named definition
      (hSplit ▸ List.mem_append_left _ hMem) n hNumber
    exact hName

/-- A function that is kept in a global and in a variable. -/
def keptSource : String :=
  "func g() \x7b\n\x7d\nvar f = g\nfunc h() \x7b\n k := g\n k()\n\x7d\n"

theorem pointerTypes_defined_first_kept :
    ∃ before item after, (runOf keptSource).2.output.toList = before ++ item :: after ∧
      item.variableTypes = ["funk_1"] ∧
      ∃ definition ∈ before, definition.Defines (typeName 1) := by
  have hRan : (runOf keptSource).1 = true ∧
      ["funk_1"] ∈ (runOf keptSource).2.output.toList.map CItem.variableTypes := by
    rw [@runOf_of_toList keptSource _ String.toList_ofList]
    decide +kernel
  obtain ⟨hDone, hTypes⟩ := hRan
  have hRun := runOf_complete hDone
  obtain ⟨item, hItem, hType⟩ := List.mem_map.mp hTypes
  obtain ⟨before, after, hSplit⟩ := List.append_of_mem hItem
  refine ⟨before, item, after, hSplit, hType, (pointerTypes_defined_first hRun 1 hSplit).2 ?_⟩
  rw [CItem.Stores, hType]
  decide +kernel

end GoToC
