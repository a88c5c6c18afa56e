import GoToC.Proofs.Routine.LocalNames
import GoToC.Proofs.Routine.Safe
import GoToC.Proofs.Routine.Worded
import GoToC.Proofs.Routine.Yields

/-!
# Actions that spell a routine

A routine is spelled if what it has bound and written names only the parameters that it was given
and the variables that it has declared so far, and if all other names in it are those of a diction.
An action keeps it spelled while more variables are declared, so what an action gives is told of the
names that are known by then; whatever was spelled before stays so under them.
-/

namespace GoToC

variable {type : Ty} {routine after : Routine} {name : String} {value : Value} {stmt : CStmt}
  {env : Env} {outputs : List (Member Ty)} {program : Program} {e : CExpr}

/-- A program whose values name nothing that a routine declares. -/
def Program.Closed (program : Program) : Prop :=
  ∀ id name global e, program.global? id name = some global → global.value = some (.expr e) →
    e.c.Closed ∅

/-- What is known of a routine before its body is compiled: its named result, and the
parameters that it hands back its outputs through. -/
structure Env.Closed (known : Set OwnName) (env : Env) : Prop where
  program : env.program.Closed
  result : ∀ name, env.namedResult = some name → .variable name ∈ known
  outputs : ∀ func, env.func = some func → func.outputs.length ≠ 1 →
    ∀ index < func.outputs.length, .parameter (func.outputName index) ∈ known

/-- The parameters of a routine and the variables that it has declared. -/
def Routine.ownNames (params : Set OwnName) (routine : Routine) : Set OwnName :=
  params ∪ {n | ∃ var ∈ routine.locals.toList, n = .variable var.name}

/-! ## Values, programs and routines -/

section

variable (d : Diction)

/-- A type with such names, if all names have to be such. -/
abbrev Ty.WordedIn (type : Ty) : Prop := d.strict → type.Worded

abbrev Ty.WordedAllIn (members : List (Member Ty)) : Prop := d.strict → Ty.WordedAll members

variable (known : Set OwnName)

/-- A value whose fragment and whose type have such names. -/
structure Typed.Spelled (e : Typed) : Prop where
  c : e.c.Spelled d known
  type : e.type.WordedIn d

structure BoundMethod.Spelled (method : BoundMethod) : Prop where
  callee : method.callee.Spelled d known
  receiver : method.receiver.Spelled d known
  func : (Ty.func method.func).WordedIn d

def Value.Spelled : Value → Prop
  | .expr e => e.Spelled d known
  | .global _ _ => True
  | .type denoted => denoted.WordedIn d
  | .module _ => True
  | .element container index => container.Spelled ∧ index.Spelled
  | .method bound => bound.Spelled d known

def GlobalValue.Spelled : GlobalValue → Prop
  | .expr e => e.Spelled d known
  | .type denoted => denoted.WordedIn d
  | .module _ => True

/-- A program whose values, methods and types have such names. -/
structure Program.Spelled (program : Program) : Prop where
  values : ∀ id name global, program.global? id name = some global → ∀ value ∈ global.value,
    value.Spelled d known
  methods : ∀ entry ∈ program.types.methods, d.globals (entry.1.cName ++ "__" ++ entry.2.name)
  types : d.strict → program.types.Worded

/-- What a routine is compiled against. -/
structure Env.Spelled (env : Env) : Prop where
  program : env.program.Spelled d known
  package : d.Word env.package
  func : ∀ func ∈ env.func, (Ty.func func).WordedIn d
  result : ∀ name ∈ env.namedResult, .variable name ∈ known
  outputs : ∀ func ∈ env.func, func.outputs.length ≠ 1 →
    ∀ index < func.outputs.length, .parameter (func.outputName index) ∈ known

/-- A routine with given parameters that uses such names in what it binds, declares and has
written. -/
structure Routine.Spelled (params : Set OwnName) (routine : Routine) : Prop where
  scopes : ∀ scope ∈ routine.scopes, ∀ entry ∈ scope, entry.2.Spelled d (routine.ownNames params)
  locals : d.strict → ∀ var ∈ routine.locals.toList, var.Worded
  typedefs : d.strict → ∀ item ∈ routine.typedefs.toList, item.Worded
  body : CStmt.SpelledAll d (routine.ownNames params) routine.body.toList

end

/-- What the C code of a routine may be written with. -/
structure Idiom where
  /-- A setting that its types are sound in, if that is asked. -/
  within : Option Setting
  d : Diction
  params : Set OwnName

/-- The same names, whatever the types. -/
abbrev Idiom.loose (g : Idiom) : Idiom := { g with within := none }

variable {d : Diction} {g : Idiom} {params known known' : Set OwnName}

theorem Typed.Spelled.mono {e : Typed} (h : e.Spelled d known) (le : known ⊆ known') :
    e.Spelled d known' := ⟨h.c.mono le, h.type⟩

theorem Value.Spelled.mono {value : Value} (h : value.Spelled d known) (le : known ⊆ known') :
    value.Spelled d known' := by
  induction value with
  | expr e => exact Typed.Spelled.mono h le
  | element container index hContainer hIndex => exact ⟨hContainer h.1, hIndex h.2⟩
  | method bound => exact ⟨h.callee.mono le, h.receiver.mono le, h.func⟩
  | global id name => trivial
  | type denoted => exact h
  | module id => trivial

theorem Program.Spelled.mono {program : Program} (h : program.Spelled d known)
    (le : known ⊆ known') : program.Spelled d known' := by
  refine { h with values := fun id name global hGlobal value hValue => ?_ }
  have hFound := h.values id name global hGlobal value hValue
  cases value with
  | expr e => exact Typed.Spelled.mono hFound le
  | type denoted => exact hFound
  | module id => trivial

theorem Env.Spelled.mono {env : Env} (h : env.Spelled d known) (le : known ⊆ known') :
    env.Spelled d known' :=
  { h with
    program := h.program.mono le
    result := fun name hName => le (h.result name hName)
    outputs := fun func hFunc hSeveral index hIndex =>
      le (h.outputs func hFunc hSeveral index hIndex) }

theorem Routine.Spelled.start (params : Set OwnName) (supply : Supply) :
    (Routine.start supply).Spelled d params := by
  refine ⟨?_, by simp [Routine.start], by simp [Routine.start], trivial⟩
  rintro scope (_ | ⟨_, hScope⟩) entry hEntry
  · cases hEntry
  · cases hScope

theorem Routine.Spelled.push (h : routine.Spelled d params)
    (hStmt : stmt.Spelled d (routine.ownNames params)) :
    ({ routine with body := routine.body.push stmt } : Routine).Spelled d params := by
  refine { h with body := CStmt.spelledAll_iff.mpr fun other hOther => ?_ }
  rw [Array.toList_push, List.mem_append, List.mem_singleton] at hOther
  rcases hOther with hOther | rfl
  · exact CStmt.spelledAll_iff.mp h.body other hOther
  · exact hStmt

theorem Routine.locals_of_isPristine (h : routine.isPristine = true) : routine.locals = #[] := by
  have hBoth := Bool.and_eq_true_iff.mp h
  simpa using hBoth.2

theorem Routine.ownNames_of_isPristine (h : routine.isPristine = true) :
    routine.ownNames ∅ = ∅ := by simp [ownNames, locals_of_isPristine h]

theorem Program.Spelled.globalValue? (h : program.Spelled d known) {id : ModuleId}
    (hValue : program.globalValue? id name = some value) : value.Spelled d known := by
  obtain ⟨global, hGlobal, rfl⟩ := Option.map_eq_some_iff.mp hValue
  have hGlobal := h.values id name global hGlobal
  cases hFound : global.value with
  | none => cases global.handle <;> simp [Value.Spelled, Ty.WordedIn, Ty.Worded]
  | some value =>
      have hValue := hGlobal value hFound
      cases value with
      | expr e => exact hValue
      | type denoted => exact hValue
      | module id => trivial

theorem spelled_primValue? (h : primValue? name = some value) : value.Spelled d known := by
  have hConst (c : CExpr) (hc : c.Spelled d known) (prim : Prim) :
      (Value.expr ⟨c, .prim prim⟩).Spelled d known := ⟨hc, fun _ => trivial⟩
  unfold primValue? at h
  split at h
  · cases h
    exact hConst (.int 1) trivial _
  · split at h
    · cases h
      exact hConst (.int 0) trivial _
    · split at h
      · cases h
        exact hConst .nil trivial _
      · obtain ⟨prim, -, rfl⟩ := Option.map_eq_some_iff.mp h
        exact fun _ => trivial

/-- A method that a struct has goes by a name of a global. -/
theorem Program.Spelled.method? (h : program.Spelled d known) {record : StructType Ty}
    {member : String} {method : Member Ty}
    (hMethod : program.types.method? record member = some method) :
    (CExpr.global (record.cName ++ "__" ++ member)).Spelled d known ∧ method.type.WordedIn d := by
  obtain ⟨entry, hEntry, rfl⟩ := Option.map_eq_some_iff.mp hMethod
  have hMem := List.mem_of_find?_eq_some hEntry
  have hName := h.methods entry hMem
  have hFound := List.find?_some hEntry
  simp only [Bool.and_eq_true, beq_iff_eq] at hFound
  rw [hFound.1, hFound.2] at hName
  exact ⟨hName, fun hStrict => (h.types hStrict).methods entry hMem⟩

theorem CExpr.Spelled.converted (h : e.Spelled d known) (conversion : Conversion) :
    (conversion.apply e).Spelled d known := by
  cases conversion with
  | keep => exact h
  | toInterface => exact h
  | castTo prim => exact h

/-- A variable of the routine as a value. -/
theorem Typed.spelled_localVar (hName : .variable name ∈ known) (hType : type.WordedIn d) :
    Typed.Spelled d known ⟨.localVar name, type⟩ := ⟨hName, hType⟩

/-- A program and a routine that are sound as far as types are concerned, if that is asked. -/
def Sounds (within : Option Setting) (env : Env) (routine : Routine) : Prop :=
  ∀ s ∈ within, env.Sound s ∧ routine.Sound s.values

theorem Sounds.of_scopes {within : Option Setting} (h : Sounds within env routine)
    (hScopes : after.scopes = routine.scopes) :
    Sounds within env after := fun s hs => ⟨(h s hs).1, by
  rw [Routine.Sound, hScopes]
  exact (h s hs).2⟩

/-! ## Basic actions -/

/-- An action that, where given names are known, keeps a routine spelled; what it gives is told of
the names that are known in the end. It may rely on types that are sound, and then keeps them so. -/
def Spells {α : Type} (g : Idiom) (known : Set OwnName) (action : RoutineM α)
    (good : Set OwnName → α → Prop) : Prop :=
  ∀ env routine value after, Sounds g.within env routine → known ⊆ routine.ownNames g.params →
    env.Spelled g.d known → routine.Spelled g.d g.params →
    action.exec env routine = (.ok value, after) →
      (∃ known', known ⊆ known' ∧ known' ⊆ after.ownNames g.params ∧ good known' value) ∧
        routine.ownNames g.params ⊆ after.ownNames g.params ∧ after.Spelled g.d g.params ∧
          Sounds g.within env after

namespace Spells

variable {α β : Type} {action : RoutineM α} {good : Set OwnName → α → Prop}

theorem pure {value : α} (h : good known value) : Spells g known (pure value) good := by
  intro env routine found after hSound le _ hRoutine hRun
  cases hRun
  exact ⟨⟨known, subset_rfl, le, h⟩, subset_rfl, hRoutine, hSound⟩

theorem fail (failure : Failure) : Spells g known (throw failure : RoutineM α) good := by
  intro env routine found after _ _ _ _ hRun
  cases hRun

theorem error (span : Span) (problem : Problem) :
    Spells g known (RoutineM.error span problem : RoutineM α) good := by
  intro env routine found after _ _ _ _ hRun
  cases hRun

theorem bind {next : α → RoutineM β} {good' : Set OwnName → β → Prop}
    (h : Spells g known action good) (hNext : ∀ known' value, known ⊆ known' → good known' value →
      Spells g known' (next value) good') : Spells g known (action >>= next) good' := by
  intro env routine value after hSound le hEnv hRoutine hRun
  obtain ⟨first, middle, hFirst, hRest⟩ := RoutineM.bind_eq_ok.mp hRun
  obtain ⟨⟨known', hKnown, hMiddle, hGood⟩, hGrown, hSpelled, hSound⟩ :=
    h env routine first middle hSound le hEnv hRoutine hFirst
  obtain ⟨⟨known'', hKnown', hAfter, hGood'⟩, hGrown', hSpelled'⟩ := hNext known' first hKnown hGood
    env middle value after hSound hMiddle (hEnv.mono hKnown) hSpelled hRest
  exact ⟨⟨known'', hKnown.trans hKnown', hAfter, hGood'⟩, hGrown.trans hGrown', hSpelled'⟩

theorem mono {good' : Set OwnName → α → Prop} (h : Spells g known action good)
    (imp : ∀ known' value, known ⊆ known' → good known' value → good' known' value) :
    Spells g known action good' := by
  intro env routine value after hSound le hEnv hRoutine hRun
  obtain ⟨⟨known', hKnown, hAfter, hGood⟩, hRest⟩ :=
    h env routine value after hSound le hEnv hRoutine hRun
  exact ⟨⟨known', hKnown, hAfter, imp known' value hKnown hGood⟩, hRest⟩

theorem map {f : α → β} {good' : Set OwnName → β → Prop}
    (h : Spells g known action fun k value => good' k (f value)) :
    Spells g known (f <$> action) good' := by
  rw [map_eq_pure_bind]
  exact h.bind fun _ _ _ hValue => .pure hValue

/-- A check that fails with an error or goes on. -/
theorem errorIf {check : Prop} [Decidable check] (span : Span) (problem : Problem)
    {rest : RoutineM α} (h : ¬ check → ∀ known', known ⊆ known' → Spells g known' rest good) :
    Spells g known (do
      if check then RoutineM.error span problem
      rest) good := by
  by_cases hCheck : check
  · simp only [hCheck, if_true]
    have hError : Spells g known (RoutineM.error span problem : RoutineM Unit)
        fun _ _ => False := .error _ _
    exact hError.bind fun _ _ _ h => h.elim
  · simp only [hCheck, if_false]
    exact h hCheck known subset_rfl

/-- An action that only asks tells what the routine has declared by then. -/
theorem asks (hAsks : action.Asks)
    (h : ∀ env routine value, env.Spelled g.d (routine.ownNames g.params) →
      routine.Spelled g.d g.params → action.exec env routine = (.ok value, routine) →
        good (routine.ownNames g.params) value) : Spells g known action good := by
  intro env routine value after hSound le hEnv hRoutine hRun
  have hSame := hAsks env routine
  rw [hRun] at hSame
  obtain rfl : after = routine := hSame
  exact ⟨⟨after.ownNames g.params, le, subset_rfl, h env after value (hEnv.mono le) hRoutine hRun⟩,
    subset_rfl, hRoutine, hSound⟩

/-- An action that only asks, whatever the answer. -/
theorem asked (hAsks : action.Asks) : Spells g known action fun _ _ => True :=
  .asks hAsks fun _ _ _ _ _ _ => trivial

theorem read : Spells g known read (Env.Spelled g.d) :=
  .asks .read fun _ _ _ hEnv _ hRun => by
    cases hRun
    exact hEnv

/-! ### Questions to the type store -/

/-- What the type store answers. -/
theorem types {ask : TypeStore → Faulty α} {good : α → Prop}
    (h : ∀ store value, (g.d.strict → store.Worded) → ask store = .ok value → good value) :
    Spells g known (RoutineM.types ask) fun _ => good :=
  .asks (.types ask) fun _ _ _ hEnv _ hRun =>
    h _ _ hEnv.program.types (RoutineM.types_eq_ok.mp hRun).1

/-- Whatever the type store answers. -/
theorem answer (ask : TypeStore → Faulty α) :
    Spells g known (RoutineM.types ask) fun _ _ => True := .asked (.types ask)

theorem cType (type : Ty) : Spells g known (RoutineM.types (·.cType type)) fun _ => g.d.Word :=
  .types fun _ _ _ hText _ => TypeStore.isWordTail_cType hText

theorem func? (h : type.WordedIn g.d) :
    Spells g known (RoutineM.types (·.func? type)) fun _ found =>
      ∀ func ∈ found, (Ty.func func).WordedIn g.d :=
  .types fun _ _ hStore hFound func hFunc hStrict =>
    (hStore hStrict).func? (h hStrict) hFound func hFunc

theorem multi? (h : type.WordedIn g.d) :
    Spells g known (RoutineM.types (·.multi? type)) fun _ found =>
      ∀ members ∈ found, Ty.WordedAllIn g.d members :=
  .types fun _ _ hStore hFound members hMembers hStrict =>
    (hStore hStrict).multi? (h hStrict) hFound members hMembers

theorem sliceElement? (h : type.WordedIn g.d) :
    Spells g known (RoutineM.types (·.sliceElement? type)) fun _ found =>
      ∀ elem ∈ found, elem.WordedIn g.d :=
  .types fun _ _ hStore hFound elem hElem hStrict =>
    (hStore hStrict).sliceElement? (h hStrict) hFound elem hElem

theorem element? (h : type.WordedIn g.d) :
    Spells g known (RoutineM.types (·.element? type)) fun _ found =>
      ∀ elem ∈ found, elem.WordedIn g.d :=
  .types fun _ _ hStore hFound elem hElem hStrict =>
    (hStore hStrict).element? (h hStrict) hFound elem hElem

theorem struct? (h : type.WordedIn g.d) :
    Spells g known (RoutineM.types (·.struct? type)) fun _ found =>
      ∀ record ∈ found, (Ty.struct record).WordedIn g.d :=
  .types fun _ _ hStore hFound record hRecord hStrict =>
    (hStore hStrict).struct? (h hStrict) hFound record hRecord

theorem pointeeStruct? (h : type.WordedIn g.d) :
    Spells g known (RoutineM.types (·.pointeeStruct? type)) fun _ found =>
      ∀ record ∈ found, (Ty.struct record).WordedIn g.d :=
  .types fun _ _ hStore hFound record hRecord hStrict =>
    (hStore hStrict).pointeeStruct? (h hStrict) hFound record hRecord

theorem interface? (h : type.WordedIn g.d) :
    Spells g known (RoutineM.types (·.interface? type)) fun _ found =>
      ∀ record ∈ found, (Ty.interface record).WordedIn g.d :=
  .types fun _ _ hStore hFound record hRecord hStrict =>
    (hStore hStrict).interface? (h hStrict) hFound record hRecord

/-! ### Changes of the routine -/

theorem nextSerial : Spells g known RoutineM.nextSerial fun _ _ => True := by
  intro env routine value after hSound le _ hRoutine hRun
  cases hRun
  exact ⟨⟨known, subset_rfl, le, trivial⟩, subset_rfl, { hRoutine with }, hSound⟩

theorem newFunc {inputs : List (Member Ty)} (variadic isMethod : Bool)
    (hInputs : Ty.WordedAllIn g.d inputs) (hOutputs : Ty.WordedAllIn g.d outputs) :
    Spells g known (RoutineM.newFunc inputs outputs variadic isMethod) fun _ func =>
      (Ty.func func).WordedIn g.d := by
  intro env routine value after hSound le _ hRoutine hRun
  cases hRun
  exact ⟨⟨known, subset_rfl, le, fun hStrict => ⟨hInputs hStrict, hOutputs hStrict⟩⟩, subset_rfl,
    { hRoutine with }, hSound⟩

theorem newStruct {fields : List (Member Ty)} (hName : g.d.Word name)
    (h : Ty.WordedAllIn g.d fields) :
    Spells g known (RoutineM.newStruct name fields) fun _ record =>
      (Ty.struct record).WordedIn g.d := by
  intro env routine value after hSound le hEnv hRoutine hRun
  cases hRun
  exact ⟨⟨known, subset_rfl, le, fun hStrict => ⟨hEnv.package hStrict, hName hStrict, h hStrict⟩⟩,
    subset_rfl, { hRoutine with }, hSound⟩

theorem emit (h : stmt.Spelled g.d known) :
    Spells g known (RoutineM.emit stmt) fun _ _ => True := by
  intro env routine value after hSound le _ hRoutine hRun
  cases hRun
  exact ⟨⟨known, subset_rfl, le, trivial⟩, subset_rfl, hRoutine.push (h.mono le),
    hSound.of_scopes rfl⟩

/-- A binding keeps types sound if its value is a variable of a sound type. -/
theorem bindName (name : String) {value : Typed} (h : value.Spelled g.d known)
    (hSafe : ∀ s ∈ g.within, value.Sound s.values ∧ value.c.IsVariable) :
    Spells g known (RoutineM.bind name value) fun _ _ => True := by
  intro env routine done after hSound le _ hRoutine hRun
  have hAfter : Sounds g.within env after := fun s hs => by
    have hBound := Safe.bindName name (hSafe s hs).1 (hSafe s hs).2 env routine (hSound s hs).1
      (hSound s hs).2
    rw [hRun] at hBound
    exact ⟨(hSound s hs).1, hBound.2⟩
  rw [RoutineM.bindName_exec] at hRun
  cases hRun
  refine ⟨⟨known, subset_rfl, le, trivial⟩, subset_rfl, { hRoutine with scopes := ?_ }, hAfter⟩
  obtain ⟨supply, scopes, locals, typedefs, body⟩ := routine
  cases scopes with
  | nil => exact hRoutine.scopes
  | cons scope outer =>
      rintro inner (_ | ⟨_, hInner⟩) entry hEntry
      · rcases List.mem_cons.mp hEntry with rfl | hEntry
        · exact h.mono le
        · exact hRoutine.scopes scope List.mem_cons_self entry hEntry
      · exact hRoutine.scopes inner (List.mem_cons_of_mem scope hInner) entry hEntry

/-- Where types do not matter, any value can be bound. -/
theorem bindLoose (name : String) {value : Typed} (h : value.Spelled g.d known) :
    Spells g.loose known (RoutineM.bind name value) fun _ _ => True :=
  .bindName name h (by simp)

theorem requestTypedef (h : type.WordedIn g.d) :
    Spells g known (RoutineM.requestTypedef type) fun _ _ => True := by
  intro env routine value after hSound le hEnv hRoutine hRun
  obtain ⟨found, hAnswer, rfl⟩ := requestTypedef_eq_ok hRun
  refine ⟨⟨known, subset_rfl, le, trivial⟩, subset_rfl, ?_, hSound.of_scopes rfl⟩
  cases found with
  | none => exact { hRoutine with }
  | some item =>
      refine { hRoutine with typedefs := fun hStrict other hOther => ?_ }
      have hMem : other ∈ (routine.typedefs.push item).toList := hOther
      rw [Array.toList_push, List.mem_append, List.mem_singleton] at hMem
      rcases hMem with hMem | rfl
      · exact hRoutine.typedefs hStrict other hMem
      · exact (hEnv.program.types hStrict).request (h hStrict) routine.supply.typedefs hAnswer

/-! ### Blocks -/

/-- What an action gives and the statements that it wrote, both told of the same names. -/
theorem capture (h : Spells g known action good)
    (hGood : ∀ {k k' value}, k ⊆ k' → good k value → good k' value) :
    Spells g known (RoutineM.capture action) fun k found =>
      good k found.1 ∧ CStmt.SpelledAll g.d k found.2 := by
  rintro env routine ⟨value, stmts⟩ after hSound le hEnv hRoutine hRun
  obtain ⟨inner, hInner, rfl, rfl⟩ := RoutineM.capture_eq_ok.mp hRun
  have hStart : ({ routine with body := #[] } : Routine).Spelled g.d g.params :=
    { hRoutine with body := trivial }
  obtain ⟨⟨known', -, hAfter, hValue⟩, hGrown, hSpelled, hSound'⟩ :=
    h env { routine with body := #[] } value inner (hSound.of_scopes rfl) le hEnv hStart hInner
  exact ⟨⟨inner.ownNames g.params, le.trans hGrown, subset_rfl, hGood hAfter hValue,
    hSpelled.body⟩, hGrown, { hSpelled with body := hRoutine.body.mono hGrown },
      hSound'.of_scopes rfl⟩

theorem inScope (h : Spells g known action good) :
    Spells g known (RoutineM.inScope action) good := by
  intro env routine value after hSound le hEnv hRoutine hRun
  obtain ⟨inner, hInner, rfl⟩ := RoutineM.inScope_eq_ok.mp hRun
  have hOpened {p : Scope → Prop} (hNil : p []) (hScopes : ∀ scope ∈ routine.scopes, p scope) :
      ∀ scope ∈ [] :: routine.scopes, p scope := List.forall_mem_cons.mpr ⟨hNil, hScopes⟩
  have hStart : ({ routine with scopes := [] :: routine.scopes } : Routine).Spelled g.d g.params :=
    { hRoutine with scopes := hOpened (by simp) hRoutine.scopes }
  obtain ⟨hValue, hGrown, hSpelled, hSound'⟩ :=
    h env { routine with scopes := [] :: routine.scopes } value inner
      (fun s hs => ⟨(hSound s hs).1, hOpened (by simp) (hSound s hs).2⟩) le hEnv hStart hInner
  exact ⟨hValue, hGrown,
    { hSpelled with scopes := fun scope hScope =>
        hSpelled.scopes scope (List.mem_of_mem_tail hScope) },
    fun s hs => ⟨(hSound s hs).1, fun scope hScope =>
      (hSound' s hs).2 scope (List.mem_of_mem_tail hScope)⟩⟩

theorem inLoop (number : Nat) (h : Spells g known action good) :
    Spells g known (RoutineM.inLoop number action) good := by
  intro env routine value after hSound le hEnv hRoutine hRun
  have hLooped : Sounds g.within { env with loop := some number } routine := fun s hs =>
    ⟨{ (hSound s hs).1 with }, (hSound s hs).2⟩
  obtain ⟨hValue, hGrown, hSpelled, hSound'⟩ := h { env with loop := some number } routine value
    after hLooped le { hEnv with } hRoutine hRun
  exact ⟨hValue, hGrown, hSpelled, fun s hs => ⟨(hSound s hs).1, (hSound' s hs).2⟩⟩

/-! ### Sound types -/

/-- An action that is safe and keeps a routine spelled also keeps its types sound. -/
theorem lifted {safe : Setting → α → Prop} (hSafe : ∀ s ∈ g.within, Safe s action (safe s))
    (h : Spells g.loose known action good) : Spells g known action good := by
  intro env routine value after hSound le hEnv hRoutine hRun
  obtain ⟨hValue, hGrown, hSpelled, -⟩ :=
    h env routine value after (fun _ => nofun) le hEnv hRoutine hRun
  refine ⟨hValue, hGrown, hSpelled, fun s hs => ⟨(hSound s hs).1, ?_⟩⟩
  have hSafely := hSafe s hs env routine (hSound s hs).1 (hSound s hs).2
  rw [hRun] at hSafely
  exact hSafely.2

/-- What is known of an action that is safe, beside what it spells. -/
theorem both {safe : Setting → α → Prop} (hSafe : ∀ s ∈ g.within, Safe s action (safe s))
    (h : Spells g known action good) :
    Spells g known action fun k value => (∀ s ∈ g.within, safe s value) ∧ good k value := by
  intro env routine value after hSound le hEnv hRoutine hRun
  obtain ⟨⟨known', hKnown, hAfter, hGood⟩, hRest⟩ :=
    h env routine value after hSound le hEnv hRoutine hRun
  refine ⟨⟨known', hKnown, hAfter, fun s hs => ?_, hGood⟩, hRest⟩
  have hSafely := hSafe s hs env routine (hSound s hs).1 (hSound s hs).2
  rw [hRun] at hSafely
  exact hSafely.1

theorem soundly {safe : Setting → α → Prop} (hSafe : ∀ s ∈ g.within, Safe s action (safe s))
    (h : Spells g.loose known action good) :
    Spells g known action fun k value => (∀ s ∈ g.within, safe s value) ∧ good k value :=
  .both hSafe (.lifted hSafe h)

/-! ## Variables -/

theorem addLocal (span : Span) (hName : g.d.Word name) (h : type.WordedIn g.d) :
    Spells g known (RoutineM.addLocal name type span) fun k _ => .variable name ∈ k := by
  have hKeep (known : Set OwnName) (var : CLocal) (hVar : g.d.strict → var.Worded) :
      Spells g known (modify fun routine : Routine =>
          { routine with locals := routine.locals.push var } :
        RoutineM Unit) fun k _ => .variable var.name ∈ k := by
    intro env routine value after hSound le _ hRoutine hRun
    cases hRun
    have hGrown : routine.ownNames g.params ⊆
        Routine.ownNames g.params { routine with locals := routine.locals.push var } := by
      rintro n (hParam | ⟨other, hOther, rfl⟩)
      · exact .inl hParam
      · exact .inr ⟨other, by simp [Array.mem_toList_iff.mp hOther], rfl⟩
    have hNew : .variable var.name ∈
        Routine.ownNames g.params { routine with locals := routine.locals.push var } :=
      .inr ⟨var, by simp, rfl⟩
    refine ⟨⟨_, le.trans hGrown, subset_rfl, hNew⟩, hGrown, ?_, hSound.of_scopes rfl⟩
    refine ⟨fun scope hScope entry hEntry => (hRoutine.scopes scope hScope entry
      hEntry).mono hGrown,
      fun hStrict other hOther => ?_, hRoutine.typedefs, hRoutine.body.mono hGrown⟩
    rw [Array.toList_push, List.mem_append, List.mem_singleton] at hOther
    rcases hOther with hOther | rfl
    · exact hRoutine.locals hStrict other hOther
    · exact hVar hStrict
  refine .bind (.answer _) fun _ _ _ _ => errorIf _ _ fun _ _ _ => .bind (.requestTypedef h)
    fun _ _ _ _ => .bind (.cType type) fun _ cType _ hType =>
      .bind (.types fun _ _ _ hInit => TypeStore.balanced_zeroValue hInit) fun known init _ hInit =>
        hKeep known ⟨cType, name, init⟩ fun hStrict => ⟨hType hStrict, hName hStrict, hInit⟩

theorem temp (span : Span) (h : type.WordedIn g.d) :
    Spells g known (RoutineM.temp type span) fun k name => .variable name ∈ k :=
  .bind .nextSerial fun _ serial _ _ =>
    .bind (.addLocal span (fun _ => isWordTail_of_isCName (isCName_tempName serial)) h)
      fun _ _ _ hName => .pure hName

theorem declareLocal (span : Span) (hName : g.d.Word name) (h : type.WordedIn g.d) :
    Spells g known (RoutineM.declareLocal name type span) fun k cName => .variable cName ∈ k := by
  have hRest (known : Set OwnName) (cName : String) (hCName : g.d.Word cName) :
      Spells g known (do
        RoutineM.addLocal cName type span
        return cName) fun k cName => .variable cName ∈ k :=
    .bind (.addLocal span hCName h) fun _ _ _ hName => .pure hName
  refine .bind (.asked .get) fun _ routine _ _ => ?_
  dsimp only
  split
  · exact .bind (.map (.mono .nextSerial fun _ serial _ _ hStrict => isWordTail_of_isCName
      (isCName_renamedVariable serial (hName hStrict)))) fun _ _ _ => hRest _ _
  · exact .bind (.pure fun hStrict => isWordTail_of_isCName (isCName_variableName (hName hStrict)))
      fun _ _ _ => hRest _ _

theorem resultTemps (serial : Nat) (span : Span) (index : Nat) (h : Ty.WordedAllIn g.d outputs) :
    Spells g known (Call.resultTemps serial span index outputs) fun k members =>
      (∀ member ∈ members, .variable member.name ∈ k) ∧ Ty.WordedAllIn g.d members := by
  induction outputs generalizing index known with
  | nil => exact .pure ⟨by simp, fun _ => trivial⟩
  | cons output rest ih =>
      have hName := isCName_multiName serial index
      refine .bind (.addLocal _ (fun _ => isWordTail_of_isCName hName) fun hs => (h hs).1.2)
        fun _ _ _ hOwn => .bind (ih (index + 1) fun hs => (h hs).2) fun _ others le hOthers =>
          .pure ⟨List.forall_mem_cons.mpr ⟨le hOwn, hOthers.1⟩, fun hs =>
            ⟨⟨fun _ => ?_, (h hs).1.2⟩, hOthers.2 hs⟩⟩
      exact isIdentifier_of_isCName hName

/-- A call passes the addresses of variables that were just declared. -/
theorem results (span : Span) (h : Ty.WordedAllIn g.d outputs) :
    Spells g known (Call.results outputs span) fun k found =>
      (∀ address ∈ found.1, address.Spelled g.d k) ∧ found.2.WordedIn g.d := by
  unfold Call.results
  split
  · exact .pure ⟨by simp, fun _ => trivial⟩
  · exact .pure ⟨by simp, fun hs => (h hs).1.2⟩
  · refine .bind .nextSerial fun _ serial _ _ => .bind (.resultTemps serial span 0 h)
      fun _ members _ hMembers => .pure ⟨fun address hAddress => ?_, hMembers.2⟩
    obtain ⟨member, hMember, rfl⟩ := List.mem_map.mp hAddress
    exact hMembers.1 member hMember

/-! ## Names and values -/

theorem lookup (name : String) (span : Span) :
    Spells g known (RoutineM.lookup name span) (Value.Spelled g.d) := by
  refine .asks (.lookup name span) fun env routine value hEnv hRoutine hRun => ?_
  unfold RoutineM.lookup at hRun
  simp only [RoutineM.bind_exec, RoutineM.read_exec, RoutineM.get_exec] at hRun
  split at hRun
  · next found hFound =>
      cases hRun
      obtain ⟨scope, hScope, hEntry⟩ := List.exists_of_findSome?_eq_some hFound
      obtain ⟨before, rest, rfl, -⟩ := List.lookup_eq_some_iff.mp hEntry
      exact hRoutine.scopes _ hScope (name, found) (by simp)
  · split at hRun
    · next found hFound =>
        cases hRun
        exact hEnv.program.globalValue? hFound
    · split at hRun
      · next found hFound =>
          cases hRun
          rw [Option.orElse_eq_orElse, Option.orElse_eq_or, Option.or_eq_some_iff] at hFound
          rcases hFound with hShared | ⟨-, hKnown⟩
          · obtain ⟨builtin, -, hShared⟩ := Option.bind_eq_some_iff.mp hShared
            split at hShared
            · cases hShared
            · exact hEnv.program.globalValue? hShared
          · exact spelled_primValue? hKnown
      · cases hRun

theorem single {e : Typed} (h : e.Spelled g.d known) (span : Span) :
    Spells g known (RoutineM.single e span) (Typed.Spelled g.d) := by
  refine .bind (.answer _) fun _ found le _ => ?_
  split
  · exact .error _ _
  · exact .pure (h.mono le)

theorem toExpr (span : Span) (h : value.Spelled g.d known) :
    Spells g known (RoutineM.toExpr span value) (Typed.Spelled g.d) := by
  induction value generalizing known with
  | expr e => exact .pure h
  | global id name =>
      refine .bind .read fun known' env _ hEnv => ?_
      split
      · next value hValue =>
          obtain ⟨global, hGlobal, hValue⟩ := Option.bind_eq_some_iff.mp hValue
          have hSpelled := hEnv.program.values id name global hGlobal value hValue
          cases value with
          | expr e => exact .pure hSpelled
          | type denoted => exact .error _ _
          | module id => exact .error _ _
      · exact .error _ _
  | element container index hContainer hIndex =>
      refine .bind (hContainer h.1) fun _ c le₁ hc => .bind (.single hc span) fun _ c le₂ hc =>
        .bind (hIndex ((h.2.mono le₁).mono le₂)) fun _ i le₃ hi =>
          .bind (.single hi span) fun _ i le₄ hi => .bind (.element? hc.type)
            fun _ found le₅ hFound => ?_
      split
      · next elem =>
          exact .pure ⟨⟨((hc.c.mono le₃).mono le₄).mono le₅, hi.c.mono le₅⟩, hFound elem rfl⟩
      · exact .error _ _
  | type denoted => exact .error _ _
  | module id => exact .error _ _
  | method bound => exact .error _ _

theorem toSingle (span : Span) (h : value.Spelled g.d known) :
    Spells g known (RoutineM.toSingle span value) (Typed.Spelled g.d) :=
  .bind (.toExpr span h) fun _ _ _ hFound => .single hFound span

theorem convert (dest : Ty) {src : Typed} (h : src.c.Spelled g.d known) (span : Span)
    (context : String) :
    Spells g known (RoutineM.convert dest src span context) (CExpr.Spelled g.d) := by
  intro env routine c after hSound le _ hRoutine hRun
  have hConverted : Yields env routine.scopes True (RoutineM.convert dest src span context) _ :=
    .conversion dest src span context
  obtain ⟨⟨conversion, rfl⟩, -⟩ := hConverted routine c after rfl hRun
  obtain rfl : after = routine := by
    have hAsks := (RoutineM.Idle.convert dest src span context).asks env routine
    rwa [hRun] at hAsks
  exact ⟨⟨known, subset_rfl, le, h.converted conversion⟩, subset_rfl, hRoutine, hSound⟩

end Spells

/-! ## Two idioms -/

/-- The idiom in which the names of the routine matter, and no other words. -/
abbrev Idiom.closing (within : Option Setting) (params : Set OwnName) : Idiom :=
  ⟨within, .free, params⟩

/-- The idiom in which all names are words, whatever the routine declares. -/
abbrev Idiom.wording (d : Diction) : Idiom := ⟨none, d, d.words⟩

theorem CExpr.spelled_free : e.Spelled .free known ↔ e.Closed known :=
  e.spelled_speaking.trans (and_iff_left fun _ _ => trivial)

theorem CStmt.spelled_free : stmt.Spelled .free known ↔ stmt.Closed known :=
  stmt.spelled_speaking.trans (and_iff_left fun _ _ => trivial)

theorem CStmt.spelledAll_free {stmts : List CStmt} :
    SpelledAll .free known stmts ↔ ClosedAll known stmts :=
  (spelled_speakingAll stmts).trans (and_iff_left fun _ _ => trivial)

theorem Typed.spelled_free {e : Typed} : e.Spelled .free known ↔ e.c.Closed known :=
  ⟨fun h => CExpr.spelled_free.mp h.c, fun h => ⟨CExpr.spelled_free.mpr h, False.elim⟩⟩

theorem Env.Closed.spelled (h : env.Closed known) : env.Spelled .free known where
  program :=
    { values := fun id name global hGlobal value hValue => by
        cases value with
        | expr e =>
            exact Typed.spelled_free.mpr
              ((h.program id name global e hGlobal hValue).mono (Set.empty_subset known))
        | type denoted => exact False.elim
        | module id => trivial
      methods := fun _ _ => trivial
      types := False.elim }
  package := False.elim
  func _ _ := False.elim
  result := h.result
  outputs := h.outputs

theorem Env.Closed.mono {env : Env} (h : env.Closed known) (le : known ⊆ known') :
    env.Closed known' where
  program := h.program
  result := fun name hName => le (h.result name hName)
  outputs := fun func hFunc hSeveral index hIndex => le (h.outputs func hFunc hSeveral index hIndex)

/-- All variables of a routine are words. -/
theorem Routine.Spelled.ownNames_words (h : routine.Spelled d d.words) :
    routine.ownNames d.words = d.words := by
  refine Set.union_eq_left.mpr ?_
  rintro _ ⟨var, hVar, rfl⟩ hStrict
  exact (h.locals hStrict var hVar).name

theorem Routine.Spelled.worded_body (h : routine.Spelled d d.words) :
    CStmt.WordedAll d routine.body.toList := by
  have hBody := h.body
  rwa [h.ownNames_words] at hBody

/-- An action that is spelled with words gives a value and leaves a routine that are, too. -/
theorem Spells.words {α : Type} {action : RoutineM α} {good : Set OwnName → α → Prop} {value : α}
    (h : Spells (.wording d) d.words action good) (hEnv : env.Spelled d d.words)
    (hRoutine : routine.Spelled d d.words) (hRun : action.exec env routine = (.ok value, after)) :
    good d.words value ∧ after.Spelled d d.words := by
  obtain ⟨⟨known, hKnown, hAfter, hGood⟩, -, hSpelled, -⟩ := h env routine value after
    (fun _ => nofun) Set.subset_union_left hEnv hRoutine hRun
  obtain rfl : known = d.words := (hAfter.trans hSpelled.ownNames_words.subset).antisymm hKnown
  exact ⟨hGood, hSpelled⟩

end GoToC
