import GoToC.Compile.Stmt

/-!
# Runs of routine actions

What the basic actions on a routine do, as equations between runs, and what a successful
run of a composed action is made of. Actions that only ask leave the routine as it is.
-/

/-!
## Where rules come together

A rule that branches goes on in the same way from several of its branches. What it goes on with
has a name here, so that it is told of by itself and not once for each branch.
-/

namespace GoToC

namespace RoutineM

/-- Keeps the definition of a pointer type, if there is one to write. -/
def keepTypedef (answer : Faulty (Option CItem)) : RoutineM Unit := do
  match ← lift answer with
  | some item => modify fun routine => { routine with typedefs := routine.typedefs.push item }
  | none => return

/-- Converts a value for a place whose type is one of values and not of functions. -/
def assigned (dest : Ty) (src : Typed) (span : Span) (context : String) : RoutineM CExpr := do
  match ← types (·.assign dest src.type) with
  | some conversion => return conversion.apply src.c
  | none => mismatch span dest src.type context

/-- What an identifier stands for that is declared nowhere. -/
def undeclared (name : String) (span : Span) : RoutineM Value :=
  match primValue? name with
  | some value => return value
  | none => error span (.unknownIdent name)

end RoutineM

/-- The type that an expression is to denote, once it is compiled. -/
def Operand.denoted (source : Expr) : Value → RoutineM Ty
  | .type denoted => return denoted
  | other => RoutineM.error source.span (.notAType other.describe)

namespace Call

open RoutineM

/-- A call whose other arguments are there: those for its outputs are still to come. -/
def called (callee : CExpr) (args : List CExpr) (outputs : List (Member Ty)) (span : Span) :
    RoutineM Value := do
  let (addresses, type) ← results outputs span
  return .expr ⟨.call callee (args ++ addresses), type⟩

/-- A value that is converted as it was found that it can be. -/
def converted (type : Ty) (value : Typed) (span : Span) : Option Conversion → RoutineM Value
  | some conversion => return .expr ⟨conversion.apply value.c, type⟩
  | none => mismatch span type value.type "in conversion"

/-- A value that is converted, once it is known whether the two types allow conversions. -/
def attempted (type : Ty) (value : Typed) (span : Span) (convertible : Bool) : RoutineM Value := do
  let found ← if convertible then types (·.cast type value.type) else pure none
  converted type value span found

/-- A call of a value that is a pointer to a function. -/
def calledThrough (value : Value) (args : List Operand) (spread : Bool) (span : Span) :
    RoutineM Value := do
  let e ← toSingle span value
  match ← types (·.func? e.type) with
  | some func => apply e.c func [] func.inputs args spread span
  | none => error span (.notCallable e.type.display)

end Call

/-- The method of a value, if it was found. -/
def ExprRule.foundMethod (receiver : Typed) (member : String) (span : Span) :
    Option Value → RoutineM Value
  | some value => return value
  | none => RoutineM.error span (.unknownMember member (.value receiver.type.display))

namespace StmtRule

open RoutineM

/-- A return through the output parameters of the results of a call. -/
def returnSeveral (func : FuncType Ty) (value : Operand) (span : Span) : RoutineM Unit := do
  let value ← toExpr span (← value.compile)
  match ← types (·.multi? value.type) with
  | some members =>
      if members.length ≠ func.outputs.length then
        error span (.resultCount (.returnOne func.outputs.length))
      emit (.eval value.c)
      returnThrough func (members.map fun m => ⟨.localVar m.name, m.type⟩) span
  | none => error span (.resultCount (.returnOne func.outputs.length))

/-- A definition, once the type of the variable is known. -/
def defineTyped (name : String) (value : Typed) (span : Span) (type : Ty) : RoutineM Unit := do
  if ← types (·.isPrim type .nil) then error span (.invalidStatement (.untypedNil name))
  let cName ← declareLocal name type span
  let c ← convert type value span "in definition"
  emit (.store (.localVar cName) (← types (·.cType type)) c)
  bind name ⟨.localVar cName, type⟩

/-- An assignment of the results of a call, once the names that it defines are known. -/
def assignCalled (targets : List Operand) (call : Operand) (names : Option (List String))
    (span : Span) : RoutineM Unit := do
  let value ← toExpr span (← call.compile)
  match ← types (·.multi? value.type) with
  | some members =>
      if members.length ≠ targets.length then
        error span (.resultCount (.callCount targets.length members.length))
      emit (.eval value.c)
      assignResults targets names (members.map fun m => ⟨.localVar m.name, m.type⟩) span
  | none =>
      let nothing ← if call.source.isCall then types (·.isPrim value.type .void) else pure false
      error span (.resultCount (.callCount targets.length (if nothing then 0 else 1)))

end StmtRule

end GoToC

/-!
## Runs

Actions run as equations that rewrite, and a successful run of a sequence is taken apart.
-/

namespace GoToC

variable {type : Ty} {done : Unit} {name : String}

/-- A successful sequence of questions is a successful first one and a successful rest. -/
theorem Faulty.bind_eq_ok {α β : Type} {answer : Faulty α} {next : α → Faulty β} {value : β} :
    answer >>= next = .ok value ↔ ∃ first, answer = .ok first ∧ next first = .ok value := by
  cases answer with
  | ok first => exact ⟨fun h => ⟨first, rfl, h⟩, fun ⟨_, hFirst, h⟩ => by cases hFirst; exact h⟩
  | error fault => exact ⟨fun h => (by cases h), fun ⟨_, hFirst, _⟩ => by cases hFirst⟩

namespace RoutineM

variable {α β : Type} {env : Env} {routine after : Routine}

/-- What an action comes to in an environment, from a routine on. -/
def exec (action : RoutineM α) (env : Env) (routine : Routine) : Except Failure α × Routine :=
  action env routine

@[simp] theorem pure_exec (value : α) (env : Env) (routine : Routine) :
    (pure value : RoutineM α).exec env routine = (.ok value, routine) := rfl

@[simp] theorem read_exec (env : Env) (routine : Routine) :
    (read : RoutineM Env).exec env routine = (.ok env, routine) := rfl

@[simp] theorem get_exec (env : Env) (routine : Routine) :
    (get : RoutineM Routine).exec env routine = (.ok routine, routine) := rfl

@[simp] theorem throw_exec (failure : Failure) (env : Env) (routine : Routine) :
    (throw failure : RoutineM α).exec env routine = (.error failure, routine) := rfl

@[simp] theorem error_exec (span : Span) (problem : Problem) (env : Env) (routine : Routine) :
    (error span problem : RoutineM α).exec env routine =
      (.error (.error ⟨env.package, span, problem⟩), routine) := rfl

@[simp] theorem mismatch_exec (span : Span) (expected found : Ty) (context : String) (env : Env)
    (routine : Routine) :
    (mismatch span expected found context : RoutineM α).exec env routine =
      (.error (.error ⟨env.package, span, .mismatch expected.display found.display context⟩),
        routine) := rfl

@[simp] theorem emit_exec (stmt : CStmt) (env : Env) (routine : Routine) :
    (emit stmt).exec env routine = (.ok (), { routine with body := routine.body.push stmt }) := rfl

@[simp] theorem nextSerial_exec (env : Env) (routine : Routine) : nextSerial.exec env routine =
      (.ok (routine.supply.serial + 1),
        { routine with
          supply := { routine.supply with serial := routine.supply.serial + 1 } }) := rfl

/-- The blocks after a name was bound in the innermost one. -/
def withBinding (scopes : List Scope) (name : String) (value : Typed) : List Scope :=
  match scopes with
  | [] => []
  | scope :: outer => ((name, value) :: scope) :: outer

theorem bindName_exec (name : String) (value : Typed) (env : Env) (routine : Routine) :
    (bind name value).exec env routine =
      (.ok (), { routine with scopes := withBinding routine.scopes name value }) := by
  obtain ⟨supply, scopes, locals, typedefs, body⟩ := routine
  cases scopes <;> rfl

theorem bind_exec (action : RoutineM α) (next : α → RoutineM β) (env : Env) (routine : Routine) :
    exec (action >>= next) env routine =
      match action.exec env routine with
      | (.ok value, middle) => (next value).exec env middle
      | (.error failure, middle) => (.error failure, middle) := by
  simp only [exec, Bind.bind, ReaderT.bind, ExceptT.bind, ExceptT.mk, StateT.bind]
  cases action env routine with
  | mk result middle => cases result <;> rfl

theorem map_exec (f : α → β) (action : RoutineM α) (env : Env) (routine : Routine) :
    exec (f <$> action) env routine =
      match action.exec env routine with
      | (.ok value, middle) => (.ok (f value), middle)
      | (.error failure, middle) => (.error failure, middle) := by
  simp only [exec, Functor.map, ExceptT.map, ExceptT.mk, StateT.bind, Bind.bind]
  cases action env routine with
  | mk result middle => cases result <;> rfl

theorem capture_exec (action : RoutineM α) (env : Env) (routine : Routine) :
    (capture action).exec env routine =
      match action.exec env { routine with body := #[] } with
      | (.ok value, inner) =>
          (.ok (value, inner.body.toList), { inner with body := routine.body })
      | (.error failure, inner) => (.error failure, { inner with body := routine.body }) := rfl

theorem inScope_exec (action : RoutineM α) (env : Env) (routine : Routine) :
    (inScope action).exec env routine =
      ((action.exec env { routine with scopes := [] :: routine.scopes }).1,
        { (action.exec env { routine with scopes := [] :: routine.scopes }).2 with
          scopes := (action.exec env { routine with scopes :=
            [] :: routine.scopes }).2.scopes.tail }) :=
  rfl

/-- A successful sequence is a successful first part and a successful rest after it. -/
theorem bind_eq_ok {action : RoutineM α} {next : α → RoutineM β} {value : β} :
    exec (action >>= next) env routine = (.ok value, after) ↔
      ∃ first middle, action.exec env routine = (.ok first, middle) ∧
        (next first).exec env middle = (.ok value, after) := by
  rw [bind_exec]
  constructor
  · intro h
    split at h
    · next first middle run => exact ⟨first, middle, run, h⟩
    · cases h
  · rintro ⟨first, middle, run, rest⟩
    rw [run]
    exact rest

theorem map_eq_ok {f : α → β} {action : RoutineM α} {value : β} :
    exec (f <$> action) env routine = (.ok value, after) ↔
      ∃ first, action.exec env routine = (.ok first, after) ∧ f first = value := by
  rw [map_exec]
  constructor
  · intro h
    split at h
    · next first middle run =>
        cases h
        exact ⟨first, run, rfl⟩
    · cases h
  · rintro ⟨first, run, rfl⟩
    rw [run]

theorem pure_eq_ok {value result : α} :
    (pure value : RoutineM α).exec env routine = (.ok result, after) ↔
      value = result ∧ routine = after := by
  simp

/-- Asking the type store changes nothing. -/
theorem types_eq_ok {ask : TypeStore → Faulty α} {value : α} :
    (types ask).exec env routine = (.ok value, after) ↔
      ask env.program.types = .ok value ∧ routine = after := by
  show (lift (ask env.program.types)).exec env routine = (.ok value, after) ↔ _
  cases ask env.program.types with
  | ok found => simp [lift]
  | error fault => simp [lift]

theorem types_exec (ask : TypeStore → Faulty α) (env : Env) (routine : Routine) :
    (types ask).exec env routine =
      match ask env.program.types with
      | .ok value => (.ok value, routine)
      | .error fault => (.error (.fault fault), routine) := by
  show (lift (ask env.program.types)).exec env routine = _
  cases ask env.program.types <;> rfl

theorem capture_eq_ok {action : RoutineM α} {value : α} {stmts : List CStmt} :
    (capture action).exec env routine = (.ok (value, stmts), after) ↔
      ∃ inner, action.exec env { routine with body := #[] } = (.ok value, inner) ∧
        stmts = inner.body.toList ∧ after = { inner with body := routine.body } := by
  rw [capture_exec]
  constructor
  · intro h
    split at h
    · next first inner run =>
        cases h
        exact ⟨inner, run, rfl, rfl⟩
    · cases h
  · rintro ⟨inner, run, rfl, rfl⟩
    rw [run]

theorem inScope_eq_ok {action : RoutineM α} {value : α} :
    (inScope action).exec env routine = (.ok value, after) ↔
      ∃ inner, action.exec env { routine with scopes := [] :: routine.scopes } =
        (.ok value, inner) ∧ after = { inner with scopes := inner.scopes.tail } := by
  rw [inScope_exec]
  constructor
  · intro h
    cases run : action.exec env { routine with scopes := [] :: routine.scopes } with
    | mk result inner =>
        rw [run] at h
        cases h
        exact ⟨inner, rfl, rfl⟩
  · rintro ⟨inner, run, rfl⟩
    rw [run]

end RoutineM

section

variable {env : Env} {routine after : Routine}

/-- A typedef that is requested is kept behind the others, unless it was handed out before. -/
theorem requestTypedef_eq_ok
    (h : (RoutineM.requestTypedef type).exec env routine = (.ok done, after)) :
    ∃ item, (routine.supply.typedefs.request env.program.types type).1 = .ok item ∧
      after = { routine with
        supply := { routine.supply with
          typedefs := (routine.supply.typedefs.request env.program.types type).2 }
        typedefs := item.elim routine.typedefs routine.typedefs.push } := by
  unfold RoutineM.requestTypedef at h
  simp only [RoutineM.bind_exec, RoutineM.get_exec, RoutineM.read_exec] at h
  cases hItem : (routine.supply.typedefs.request env.program.types type).1 with
  | error fault =>
      rw [hItem] at h
      cases h
  | ok item =>
      rw [hItem] at h
      cases item with
      | none | some =>
          cases h
          exact ⟨_, rfl, rfl⟩

/-- A variable is declared behind the others, once the typedef of its type is requested. -/
theorem addLocal_eq_ok {span : Span}
    (h : (RoutineM.addLocal name type span).exec env routine = (.ok done, after)) :
    ∃ (added : CLocal) (middle : Routine), added.name = name ∧
      env.program.types.cType type = .ok added.type ∧
      env.program.types.zeroValue type = .ok added.init ∧
      (RoutineM.requestTypedef type).exec env routine = (.ok (), middle) ∧
      after = { middle with locals := middle.locals.push added } := by
  unfold RoutineM.addLocal at h
  rw [RoutineM.bind_eq_ok] at h
  obtain ⟨hasZero, first, hZero, h⟩ := h
  obtain ⟨-, rfl⟩ := RoutineM.types_eq_ok.mp hZero
  dsimp only at h
  split at h
  · cases h
  · simp only [RoutineM.bind_eq_ok] at h
    obtain ⟨_, second, hRequest, cType, third, hType, init, fourth, hInit, h⟩ := h
    obtain ⟨hCType, rfl⟩ := RoutineM.types_eq_ok.mp hType
    obtain ⟨hZero, rfl⟩ := RoutineM.types_eq_ok.mp hInit
    cases h
    exact ⟨⟨cType, name, init⟩, _, rfl, hCType, hZero, hRequest, rfl⟩

end

/-- The C headings of a function: one output is returned, and others are parameters. -/
inductive TypeStore.Heads (store : TypeStore) (func : FuncType Ty) (name : String) :
    Prototype → Prop
  | returned {output result inputs} :
      func.outputs = [output] → store.cType output.type = .ok result →
      store.params func.inputName false 0 func.inputs = .ok inputs →
      Heads store func name ⟨result, name, inputs⟩
  | passed {inputs results} : (∀ output, func.outputs ≠ [output]) →
      store.params func.inputName false 0 func.inputs = .ok inputs →
      store.params func.outputName true 0 func.outputs = .ok results →
      Heads store func name ⟨"void", name, inputs ++ results⟩

theorem TypeStore.prototype_eq_ok {store : TypeStore} {func : FuncType Ty} {prototype : Prototype}
    (h : store.prototype func name = .ok prototype) : store.Heads func name prototype := by
  unfold TypeStore.prototype at h
  split at h
  · next output hOutput =>
      obtain ⟨result, hResult, h⟩ := Faulty.bind_eq_ok.mp h
      obtain ⟨inputs, hInputs, h⟩ := Faulty.bind_eq_ok.mp h
      cases h
      exact .returned hOutput hResult hInputs
  · next hOutputs =>
      obtain ⟨inputs, hInputs, h⟩ := Faulty.bind_eq_ok.mp h
      obtain ⟨results, hResults, h⟩ := Faulty.bind_eq_ok.mp h
      cases h
      exact .passed hOutputs hInputs hResults

end GoToC
