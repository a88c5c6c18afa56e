import GoToC.Proofs.Routine.Actions
import GoToC.Proofs.Tree.Formed
import GoToC.Proofs.Types.Comparison

/-!
# Safe actions

An action is safe if, run against a sound program from a sound routine, it leaves the
routine sound and gives what was promised of it, or fails with an error of the program
that is compiled. Two faults are excused: a chain of handles that is one too long, and a
conversion of a value whose type is the type of types.
-/

namespace GoToC

/-- A word that a source may hold. -/
def Known.Word (k : Known) (name : String) : Prop :=
  isIdentifier name = true ∧ (name = Prim.type.name → k.metatype)

/-- What a routine is compiled against, as far as types are concerned. While the types of
a module are built, more can be mentioned than values can have. -/
structure Setting where
  /-- What the types of values are made of. -/
  values : Known
  /-- What the types that are mentioned are made of. -/
  types : Known
  store : TypeStore
  settled : store.Settled values
  le : values.Le types

/-- One value: its type is usable, and it is a name if it is a function. -/
structure Typed.Sound (k : Known) (e : Typed) : Prop where
  usable : e.type.Usable k
  fits : e.c.Fits k.strict
  name : ∀ func, e.type = .func func → e.c.IsName

/-- One value or the results of a call. -/
def Typed.Result (k : Known) (e : Typed) : Prop :=
  e.Sound k ∨ e.c.Fits k.strict ∧ ∃ members, e.type = .multi members ∧
    ∀ member ∈ members, isCName member.name = true ∧ member.type.Plain k

/-- One value, or a call that has several results and passes the address of each. -/
structure Typed.Given (k : Known) (e : Typed) : Prop where
  result : e.Result k
  passes : ∀ members, e.type = .multi members → ∃ callee args, e.c = .call callee args ∧
    ∀ member ∈ members, CExpr.addressOf member.name ∈ args

theorem Typed.Sound.given {k : Known} {e : Typed} (h : e.Sound k) : e.Given k where
  result := .inl h
  passes := fun _ hType => absurd (hType ▸ h.usable) Ty.Usable.not_multi

theorem Typed.Sound.of_plain {k : Known} {c : CExpr} {type : Ty} (hType : type.Plain k)
    (hFits : c.Fits k.strict) : Typed.Sound k ⟨c, type⟩ := by
  refine ⟨hType.usable, hFits, ?_⟩
  rintro func rfl
  exact absurd hType Ty.Plain.not_func

/-- A method that can be called: one that an interface lists, or one that a struct was given
and that goes by the name of the struct and its own. -/
structure BoundMethod.Sound (s : Setting) (method : BoundMethod) : Prop where
  func : (Ty.func method.func).PlainFunc s.values
  receiver : method.receiver.Fits s.values.strict
  callee : method.callee.IsName ∧ method.callee.Fits s.values.strict
  kind : (∃ name, method.callee = .dispatch name ∧ method.func.isMethod = false) ∨
    ∃ key name, method.callee = .global (key.cName ++ "__" ++ name) ∧
      s.store.GivenTo s.values key method.func

def Value.Sound (s : Setting) : Value → Prop
  | .expr e => e.Result s.values
  | .global _ _ => True
  | .type denoted => denoted.Plain s.types
  | .module _ => True
  | .element container index => container.Sound s ∧ index.Sound s
  | .method bound => bound.Sound s

/-- One value at the most, not the results of a call. -/
def Value.Alone (s : Setting) : Value → Prop
  | .expr e => e.Sound s.values
  | other => other.Sound s

/-- A value as an expression gives it. -/
def Value.Given (s : Setting) : Value → Prop
  | .expr e => e.Given s.values
  | other => other.Sound s

theorem Value.Given.sound {s : Setting} {value : Value} (h : value.Given s) : value.Sound s := by
  cases value with
  | expr e => exact h.result
  | _ => exact h

theorem Value.Alone.given {s : Setting} {value : Value} (h : value.Alone s) : value.Given s := by
  cases value with
  | expr e => exact Typed.Sound.given h
  | _ => exact h

/-- A global of another module: if it is a type, it may not be built yet. -/
def Value.Foreign (s : Setting) : Value → Prop
  | .type denoted => s.store.validate denoted = .ok () → denoted.Plain s.types
  | other => other.Sound s

structure Env.Sound (s : Setting) (env : Env) : Prop where
  types : env.program.types = s.store
  own : ∀ name value, env.program.globalValue? env.module name = some value → value.Sound s
  shared : ∀ id name value, env.program.builtin = some id →
    env.program.globalValue? id name = some value → value.Sound s
  foreign : ∀ id name value, env.program.globalValue? id name = some value → value.Foreign s
  exprs : ∀ id name global e, env.program.global? id name = some global →
    global.value = some (.expr e) → e.Sound s.values
  func : ∀ func, env.func = some func → (Ty.func func).PlainFunc s.values
  result : ∀ name, env.namedResult = some name → isCName name = true
  package : s.types.strict → NamesGlobals env.package

def Routine.Sound (k : Known) (routine : Routine) : Prop :=
  ∀ scope ∈ routine.scopes, ∀ entry ∈ scope, entry.2.Sound k ∧ entry.2.c.IsVariable

/-- The failures that a safe action may end in. -/
def Setting.Excuses (s : Setting) : Failure → Prop
  | .error _ => True
  | .fault fault =>
      s.store.Deep fault ∨ fault = .notConvertible .castFrom Prim.type.name ∧ s.values.metatype
  | .exhausted => False

def Safe {α : Type} (s : Setting) (action : RoutineM α) (good : α → Prop) : Prop :=
  ∀ env routine, env.Sound s → routine.Sound s.values →
    match action.exec env routine with
    | (.ok value, after) => good value ∧ after.Sound s.values
    | (.error failure, _) => s.Excuses failure

namespace Safe

variable {α β : Type} {s : Setting} {good : α → Prop} {action : RoutineM α}

theorem pure {value : α} (h : good value) : Safe s (pure value) good :=
  fun _ _ _ hRoutine => ⟨h, hRoutine⟩

theorem bind {next : α → RoutineM β} {good' : β → Prop} (h : Safe s action good)
    (hNext : ∀ value, good value → Safe s (next value) good') : Safe s (action >>= next) good' := by
  intro env routine hEnv hRoutine
  have hFirst := h env routine hEnv hRoutine
  rw [RoutineM.bind_exec]
  cases hRun : action.exec env routine with
  | mk result middle =>
      rw [hRun] at hFirst
      cases result with
      | error failure => exact hFirst
      | ok value => exact hNext value hFirst.1 env middle hEnv hFirst.2

theorem mono {good' : α → Prop} (h : Safe s action good) (imp : ∀ value, good value → good' value) :
    Safe s action good' := by
  intro env routine hEnv hRoutine
  have hRun := h env routine hEnv hRoutine
  cases hExec : action.exec env routine with
  | mk result after =>
      rw [hExec] at hRun
      cases result with
      | error failure => exact hRun
      | ok value => exact ⟨imp value hRun.1, hRun.2⟩

theorem map {f : α → β} {good' : β → Prop} (h : Safe s action fun value => good' (f value)) :
    Safe s (f <$> action) good' := by
  rw [map_eq_pure_bind]
  exact h.bind fun _ hValue => .pure hValue

theorem sound {action : RoutineM Value} (h : Safe s action (Value.Given s)) :
    Safe s action (Value.Sound s) := h.mono fun _ hValue => hValue.sound

theorem fail {failure : Failure} (h : s.Excuses failure) :
    Safe s (throw failure : RoutineM α) good := fun _ _ _ _ => h

theorem error (span : Span) (problem : Problem) :
    Safe s (RoutineM.error span problem : RoutineM α) good := fun _ _ _ _ => trivial

theorem mismatch (span : Span) (expected found : Ty) (context : String) :
    Safe s (RoutineM.mismatch span expected found context : RoutineM α) good :=
  .error span _

/-- A check that fails with an error or goes on. -/
theorem errorIf {check : Prop} [Decidable check] (span : Span) (problem : Problem)
    {rest : RoutineM α} (h : ¬ check → Safe s rest good) :
    Safe s (do
      if check then RoutineM.error span problem
      rest) good := by
  dsimp only
  split
  · exact .bind (Safe.error span problem : Safe s _ fun _ => False) fun _ h => h.elim
  · next hCheck => exact h hCheck

theorem read : Safe s read (Env.Sound s) := fun _ _ hEnv hRoutine => ⟨hEnv, hRoutine⟩

theorem get : Safe s get (Routine.Sound s.values) := fun _ _ _ hRoutine => ⟨hRoutine, hRoutine⟩

/-- A change of the routine that leaves its blocks as they are. -/
theorem modify {change : Routine → Routine} (h : ∀ routine,
    (change routine).scopes = routine.scopes) :
    Safe s (modify change : RoutineM Unit) fun _ => True := by
  intro env routine _ hRoutine
  refine ⟨trivial, ?_⟩
  show Routine.Sound s.values (change routine)
  rw [Routine.Sound, h routine]
  exact hRoutine

theorem emit (stmt : CStmt) : Safe s (RoutineM.emit stmt) fun _ => True := .modify fun _ => rfl

theorem lift {answer : Faulty α} (h : s.store.Answers answer good) :
    Safe s (RoutineM.lift answer) fun value => answer = .ok value ∧ good value := by
  cases answer with
  | ok value => exact .pure ⟨rfl, h⟩
  | error fault => exact .fail (.inl h)

/-- A question to the type store; what it answers is kept beside the promise. -/
theorem types {ask : TypeStore → Faulty α} (h : s.store.Answers (ask s.store) good) :
    Safe s (RoutineM.types ask) fun value => ask s.store = .ok value ∧ good value := by
  refine Safe.read.bind fun env hEnv => ?_
  rw [hEnv.types]
  exact .lift h

theorem nextSerial : Safe s RoutineM.nextSerial fun _ => True := fun _ _ _ hRoutine =>
  ⟨trivial, hRoutine⟩

theorem newFunc (inputs outputs : List (Member Ty)) (variadic isMethod : Bool) :
    Safe s (RoutineM.newFunc inputs outputs variadic isMethod) fun func =>
      func.inputs = inputs ∧ func.outputs = outputs ∧ func.variadic = variadic ∧
        func.isMethod = isMethod :=
  fun _ _ _ hRoutine => ⟨⟨rfl, rfl, rfl, rfl⟩, hRoutine⟩

theorem newStruct (name : String) {fields : List (Member Ty)} (hName : isWordTail name = true)
    (hFields : Ty.PlainAll s.types fields) :
    Safe s (RoutineM.newStruct name fields) fun record => (Ty.struct record).Plain s.types := by
  intro env routine hEnv hRoutine
  refine ⟨?_, hRoutine⟩
  show (Ty.struct ⟨routine.supply.structs, env.package, name, fields⟩).Plain s.types
  rw [Ty.Plain]
  exact ⟨fun strict => ⟨hEnv.package strict, hName⟩, hFields⟩

theorem capture (h : Safe s action good) :
    Safe s (RoutineM.capture action) fun value => good value.1 := by
  intro env routine hEnv hRoutine
  have hRun := h env { routine with body := #[] } hEnv hRoutine
  rw [RoutineM.capture_exec]
  cases hExec : action.exec env { routine with body := #[] } with
  | mk result after =>
      rw [hExec] at hRun
      cases result <;> exact hRun

theorem inScope (h : Safe s action good) : Safe s (RoutineM.inScope action) good := by
  intro env routine hEnv hRoutine
  have hOpened : Routine.Sound s.values { routine with scopes := [] :: routine.scopes } := by
    intro scope hScope
    rcases List.mem_cons.mp hScope with rfl | hScope
    · simp
    · exact hRoutine scope hScope
  have hRun := h env _ hEnv hOpened
  rw [RoutineM.inScope_exec]
  cases hExec : action.exec env { routine with scopes := [] :: routine.scopes } with
  | mk result after =>
      rw [hExec] at hRun
      cases result with
      | error failure => exact hRun
      | ok value =>
          refine ⟨hRun.1, fun scope hScope => hRun.2 scope ?_⟩
          exact List.mem_of_mem_tail hScope

theorem inLoop (number : Nat) (h : Safe s action good) :
    Safe s (RoutineM.inLoop number action) good := fun env routine hEnv hRoutine =>
  h { env with loop := some number } routine
    ⟨hEnv.types, hEnv.own, hEnv.shared, hEnv.foreign, hEnv.exprs, hEnv.func, hEnv.result,
      hEnv.package⟩ hRoutine

theorem bindName (name : String) {value : Typed} (h : value.Sound s.values)
    (hVariable : value.c.IsVariable) : Safe s (RoutineM.bind name value) fun _ => True := by
  intro env routine _ hRoutine
  rw [RoutineM.bindName_exec]
  refine ⟨trivial, ?_⟩
  obtain ⟨supply, scopes, locals, typedefs, body⟩ := routine
  cases scopes with
  | nil => exact hRoutine
  | cons scope outer =>
      intro found hFound entry hEntry
      rcases List.mem_cons.mp hFound with rfl | hFound
      · rcases List.mem_cons.mp hEntry with rfl | hEntry
        · exact ⟨h, hVariable⟩
        · exact hRoutine scope List.mem_cons_self entry hEntry
      · exact hRoutine found (List.mem_cons_of_mem scope hFound) entry hEntry

end Safe

end GoToC
