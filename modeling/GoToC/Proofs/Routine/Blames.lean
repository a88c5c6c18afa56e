import GoToC.Proofs.Routine.Composed

/-!
# Where routines find fault

An error that is raised while a routine is compiled names the module that is compiled, and its
place is that of some tree that was handed in. This is told of an action by itself: no state that
it runs from matters.
-/

namespace GoToC

variable {e : Expr} {problem : Problem} {span : Span}

/-- An error of a module whose places are of a kind. -/
structure CompileError.BlamedOn (package : String) (fits : Span → Prop) (cause : CompileError) :
    Prop where
  module : cause.module = package
  span : fits cause.span
  previous : ∀ previous ∈ cause.problem.previous?, fits previous

/-- A failure that, if it is an error, is one of a module and its places are of a kind. -/
def Failure.BlamedOn (package : String) (fits : Span → Prop) : Failure → Prop
  | .error cause => cause.BlamedOn package fits
  | .fault _ => True
  | .exhausted => True

/-- Whatever error an action raises, it is one of the module that is compiled, at a place of a
kind. -/
def Blames {α : Type} (fits : Span → Prop) (action : RoutineM α) : Prop :=
  ∀ env routine failure after, action.exec env routine = (.error failure, after) →
    failure.BlamedOn env.package fits

namespace Blames

variable {α β : Type} {fits : Span → Prop} {action : RoutineM α} {span : Span}

theorem pure (value : α) : Blames fits (pure value) := by
  intro env routine failure after hRun
  cases hRun

theorem bind {next : α → RoutineM β} (h : Blames fits action)
    (hNext : ∀ value, Blames fits (next value)) : Blames fits (action >>= next) := by
  intro env routine failure after hRun
  rw [RoutineM.bind_exec] at hRun
  cases hFirst : action.exec env routine with
  | mk result middle =>
      rw [hFirst] at hRun
      cases result with
      | ok value => exact hNext value env middle failure after hRun
      | error other =>
          cases hRun
          exact h env routine failure after hFirst

theorem map (f : α → β) (h : Blames fits action) : Blames fits (f <$> action) := by
  rw [map_eq_pure_bind]
  exact h.bind fun _ => .pure _

theorem fault (cause : Fault) : Blames fits (throw (.fault cause) : RoutineM α) := by
  intro env routine failure after hRun
  cases hRun
  trivial

theorem error (hSpan : fits span) (hProblem : problem.previous? = none) :
    Blames fits (RoutineM.error span problem : RoutineM α) := by
  intro env routine failure after hRun
  cases hRun
  refine ⟨rfl, hSpan, fun previous hPrevious => ?_⟩
  rw [hProblem] at hPrevious
  cases hPrevious

/-- A check that fails with an error or goes on. -/
theorem errorIf {check : Prop} [Decidable check] (hSpan : fits span)
    (hProblem : problem.previous? = none) {rest : RoutineM α} (h : Blames fits rest) :
    Blames fits (do
      if check then RoutineM.error span problem
      rest) := by
  by_cases hCheck : check
  · simp only [hCheck, if_true]
    exact (error hSpan hProblem).bind fun _ => h
  · simp only [hCheck, if_false]
    exact h

/-! ## Actions that raise no error -/

theorem read : Blames fits read := by
  intro env routine failure after hRun
  cases hRun

theorem get : Blames fits get := by
  intro env routine failure after hRun
  cases hRun

theorem set (routine : Routine) : Blames fits (set routine) := by
  intro env before failure after hRun
  cases hRun

theorem changed (change : Routine → Routine) : Blames fits (modify change : RoutineM Unit) := by
  intro env routine failure after hRun
  cases hRun

theorem lift (answer : Faulty α) : Blames fits (RoutineM.lift answer) := by
  cases answer with
  | ok value => exact .pure value
  | error cause => exact .fault cause

theorem types (ask : TypeStore → Faulty α) : Blames fits (RoutineM.types ask) :=
  .bind .read fun _ => .lift _

theorem nextSerial : Blames fits RoutineM.nextSerial :=
  .bind .get fun _ => .bind (.set _) fun _ => .pure _

theorem newFunc (inputs outputs : List (Member Ty)) (variadic isMethod : Bool) :
    Blames fits (RoutineM.newFunc inputs outputs variadic isMethod) :=
  .bind .get fun _ => .bind (.set _) fun _ => .pure _

theorem newStruct (name : String) (fields : List (Member Ty)) :
    Blames fits (RoutineM.newStruct name fields) :=
  .bind .get fun _ => .bind (.set _) fun _ => .bind .read fun _ => .pure _

theorem emit (stmt : CStmt) : Blames fits (RoutineM.emit stmt) := .changed _

theorem bindName (name : String) (value : Typed) : Blames fits (RoutineM.bind name value) :=
  .changed _

theorem requestTypedef (type : Ty) : Blames fits (RoutineM.requestTypedef type) := by
  refine .bind .get fun _ => .bind .read fun _ => .bind (.set _) fun _ =>
    .bind (.lift _) fun item => ?_
  split
  · exact .changed _
  · exact .pure _

/-! ## Actions around others -/

theorem capture (h : Blames fits action) : Blames fits (RoutineM.capture action) := by
  intro env routine failure after hRun
  rw [RoutineM.capture_exec] at hRun
  cases hInner : action.exec env { routine with body := #[] } with
  | mk result inner =>
      rw [hInner] at hRun
      cases result with
      | ok value => cases hRun
      | error other =>
          cases hRun
          exact h _ _ _ _ hInner

theorem inScope (h : Blames fits action) : Blames fits (RoutineM.inScope action) := by
  intro env routine failure after hRun
  rw [RoutineM.inScope_exec] at hRun
  obtain ⟨hResult, -⟩ := Prod.mk.inj hRun
  exact h env { routine with scopes := [] :: routine.scopes } failure _ (Prod.ext hResult rfl)

/-- What is compiled in another environment is blamed on the same module. -/
theorem withReader {change : Env → Env} (hPackage : ∀ env, (change env).package = env.package)
    (h : Blames fits action) : Blames fits (withReader change action) := by
  intro env routine failure after hRun
  rw [← hPackage env]
  exact h (change env) routine failure after hRun

theorem inLoop (number : Nat) (h : Blames fits action) :
    Blames fits (RoutineM.inLoop number action) := .withReader (fun _ => rfl) h

/-! ## Variables -/

theorem addLocal (hSpan : fits span) (name : String) (type : Ty) :
    Blames fits (RoutineM.addLocal name type span) := by
  refine .bind (.types _) fun storable => .errorIf hSpan rfl ?_
  refine .bind (.requestTypedef type) fun _ => .bind (.types _) fun cType => ?_
  exact .bind (.types _) fun init => .changed _

theorem declareLocal (hSpan : fits span) (name : String) (type : Ty) :
    Blames fits (RoutineM.declareLocal name type span) := by
  have hRest (cName : String) : Blames fits (do
      RoutineM.addLocal cName type span
      return cName) := .bind (.addLocal hSpan _ _) fun _ => .pure _
  refine .bind .get fun routine => ?_
  dsimp only
  split
  · exact .bind (.map _ .nextSerial) hRest
  · exact hRest _

theorem temp (hSpan : fits span) (type : Ty) : Blames fits (RoutineM.temp type span) :=
  .bind .nextSerial fun _ => .bind (.addLocal hSpan _ _) fun _ => .pure _

theorem resultTemps (hSpan : fits span) (serial index : Nat) (outputs : List (Member Ty)) :
    Blames fits (Call.resultTemps serial span index outputs) := by
  induction outputs generalizing index with
  | nil => exact .pure _
  | cons output rest ih =>
      exact .bind (.addLocal hSpan _ _) fun _ => (ih (index + 1)).bind fun _ => .pure _

theorem results (hSpan : fits span) (outputs : List (Member Ty)) :
    Blames fits (Call.results outputs span) := by
  unfold Call.results
  split
  · exact .pure _
  · exact .pure _
  · exact .bind .nextSerial fun _ => .bind (.resultTemps hSpan _ _ _) fun _ => .pure _

end Blames

/-! ## Trees -/

/-- Errors at places of a kind, and any variables. -/
def Limits.at (fits : Span → Prop) : Limits := ⟨fun _ => True, fits⟩

variable {fits : Span → Prop}

/-- An action that is put together from basic ones blames no places but those it may. -/
theorem Composed.blames {extent : Extent} {α : Type} {action : RoutineM α}
    (h : Composed extent (.at fits) action) : Blames fits action := by
  induction h with
  | pure value => exact .pure value
  | bind _ _ hAction hNext => exact .bind hAction hNext
  | fault cause => exact .fault cause
  | error span problem hSpan hProblem => exact .error hSpan hProblem
  | read => exact .read
  | get _ _ hNext => exact .bind .get hNext
  | nextSerial => exact .nextSerial
  | newFunc inputs outputs variadic isMethod => exact .newFunc inputs outputs variadic isMethod
  | newStruct name fields => exact .newStruct name fields
  | emit stmt _ => exact .emit stmt
  | temp type span hSpan => exact .temp hSpan type
  | results outputs span hSpan => exact .results hSpan outputs
  | declareLocal name type span _ _ hSpan => exact .declareLocal hSpan name type
  | bindName name value _ => exact .bindName name value
  | capture _ _ hAction => exact .capture hAction
  | inScope _ _ hAction => exact .inScope hAction
  | inLoop number _ _ hAction => exact .inLoop number hAction

theorem convert_blames (hSpan : fits span) (dest : Ty) (src : Typed) (context : String) :
    Blames fits (RoutineM.convert dest src span context) :=
  (@Composed.convert .expr _ dest src span context hSpan).blames

theorem value_blames (h : e.Placed fits) : Blames fits (operand e).value :=
  (Composed.value (operand_placed .expr h)).blames

theorem type_blames (h : e.Placed fits) : Blames fits (operand e).type :=
  (Composed.type (operand_placed .expr h)).blames

theorem compileNamedType_blames (h : e.Placed fits) (name : String) :
    Blames fits (compileNamedType e name) :=
  Composed.blames (compileNamedType_placed .expr h name)

theorem compileSignature_blames {receiver : Option (Param Expr)} {signature : Signature Expr}
    (hReceiver : ParamsPlaced fits receiver.toList) (h : SignaturePlaced fits signature) :
    Blames fits (compileSignature receiver signature) :=
  Composed.blames (compileSignature_placed .expr hReceiver h)

/-- The body of a function blames its own places or that of its declaration. -/
theorem compileBody_blames (hSpan : fits span) (func : FuncType Ty) {body : List Stmt}
    (h : StmtsPlaced fits body) : Blames fits (compileBody func body span) :=
  .bind (Composed.blames (enterFunc_composed func span (fun _ _ => trivial) hSpan)) fun _ =>
    .withReader (fun _ => rfl)
      (.inScope (Composed.blames (compileStmts_placed body (fun _ _ => trivial) h)))

end GoToC
