import GoToC.Proofs.Routine.Composed

/-!
# What successful runs yield

A run of an action for an expression takes place in blocks that it does not change. What
every successful run yields is told here without regard to failure; a quiet action writes
no statements either.
-/

namespace GoToC

variable {α : Type} {limits : Limits} {action : RoutineM α} {env : Env} {routine after : Routine}

/-- An action that leaves the routine as it is. -/
def RoutineM.Asks {α : Type} (action : RoutineM α) : Prop :=
  ∀ env routine, (action.exec env routine).2 = routine

/-- An action whose result hangs on the environment alone, and that leaves the routine as it is. -/
def RoutineM.Idle {α : Type} (action : RoutineM α) : Prop :=
  ∀ env, ∃ result, ∀ routine, action.exec env routine = (result, routine)

/-- What every successful run of an action in an environment and in the given blocks
yields. The blocks stay as they are and, if it is to be quiet, so does what was written. -/
def Yields {α : Type} (env : Env) (scopes : List Scope) (quiet : Prop) (action : RoutineM α)
    (good : α → Prop) : Prop :=
  ∀ routine value after, routine.scopes = scopes → action.exec env routine = (.ok value, after) →
      good value ∧ after.scopes = scopes ∧ (quiet → after.body = routine.body)

/-- The name that an intrinsic goes by. -/
def Call.Intrinsic.name : Call.Intrinsic → String
  | .len => "len"
  | .append => "append"

namespace RoutineM.Idle

variable {α β : Type} {action : RoutineM α}

theorem asks (h : action.Idle) : action.Asks := by
  intro env routine
  obtain ⟨result, hResult⟩ := h env
  rw [hResult]

theorem pure (value : α) : Idle (pure value) := fun _ => ⟨_, fun _ => rfl⟩

theorem error (span : Span) (problem : Problem) :
    Idle (RoutineM.error span problem : RoutineM α) := fun _ => ⟨_, fun _ => rfl⟩

theorem read : Idle read := fun _ => ⟨_, fun _ => rfl⟩

theorem bind {next : α → RoutineM β} (h : action.Idle) (hNext : ∀ value, (next value).Idle) :
    Idle (action >>= next) := by
  intro env
  obtain ⟨result, hResult⟩ := h env
  cases result with
  | error failure => exact ⟨.error failure, fun routine => by rw [bind_exec, hResult]⟩
  | ok value =>
      obtain ⟨last, hLast⟩ := hNext value env
      refine ⟨last, fun routine => ?_⟩
      rw [bind_exec, hResult]
      exact hLast routine

theorem types (ask : TypeStore → Faulty α) : Idle (RoutineM.types ask) := by
  intro env
  simp only [types_exec]
  cases ask env.program.types <;> exact ⟨_, fun _ => rfl⟩

theorem single (e : Typed) (span : Span) : Idle (RoutineM.single e span) := by
  refine .bind (.types _) fun found => ?_
  split
  · exact .error _ _
  · exact .pure _

theorem toExpr (span : Span) (value : Value) : Idle (RoutineM.toExpr span value) := by
  induction value with
  | expr e => exact .pure _
  | global id name =>
      refine .bind .read fun env => ?_
      split
      · unfold globalExpr
        split
        · exact .pure _
        · exact .error _ _
      · exact .error _ _
  | element container index hContainer hIndex =>
      refine .bind hContainer fun c => .bind (.single _ _) fun c => .bind hIndex fun i =>
        .bind (.single _ _) fun i => .bind (.types _) fun found => ?_
      split
      · exact .pure _
      · exact .error _ _
  | type denoted => exact .error _ _
  | module id => exact .error _ _
  | method bound => exact .error _ _

theorem toSingle (span : Span) (value : Value) : Idle (RoutineM.toSingle span value) :=
  .bind (.toExpr _ _) fun _ => .single _ _

theorem convert (dest : Ty) (src : Typed) (span : Span) (context : String) :
    Idle (RoutineM.convert dest src span context) := by
  refine .bind (.types _) fun func => ?_
  split
  · refine .bind (.types _) fun isNil => ?_
    split
    · exact .pure _
    · refine .bind (.types _) fun same => ?_
      split
      · exact .pure _
      · exact .error _ _
  · refine .bind (.types _) fun storable => ?_
    have hAssign : Idle (RoutineM.assigned dest src span context) := by
      refine .bind (.types _) fun found => ?_
      split
      · exact .pure _
      · exact .error _ _
    dsimp only
    split
    · exact .bind (.error _ _) fun _ => hAssign
    · exact hAssign

theorem checkCount (variadic spread : Bool) (given inputs : Nat) (span : Span) :
    Idle (Call.checkCount variadic spread given inputs span) := by
  have hCount : Idle (if variadic && !spread then
      (if given < inputs - 1 then RoutineM.error span (.argCount (.count given (inputs - 1) true))
        else Pure.pure ())
    else (if given ≠ inputs then RoutineM.error span (.argCount (.count given inputs false))
        else Pure.pure ()) : RoutineM Unit) := by
    split <;> split
    all_goals first | exact .error _ _ | exact .pure _
  unfold Call.checkCount
  dsimp only
  split
  · exact .bind (.error _ _) fun _ => hCount
  · exact hCount

theorem requireResolved (type : Ty) (span : Span) : Idle (ExprRule.requireResolved type span) := by
  refine .bind .read fun env => ?_
  split
  · exact .pure _
  · exact .error _ _
  · exact .error _ _

theorem moduleMember (id : ModuleId) (member : String) (span : Span) :
    Idle (ExprRule.moduleMember id member span) := by
  refine .bind .read fun env => ?_
  dsimp only
  split
  · exact .error _ _
  · split
    · exact .bind (.requireResolved _ _) fun _ => .pure _
    · exact .pure _

theorem boundMethod? (callee receiver : CExpr) (method : Option (Member Ty)) :
    Idle (ExprRule.boundMethod? callee receiver method) := by
  cases method with
  | none => exact .pure _
  | some method => exact .bind (.types _) fun _ => .pure _

theorem valueMember (receiver : Typed) (member : String) (span : Span) :
    Idle (ExprRule.valueMember receiver member span) := by
  have hUnknown (found : Option Value) :
      Idle (ExprRule.foundMethod receiver member span found) := by
    cases found with
    | some value => exact .pure _
    | none => exact .error _ _
  refine .bind (.types _) fun pointee => ?_
  split
  · split
    · exact .pure _
    · exact .bind .read fun env => .bind (.boundMethod? _ _ _) hUnknown
  · refine .bind (.types _) fun found => ?_
    split
    · exact .bind (.boundMethod? _ _ _) hUnknown
    · exact .error _ _

/-- The end of a conversion, when its argument is compiled. -/
theorem converted (type : Ty) (value : Typed) (span : Span) : Idle (do
    let convertible ← do
      if !(← RoutineM.types (·.isStorable type)) then Pure.pure false
      else if (← RoutineM.types (·.func? type)).isSome then Pure.pure false
      else if (← RoutineM.types (·.func? value.type)).isSome then Pure.pure false
      else Pure.pure !(← RoutineM.types (·.isPrim value.type .void))
    Call.attempted type value span convertible) := by
  have hFound (found : Option Conversion) : Idle (Call.converted type value span found) := by
    cases found with
    | some conversion => exact .pure _
    | none => exact .error _ _
  have hEnd (convertible : Bool) : Idle (Call.attempted type value span convertible) := by
    cases convertible with
    | true => exact .bind (.types _) hFound
    | false => exact .bind (.pure _) hFound
  -- Four questions in a row; the first `no` ends them.
  refine .bind (.types _) fun _ => ?_
  split
  · exact .bind (.pure _) hEnd
  · refine .bind (.types _) fun _ => ?_
    split
    · exact .bind (.pure _) hEnd
    · refine .bind (.types _) fun _ => ?_
      split
      · exact .bind (.pure _) hEnd
      · exact .bind (.types _) fun _ => .bind (.pure _) hEnd

end RoutineM.Idle

namespace RoutineM.Asks

variable {α β : Type} {action : RoutineM α}

theorem pure (value : α) : Asks (pure value) := fun _ _ => rfl

theorem fail (failure : Failure) : Asks (throw failure : RoutineM α) := fun _ _ => rfl

theorem error (span : Span) (problem : Problem) :
    Asks (RoutineM.error span problem : RoutineM α) := fun _ _ => rfl

theorem read : Asks read := fun _ _ => rfl

theorem get : Asks get := fun _ _ => rfl

theorem bind {next : α → RoutineM β} (h : action.Asks) (hNext : ∀ value, (next value).Asks) :
    Asks (action >>= next) := by
  intro env routine
  have hFirst := h env routine
  rw [bind_exec]
  cases hRun : action.exec env routine with
  | mk result middle =>
      rw [hRun] at hFirst
      obtain rfl : middle = routine := hFirst
      cases result with
      | ok value => exact hNext value env middle
      | error failure => rfl

theorem types (ask : TypeStore → Faulty α) : Asks (RoutineM.types ask) := by
  intro env routine
  rw [types_exec]
  split <;> rfl

theorem lookup (name : String) (span : Span) : Asks (RoutineM.lookup name span) := by
  refine .bind .read fun env => .bind .get fun routine => ?_
  split
  · exact .pure _
  · split
    · exact .pure _
    · dsimp only
      split
      · exact .pure _
      · exact .error _ _

theorem isAssignable (name : String) : Asks (RoutineM.isAssignable name) := by
  refine .bind .read fun env => .bind .get fun routine => ?_
  dsimp only
  split
  · exact .pure _
  · split <;> exact .pure _

theorem intrinsic? (callee : Expr) : Asks (Call.intrinsic? callee) := by
  unfold Call.intrinsic?
  dsimp only
  split
  · exact .pure _
  · refine .bind .read fun env => .bind .get fun routine => ?_
    split <;> exact .pure _

end RoutineM.Asks

namespace Yields

variable {α β : Type} {env : Env} {scopes : List Scope} {quiet : Prop} {action : RoutineM α}
  {good : α → Prop}

theorem asks (hAsks : action.Asks) (h : ∀ routine value after, routine.scopes = scopes →
      action.exec env routine = (.ok value, after) → good value) :
    Yields env scopes quiet action good := by
  intro routine value after hScopes hRun
  have hSame := hAsks env routine
  rw [hRun] at hSame
  obtain rfl : after = routine := hSame
  exact ⟨h after value after hScopes hRun, hScopes, fun _ => rfl⟩

/-- An action that only asks, whatever the answer. -/
theorem asked (hAsks : action.Asks) : Yields env scopes quiet action fun _ => True :=
  .asks hAsks fun _ _ _ _ _ => trivial

theorem pure {value : α} (h : good value) : Yields env scopes quiet (pure value) good :=
  .asks (.pure value) fun _ _ _ _ hRun => by
    cases hRun
    exact h

theorem fail (failure : Failure) : Yields env scopes quiet (throw failure : RoutineM α) good :=
  .asks (.fail failure) fun _ _ _ _ hRun => by cases hRun

theorem error (span : Span) (problem : Problem) :
    Yields env scopes quiet (RoutineM.error span problem : RoutineM α) good :=
  .asks (.error span problem) fun _ _ _ _ hRun => by cases hRun

theorem read : Yields env scopes quiet read (· = env) :=
  .asks .read fun _ _ _ _ hRun => by
    cases hRun
    rfl

theorem get : Yields env scopes quiet get fun routine => routine.scopes = scopes :=
  .asks .get fun _ _ _ hScopes hRun => by
    cases hRun
    exact hScopes

theorem types (ask : TypeStore → Faulty α) :
    Yields env scopes quiet (RoutineM.types ask) fun value => ask env.program.types = .ok value :=
  .asks (.types ask) fun _ _ _ _ hRun => (RoutineM.types_eq_ok.mp hRun).1

theorem bind {next : α → RoutineM β} {good' : β → Prop} (h : Yields env scopes quiet action good)
    (hNext : ∀ value, good value → Yields env scopes quiet (next value) good') :
    Yields env scopes quiet (action >>= next) good' := by
  intro routine value after hScopes hRun
  obtain ⟨first, middle, hFirst, hRest⟩ := RoutineM.bind_eq_ok.mp hRun
  obtain ⟨hGood, hMiddle, hQuiet⟩ := h routine first middle hScopes hFirst
  obtain ⟨hGood', hAfter, hQuiet'⟩ := hNext first hGood middle value after hMiddle hRest
  exact ⟨hGood', hAfter, fun hq => (hQuiet' hq).trans (hQuiet hq)⟩

theorem mono {good' : α → Prop} (h : Yields env scopes quiet action good)
    (imp : ∀ value, good value → good' value) : Yields env scopes quiet action good' :=
  fun routine value after hScopes hRun =>
    ⟨imp value (h routine value after hScopes hRun).1, (h routine value after hScopes hRun).2⟩

theorem map {f : α → β} {good' : β → Prop}
    (h : Yields env scopes quiet action fun value => good' (f value)) :
    Yields env scopes quiet (f <$> action) good' := by
  rw [map_eq_pure_bind]
  exact h.bind fun _ hValue => .pure hValue

/-- A successful run is one from these blocks. -/
theorem possible (h : Yields env scopes quiet action fun _ => True) :
    Yields env scopes quiet action fun value => ∃ routine after, routine.scopes = scopes ∧
      action.exec env routine = (.ok value, after) :=
  fun routine value after hScopes hRun =>
    ⟨⟨routine, after, hScopes, hRun⟩, (h routine value after hScopes hRun).2⟩

theorem emit (stmt : CStmt) (hQuiet : ¬ quiet) :
    Yields env scopes quiet (RoutineM.emit stmt) fun _ => True := by
  intro routine value after hScopes hRun
  cases hRun
  exact ⟨trivial, hScopes, fun h => absurd h hQuiet⟩

theorem nextSerial : Yields env scopes quiet RoutineM.nextSerial fun _ => True := by
  intro routine value after hScopes hRun
  cases hRun
  exact ⟨trivial, hScopes, fun _ => rfl⟩

theorem newFunc (inputs outputs : List (Member Ty)) (variadic isMethod : Bool) :
    Yields env scopes quiet (RoutineM.newFunc inputs outputs variadic isMethod) fun _ => True := by
  intro routine value after hScopes hRun
  cases hRun
  exact ⟨trivial, hScopes, fun _ => rfl⟩

theorem newStruct (name : String) (fields : List (Member Ty)) :
    Yields env scopes quiet (RoutineM.newStruct name fields) fun _ => True := by
  intro routine value after hScopes hRun
  cases hRun
  exact ⟨trivial, hScopes, fun _ => rfl⟩

/-- A change of the routine that has to do neither with its blocks nor with its statements. -/
theorem changed {change : Routine → Routine}
    (h : ∀ routine, (change routine).scopes = routine.scopes ∧
    (change routine).body = routine.body) :
    Yields env scopes quiet (modify change : RoutineM Unit) fun _ => True := by
  intro routine value after hScopes hRun
  cases hRun
  exact ⟨trivial, (h routine).1.trans hScopes, fun _ => (h routine).2⟩

theorem requestTypedef (type : Ty) :
    Yields env scopes quiet (RoutineM.requestTypedef type) fun _ => True := by
  have hGiven (answer : Faulty (Option CItem)) :
      Yields env scopes quiet (RoutineM.keepTypedef answer) fun _ => True := by
    cases answer with
    | error fault =>
        have hFail :
          Yields env scopes quiet (RoutineM.lift (.error fault) : RoutineM (Option CItem))
          fun _ => False := .fail _
        exact hFail.bind fun _ h => h.elim
    | ok found =>
        have hFound : Yields env scopes quiet (RoutineM.lift (.ok found)) fun _ => True :=
          .pure trivial
        refine hFound.bind fun _ _ => ?_
        split
        · exact .changed fun _ => ⟨rfl, rfl⟩
        · exact .pure trivial
  intro routine value after hScopes hRun
  -- The numbers are taken first; then the definition is kept, if there is one.
  exact hGiven (routine.supply.typedefs.request env.program.types type).1 { routine with supply :=
    { routine.supply with
      typedefs := (routine.supply.typedefs.request env.program.types type).2 } } value after hScopes
    hRun

theorem addLocal (name : String) (type : Ty) (span : Span) :
    Yields env scopes quiet (RoutineM.addLocal name type span) fun _ => True := by
  refine .bind (.types _) fun hasZero _ => ?_
  have hRest : Yields env scopes quiet (do
      RoutineM.requestTypedef type
      let cType ← RoutineM.types (·.cType type)
      let init ← RoutineM.types (·.zeroValue type)
      modify fun routine => { routine with locals := routine.locals.push ⟨cType, name, init⟩ })
      fun _ => True :=
    .bind (.requestTypedef type) fun _ _ => .bind (.types _) fun _ _ => .bind (.types _) fun _ _ =>
      .changed fun _ => ⟨rfl, rfl⟩
  dsimp only
  split
  · exact .bind (.error _ _) fun _ (_ : True) => hRest
  · exact hRest

theorem temp (type : Ty) (span : Span) :
    Yields env scopes quiet (RoutineM.temp type span) fun name =>
      ∃ serial, name = RoutineM.tempName serial :=
  .bind .nextSerial fun serial _ => .bind (.addLocal _ _ _) fun _ _ => .pure ⟨serial, rfl⟩

theorem resultTemps (serial : Nat) (span : Span) (index : Nat) (outputs : List (Member Ty)) :
    Yields env scopes quiet (Call.resultTemps serial span index outputs) fun members =>
      ∀ member ∈ members, ∃ index, member.name = RoutineM.multiName serial index := by
  induction outputs generalizing index with
  | nil => exact .pure (by simp)
  | cons output rest ih =>
      refine .bind (.addLocal _ _ _) fun _ _ => .bind (ih (index + 1)) fun others hOthers => ?_
      refine .pure ?_
      rintro member (_ | ⟨_, hMember⟩)
      · exact ⟨index, rfl⟩
      · exact hOthers member hMember

theorem declareLocal (name : String) (type : Ty) (span : Span) :
    Yields env scopes quiet (RoutineM.declareLocal name type span) fun _ => True := by
  refine .bind (.asked .get) fun routine _ => ?_
  dsimp only
  split
  · exact .bind (.map (.mono .nextSerial fun _ _ => trivial)) fun _ (_ : True) =>
      .bind (.addLocal _ _ _) fun _ _ => .pure trivial
  · exact .bind (.pure trivial) fun _ (_ : True) =>
      .bind (.addLocal _ _ _) fun _ _ => .pure trivial

/-- A call passes the addresses of temporaries for its outputs. -/
theorem results (outputs : List (Member Ty)) (span : Span) :
    Yields env scopes quiet (Call.results outputs span) fun found =>
      ∀ address ∈ found.1, ∃ serial index,
        address = .addressOf (RoutineM.multiName serial index) := by
  unfold Call.results
  split
  · exact .pure (by simp)
  · exact .pure (by simp)
  · refine .bind .nextSerial fun serial _ => .bind (.resultTemps _ _ _ _) fun members hMembers => ?_
    refine .pure fun address hAddress => ?_
    obtain ⟨member, hMember, rfl⟩ := List.mem_map.mp hAddress
    obtain ⟨index, hName⟩ := hMembers member hMember
    exact ⟨serial, index, by rw [hName]⟩

/-- A value that is converted for a place becomes a conversion of its fragment. -/
theorem conversion (dest : Ty) (src : Typed) (span : Span) (context : String) :
    Yields env scopes quiet (RoutineM.convert dest src span context) fun c =>
      ∃ conversion : Conversion, c = conversion.apply src.c := by
  refine .bind (.types _) fun func _ => ?_
  split
  · refine .bind (.types _) fun isNil _ => ?_
    split
    · exact .pure ⟨.keep, rfl⟩
    · refine .bind (.types _) fun same _ => ?_
      split
      · exact .pure ⟨.keep, rfl⟩
      · exact .error _ _
  · refine .bind (.types _) fun storable _ => ?_
    have hAssign : Yields env scopes quiet (RoutineM.assigned dest src span context) fun c =>
          ∃ conversion : Conversion, c = conversion.apply src.c := by
      refine .bind (.types _) fun found _ => ?_
      split
      · exact .pure ⟨_, rfl⟩
      · exact .error _ _
    dsimp only
    split
    · exact .bind (.error _ _) fun _ (_ : True) => hAssign
    · exact hAssign

/-- The fragment of an operand. -/
theorem value {operand : Operand} {good : Value → Prop} {good' : Typed → Prop}
    (h : Yields env scopes quiet operand.compile good) (hSingle : ∀ value, good value →
      Yields env scopes quiet (RoutineM.toSingle operand.span value) good') :
    Yields env scopes quiet operand.value good' :=
  .bind h hSingle

/-- The type that an operand denotes. -/
theorem type {operand : Operand} {good : Value → Prop}
    (h : Yields env scopes quiet operand.compile good) :
    Yields env scopes quiet operand.type fun denoted => good (.type denoted) := by
  refine .bind h fun found hFound => ?_
  split
  · exact .pure hFound
  · exact .error _ _

/-- Where a function is compiled in place, its name is not declared. -/
theorem intrinsic? (callee : Expr) :
    Yields env scopes quiet (Call.intrinsic? callee) fun found => ∀ intrinsic ∈ found,
      callee.ident? = some intrinsic.name ∧ scopes.findSome? (·.lookup intrinsic.name) = none ∧
        env.program.global? env.module intrinsic.name = none := by
  refine .asks (.intrinsic? callee) fun routine found after hScopes hRun intrinsic hFound => ?_
  obtain rfl : found = some intrinsic := hFound
  unfold Call.intrinsic? at hRun
  dsimp only at hRun
  split at hRun
  · cases hRun
  · next name other hNamed =>
      obtain ⟨_, _, hRead, hRun⟩ := RoutineM.bind_eq_ok.mp hRun
      cases hRead
      obtain ⟨_, _, hGet, hRun⟩ := RoutineM.bind_eq_ok.mp hRun
      cases hGet
      split at hRun
      · cases hRun
      · next hFree =>
          cases hRun
          have hName : callee.ident? = some intrinsic.name ∧ name = intrinsic.name := by
            split at hNamed
            · next hIdent =>
                cases hNamed
                exact ⟨hIdent, rfl⟩
            · next hIdent =>
                cases hNamed
                exact ⟨hIdent, rfl⟩
            · cases hNamed
          obtain ⟨hIdent, rfl⟩ := hName
          simp only [Routine.isBound, Routine.binding?, hScopes, Bool.or_eq_true, not_or,
            Option.not_isSome_iff_eq_none] at hFree
          exact ⟨hIdent, hFree⟩

end Yields

/-- Whatever is written but for statements that hold others is flat, and comes after what was
written before. Where no source variables can be declared the blocks stay as they are. -/
theorem Composed.writes {extent : Extent} (h : Composed extent limits action)
    (hExtent : extent.nests = false) {value : α}
    (hRun : action.exec env routine = (.ok value, after)) :
    (extent.declares = false → after.scopes = routine.scopes) ∧
      ∃ stmts, after.body.toList = routine.body.toList ++ stmts ∧
        ∀ stmt ∈ stmts, stmt.isFlat = true := by
  have hQuiet {β : Type} {action : RoutineM β} {good : β → Prop} {routine after : Routine}
      {value : β} (h : Yields env routine.scopes True action good)
      (hRun : action.exec env routine = (.ok value, after)) :
      (extent.declares = false → after.scopes = routine.scopes) ∧
        ∃ stmts, after.body.toList = routine.body.toList ++ stmts ∧
          ∀ stmt ∈ stmts, stmt.isFlat = true := by
    obtain ⟨-, hScopes, hBody⟩ := h routine value after rfl hRun
    exact ⟨fun _ => hScopes, [], by rw [hBody trivial, List.append_nil], by simp⟩
  induction h generalizing routine after with
  | pure =>
      cases hRun
      exact ⟨fun _ => rfl, [], (List.append_nil _).symm, by simp⟩
  | bind _ _ hFirst hNext =>
      obtain ⟨first, middle, hRunFirst, hRunNext⟩ := RoutineM.bind_eq_ok.mp hRun
      obtain ⟨hScopes, stmts, hStmts, hFlat⟩ := hFirst hRunFirst
      obtain ⟨hScopes', stmts', hStmts', hFlat'⟩ := hNext first hRunNext
      refine ⟨fun hDeclares => (hScopes' hDeclares).trans (hScopes hDeclares), stmts ++ stmts',
        by rw [hStmts', hStmts, List.append_assoc], fun stmt hStmt => ?_⟩
      exact (List.mem_append.mp hStmt).elim (hFlat stmt) (hFlat' stmt)
  | fault | error => cases hRun
  | read => exact hQuiet .read hRun
  | get _ _ hNext => exact hNext routine hRun
  | nextSerial => exact hQuiet .nextSerial hRun
  | newFunc => exact hQuiet (.newFunc _ _ _ _) hRun
  | newStruct => exact hQuiet (.newStruct _ _) hRun
  | emit stmt hFlat =>
      cases hRun
      refine ⟨fun _ => rfl, [stmt], Array.toList_push, fun other hOther => ?_⟩
      rw [List.mem_singleton.mp hOther]
      exact hFlat.resolve_left (by simp [hExtent])
  | temp => exact hQuiet (.temp _ _) hRun
  | results => exact hQuiet (.results _ _) hRun
  | declareLocal => exact hQuiet (.declareLocal _ _ _) hRun
  | bindName _ _ hDeclares =>
      rw [RoutineM.bindName_exec] at hRun
      cases hRun
      exact ⟨fun hNone => by simp [hDeclares] at hNone, [], (List.append_nil _).symm, by simp⟩
  | capture hNests => simp [hExtent] at hNests
  | inScope hNests => simp [hExtent] at hNests
  | inLoop _ hNests => simp [hExtent] at hNests

/-- An expression leaves the blocks as they are, and what it writes comes after what was written
before. -/
theorem Composed.appends (h : Composed .expr limits action) {value : α}
    (hRun : action.exec env routine = (.ok value, after)) :
    after.scopes = routine.scopes ∧ ∃ stmts, after.body.toList = routine.body.toList ++ stmts := by
  obtain ⟨hScopes, stmts, hStmts, -⟩ := h.writes rfl hRun
  exact ⟨hScopes rfl, stmts, hStmts⟩

theorem Composed.yields (h : Composed .expr limits action) (env : Env) (scopes : List Scope) :
    Yields env scopes False action fun _ => True :=
  fun _ _ _ hScopes hRun => ⟨trivial, (h.appends hRun).1.trans hScopes, False.elim⟩

end GoToC
