import GoToC.Proofs.Routine.Yields

/-!
# Looking names up

Most actions are blind to the blocks of a routine. What an identifier stands for is told by the
rules of lexical scoping, given the declarations so far, and there may be other ways to find it than
to look through the blocks: anything can be compiled with another way in place of that one.
-/

namespace GoToC

/-! ## Blind actions -/

/-- An action that neither sees nor changes the blocks. -/
def RoutineM.Blind {α : Type} (action : RoutineM α) : Prop :=
  ∀ env routine scopes, action.exec env { routine with scopes := scopes } =
    ((action.exec env routine).1, { (action.exec env routine).2 with scopes := scopes })

namespace RoutineM.Blind

variable {α β : Type} {action : RoutineM α} {env : Env} {routine after : Routine} {value : α}

theorem scopes (h : action.Blind) : (action.exec env routine).2.scopes = routine.scopes := by
  have hSame := congrArg (fun run => run.2.scopes) (h env routine routine.scopes)
  exact hSame

/-- What leaves the routine as it is and does not hang on it is blind to its blocks. -/
theorem of_idle (h : action.Idle) : action.Blind := by
  intro env routine scopes
  obtain ⟨result, hResult⟩ := h env
  rw [hResult, hResult]

theorem pure (value : α) : Blind (pure value) := fun _ _ _ => rfl

theorem fail (failure : Failure) : Blind (throw failure : RoutineM α) := fun _ _ _ => rfl

theorem error (span : Span) (problem : Problem) :
    Blind (RoutineM.error span problem : RoutineM α) := fun _ _ _ => rfl

theorem read : Blind read := fun _ _ _ => rfl

theorem emit (stmt : CStmt) : Blind (RoutineM.emit stmt) := fun _ _ _ => rfl

theorem nextSerial : Blind RoutineM.nextSerial := fun _ _ _ => rfl

theorem newFunc (inputs outputs : List (Member Ty)) (variadic isMethod : Bool) :
    Blind (RoutineM.newFunc inputs outputs variadic isMethod) := fun _ _ _ => rfl

theorem newStruct (name : String) (fields : List (Member Ty)) :
    Blind (RoutineM.newStruct name fields) := fun _ _ _ => rfl

theorem bind {next : α → RoutineM β} (h : action.Blind) (hNext : ∀ value, (next value).Blind) :
    Blind (action >>= next) := by
  intro env routine scopes
  rw [bind_exec, bind_exec, h env routine scopes]
  cases hRun : action.exec env routine with
  | mk result middle =>
      cases result with
      | error failure => rfl
      | ok value => exact hNext value env middle scopes

theorem map (f : α → β) (h : action.Blind) : Blind (f <$> action) := by
  rw [map_eq_pure_bind]
  exact .bind h fun _ => .pure _

theorem types (ask : TypeStore → Faulty α) : Blind (RoutineM.types ask) := by
  intro env routine scopes
  rw [types_exec, types_exec]
  cases ask env.program.types <;> rfl

theorem lift (answer : Faulty α) : Blind (RoutineM.lift answer) := by
  cases answer with
  | ok value => exact .pure value
  | error fault => exact .fail _

theorem requestTypedef (type : Ty) : Blind (RoutineM.requestTypedef type) := by
  have hGiven (answer : Faulty (Option CItem)) : Blind (RoutineM.keepTypedef answer) := by
    refine .bind (.lift answer) fun item => ?_
    split
    · exact fun _ _ _ => rfl
    · exact .pure _
  intro env routine scopes
  -- The numbers are taken first; then the definition is kept, if there is one.
  exact hGiven (routine.supply.typedefs.request env.program.types type).1 env
    { routine with supply :=
    { routine.supply with
      typedefs := (routine.supply.typedefs.request env.program.types type).2 } } scopes

theorem addLocal (name : String) (type : Ty) (span : Span) :
    Blind (RoutineM.addLocal name type span) := by
  refine .bind (.types _) fun hasZero => ?_
  have hRest : Blind (do
      RoutineM.requestTypedef type
      let cType ← RoutineM.types (·.cType type)
      let init ← RoutineM.types (·.zeroValue type)
      modify fun routine => { routine with locals := routine.locals.push ⟨cType, name, init⟩ }) :=
    .bind (.requestTypedef type) fun _ => .bind (.types _) fun cType => .bind (.types _) fun init =>
      fun _ _ _ => rfl
  dsimp only
  split
  · exact .bind (.error _ _) fun _ => hRest
  · exact hRest

theorem temp (type : Ty) (span : Span) : Blind (RoutineM.temp type span) :=
  .bind .nextSerial fun _ => .bind (.addLocal _ _ _) fun _ => .pure _

theorem declareLocal (name : String) (type : Ty) (span : Span) :
    Blind (RoutineM.declareLocal name type span) := by
  have hNamed (taken : Bool) : Blind (do
      let cName ← if taken then RoutineM.renamedVariable name <$> RoutineM.nextSerial
        else Pure.pure (RoutineM.variableName name)
      RoutineM.addLocal cName type span
      return cName) := by
    have hRest (cName : String) : Blind (do
        RoutineM.addLocal cName type span
        return cName) := .bind (.addLocal _ _ _) fun _ => .pure _
    cases taken with
    | true => exact .bind (.map _ .nextSerial) hRest
    | false => exact .bind (.pure _) hRest
  intro env routine scopes
  exact hNamed (routine.hasLocal (RoutineM.variableName name)) env routine scopes

theorem resultTemps (serial : Nat) (span : Span) (index : Nat) (outputs : List (Member Ty)) :
    Blind (Call.resultTemps serial span index outputs) := by
  induction outputs generalizing index with
  | nil => exact .pure _
  | cons output rest ih =>
      exact .bind (.addLocal _ _ _) fun _ => .bind (ih (index + 1)) fun _ => .pure _

theorem results (outputs : List (Member Ty)) (span : Span) : Blind (Call.results outputs span) := by
  unfold Call.results
  split
  · exact .pure _
  · exact .pure _
  · exact .bind .nextSerial fun _ => .bind (.resultTemps _ _ _ _) fun _ => .pure _

theorem slicedElement (container : Typed) (span : Span) :
    Blind (ExprRule.slicedElement container span) := by
  refine .bind (.types _) fun _ => ?_
  split
  · exact .pure _
  · refine .bind (.types _) fun found => ?_
    split
    · exact .bind (.types _) fun _ => .pure _
    · exact .error _ _

theorem rangeElement (collection : Typed) (span : Span) :
    Blind (StmtRule.rangeElement collection span) := by
  refine .bind (.types _) fun found => ?_
  split
  · exact .bind (.types _) fun _ => .pure _
  · refine .bind (.types _) fun isString => ?_
    split
    · exact .pure _
    · exact .error _ _

theorem jump (kind : JumpKind) (span : Span) : Blind (StmtRule.jump kind span) := by
  refine .bind .read fun env => ?_
  split
  · exact .emit _
  · exact .error _ _

theorem setResults (func : FuncType Ty) (span : Span) (index : Nat) (outputs : List (Member Ty))
    (values : List Typed) : Blind (StmtRule.setResults func span index outputs values) := by
  induction outputs generalizing index values with
  | nil => exact .pure _
  | cons output rest ih =>
      cases values with
      | nil => exact .pure _
      | cons value values =>
          exact .bind (.of_idle (.convert _ _ _ _)) fun _ => .bind (.emit _) fun _ =>
            ih (index + 1) values

theorem returnThrough (func : FuncType Ty) (values : List Typed) (span : Span) :
    Blind (StmtRule.returnThrough func values span) :=
  .bind (.setResults _ _ _ _ _) fun _ => .emit _

theorem returnNothing (func : FuncType Ty) (span : Span) :
    Blind (StmtRule.returnNothing func span) := by
  refine .bind .read fun env => ?_
  split
  · exact .emit _
  · dsimp only
    split
    · exact .bind (.error _ _) fun _ => .emit _
    · exact .emit _

theorem definedNames (targets : List Operand) : Blind (StmtRule.definedNames targets) := by
  rcases Composed.definedNames_eq targets with hEq | ⟨_, _, _, _, hEq⟩
  · rw [hEq]
    exact .pure _
  · rw [hEq]
    exact .error _ _

end RoutineM.Blind

/-! ## Other ways to find names -/

/-- A way to find what an identifier stands for. -/
abbrev Finder := String → Span → RoutineM Value

section

variable (find : Finder)

mutual

/-- What an expression stands for, with identifiers found in a way of one's own. -/
def compileExprBy : Expr → RoutineM Value
  | .int span value => compileExpr (.int span value)
  | .str span text => compileExpr (.str span text)
  | .ident span name => find name span
  | .unary _ op operand => ExprRule.unary op ⟨operand, compileExprBy operand⟩
  | .binary _ op left right =>
      ExprRule.binary op ⟨left, compileExprBy left⟩ ⟨right, compileExprBy right⟩
  | .call span callee args spread =>
      Call.call ⟨callee, compileExprBy callee⟩ (operandsBy args) spread span
  | .dot span receiver member => ExprRule.dot ⟨receiver, compileExprBy receiver⟩ member span
  | .index _ receiver index =>
      ExprRule.index ⟨receiver, compileExprBy receiver⟩ ⟨index, compileExprBy index⟩
  | .slice span receiver lo hi =>
      ExprRule.slice ⟨receiver, compileExprBy receiver⟩ (optOperandBy lo) (optOperandBy hi) span
  | .ctor span type fields => ExprRule.ctor ⟨type, compileExprBy type⟩ (initOperandsBy fields) span
  | .pointerType _ inner => ExprRule.pointerType ⟨inner, compileExprBy inner⟩
  | .sliceType _ elem => ExprRule.sliceType ⟨elem, compileExprBy elem⟩
  | .mapType _ key value => ExprRule.mapType ⟨key, compileExprBy key⟩ ⟨value, compileExprBy value⟩
  | .structType _ fields => return .type (← Operand.anonymousStruct (paramOperandsBy fields))
  | .interfaceType _ specs => return .type (← Operand.anonymousInterface (specOperandsBy specs))

def operandsBy : List Expr → List Operand
  | [] => []
  | e :: rest => ⟨e, compileExprBy e⟩ :: operandsBy rest

def optOperandBy : Option Expr → Option Operand
  | none => none
  | some e => some ⟨e, compileExprBy e⟩

def initOperandsBy : List (FieldInit Expr) → List (FieldInit Operand)
  | [] => []
  | ⟨name, value, span⟩ :: rest => ⟨name, ⟨value, compileExprBy value⟩, span⟩ :: initOperandsBy rest

def paramOperandsBy : List (Param Expr) → List (Param Operand)
  | [] => []
  | ⟨name, type, span⟩ :: rest => ⟨name, ⟨type, compileExprBy type⟩, span⟩ :: paramOperandsBy rest

def specOperandsBy : List (MethodSpec Expr) → List (MethodSpec Operand)
  | [] => []
  | ⟨name, ⟨variadic, inputs, outputs⟩, span⟩ :: rest =>
      ⟨name, ⟨variadic, paramOperandsBy inputs, paramOperandsBy outputs⟩, span⟩ ::
        specOperandsBy rest

end

/-- An expression as an operand, with identifiers found in a way of one's own. -/
def operandBy (e : Expr) : Operand := ⟨e, compileExprBy find e⟩

/-- An operand of the same expression, with identifiers found in a way of one's own. -/
abbrev Operand.via (operand : Operand) : Operand := operandBy find operand.source

theorem Operand.via_source (operand : Operand) : (operand.via find).source = operand.source := rfl

theorem operandsBy_eq (es : List Expr) : operandsBy find es = (operands es).map (·.via find) := by
  induction es with
  | nil => rw [operandsBy, operands, List.map_nil]
  | cons e rest ih => rw [operandsBy, operands, List.map_cons, ih]; rfl

theorem optOperandBy_eq (e : Option Expr) :
    optOperandBy find e = (optOperand e).map (·.via find) := by
  cases e <;> rw [optOperandBy, optOperand] <;> rfl

mutual

/-- Writes what a statement does, with identifiers found in a way of one's own. -/
def compileStmtBy : Stmt → RoutineM Unit
  | .assign span op targets values =>
      StmtRule.assign op (operandsBy find targets) (operandsBy find values) span
  | .var span name type => StmtRule.declare name (operandBy find type) span
  | .ret span values => StmtRule.ret (operandsBy find values) span
  | .breakLoop span _ => StmtRule.jump .leave span
  | .continueLoop span _ => StmtRule.jump .again span
  | .whileLoop _ cond body => StmtRule.loop (optOperandBy find cond) none (compileStmtsBy body)
  | .forLoop _ init cond post body =>
      StmtRule.forLoop (compileOptStmtBy init) (optOperandBy find cond) (compileOptStmtBy post)
        (compileStmtsBy body)
  | .rangeLoop span key value collection body =>
      StmtRule.rangeLoop key value (operandBy find collection) (compileStmtsBy body) span
  | .ifElse _ cond thenBody elseBody =>
      StmtRule.ifElse (operandBy find cond) (compileStmtsBy thenBody) (compileOptStmtsBy elseBody)
  | .switch _ subject cases fallback =>
      StmtRule.switch (optOperandBy find subject) (compileCasesBy cases)
        (compileOptStmtsBy fallback)
  | .block _ body => do RoutineM.emit (.block (← StmtRule.block (compileStmtsBy body)))

def compileStmtsBy : List Stmt → RoutineM Unit
  | [] => return
  | stmt :: rest => do
      compileStmtBy stmt
      compileStmtsBy rest

def compileOptStmtBy : Option Stmt → Option (RoutineM Unit)
  | none => none
  | some stmt => some (compileStmtBy stmt)

def compileOptStmtsBy : Option (List Stmt) → Option (RoutineM Unit)
  | none => none
  | some body => some (compileStmtsBy body)

def compileCasesBy : List (SwitchCase Stmt) → List (List Operand × RoutineM Unit)
  | [] => []
  | ⟨tests, body, _⟩ :: rest => (operandsBy find tests, compileStmtsBy body) :: compileCasesBy rest

end

/-- The body of a function, with identifiers found in a way of one's own. -/
def compileBodyBy (func : FuncType Ty) (body : List Stmt) (span : Span) : RoutineM Unit := do
  let result ← enterFunc func span
  withReader (fun env => { env with func := some func, namedResult := result }) do
    RoutineM.inScope (compileStmtsBy find body)

end

/-! ## What identifiers are found as -/

/-- What looking an identifier up comes to by the rules of scoping, given the values of all
declarations so far: the declaration that it refers to, then a global of the module, then one of
the module that all others see, then what is known without a declaration. -/
inductive Resolves (env : Env) (values : List Typed) (visible : List Site) (name : String)
    (span : Span) : Except Failure Value → Prop
  | declared {site value} : Refers visible name site →
      values[site.number]? = some value → Resolves env values visible name span (.ok (.expr value))
  | module {value} : Undeclared visible name →
      env.program.globalValue? env.module name = some value →
      Resolves env values visible name span (.ok value)
  | builtin {id value} : Undeclared visible name →
      env.program.globalValue? env.module name = none → env.program.builtin = some id →
      id ≠ env.module → env.program.globalValue? id name = some value →
      Resolves env values visible name span (.ok value)
  | primitive {value} : Undeclared visible name →
      env.program.globalValue? env.module name = none →
      (∀ id, env.program.builtin = some id → id ≠ env.module →
        env.program.globalValue? id name = none) →
      primValue? name = some value → Resolves env values visible name span (.ok value)
  | unknown : Undeclared visible name → env.program.globalValue? env.module name = none →
      (∀ id, env.program.builtin = some id → id ≠ env.module →
        env.program.globalValue? id name = none) → primValue? name = none →
      Resolves env values visible name span (.error
        (.error ⟨env.package, span, .unknownIdent name⟩))

/-! ## Blocks -/

/-- Blocks that hold the visible declarations, each in the block of its depth. -/
inductive Layout (values : List Typed) : List Site → Nat → List Scope → Prop
  | start : Layout values [] 0 [[]]
  | enter {visible depth scopes} :
      Layout values visible depth scopes → Layout values visible (depth + 1) ([] :: scopes)
  | declare {visible depth number scope outer name value} :
      Layout values visible depth (scope :: outer) →
      values[number]? = some value → (∀ site ∈ visible, site.number < number) →
      Layout values (⟨name, number, depth⟩ :: visible) depth (((name, value) :: scope) :: outer)

/-- Blocks as they are at a point of a function. -/
structure Laid (values : List Typed) (outlook : Outlook) (scopes : List Scope) : Prop where
  layout : Layout values outlook.visible outlook.depth scopes
  count : values.length = outlook.next

section

variable {values more : List Typed} {visible : List Site} {depth : Nat} {scopes : List Scope}
  {outlook : Outlook} {env : Env} {name : String} {span : Span}

theorem getElem?_append_of_some {number : Nat} {value : Typed} (h : values[number]? = some value)
    (more : List Typed) : (values ++ more)[number]? = some value := by
  rw [List.getElem?_append_left (List.getElem?_eq_some_iff.mp h).1, h]

theorem Layout.append (h : Layout values visible depth scopes) (more : List Typed) :
    Layout (values ++ more) visible depth scopes := by
  induction h with
  | start => exact .start
  | enter _ ih => exact .enter ih
  | declare _ hValue hEarlier ih => exact .declare ih (getElem?_append_of_some hValue more) hEarlier

theorem Layout.number_lt (h : Layout values visible depth scopes) :
    ∀ site ∈ visible, site.number < values.length := by
  induction h with
  | start => simp
  | enter _ ih => exact ih
  | declare _ hValue _ ih =>
      rintro site (_ | ⟨_, hSite⟩)
      · exact (List.getElem?_eq_some_iff.mp hValue).1
      · exact ih site hSite

theorem Layout.depth_le (h : Layout values visible depth scopes) :
    ∀ site ∈ visible, site.depth ≤ depth := by
  induction h with
  | start => simp
  | enter _ ih => exact fun site hSite => Nat.le_succ_of_le (ih site hSite)
  | declare _ _ _ ih =>
      rintro site (_ | ⟨_, hSite⟩)
      · exact Nat.le_refl _
      · exact ih site hSite

theorem Layout.exists_cons (h : Layout values visible depth scopes) :
    ∃ scope outer, scopes = scope :: outer := by
  cases h <;> exact ⟨_, _, rfl⟩

/-- The innermost block that has a name has it as the rules of scoping say. -/
theorem Layout.findSome? (h : Layout values visible depth scopes) (name : String) :
    match scopes.findSome? (·.lookup name) with
    | some value => ∃ site, Refers visible name site ∧ values[site.number]? = some value
    | none => Undeclared visible name := by
  induction h with
  | start => exact fun site hSite => by cases hSite
  | enter _ ih => exact ih
  | @declare visible depth number scope outer declared value hLayout hValue hEarlier ih =>
      by_cases hName : name = declared
      · subst hName
        have hFound :
            (((name, value) :: scope) :: outer).findSome? (·.lookup name) = some value := by
          simp
        rw [hFound]
        refine ⟨⟨name, number, depth⟩, ⟨List.mem_cons_self, rfl, ?_, ?_⟩, hValue⟩
        · rintro other (_ | ⟨_, hOther⟩) -
          · exact Nat.le_refl _
          · exact hLayout.depth_le other hOther
        · rintro other (_ | ⟨_, hOther⟩) - -
          · exact Nat.le_refl _
          · exact Nat.le_of_lt (hEarlier other hOther)
      · have hSkip : (((declared, value) :: scope) :: outer).findSome? (·.lookup name) =
            (scope :: outer).findSome? (·.lookup name) := by
          have hOther : (name == declared) = false := by simpa using hName
          simp only [List.findSome?_cons, List.lookup_cons, hOther]
        rw [hSkip]
        have hOther {site : Site} (hSite : site ∈ (⟨declared, number, depth⟩ : Site) :: visible)
            (hSame : site.name = name) : site ∈ visible := by
          rcases List.mem_cons.mp hSite with rfl | hSite
          · exact absurd hSame.symm hName
          · exact hSite
        split at ih
        · obtain ⟨site, hRefers, hFound⟩ := ih
          exact ⟨site, ⟨List.mem_cons_of_mem _ hRefers.mem, hRefers.named,
            fun other hMem hSame => hRefers.innermost other (hOther hMem hSame) hSame,
            fun other hMem hSame => hRefers.latest other (hOther hMem hSame) hSame⟩, hFound⟩
        · exact fun site hSite hSame => ih site (hOther hSite hSame) hSame

/-- A block has a name if a declaration of that name is visible. -/
theorem Layout.isSome_findSome? (h : Layout values visible depth scopes) (name : String) :
    (scopes.findSome? (·.lookup name)).isSome = visible.any (·.name == name) := by
  have hFound := h.findSome? name
  split at hFound
  · next value hValue =>
      obtain ⟨site, hRefers, -⟩ := hFound
      rw [hValue, eq_comm]
      exact List.any_eq_true.mpr ⟨site, hRefers.mem, beq_iff_eq.mpr hRefers.named⟩
  · next hNone =>
      rw [hNone, eq_comm, Option.isSome_none, List.any_eq_false]
      exact fun site hSite hSame => hFound site hSite (beq_iff_eq.mp hSame)

/-- A name refers to one declaration only. -/
theorem Refers.unique {site other : Site} (h : Refers visible name site)
    (hOther : Refers visible name other) : site = other := by
  have hDepth : site.depth = other.depth :=
    Nat.le_antisymm (hOther.innermost _ h.mem h.named) (h.innermost _ hOther.mem hOther.named)
  exact Site.ext (h.named.trans hOther.named.symm)
    (Nat.le_antisymm (hOther.latest _ h.mem h.named hDepth)
      (h.latest _ hOther.mem hOther.named hDepth.symm)) hDepth

/-- The rules of scoping leave no choice. -/
theorem Resolves.unique {outcome other : Except Failure Value}
    (h : Resolves env values visible name span outcome)
    (hOther : Resolves env values visible name span other) : outcome = other := by
  cases h with
  | declared hRefers hValue =>
      cases hOther with
      | declared hRefers' hValue' =>
          obtain rfl := hRefers.unique hRefers'
          rw [Option.some.inj (hValue.symm.trans hValue')]
      | module hNone | builtin hNone | primitive hNone | unknown hNone =>
          exact absurd hRefers.named (hNone _ hRefers.mem)
  | module hNone | builtin hNone | primitive hNone | unknown hNone =>
      cases hOther with
      | declared hRefers => exact absurd hRefers.named (hNone _ hRefers.mem)
      | _ => grind

end

end GoToC
