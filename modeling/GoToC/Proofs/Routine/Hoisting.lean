import GoToC.Proofs.Routine.Yields

/-!
# Statements ahead of an expression

What C cannot evaluate inside an expression is written ahead of it: the copies that slice
expressions narrow, new structs, the slices that `append` makes and those that collect the
last arguments of a variadic call. These statements run whatever the operators around the
expression say; apart from them an expression writes nothing, and all it does is done by
its fragment.
-/

namespace GoToC

variable {args : List Operand} {specs : List (MethodSpec Operand)} {spread : Bool}

/-- A value whose call collects its last arguments in a slice. -/
def Value.Collects (env : Env) : Value → Prop
  | .method bound => bound.func.variadic = true
  | other => ∃ span routine e after func,
      (RoutineM.toSingle span other).exec env routine = (.ok e, after) ∧
        env.program.types.func? e.type = .ok (some func) ∧ func.variadic = true

/-- What a call without spread collects its last arguments for: an expression that, in the
given blocks, stands for a variadic function or method. -/
def Expr.Collects (env : Env) (scopes : List Scope) (callee : Expr) : Prop :=
  ∃ routine value after, routine.scopes = scopes ∧
    (compileExpr callee).exec env routine = (.ok value, after) ∧ value.Collects env

/-- The name of `append`, if neither a block nor the module declares it. -/
def Expr.IsAppend (env : Env) (scopes : List Scope) (callee : Expr) : Prop :=
  callee.ident? = some "append" ∧ scopes.findSome? (·.lookup "append") = none ∧
    env.program.global? env.module "append" = none

section

variable (env : Env) (scopes : List Scope)

mutual

/-- Somewhere in the expression is a form that is written ahead of it. -/
def Expr.Hoists : Expr → Prop
  | .int _ _ => False
  | .str _ _ => False
  | .ident _ _ => False
  | .unary _ _ operand => operand.Hoists
  | .binary _ _ left right => left.Hoists ∨ right.Hoists
  | .call _ callee args spread =>
      callee.Hoists ∨ ExprsHoist args ∨ callee.IsAppend env scopes ∨
        spread = false ∧ callee.Collects env scopes
  | .dot _ receiver _ => receiver.Hoists
  | .index _ receiver index => receiver.Hoists ∨ index.Hoists
  | .slice _ _ _ _ => True
  | .ctor _ _ _ => True
  | .pointerType _ inner => inner.Hoists
  | .sliceType _ elem => elem.Hoists
  | .mapType _ key value => key.Hoists ∨ value.Hoists
  | .structType _ fields => ParamsHoist fields
  | .interfaceType _ specs => SpecsHoist specs

def ExprsHoist : List Expr → Prop
  | [] => False
  | e :: rest => e.Hoists ∨ ExprsHoist rest

def ParamsHoist : List (Param Expr) → Prop
  | [] => False
  | ⟨_, type, _⟩ :: rest => type.Hoists ∨ ParamsHoist rest

def SpecsHoist : List (MethodSpec Expr) → Prop
  | [] => False
  | ⟨_, ⟨_, inputs, outputs⟩, _⟩ :: rest =>
      (ParamsHoist inputs ∨ ParamsHoist outputs) ∨ SpecsHoist rest

end

end

/-- An action whose successful runs write nothing. -/
abbrev Quiet {α : Type} (env : Env) (scopes : List Scope) (action : RoutineM α) : Prop :=
  Yields env scopes True action fun _ => True

namespace Quiet

variable {env : Env} {scopes : List Scope}

theorem value {operand : Operand} (h : Quiet env scopes operand.compile) :
    Quiet env scopes operand.value :=
  Yields.value h fun _ _ => .asked (RoutineM.Idle.toSingle _ _).asks

theorem type {operand : Operand} (h : Quiet env scopes operand.compile) :
    Quiet env scopes operand.type :=
  (Yields.type h).mono fun _ _ => trivial

theorem members {params : List (Param Operand)}
    (h : ∀ param ∈ params, Quiet env scopes param.type.compile) :
    Quiet env scopes (Operand.members params) := by
  induction params with
  | nil => exact .pure trivial
  | cons param rest ih =>
      exact .bind (Quiet.type (h param List.mem_cons_self)) fun _ _ =>
        .bind (ih fun p hp => h p (List.mem_cons_of_mem param hp)) fun _ _ => .pure trivial

theorem structType (name : String) {fields : List (Param Operand)}
    (h : ∀ param ∈ fields, Quiet env scopes param.type.compile) :
    Quiet env scopes (Operand.structType name fields) :=
  .bind (Quiet.members h) fun _ _ => .bind (.newStruct _ _) fun _ _ => .pure trivial

theorem signature {sig : Signature Operand}
    (h : sig.All fun type => Quiet env scopes type.compile) :
    Quiet env scopes (Operand.signature none sig) :=
  .bind (Quiet.members h.1) fun _ _ => .bind (Quiet.members h.2) fun _ _ => .newFunc _ _ _ _

theorem methods (h : ∀ spec ∈ specs, spec.signature.All fun type => Quiet env scopes type.compile) :
    Quiet env scopes (Operand.methods specs) := by
  induction specs with
  | nil => exact .pure trivial
  | cons spec rest ih =>
      exact .bind (Quiet.signature (h spec List.mem_cons_self)) fun _ _ =>
        .bind (ih fun s hs => h s (List.mem_cons_of_mem spec hs)) fun _ _ => .pure trivial

theorem anonymousInterface
    (h : ∀ spec ∈ specs, spec.signature.All fun type => Quiet env scopes type.compile) :
    Quiet env scopes (Operand.anonymousInterface specs) := by
  unfold Operand.anonymousInterface
  split
  · exact .pure trivial
  · exact .bind .nextSerial fun _ _ => .bind (Quiet.methods h) fun _ _ =>
      .bind .read fun _ _ => .pure trivial

/-! ## Calls -/

theorem fixedArgs (number : Nat) {operands : List Operand} (inputs : List (Member Ty))
    (h : ∀ operand ∈ operands, Quiet env scopes operand.compile) :
    Quiet env scopes (Call.fixedArgs number operands inputs) := by
  induction operands generalizing number inputs with
  | nil => exact .pure trivial
  | cons operand rest ih =>
      cases inputs with
      | nil => exact .pure trivial
      | cons input inputs =>
          exact .bind (Quiet.value (h operand List.mem_cons_self)) fun _ _ =>
            .bind (.asked (RoutineM.Idle.convert _ _ _ _).asks) fun _ _ =>
              .bind (ih _ _ fun o ho => h o (List.mem_cons_of_mem operand ho)) fun _ _ =>
                .pure trivial

/-- A call that collects nothing. -/
theorem apply (callee : CExpr) {func : FuncType Ty} (leading : List CExpr)
    (inputs : List (Member Ty)) (span : Span) (hFunc : spread = true ∨ func.variadic = false)
    (h : ∀ operand ∈ args, Quiet env scopes operand.compile) :
    Quiet env scopes (Call.apply callee func leading inputs args spread span) := by
  have hCollects : (func.variadic && !spread) = false := by
    rcases hFunc with hSpread | hVariadic
    · rw [hSpread, Bool.not_true, Bool.and_false]
    · rw [hVariadic, Bool.false_and]
  refine .bind (.asked (RoutineM.Idle.checkCount _ _ _ _ _).asks) fun _ _ => ?_
  rw [hCollects]
  exact .bind (Quiet.fixedArgs _ _ fun o ho => h o (List.mem_of_mem_take ho)) fun _ _ =>
    .bind (.pure trivial) fun _ (_ : True) => .bind (.results _ _) fun _ _ => .pure trivial

theorem lengthOf (spread : Bool) (span : Span)
    (h : ∀ operand ∈ args, Quiet env scopes operand.compile) :
    Quiet env scopes (Call.lengthOf args spread span) := by
  unfold Call.lengthOf
  split
  · next arg =>
      have hRest : Quiet env scopes (Call.lengthOf [arg] false span) := by
        refine .bind (Quiet.value (h arg List.mem_cons_self)) fun value _ =>
          .bind (.types _) fun isString _ => ?_
        split
        · exact .pure trivial
        · refine .bind (.types _) fun found _ => ?_
          split
          · exact .bind (.types _) fun _ _ => .pure trivial
          · exact .error _ _
      dsimp only
      split
      · exact .bind (.error _ _) fun _ (_ : True) => hRest
      · exact hRest
  · exact .error _ _

theorem conversion (type : Ty) (span : Span)
    (h : ∀ operand ∈ args, Quiet env scopes operand.compile) :
    Quiet env scopes (Call.conversion type args span) := by
  unfold Call.conversion
  split
  · next arg =>
      refine .bind (Quiet.value (h arg List.mem_cons_self)) fun value _ => ?_
      -- The rest are questions: whether the types allow a conversion, and which one.
      exact .asked (RoutineM.Idle.converted type value span).asks
  · exact .error _ _

theorem call {callee : Operand} (span : Span) (hAppend : ¬ callee.source.IsAppend env scopes)
    (hCollects : spread = false → ∀ routine value after, routine.scopes = scopes →
      callee.compile.exec env routine = (.ok value, after) → ¬ value.Collects env)
    (hCallee : Quiet env scopes callee.compile)
    (h : ∀ operand ∈ args, Quiet env scopes operand.compile) :
    Quiet env scopes (Call.call callee args spread span) := by
  refine .bind (.intrinsic? callee.source) fun found hFound => ?_
  split
  · exact Quiet.lengthOf _ _ h
  · exact absurd (hFound .append rfl) hAppend
  · refine .bind hCallee.possible fun value hValue => ?_
    obtain ⟨routine, after, hScopes, hRun⟩ := hValue
    have hQuiet : spread = true ∨ ¬ value.Collects env := by
      cases spread with
      | true => exact .inl rfl
      | false => exact .inr (hCollects rfl routine value after hScopes hRun)
    split
    · exact Quiet.conversion _ _ h
    · next bound =>
        refine Quiet.apply _ _ _ _ (hQuiet.imp_right fun hNone => ?_) h
        simpa [Value.Collects] using hNone
    · next other hType hMethod =>
        refine .bind (Yields.possible (.asked (RoutineM.Idle.toSingle span value).asks))
          fun e hSingle => .bind (.types _) fun func hFunc => ?_
        obtain ⟨routine', after', -, hSingle⟩ := hSingle
        split
        · next func =>
            refine Quiet.apply _ _ _ _ (hQuiet.imp_right fun hNone => ?_) h
            rw [← Bool.not_eq_true]
            intro hVariadic
            refine hNone ?_
            have hThere : ∃ span routine e after func,
                (RoutineM.toSingle span value).exec env routine = (.ok e, after) ∧
                  env.program.types.func? e.type = .ok (some func) ∧ func.variadic = true :=
              ⟨span, routine', e, after', func, hSingle, hFunc, hVariadic⟩
            cases value with
            | method bound => exact absurd rfl (hMethod bound)
            | _ => exact hThere
        · exact .error _ _

theorem dot {receiver : Operand} (member : String) (span : Span)
    (h : Quiet env scopes receiver.compile) :
    Quiet env scopes (ExprRule.dot receiver member span) := by
  refine .bind h fun value _ => ?_
  split
  · exact .asked (RoutineM.Idle.moduleMember _ _ _).asks
  · exact .bind (.asked (RoutineM.Idle.toSingle _ _).asks) fun _ _ =>
      .asked (RoutineM.Idle.valueMember _ _ _).asks

/-! ## Trees -/

theorem operands {es : List Expr} (hNone : ¬ ExprsHoist env scopes es)
    (h : ∀ operand ∈ operands es, ¬ operand.source.Hoists env scopes →
      Quiet env scopes operand.compile) :
    ∀ operand ∈ GoToC.operands es, Quiet env scopes operand.compile := by
  induction es with
  | nil => simp [GoToC.operands]
  | cons e rest ih =>
      rw [ExprsHoist, not_or] at hNone
      rw [GoToC.operands, List.forall_mem_cons] at h ⊢
      exact ⟨h.1 hNone.1, ih hNone.2 h.2⟩

theorem paramOperands {params : List (Param Expr)} (hNone : ¬ ParamsHoist env scopes params)
    (h : ∀ param ∈ paramOperands params, ¬ param.type.source.Hoists env scopes →
      Quiet env scopes param.type.compile) :
    ∀ param ∈ GoToC.paramOperands params, Quiet env scopes param.type.compile := by
  induction params with
  | nil => simp [GoToC.paramOperands]
  | cons param rest ih =>
      rw [ParamsHoist, not_or] at hNone
      rw [GoToC.paramOperands, paramOperand, List.forall_mem_cons] at h ⊢
      exact ⟨h.1 hNone.1, ih hNone.2 h.2⟩

theorem specOperands {specs : List (MethodSpec Expr)} (hNone : ¬ SpecsHoist env scopes specs)
    (h : ∀ spec ∈ specOperands specs, spec.signature.All fun type =>
      ¬ type.source.Hoists env scopes → Quiet env scopes type.compile) :
    ∀ spec ∈ GoToC.specOperands specs,
      spec.signature.All fun type => Quiet env scopes type.compile := by
  induction specs with
  | nil => simp [GoToC.specOperands]
  | cons spec rest ih =>
      obtain ⟨name, ⟨variadic, inputs, outputs⟩, span⟩ := spec
      rw [SpecsHoist, not_or, not_or] at hNone
      rw [GoToC.specOperands, specOperand, signatureOperands, List.forall_mem_cons] at h ⊢
      exact ⟨⟨paramOperands hNone.1.1 h.1.1, paramOperands hNone.1.2 h.1.2⟩, ih hNone.2 h.2⟩

/-- An expression without a form that is written ahead writes nothing. -/
theorem kept : Operand.Kept fun e => ¬ e.source.Hoists env scopes → Quiet env scopes e.compile where
  int _ _ _ := .pure trivial
  str _ _ _ := .pure trivial
  ident span name _ := .asked (.lookup name span)
  unary _ op _ h hNone := .bind (Quiet.value (h hNone)) fun _ _ => .pure trivial
  binary _ op _ _ hLeft hRight hNone := by
    rw [Expr.Hoists, not_or] at hNone
    exact .bind (Quiet.value (hLeft hNone.1)) fun _ _ =>
      .bind (Quiet.value (hRight hNone.2)) fun _ _ => .pure trivial
  call span callee args spread hCallee hArgs hNone := by
    rw [Expr.Hoists, not_or, not_or, not_or] at hNone
    obtain ⟨hNoCallee, hNoArgs, hAppend, hCollects⟩ := hNone
    refine Quiet.call span hAppend ?_ (hCallee hNoCallee) (Quiet.operands hNoArgs hArgs)
    intro hSpread routine value after hScopes hRun hValue
    exact hCollects ⟨hSpread, routine, value, after, hScopes, hRun, hValue⟩
  dot span _ member h hNone := Quiet.dot member span (h hNone)
  index _ _ _ hReceiver hSubscript hNone := by
    rw [Expr.Hoists, not_or] at hNone
    exact .bind (hReceiver hNone.1) fun _ _ => .bind (hSubscript hNone.2) fun _ _ => .pure trivial
  slice _ _ _ _ _ _ _ hNone := by simp [Expr.Hoists] at hNone
  ctor _ _ _ _ _ hNone := by simp [Expr.Hoists] at hNone
  pointerType _ _ h hNone := .bind (Quiet.type (h hNone)) fun _ _ => .pure trivial
  sliceType _ _ h hNone := .bind (Quiet.type (h hNone)) fun _ _ => .pure trivial
  mapType _ _ _ hKey hValue hNone := by
    rw [Expr.Hoists, not_or] at hNone
    exact .bind (Quiet.type (hKey hNone.1)) fun _ _ =>
      .bind (Quiet.type (hValue hNone.2)) fun _ _ => .pure trivial
  structType _ _ h hNone :=
    .bind (.bind .nextSerial fun _ _ => Quiet.structType _ (Quiet.paramOperands hNone h))
      fun _ _ => .pure trivial
  interfaceType _ _ h hNone :=
    .bind (Quiet.anonymousInterface (Quiet.specOperands hNone h)) fun _ _ => .pure trivial

end Quiet

/-- The operands of a short-circuit operator are compiled one after the other, and the
fragment of the right one stands to the right of the operator in C. The right operand
writes only after the left one, and nothing at all unless a form in it is written ahead. -/
theorem shortCircuit_operands {env : Env} {routine after : Routine} {span : Span} {op : BinaryOp}
    {a b : Expr} {value : Value} (hOp : op = .and ∨ op = .or)
    (h : (compileExpr (.binary span op a b)).exec env routine = (.ok value, after)) :
    ∃ left right middle stmts, (operand a).value.exec env routine = (.ok left, middle) ∧
      (operand b).value.exec env middle = (.ok right, after) ∧
      value = .expr ⟨.binary op left.c right.c, .prim .int⟩ ∧
      (CExpr.binary op left.c right.c).render =
        "(" ++ left.c.render ++ " " ++ op.cSign ++ " " ++ right.c.render ++ ")" ∧
      after.body.toList = middle.body.toList ++ stmts ∧
      (¬ b.Hoists env routine.scopes → stmts = []) := by
  rw [compileExpr] at h
  obtain ⟨left, middle, hLeft, h⟩ := RoutineM.bind_eq_ok.mp h
  obtain ⟨right, last, hRight, h⟩ := RoutineM.bind_eq_ok.mp h
  cases h
  have hComposed (e : Expr) : Composed .expr .any (operand e).value := value_composed .expr e
  obtain ⟨hScopes, -⟩ := (hComposed a).appends hLeft
  obtain ⟨-, stmts, hStmts⟩ := (hComposed b).appends hRight
  refine ⟨left, right, middle, stmts, hLeft, hRight, rfl, ?_, hStmts, fun hHoists => ?_⟩
  · have hComplement : (if op = .andNot then "~" else "") = "" :=
      if_neg (by rcases hOp with rfl | rfl <;> decide)
    show "(" ++ left.c.render ++ " " ++ op.cSign ++ " " ++ (if op = .andNot then "~" else "")
      ++ right.c.render ++ ")" = _
    rw [hComplement, String.append_empty]
  · have hQuiet : Quiet env routine.scopes (operand b).value :=
      Quiet.value (Quiet.kept.operand b hHoists)
    have hBody := (hQuiet middle right after hScopes hRight).2.2 trivial
    rw [hBody, List.self_eq_append_right] at hStmts
    exact hStmts

/-- A module with one function, which takes nothing and gives an integer. -/
def lonelyFunc : Env :=
  ⟨⟨[⟨"main", .empty, [⟨"main", "f", "main__f", .func, 0, .nowhere,
      some (.expr ⟨.global "main__f", .func ⟨[], [⟨"", .prim .int⟩], false, false, 1⟩⟩), none⟩],
      []⟩], none, .empty⟩, 0, "main", none, none, none⟩

/-- In `0 && f()` the call is left to the operator. -/
theorem shortCircuit_operands_call :
    let start := Routine.start Supply.empty
    let call := Expr.call .nowhere (.ident .nowhere "f") [] false
    (compileExpr (.binary .nowhere .and (.int .nowhere 0) call)).exec lonelyFunc start =
        (.ok (.expr ⟨.binary .and (.int 0) (.call (.global "main__f") []), .prim .int⟩), start) ∧
      ¬ call.Hoists lonelyFunc start.scopes ∧
      ∃ left right middle, (operand (.int .nowhere 0)).value.exec lonelyFunc start =
          (.ok left, middle) ∧
        (operand call).value.exec lonelyFunc middle = (.ok right, start) ∧
        start.body.toList = middle.body.toList := by
  intro start call
  have hRun : (compileExpr (.binary .nowhere .and (.int .nowhere 0) call)).exec lonelyFunc start =
      (.ok (.expr ⟨.binary .and (.int 0) (.call (.global "main__f") []), .prim .int⟩), start) := rfl
  have hHoists : ¬ call.Hoists lonelyFunc start.scopes := by
    show ¬ (Expr.call .nowhere (.ident .nowhere "f") [] false).Hoists lonelyFunc [[]]
    simp only [Expr.Hoists, ExprsHoist, false_or, not_or, not_and]
    refine ⟨fun hAppend => absurd hAppend.1 (by decide), ?_⟩
    rintro - ⟨⟨supply, scopes, locals, typedefs, body⟩, value, after, rfl, hCallee, hCollects⟩
    cases hCallee
    obtain ⟨span, routine, e, after, func, hSingle, hFunc, hVariadic⟩ := hCollects
    cases hSingle
    cases hFunc
    cases hVariadic
  obtain ⟨left, right, middle, stmts, hLeft, hRight, -, -, hBody, hQuiet⟩ :=
    shortCircuit_operands (.inl rfl) hRun
  refine ⟨hRun, hHoists, left, right, middle, hLeft, hRight, ?_⟩
  rw [hBody, hQuiet hHoists, List.append_nil]

/-- It is not so that the right operand never writes: in `0 && "ab"[1:]` it does. -/
theorem shortCircuit_operands_slice :
    ¬ ∀ (env : Env) (routine middle after : Routine) (span : Span) (op : BinaryOp) (a b : Expr)
        (value : Value) (left : Typed), op = .and ∨ op = .or →
      (compileExpr (.binary span op a b)).exec env routine = (.ok value, after) →
      (operand a).value.exec env routine = (.ok left, middle) → after.body = middle.body := by
  intro h
  have hSame := h lonelyFunc (Routine.start Supply.empty) _ _ .nowhere .and (.int .nowhere 0)
    (.slice .nowhere (.str .nowhere "ab") (some (.int .nowhere 1)) none) _ _ (.inl rfl) rfl rfl
  exact absurd (congrArg Array.size hSame) (by decide)

end GoToC
