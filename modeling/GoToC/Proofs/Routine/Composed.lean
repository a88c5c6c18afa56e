import GoToC.Proofs.Routine.Actions
import GoToC.Proofs.Routine.Operands
import GoToC.Proofs.Tree.Scoping

/-!
# What the compiler is made of

Every rule for expressions and statements is put together from a few basic actions: it
asks, fails, takes numbers, writes statements and declares variables, and it runs other
rules in blocks of their own. Whatever all basic actions keep is kept by the compilation
of every expression and every statement.
-/

namespace GoToC

variable {targets args : List Operand} {specs : List (MethodSpec Operand)} {cond : Option Operand}
  {body : RoutineM Unit} {arms : List (List Operand × RoutineM Unit)}
  {fields : List (Param Operand)} {receiver target : Operand} {e : Expr}
  {action post : Option (RoutineM Unit)} {name : String} {names : Option (List String)}
  {define : Bool} {vars : String → Prop}

/-- A statement that holds no others and does not jump. -/
def CStmt.isFlat : CStmt → Bool
  | .jump _ _ | .ifElse _ _ _ | .block _ | .loop _ _ _ _ _ | .rangeLoop _ _ _ _ _
  | .switch _ _ _ | .arm _ _ => false
  | _ => true

/-- What an action is for. -/
inductive Extent where
  /-- Expressions, which declare no source variables. -/
  | expr
  /-- Statements that hold no others. -/
  | simple
  /-- Statements of all forms. -/
  | nested
  deriving DecidableEq

/-- Whether source variables can be declared. -/
def Extent.declares : Extent → Bool
  | expr => false
  | simple | nested => true

/-- Whether statements can be written that hold others, and jumps. -/
def Extent.nests : Extent → Bool
  | expr | simple => false
  | nested => true

/-- What actions may declare and where they may find fault. -/
structure Limits where
  /-- The names of source variables. -/
  vars : String → Prop
  /-- The places that errors are raised at. -/
  spans : Span → Prop

namespace Limits

/-- Source variables with such names, and errors at any place. -/
def naming (vars : String → Prop) : Limits := ⟨vars, fun _ => True⟩

def any : Limits := naming fun _ => True

end Limits

/-- The place of an earlier definition that a problem tells of. -/
def Problem.previous? : Problem → Option Span
  | .redefined _ previous => some previous
  | _ => none

/-- The actions that are put together from basic ones, as far as these are allowed for what
they are for and keep to the limits. -/
inductive Composed (extent : Extent) (limits : Limits) : {α : Type} → RoutineM α → Prop
  | pure {α} (value : α) : Composed extent limits (pure value)
  | bind {α β : Type} {action : RoutineM α} {next : α → RoutineM β} :
      Composed extent limits action → (∀ value, Composed extent limits (next value)) →
        Composed extent limits (action >>= next)
  | fault {α} (cause : Fault) : Composed extent limits (throw (.fault cause) : RoutineM α)
  | error {α} (span : Span) (problem : Problem)
      (hSpan : limits.spans span) (hProblem : problem.previous? = none) :
      Composed extent limits (RoutineM.error span problem : RoutineM α)
  | read : Composed extent limits read
  /-- What was written before is not looked at. -/
  | get {α : Type} {next : Routine → RoutineM α} :
      (∀ routine body, next { routine with body := body } = next routine) →
        (∀ routine, Composed extent limits (next routine)) → Composed extent limits (get >>= next)
  | nextSerial : Composed extent limits RoutineM.nextSerial
  | newFunc (inputs outputs : List (Member Ty)) (variadic isMethod : Bool) :
      Composed extent limits (RoutineM.newFunc inputs outputs variadic isMethod)
  | newStruct (name : String) (fields : List (Member Ty)) :
      Composed extent limits (RoutineM.newStruct name fields)
  | emit (stmt : CStmt) :
      extent.nests = true ∨ stmt.isFlat = true → Composed extent limits (RoutineM.emit stmt)
  | temp (type : Ty) (span : Span) (hSpan : limits.spans span) :
      Composed extent limits (RoutineM.temp type span)
  | results (outputs : List (Member Ty)) (span : Span) (hSpan : limits.spans span) :
      Composed extent limits (Call.results outputs span)
  | declareLocal (name : String) (type : Ty) (span : Span) :
      extent.declares = true → limits.vars name → (hSpan : limits.spans span) →
        Composed extent limits (RoutineM.declareLocal name type span)
  | bindName (name : String) (value : Typed) :
      extent.declares = true → Composed extent limits (RoutineM.bind name value)
  | capture {α : Type} {action : RoutineM α} : extent.nests = true → Composed extent limits action →
        Composed extent limits (RoutineM.capture action)
  | inScope {α : Type} {action : RoutineM α} : extent.nests = true → Composed extent limits action →
        Composed extent limits (RoutineM.inScope action)
  | inLoop {α : Type} {action : RoutineM α} (number : Nat) :
      extent.nests = true → Composed extent limits action →
        Composed extent limits (RoutineM.inLoop number action)

/-- An operand that is compiled by such an action, at a place where errors may be raised. -/
structure Operand.Composed (extent : Extent) (limits : Limits) (operand : Operand) : Prop where
  compile : GoToC.Composed extent limits operand.compile
  span : limits.spans operand.span

namespace Composed

variable {extent : Extent} {limits : Limits} {α β : Type}

/-- An action that ends with an error if a check succeeds. -/
theorem errorIf {check : Prop} [Decidable check] {span : Span} {problem : Problem}
    {rest : RoutineM α} (hSpan : limits.spans span) (hProblem : problem.previous? = none)
    (h : Composed extent limits rest) :
    Composed extent limits (do
      if check then RoutineM.error span problem
      rest) := by
  dsimp only
  split
  · exact .bind (.error _ _ hSpan hProblem) fun _ => h
  · exact h

/-- What is allowed for any purpose is allowed for statements of all forms. -/
theorem nested {action : RoutineM α} (h : Composed extent limits action) :
    Composed .nested limits action := by
  induction h with
  | pure value => exact .pure value
  | bind _ _ hAction hNext => exact .bind hAction hNext
  | fault cause => exact .fault cause
  | error span problem hSpan hProblem => exact .error span problem hSpan hProblem
  | read => exact .read
  | get hBody _ hNext => exact .get hBody hNext
  | nextSerial => exact .nextSerial
  | newFunc inputs outputs variadic isMethod => exact .newFunc inputs outputs variadic isMethod
  | newStruct name fields => exact .newStruct name fields
  | emit stmt _ => exact .emit stmt (.inl rfl)
  | temp type span hSpan => exact .temp type span hSpan
  | results outputs span hSpan => exact .results outputs span hSpan
  | declareLocal name type span _ hName hSpan => exact .declareLocal name type span rfl hName hSpan
  | bindName name value _ => exact .bindName name value rfl
  | capture _ _ hAction => exact .capture rfl hAction
  | inScope _ _ hAction => exact .inScope rfl hAction
  | inLoop number _ _ hAction => exact .inLoop number rfl hAction

theorem map {f : α → β} {action : RoutineM α} (h : Composed extent limits action) :
    Composed extent limits (f <$> action) := by
  rw [map_eq_pure_bind]
  exact .bind h fun _ => .pure _

/-- Nothing comes after an error. -/
theorem bind_error (span : Span) (problem : Problem) (next : α → RoutineM β)
    (hSpan : limits.spans span) (hProblem : problem.previous? = none) :
    Composed extent limits ((RoutineM.error span problem : RoutineM α) >>= next) := by
  have hStop : (RoutineM.error span problem : RoutineM α) >>= next =
      (RoutineM.error span problem : RoutineM β) := rfl
  rw [hStop]
  exact .error span problem hSpan hProblem

theorem mismatch (span : Span) (expected found : Ty) (context : String)
    (hSpan : limits.spans span) :
    Composed extent limits (RoutineM.mismatch span expected found context : RoutineM α) :=
  .error span _ hSpan rfl

theorem lift (result : Faulty α) : Composed extent limits (RoutineM.lift result) := by
  cases result with
  | ok value => exact .pure value
  | error fault => exact .fault _

theorem types (ask : TypeStore → Faulty α) : Composed extent limits (RoutineM.types ask) :=
  .bind .read fun _ => .lift _

/-! ## Names and values -/

theorem lookup (name : String) (span : Span)
    (hSpan : limits.spans span) : Composed extent limits (RoutineM.lookup name span) := by
  refine .bind .read fun env => .get (fun _ _ => rfl) fun routine => ?_
  split
  · exact .pure _
  · split
    · exact .pure _
    · dsimp only
      split
      · exact .pure _
      · exact .error _ _ hSpan rfl

theorem isAssignable (name : String) : Composed extent limits (RoutineM.isAssignable name) := by
  refine .bind .read fun env => .get (fun _ _ => rfl) fun routine => ?_
  dsimp only
  split
  · exact .pure _
  · split
    · exact .pure _
    · exact .pure _

theorem single (e : Typed) (span : Span)
    (hSpan : limits.spans span) : Composed extent limits (RoutineM.single e span) := by
  refine .bind (.types _) fun found => ?_
  split
  · exact .error _ _ hSpan rfl
  · exact .pure _

theorem globalExpr (value : GlobalValue) (span : Span) (hSpan : limits.spans span) :
    Composed extent limits (RoutineM.globalExpr value span) := by
  unfold RoutineM.globalExpr
  split
  · exact .pure _
  · exact .error _ _ hSpan rfl

theorem toExpr (span : Span) (value : Value)
    (hSpan : limits.spans span) : Composed extent limits (RoutineM.toExpr span value) := by
  induction value with
  | expr e => exact .pure _
  | global id name =>
      refine .bind .read fun env => ?_
      split
      · exact .globalExpr _ _ hSpan
      · exact .error _ _ hSpan rfl
  | element container index hContainer hIndex =>
      refine .bind hContainer fun c => .bind (.single _ _ hSpan) fun c => .bind hIndex fun i =>
        .bind (.single _ _ hSpan) fun i => .bind (.types _) fun found => ?_
      split
      · exact .pure _
      · exact .error _ _ hSpan rfl
  | type denoted => exact .error _ _ hSpan rfl
  | module id => exact .error _ _ hSpan rfl
  | method bound => exact .error _ _ hSpan rfl

theorem toSingle (span : Span) (value : Value) (hSpan : limits.spans span) :
    Composed extent limits (RoutineM.toSingle span value) :=
  .bind (.toExpr _ _ hSpan) fun _ => .single _ _ hSpan

theorem convert (dest : Ty) (src : Typed) (span : Span) (context : String)
    (hSpan : limits.spans span) :
    Composed extent limits (RoutineM.convert dest src span context) := by
  refine .bind (.types _) fun func => ?_
  split
  · refine .bind (.types _) fun isNil => ?_
    split
    · exact .pure _
    · refine .bind (.types _) fun same => ?_
      split
      · exact .pure _
      · exact .mismatch _ _ _ _ hSpan
  · refine .bind (.types _) fun storable => .errorIf hSpan rfl (.bind (.types _) fun found => ?_)
    split
    · exact .pure _
    · exact .mismatch _ _ _ _ hSpan

/-! ## Operands -/

theorem value {operand : Operand} (h : operand.Composed extent limits) :
    Composed extent limits operand.value :=
  .bind h.compile fun _ => .toSingle _ _ h.span

theorem values {operands : List Operand}
    (h : ∀ operand ∈ operands, operand.Composed extent limits) :
    Composed extent limits (Operand.values operands) := by
  induction operands with
  | nil => exact .pure _
  | cons operand rest ih =>
      exact .bind (.value (h operand List.mem_cons_self)) fun _ =>
        .bind (ih fun o ho => h o (List.mem_cons_of_mem operand ho)) fun _ => .pure _

theorem type {operand : Operand} (h : operand.Composed extent limits) :
    Composed extent limits operand.type := by
  refine .bind h.compile fun found => ?_
  split
  · exact .pure _
  · exact .error _ _ h.span rfl

theorem members {params : List (Param Operand)}
    (h : ∀ param ∈ params, param.type.Composed extent limits) :
    Composed extent limits (Operand.members params) := by
  induction params with
  | nil => exact .pure _
  | cons param rest ih =>
      exact .bind (.type (h param List.mem_cons_self)) fun _ =>
        .bind (ih fun p hp => h p (List.mem_cons_of_mem param hp)) fun _ => .pure _

theorem signature {receiver : Option (Param Operand)} {sig : Signature Operand}
    (hReceiver : ∀ param ∈ receiver, param.type.Composed extent limits)
    (h : sig.All (Operand.Composed extent limits)) :
    Composed extent limits (Operand.signature receiver sig) := by
  refine .bind (.members fun param hp => ?_) fun _ => .bind (.members h.2) fun _ => .newFunc _ _ _ _
  rcases List.mem_append.mp hp with hp | hp
  · exact hReceiver param (Option.mem_toList.mp hp)
  · exact h.1 param hp

theorem methods (h : ∀ spec ∈ specs, spec.signature.All (Operand.Composed extent limits)) :
    Composed extent limits (Operand.methods specs) := by
  induction specs with
  | nil => exact .pure _
  | cons spec rest ih =>
      exact .bind (.signature (by simp) (h spec List.mem_cons_self)) fun _ =>
        .bind (ih fun s hs => h s (List.mem_cons_of_mem spec hs)) fun _ => .pure _

theorem structType (name : String) (h : ∀ param ∈ fields, param.type.Composed extent limits) :
    Composed extent limits (Operand.structType name fields) :=
  .bind (.members h) fun _ => .bind (.newStruct _ _) fun _ => .pure _

theorem interfaceType (name : String)
    (h : ∀ spec ∈ specs, spec.signature.All (Operand.Composed extent limits)) :
    Composed extent limits (Operand.interfaceType name specs) :=
  .bind (.methods h) fun _ => .bind .read fun _ => .pure _

theorem anonymousStruct (h : ∀ param ∈ fields, param.type.Composed extent limits) :
    Composed extent limits (Operand.anonymousStruct fields) :=
  .bind .nextSerial fun _ => .structType _ h

theorem anonymousInterface
    (h : ∀ spec ∈ specs, spec.signature.All (Operand.Composed extent limits)) :
    Composed extent limits (Operand.anonymousInterface specs) := by
  unfold Operand.anonymousInterface
  split
  · exact .pure _
  · exact .bind .nextSerial fun _ => .interfaceType _ h

/-! ## Calls -/

theorem appendItems (slice : String) (elem : Ty) (context : String) (span : Span)
    {operands : List Operand} (h : ∀ operand ∈ operands, operand.Composed extent limits)
    (hSpan : limits.spans span) :
    Composed extent limits (Call.appendItems slice elem context span operands) := by
  induction operands with
  | nil => exact .pure _
  | cons operand rest ih =>
      have hOperand := h operand List.mem_cons_self
      exact .bind (.value hOperand) fun _ => .bind (.convert _ _ _ _ hOperand.span) fun _ =>
        .bind (.temp _ _ hSpan) fun _ => .bind (.emit _ (.inr rfl)) fun _ =>
          .bind (.emit _ (.inr rfl)) fun _ => ih (List.forall_mem_cons.mp h).2

theorem packVariadic (sliceType : Ty) (span : Span) {operands : List Operand}
    (h : ∀ operand ∈ operands, operand.Composed extent limits) (hSpan : limits.spans span) :
    Composed extent limits (Call.packVariadic sliceType operands span) := by
  refine .bind (.types _) fun found => ?_
  split
  · exact .fault _
  · exact .bind (.temp _ _ hSpan) fun _ => .bind (.emit _ (.inr rfl)) fun _ =>
      .bind (.appendItems _ _ _ _ h hSpan) fun _ => .pure _

theorem fixedArgs (number : Nat) {operands : List Operand} (inputs : List (Member Ty))
    (h : ∀ operand ∈ operands, operand.Composed extent limits) :
    Composed extent limits (Call.fixedArgs number operands inputs) := by
  induction operands generalizing number inputs with
  | nil => exact .pure _
  | cons operand rest ih =>
      cases inputs with
      | nil => exact .pure _
      | cons input inputs =>
          exact .bind (.value (h operand List.mem_cons_self)) fun _ =>
            .bind (.convert _ _ _ _ (h operand List.mem_cons_self).span) fun _ =>
              .bind (ih _ _ fun o ho => h o (List.mem_cons_of_mem operand ho)) fun _ => .pure _

theorem checkCount (variadic spread : Bool) (given inputs : Nat) (span : Span)
    (hSpan : limits.spans span) :
    Composed extent limits (Call.checkCount variadic spread given inputs span) := by
  unfold Call.checkCount
  dsimp only
  split
  · refine .bind (.error _ _ hSpan rfl) fun _ => ?_
    split <;> split
    all_goals first | exact .error _ _ hSpan rfl | exact .pure _
  · split <;> split
    all_goals first | exact .error _ _ hSpan rfl | exact .pure _

theorem apply (callee : CExpr) (func : FuncType Ty) (leading : List CExpr)
    (inputs : List (Member Ty)) (spread : Bool) (span : Span)
    (h : ∀ operand ∈ args, operand.Composed extent limits) (hSpan : limits.spans span) :
    Composed extent limits (Call.apply callee func leading inputs args spread span) := by
  refine .bind (.checkCount _ _ _ _ _ hSpan) fun _ =>
    .bind (.fixedArgs _ _ fun o ho => h o (List.mem_of_mem_take ho)) fun _ => ?_
  split
  · split
    · exact .bind (.packVariadic _ _ (fun o ho => h o (List.mem_of_mem_drop ho)) hSpan) fun _ =>
        .bind (.pure _) fun _ => .bind (.results _ _ hSpan) fun _ => .pure _
    · exact .bind (.fault _) fun _ => .bind (.results _ _ hSpan) fun _ => .pure _
  · exact .bind (.pure _) fun _ => .bind (.results _ _ hSpan) fun _ => .pure _

/-- The end of a conversion, once it is known whether the types allow one. -/
private theorem converted (type : Ty) (value : Typed) (span : Span) (convertible : Bool)
    (hSpan : limits.spans span) :
    Composed extent limits (Call.attempted type value span convertible) := by
  have hFound (found : Option Conversion) :
      Composed extent limits (Call.converted type value span found) := by
    cases found with
    | some conversion => exact .pure _
    | none => exact .mismatch _ _ _ _ hSpan
  cases convertible with
  | true => exact .bind (.types _) hFound
  | false => exact .bind (.pure _) hFound

theorem conversion (type : Ty) (span : Span)
    (h : ∀ operand ∈ args, operand.Composed extent limits) (hSpan : limits.spans span) :
    Composed extent limits (Call.conversion type args span) := by
  unfold Call.conversion
  split
  · next arg =>
      refine .bind (.value (h arg List.mem_cons_self)) fun value => .bind (.types _) fun _ => ?_
      -- Four questions in a row; the first `no` ends them.
      split
      · exact .bind (.pure _) fun _ => .converted _ _ _ _ hSpan
      · refine .bind (.types _) fun _ => ?_
        split
        · exact .bind (.pure _) fun _ => .converted _ _ _ _ hSpan
        · refine .bind (.types _) fun _ => ?_
          split
          · exact .bind (.pure _) fun _ => .converted _ _ _ _ hSpan
          · exact .bind (.types _) fun _ => .bind (.pure _) fun _ => .converted _ _ _ _ hSpan
  · exact .error _ _ hSpan rfl

theorem lengthOf (spread : Bool) (span : Span)
    (h : ∀ operand ∈ args, operand.Composed extent limits) (hSpan : limits.spans span) :
    Composed extent limits (Call.lengthOf args spread span) := by
  unfold Call.lengthOf
  split
  · next arg =>
      have hArg := h arg List.mem_cons_self
      refine .errorIf hSpan rfl (.bind (.value hArg) fun value => .bind (.types _) fun _ => ?_)
      split
      · exact .pure _
      · refine .bind (.types _) fun found => ?_
        split
        · exact .bind (.types _) fun _ => .pure _
        · exact .error _ _ hArg.span rfl
  · exact .error _ _ hSpan rfl

theorem appendSpread (result : String) (sliceType elem : Ty) {other : Operand} (span : Span)
    (h : other.Composed extent limits) (hSpan : limits.spans span) :
    Composed extent limits (Call.appendSpread result sliceType elem other span) :=
  .bind (.value h) fun _ => .bind (.convert _ _ _ _ h.span) fun _ =>
    .bind (.temp _ _ hSpan) fun _ =>
    .bind (.temp _ _ hSpan) fun _ => .bind (.emit _ (.inr rfl)) fun _ => .bind (.types _) fun _ =>
      .emit _ (.inr rfl)

theorem appended (spread : Bool) (span : Span)
    (h : ∀ operand ∈ args, operand.Composed extent limits) (hSpan : limits.spans span) :
    Composed extent limits (Call.appended args spread span) := by
  unfold Call.appended
  split
  · exact .error _ _ hSpan rfl
  · next first items =>
      have hItems (o : Operand) (ho : o ∈ items) := h o (List.mem_cons_of_mem first ho)
      refine .bind (.value (h first List.mem_cons_self)) fun slice => .bind (.types _) fun _ => ?_
      split
      · exact .error _ _ (h first List.mem_cons_self).span rfl
      · refine .bind (.temp _ _ hSpan) fun result => .bind (.emit _ (.inr rfl)) fun _ => ?_
        dsimp only
        split
        · split
          · exact .bind (.appendSpread _ _ _ _ (hItems _ List.mem_cons_self) hSpan) fun _ => .pure _
          · exact .bind (.error _ _ hSpan rfl) fun _ => .pure _
        · exact .bind (.appendItems _ _ _ _ hItems hSpan) fun _ => .pure _

theorem intrinsic? (callee : Expr) : Composed extent limits (Call.intrinsic? callee) := by
  unfold Call.intrinsic?
  dsimp only
  split
  · exact .pure _
  · refine .bind .read fun _ => .get (fun _ _ => rfl) fun _ => ?_
    split
    · exact .pure _
    · exact .pure _

theorem call {callee : Operand} (spread : Bool) (span : Span)
    (hCallee : callee.Composed extent limits)
    (h : ∀ operand ∈ args, operand.Composed extent limits) (hSpan : limits.spans span) :
    Composed extent limits (Call.call callee args spread span) := by
  refine .bind (.intrinsic? _) fun found => ?_
  split
  · exact .lengthOf _ _ h hSpan
  · exact .appended _ _ h hSpan
  · refine .bind hCallee.compile fun value => ?_
    split
    · exact .conversion _ _ h hSpan
    · exact .apply _ _ _ _ _ _ h hSpan
    · refine .bind (.toSingle _ _ hSpan) fun e => .bind (.types _) fun func => ?_
      split
      · exact .apply _ _ _ _ _ _ h hSpan
      · exact .error _ _ hSpan rfl

/-! ## Expressions -/

theorem unary (op : UnaryOp) {operand : Operand} (h : operand.Composed extent limits) :
    Composed extent limits (ExprRule.unary op operand) :=
  .bind (.value h) fun _ => .pure _

theorem binary (op : BinaryOp) {left right : Operand} (hLeft : left.Composed extent limits)
    (hRight : right.Composed extent limits) :
    Composed extent limits (ExprRule.binary op left right) :=
  .bind (.value hLeft) fun _ => .bind (.value hRight) fun _ => .pure _

theorem requireResolved (type : Ty) (span : Span) (hSpan : limits.spans span) :
    Composed extent limits (ExprRule.requireResolved type span) := by
  refine .bind .read fun env => ?_
  split
  · exact .pure _
  · exact .error _ _ hSpan rfl
  · exact .error _ _ hSpan rfl

theorem moduleMember (id : ModuleId) (member : String) (span : Span) (hSpan : limits.spans span) :
    Composed extent limits (ExprRule.moduleMember id member span) := by
  refine .bind .read fun env => ?_
  dsimp only
  split
  · exact .error _ _ hSpan rfl
  · split
    · exact .bind (.requireResolved _ _ hSpan) fun _ => .pure _
    · exact .pure _

theorem boundMethod? (callee receiver : CExpr) (method : Option (Member Ty)) :
    Composed extent limits (ExprRule.boundMethod? callee receiver method) := by
  cases method with
  | none => exact .pure _
  | some method => exact .bind (.types _) fun _ => .pure _

theorem valueMember (receiver : Typed) (member : String) (span : Span) (hSpan : limits.spans span) :
    Composed extent limits (ExprRule.valueMember receiver member span) := by
  refine .bind (.types _) fun pointee => ?_
  split
  · split
    · exact .pure _
    · refine .bind .read fun env => .bind (.boundMethod? _ _ _) fun found => ?_
      split
      · exact .pure _
      · exact .error _ _ hSpan rfl
  · refine .bind (.types _) fun found => ?_
    split
    · refine .bind (.boundMethod? _ _ _) fun found => ?_
      split
      · exact .pure _
      · exact .error _ _ hSpan rfl
    · exact .error _ _ hSpan rfl

theorem dot (member : String) (span : Span) (h : receiver.Composed extent limits)
    (hSpan : limits.spans span) : Composed extent limits (ExprRule.dot receiver member span) := by
  refine .bind h.compile fun value => ?_
  split
  · exact .moduleMember _ _ _ hSpan
  · exact .bind (.toSingle _ _ hSpan) fun _ => .valueMember _ _ _ hSpan

theorem index {subscript : Operand} (hReceiver : receiver.Composed extent limits)
    (hSubscript : subscript.Composed extent limits) :
    Composed extent limits (ExprRule.index receiver subscript) :=
  .bind hReceiver.compile fun _ => .bind hSubscript.compile fun _ => .pure _

theorem sliceBound {operand : Operand} (h : operand.Composed extent limits) :
    Composed extent limits (ExprRule.sliceBound operand) :=
  .bind (.value h) fun _ => .bind (.convert _ _ _ _ h.span) fun _ =>
    .bind (.temp _ _ h.span) fun _ => .bind (.emit _ (.inr rfl)) fun _ => .pure _

theorem optSliceBound {bound : Option Operand}
    (h : ∀ operand ∈ bound, operand.Composed extent limits) :
    Composed extent limits (ExprRule.optSliceBound bound) := by
  cases bound with
  | none => exact .pure _
  | some operand => exact .map (.sliceBound (h operand rfl))

theorem slicedElement (container : Typed) (span : Span) (hSpan : limits.spans span) :
    Composed extent limits (ExprRule.slicedElement container span) := by
  refine .bind (.types _) fun _ => ?_
  split
  · exact .pure _
  · refine .bind (.types _) fun found => ?_
    split
    · exact .bind (.types _) fun _ => .pure _
    · exact .error _ _ hSpan rfl

theorem slice {receiver : Operand} {lo hi : Option Operand} (span : Span)
    (hReceiver : receiver.Composed extent limits)
    (hLo : ∀ operand ∈ lo, operand.Composed extent limits)
    (hHi : ∀ operand ∈ hi, operand.Composed extent limits) (hSpan : limits.spans span) :
    Composed extent limits (ExprRule.slice receiver lo hi span) := by
  refine .bind (.value hReceiver) fun container => .bind (.slicedElement _ _ hSpan) fun elem =>
    .bind (.temp _ _ hSpan) fun copy => .bind (.emit _ (.inr rfl)) fun _ =>
      .bind (.optSliceBound hLo) fun lo => .bind (.optSliceBound hHi) fun hi => ?_
  dsimp only
  split
  · exact .bind (.emit _ (.inr rfl)) fun _ => .pure _
  · exact .pure _

theorem initFields (handle : String) (record : StructType Ty) {fields : List (FieldInit Operand)}
    (h : ∀ init ∈ fields, limits.spans init.span ∧ init.value.Composed extent limits) :
    Composed extent limits (ExprRule.initFields handle record fields) := by
  induction fields with
  | nil => exact .pure _
  | cons init rest ih =>
      obtain ⟨hSpan, hValue⟩ := h init List.mem_cons_self
      unfold ExprRule.initFields
      split
      · exact .error _ _ hSpan rfl
      · exact .bind (.value hValue) fun _ => .bind (.convert _ _ _ _ hSpan) fun _ =>
          .bind (.emit _ (.inr rfl)) fun _ => ih (List.forall_mem_cons.mp h).2

theorem ctor {type : Operand} {fields : List (FieldInit Operand)} (span : Span)
    (hType : type.Composed extent limits)
    (h : ∀ init ∈ fields, limits.spans init.span ∧ init.value.Composed extent limits)
    (hSpan : limits.spans span) : Composed extent limits (ExprRule.ctor type fields span) := by
  refine .bind (.type hType) fun structType => .bind (.types _) fun found => ?_
  split
  · exact .error _ _ hType.span rfl
  · exact .bind (.temp _ _ hSpan) fun _ => .bind (.emit _ (.inr rfl)) fun _ =>
      .bind (.initFields _ _ h) fun _ => .pure _

end Composed

variable {limits : Limits}

/-- The compilation of an expression is put together from basic actions, of those that
statements need none, and finds fault with the places of the expression only. -/
theorem Operand.composed_kept (extent : Extent) : Operand.Kept fun operand =>
    operand.source.Placed limits.spans → operand.Composed extent limits where
  int _ _ h := ⟨.pure _, h.span⟩
  str _ _ h := ⟨.pure _, h.span⟩
  ident span name h := ⟨.lookup name span h, h.span⟩
  unary _ op _ ih h := ⟨.unary op (ih h.2), h.span⟩
  binary _ op _ _ ihLeft ihRight h := ⟨.binary op (ihLeft h.2.1) (ihRight h.2.2), h.span⟩
  call span _ _ spread ihCallee ihArgs h := ⟨.call spread span (ihCallee h.2.1)
    (fun arg hArg => ihArgs arg hArg (h.2.2.operands arg hArg)) h.1, h.span⟩
  dot span _ member ih h := ⟨.dot member span (ih h.2) h.1, h.span⟩
  index _ _ _ ihReceiver ihIndex h := ⟨.index (ihReceiver h.2.1) (ihIndex h.2.2), h.span⟩
  slice span _ _ _ ihReceiver ihLo ihHi h := ⟨.slice span (ihReceiver h.2.1)
    (fun bound hBound => ihLo bound hBound (h.2.2.1.operand bound hBound))
    (fun bound hBound => ihHi bound hBound (h.2.2.2.operand bound hBound)) h.1, h.span⟩
  ctor span _ _ ihType ihFields h := ⟨.ctor span (ihType h.2.1) (fun init hInit =>
    have hPlaced := h.2.2.operands init hInit
    ⟨hPlaced.1, ihFields init hInit hPlaced.2⟩) h.1, h.span⟩
  pointerType _ _ ih h := ⟨.bind (.type (ih h.2)) fun _ => .pure _, h.span⟩
  sliceType _ _ ih h := ⟨.bind (.type (ih h.2)) fun _ => .pure _, h.span⟩
  mapType _ _ _ ihKey ihValue h := ⟨.bind (.type (ihKey h.2.1)) fun _ =>
    .bind (.type (ihValue h.2.2)) fun _ => .pure _, h.span⟩
  structType _ _ ihFields h := ⟨.bind (.anonymousStruct fun field hField =>
    ihFields field hField (h.2.operands field hField)) fun _ => .pure _, h.span⟩
  interfaceType _ _ ihSpecs h := ⟨.bind (.anonymousInterface fun spec hSpec =>
    (ihSpecs spec hSpec).mp (h.2.operands spec hSpec)) fun _ => .pure _, h.span⟩

theorem operand_placed (extent : Extent) (h : e.Placed limits.spans) :
    (operand e).Composed extent limits := (Operand.composed_kept extent).operand e h

theorem operands_placed (extent : Extent) (es : List Expr) (h : ExprsPlaced limits.spans es) :
    ∀ found ∈ operands es, found.Composed extent limits := fun found hFound =>
  (Operand.composed_kept extent).operands es found hFound (h.operands found hFound)

theorem optOperand_placed (extent : Extent) (e : Option Expr) (h : OptExprPlaced limits.spans e) :
    ∀ found ∈ optOperand e, found.Composed extent limits := fun found hFound =>
  (Operand.composed_kept extent).optOperand e found hFound (h.operand found hFound)

theorem initOperands_placed (extent : Extent) (fields : List (FieldInit Expr))
    (h : InitsPlaced limits.spans fields) :
    ∀ init ∈ initOperands fields, limits.spans init.span ∧ init.value.Composed extent limits :=
  fun init hInit => ⟨(h.operands init hInit).1, (Operand.composed_kept extent).initOperands fields
    init hInit (h.operands init hInit).2⟩

theorem paramOperands_placed (extent : Extent) (params : List (Param Expr))
    (h : ParamsPlaced limits.spans params) :
    ∀ param ∈ paramOperands params, param.type.Composed extent limits := fun param hParam =>
  (Operand.composed_kept extent).paramOperands params param hParam (h.operands param hParam)

theorem specOperands_placed (extent : Extent) (specs : List (MethodSpec Expr))
    (h : SpecsPlaced limits.spans specs) :
    ∀ spec ∈ specOperands specs, spec.signature.All (Operand.Composed extent limits) :=
  fun spec hSpec =>
    ((Operand.composed_kept extent).specOperands specs spec hSpec).mp (h.operands spec hSpec)

theorem compileNamedType_placed (extent : Extent) (h : e.Placed limits.spans) (name : String) :
    Composed extent limits (compileNamedType e name) := by
  unfold compileNamedType
  split
  · exact .structType name (paramOperands_placed extent _ h.2)
  · exact .interfaceType name (specOperands_placed extent _ h.2)
  · exact .type (operand_placed extent h)

theorem compileSignature_placed (extent : Extent) {receiver : Option (Param Expr)}
    {signature : Signature Expr} (hReceiver : ParamsPlaced limits.spans receiver.toList)
    (h : SignaturePlaced limits.spans signature) :
    Composed extent limits (compileSignature receiver signature) := by
  refine .signature (fun param hParam => ?_)
    (((Operand.composed_kept extent).signatureOperands signature).mp h.operands)
  refine (Operand.composed_kept extent).receiver receiver param hParam ?_
  obtain ⟨⟨name, type, span⟩, hWritten, rfl⟩ := Option.map_eq_some_iff.mp hParam
  rw [paramOperand]
  exact (paramsPlaced_iff.mp hReceiver _ (Option.mem_toList.mpr hWritten)).2

/-! ### At any place -/

section

variable {vars : String → Prop}

theorem compileExpr_composed (extent : Extent) (e : Expr) :
    Composed extent (.naming vars) (compileExpr e) :=
  (operand_placed extent e.placed_any).compile

theorem operand_composed (extent : Extent) (e : Expr) :
    (operand e).Composed extent (.naming vars) :=
  operand_placed extent e.placed_any

theorem value_composed (extent : Extent) (e : Expr) :
    Composed extent (.naming vars) (operand e).value :=
  .value (operand_composed extent e)

theorem type_composed (extent : Extent) (e : Expr) :
    Composed extent (.naming vars) (operand e).type :=
  .type (operand_composed extent e)

theorem operands_composed (extent : Extent) (es : List Expr) :
    ∀ operand ∈ operands es, operand.Composed extent (.naming vars) :=
  operands_placed extent es (exprsPlaced_any es)

theorem optOperand_composed (extent : Extent) (e : Option Expr) :
    ∀ operand ∈ optOperand e, operand.Composed extent (.naming vars) :=
  optOperand_placed extent e (optExprPlaced_any e)

theorem initOperands_composed (extent : Extent) (fields : List (FieldInit Expr)) :
    ∀ init ∈ initOperands fields,
      (Limits.naming vars).spans init.span ∧ init.value.Composed extent (.naming vars) :=
  initOperands_placed extent fields (initsPlaced_any fields)

theorem paramOperands_composed (extent : Extent) (params : List (Param Expr)) :
    ∀ param ∈ paramOperands params, param.type.Composed extent (.naming vars) :=
  paramOperands_placed extent params (paramsPlaced_any params)

theorem specOperands_composed (extent : Extent) (specs : List (MethodSpec Expr)) :
    ∀ spec ∈ specOperands specs, spec.signature.All (Operand.Composed extent (.naming vars)) :=
  specOperands_placed extent specs (specsPlaced_any specs)

theorem compileNamedType_composed (extent : Extent) (e : Expr) (name : String) :
    Composed extent (.naming vars) (compileNamedType e name) :=
  compileNamedType_placed extent e.placed_any name

theorem compileSignature_composed (extent : Extent) (receiver : Option (Param Expr))
    (signature : Signature Expr) :
    Composed extent (.naming vars) (compileSignature receiver signature) :=
  compileSignature_placed extent (paramsPlaced_any _) (signaturePlaced_any signature)

end

namespace Composed

/-! ## Statements -/

theorem block {action : RoutineM Unit} (h : Composed .nested limits action) :
    Composed .nested limits (StmtRule.block action) :=
  .bind (.capture rfl (.inScope rfl h)) fun _ => .pure _

theorem optBlock (h : ∀ a ∈ action, Composed .nested limits a) :
    Composed .nested limits (StmtRule.optBlock action) := by
  cases action with
  | none => exact .pure _
  | some a => exact .map (.block (h a rfl))

theorem declare (name : String) {type : Operand} (span : Span) (hName : limits.vars name)
    (h : type.Composed .simple limits) (hSpan : limits.spans span) :
    Composed .simple limits (StmtRule.declare name type span) :=
  .bind (.type h) fun _ => .bind (.declareLocal _ _ _ rfl hName hSpan) fun _ => .bindName _ _ rfl

theorem jump (kind : JumpKind) (span : Span)
    (hSpan : limits.spans span) : Composed .nested limits (StmtRule.jump kind span) := by
  refine .bind .read fun env => ?_
  split
  · exact .emit _ (.inl rfl)
  · exact .error _ _ hSpan rfl

theorem loopTest (h : ∀ operand ∈ cond, operand.Composed .nested limits) :
    Composed .nested limits (StmtRule.loopTest cond) := by
  cases cond with
  | none => exact .pure _
  | some operand => exact .bind (.capture rfl (.value (h operand rfl))) fun _ => .pure _

/-- A part of a statement that may be missing. -/
theorem getD (h : ∀ a ∈ action, Composed .nested limits a) :
    Composed .nested limits (action.getD (Pure.pure ())) := by
  cases action with
  | none => exact .pure _
  | some a => exact h a rfl

theorem loop (hCond : ∀ operand ∈ cond, operand.Composed .nested limits)
    (hPost : ∀ a ∈ post, Composed .nested limits a) (hBody : Composed .nested limits body) :
    Composed .nested limits (StmtRule.loop cond post body) :=
  .bind .nextSerial fun _ => .bind (.loopTest hCond) fun _ =>
    .bind (.inLoop _ rfl (.block hBody)) fun _ => .bind (.capture rfl (.getD hPost)) fun _ =>
      .emit _ (.inl rfl)

theorem forLoop {init : Option (RoutineM Unit)} (hInit : ∀ a ∈ init, Composed .nested limits a)
    (hCond : ∀ operand ∈ cond, operand.Composed .nested limits)
    (hPost : ∀ a ∈ post, Composed .nested limits a) (hBody : Composed .nested limits body) :
    Composed .nested limits (StmtRule.forLoop init cond post body) :=
  .inScope rfl (.bind (.getD hInit) fun _ => .loop hCond hPost hBody)

theorem rangeLocal {name : Option String} (type : Ty) (span : Span) (h : ∀ x ∈ name, limits.vars x)
    (hSpan : limits.spans span) :
    Composed .simple limits (StmtRule.rangeLocal name type span) := by
  unfold StmtRule.rangeLocal
  split
  · exact .pure _
  · exact .pure _
  · exact .bind (.declareLocal _ _ _ rfl (h _ rfl) hSpan) fun _ =>
      .bind (.bindName _ _ rfl) fun _ => .pure _

theorem rangeElement (collection : Typed) (span : Span) (hSpan : limits.spans span) :
    Composed extent limits (StmtRule.rangeElement collection span) := by
  refine .bind (.types _) fun found => ?_
  split
  · exact .bind (.types _) fun _ => .pure _
  · refine .bind (.types _) fun _ => ?_
    split
    · exact .pure _
    · exact .error _ _ hSpan rfl

theorem rangeLoop {key value : Option String} {collection : Operand} (span : Span)
    (hKey : ∀ x ∈ key, limits.vars x) (hValue : ∀ x ∈ value, limits.vars x)
    (hCollection : collection.Composed .nested limits) (hBody : Composed .nested limits body)
    (hSpan : limits.spans span) :
    Composed .nested limits (StmtRule.rangeLoop key value collection body span) :=
  .inScope rfl <| .bind (.value hCollection) fun _ =>
    .bind (.rangeElement _ _ hCollection.span) fun _ =>
    .bind .nextSerial fun _ => .bind (.temp _ _ hSpan) fun _ => .bind (.temp _ _ hSpan) fun _ =>
      .bind (.temp _ _ hSpan) fun _ => .bind (.emit _ (.inl rfl)) fun _ =>
        .bind (.emit _ (.inl rfl)) fun _ =>
        .bind (.emit _ (.inl rfl)) fun _ => .bind (.nested (.rangeLocal _ _ hKey hSpan)) fun _ =>
          .bind (.nested (.rangeLocal _ _ hValue hSpan)) fun _ =>
            .bind (.inLoop _ rfl (.block hBody)) fun _ => .emit _ (.inl rfl)

theorem ifElse {cond : Operand} {thenBody : RoutineM Unit} {elseBody : Option (RoutineM Unit)}
    (hCond : cond.Composed .nested limits) (hThen : Composed .nested limits thenBody)
    (hElse : ∀ a ∈ elseBody, Composed .nested limits a) :
    Composed .nested limits (StmtRule.ifElse cond thenBody elseBody) :=
  .bind (.value hCond) fun _ => .bind (.block hThen) fun _ => .bind (.optBlock hElse) fun _ =>
    .emit _ (.inl rfl)

/-- All parts of the arms of a switch are composed. -/
def Arms (limits : Limits) (arms : List (List Operand × RoutineM Unit)) : Prop :=
  ∀ arm ∈ arms, (∀ operand ∈ arm.1, operand.Composed .nested limits) ∧ Composed .nested limits arm.2

theorem switchTests (h : ∀ arm ∈ arms, ∀ operand ∈ arm.1, operand.Composed extent limits) :
    Composed extent limits (StmtRule.switchTests arms) := by
  induction arms with
  | nil => exact .pure _
  | cons arm rest ih =>
      exact .bind (.values (h arm List.mem_cons_self)) fun _ =>
        .bind (ih fun a ha => h a (List.mem_cons_of_mem arm ha)) fun _ => .pure _

theorem switchArms (tests : List (List CExpr)) (h : Arms limits arms) :
    Composed .nested limits (StmtRule.switchArms tests arms) := by
  induction arms generalizing tests with
  | nil => cases tests <;> exact .pure _
  | cons arm rest ih =>
      cases tests with
      | nil => exact .pure _
      | cons first others =>
          exact .bind (.block (h arm List.mem_cons_self).2) fun _ =>
            .bind (ih others fun a ha => h a (List.mem_cons_of_mem arm ha)) fun _ => .pure _

theorem switch {subject : Option Operand} {fallback : Option (RoutineM Unit)}
    (hSubject : ∀ operand ∈ subject, operand.Composed .nested limits) (hArms : Arms limits arms)
    (hFallback : ∀ a ∈ fallback, Composed .nested limits a) :
    Composed .nested limits (StmtRule.switch subject arms fallback) := by
  have hRest (c : CExpr) : Composed .nested limits (do
      let tests ← StmtRule.switchTests arms
      let arms ← StmtRule.switchArms tests arms
      let fallback ← StmtRule.optBlock fallback
      RoutineM.emit (.switch c arms (fallback.getD []))) :=
    .bind (.switchTests fun arm hArm => (hArms arm hArm).1) fun _ =>
      .bind (.switchArms _ hArms) fun _ => .bind (.optBlock hFallback) fun _ => .emit _ (.inl rfl)
  unfold StmtRule.switch
  split
  · next operand =>
      exact .bind (.value (hSubject operand rfl)) fun _ => .bind (.pure _) fun _ => hRest _
  · exact .bind (.pure _) fun _ => hRest _

theorem setResults (func : FuncType Ty) (span : Span) (index : Nat) (outputs : List (Member Ty))
    (values : List Typed) (hSpan : limits.spans span) :
    Composed .simple limits (StmtRule.setResults func span index outputs values) := by
  induction outputs generalizing index values with
  | nil => exact .pure _
  | cons output rest ih =>
      cases values with
      | nil => exact .pure _
      | cons value others =>
          exact .bind (.convert _ _ _ _ hSpan) fun _ => .bind (.emit _ (.inr rfl)) fun _ => ih _ _

theorem returnThrough (func : FuncType Ty) (values : List Typed) (span : Span)
    (hSpan : limits.spans span) :
    Composed .simple limits (StmtRule.returnThrough func values span) :=
  .bind (.setResults _ _ _ _ _ hSpan) fun _ => .emit _ (.inr rfl)

theorem returnNothing (func : FuncType Ty) (span : Span) (hSpan : limits.spans span) :
    Composed .simple limits (StmtRule.returnNothing func span) := by
  refine .bind .read fun env => ?_
  split
  · exact .emit _ (.inr rfl)
  · exact .errorIf hSpan rfl (.emit _ (.inr rfl))

theorem returnOne (func : FuncType Ty) {value : Operand} (span : Span)
    (h : value.Composed .simple limits)
    (hSpan : limits.spans span) : Composed .simple limits (StmtRule.returnOne func value span) := by
  unfold StmtRule.returnOne
  split
  · exact .bind (.value h) fun _ => .bind (.convert _ _ _ _ hSpan) fun _ => .emit _ (.inr rfl)
  · refine .bind h.compile fun _ => .bind (.toExpr _ _ hSpan) fun _ =>
      .bind (.types _) fun found => ?_
    split
    · exact .errorIf hSpan rfl (.bind (.emit _ (.inr rfl)) fun _ => .returnThrough _ _ _ hSpan)
    · exact .error _ _ hSpan rfl

theorem ret {values : List Operand} (span : Span)
    (h : ∀ operand ∈ values, operand.Composed .simple limits) (hSpan : limits.spans span) :
    Composed .simple limits (StmtRule.ret values span) := by
  refine .bind .read fun env => ?_
  split
  · exact .error _ _ hSpan rfl
  · split
    · exact .returnNothing _ _ hSpan
    · next value => exact .returnOne _ _ (h value List.mem_cons_self) hSpan
    · exact .errorIf hSpan rfl (.bind (.values h) fun _ => .returnThrough _ _ _ hSpan)

theorem place (h : target.Composed .simple limits) :
    Composed .simple limits (StmtRule.place target) := by
  have hRest (assignable : Bool) : Composed .simple limits (do
      if !assignable then RoutineM.error target.span (.invalidTarget .notAssignable)
      target.value) := .errorIf h.span rfl (.value h)
  unfold StmtRule.place
  split
  · exact .bind (.isAssignable _) hRest
  · exact .bind (.pure _) hRest
  · exact .bind (.pure _) hRest
  · exact .bind (.pure _) hRest

theorem assignTo (value : Typed) (span : Span) (h : target.Composed .simple limits)
    (hSpan : limits.spans span) :
    Composed .simple limits (StmtRule.assignTo target value span) := by
  unfold StmtRule.assignTo
  split
  · exact .emit _ (.inr rfl)
  · exact .bind (.place h) fun _ => .bind (.convert _ _ _ _ hSpan) fun _ =>
      .bind (.types _) fun _ => .emit _ (.inr rfl)

theorem assignAll (span : Span) {values : List Operand}
    (hTargets : ∀ operand ∈ targets, operand.Composed .simple limits)
    (hValues : ∀ operand ∈ values, operand.Composed .simple limits) (hSpan : limits.spans span) :
    Composed .simple limits (StmtRule.assignAll span targets values) := by
  induction targets generalizing values with
  | nil => exact .pure _
  | cons target rest ih =>
      cases values with
      | nil => exact .pure _
      | cons value others =>
          exact .bind (.value (hValues value List.mem_cons_self)) fun _ =>
            .bind (.assignTo _ _ (hTargets target List.mem_cons_self) hSpan) fun _ =>
              ih (List.forall_mem_cons.mp hTargets).2 (List.forall_mem_cons.mp hValues).2

theorem defineTyped (value : Typed) (span : Span) (type : Ty) (h : limits.vars name)
    (hSpan : limits.spans span) :
    Composed .simple limits (StmtRule.defineTyped name value span type) := by
  refine .bind (.types _) fun isNil => .errorIf hSpan rfl ?_
  exact .bind (.declareLocal _ _ _ rfl h hSpan) fun _ => .bind (.convert _ _ _ _ hSpan) fun _ =>
    .bind (.types _) fun _ => .bind (.emit _ (.inr rfl)) fun _ => .bindName _ _ rfl

theorem defineOne (value : Typed) (span : Span) (h : limits.vars name) (hSpan : limits.spans span) :
    Composed .simple limits (StmtRule.defineOne name value span) := by
  unfold StmtRule.defineOne
  split
  · exact .emit _ (.inr rfl)
  · refine .bind (.types _) fun isConst => ?_
    split
    · exact .bind (.pure _) fun _ => .defineTyped _ _ _ h hSpan
    · exact .bind (.pure _) fun _ => .defineTyped _ _ _ h hSpan

theorem defineAll (span : Span) {names : List String} (values : List Typed)
    (h : ∀ name ∈ names, limits.vars name)
    (hSpan : limits.spans span) :
    Composed .simple limits (StmtRule.defineAll span names values) := by
  induction names generalizing values with
  | nil => exact .pure _
  | cons name rest ih =>
      cases values with
      | nil => exact .pure _
      | cons value others =>
          exact .bind (.defineOne _ _ (h name List.mem_cons_self) hSpan) fun _ =>
            ih others (List.forall_mem_cons.mp h).2

/-- The names on the left of a definition, or an error if not all of it are names. -/
theorem definedNames_eq (targets : List Operand) :
    StmtRule.definedNames targets = Pure.pure (targets.filterMap (·.source.ident?)) ∨
      ∃ target ∈ targets, ∃ problem : Problem, problem.previous? = none ∧
        StmtRule.definedNames targets = RoutineM.error target.span problem := by
  induction targets with
  | nil => exact .inl rfl
  | cons target rest ih =>
      unfold StmtRule.definedNames
      cases hName : target.source.ident? with
      | none => exact .inr ⟨target, List.mem_cons_self, _, rfl, rfl⟩
      | some name =>
          rcases ih with ih | ⟨other, hOther, problem, hProblem, ih⟩
          · rw [ih, List.filterMap_cons, hName]
            exact .inl rfl
          · rw [ih]
            exact .inr ⟨other, List.mem_cons_of_mem target hOther, problem, hProblem, rfl⟩

theorem assignEach (results : List Typed) (span : Span)
    (h : ∀ operand ∈ targets, operand.Composed .simple limits) (hSpan : limits.spans span) :
    Composed .simple limits (StmtRule.assignResults.assignEach span targets results) := by
  induction targets generalizing results with
  | nil => exact .pure _
  | cons target rest ih =>
      cases results with
      | nil => exact .pure _
      | cons result others =>
          exact .bind (.assignTo _ _ (h target List.mem_cons_self) hSpan) fun _ =>
            ih others (List.forall_mem_cons.mp h).2

theorem assignResults (results : List Typed) (span : Span)
    (hNames : ∀ xs ∈ names, ∀ x ∈ xs, limits.vars x)
    (h : ∀ operand ∈ targets, operand.Composed .simple limits) (hSpan : limits.spans span) :
    Composed .simple limits (StmtRule.assignResults targets names results span) := by
  cases names with
  | none => exact .assignEach _ _ h hSpan
  | some names => exact .defineAll _ _ (hNames names rfl) hSpan

theorem assignCalled {call : Operand} (span : Span)
    (hTargets : ∀ operand ∈ targets, operand.Composed .simple limits)
    (hCall : call.Composed .simple limits) (hNames : ∀ xs ∈ names, ∀ x ∈ xs, limits.vars x)
    (hSpan : limits.spans span) :
    Composed .simple limits (StmtRule.assignCalled targets call names span) := by
  refine .bind hCall.compile fun _ => .bind (.toExpr _ _ hSpan) fun _ =>
    .bind (.types _) fun found => ?_
  split
  · exact .errorIf hSpan rfl (.bind (.emit _ (.inr rfl)) fun _ =>
      .assignResults _ _ hNames hTargets hSpan)
  · dsimp only
    split
    · exact .bind (.types _) fun _ => .error _ _ hSpan rfl
    · exact .bind (.pure _) fun _ => .error _ _ hSpan rfl

theorem assignFromCall {call : Operand} (span : Span)
    (hNames : define = true → ∀ x ∈ targets.filterMap (·.source.ident?), limits.vars x)
    (hTargets : ∀ operand ∈ targets, operand.Composed .simple limits)
    (hCall : call.Composed .simple limits) (hSpan : limits.spans span) :
    Composed .simple limits (StmtRule.assignFromCall targets call define span) := by
  unfold StmtRule.assignFromCall
  dsimp only
  split
  · next hDefine =>
      rcases definedNames_eq targets with hEq | ⟨target, hMem, problem, hProblem, hEq⟩
      · rw [hEq, map_pure, pure_bind]
        refine .assignCalled span hTargets hCall (fun xs hxs => ?_) hSpan
        rw [Option.mem_some_iff] at hxs
        exact hxs ▸ hNames hDefine
      · rw [hEq, map_eq_pure_bind, bind_assoc]
        -- Nothing is declared after an error, whatever the names would have been.
        exact .bind_error _ _ _ (hTargets target hMem).span hProblem
  · rw [pure_bind]
    exact .assignCalled span hTargets hCall (by simp) hSpan

theorem setOrDefine {values : List Operand} (span : Span)
    (hNames : define = true → ∀ x ∈ targets.filterMap (·.source.ident?), limits.vars x)
    (hTargets : ∀ operand ∈ targets, operand.Composed .simple limits)
    (hValues : ∀ operand ∈ values, operand.Composed .simple limits) (hSpan : limits.spans span) :
    Composed .simple limits (StmtRule.setOrDefine define targets values span) := by
  have hRest : Composed .simple limits (if define then do
        let names ← StmtRule.definedNames targets
        let values ← Operand.values values
        StmtRule.defineAll span names values
      else StmtRule.assignAll span targets values) := by
    split
    · next hDefine =>
        rcases definedNames_eq targets with hEq | ⟨target, hMem, problem, hProblem, hEq⟩
        · rw [hEq, pure_bind]
          exact .bind (.values hValues) fun _ => .defineAll _ _ (hNames hDefine) hSpan
        · rw [hEq]
          exact .bind_error _ _ _ (hTargets target hMem).span hProblem
    · exact .assignAll span hTargets hValues hSpan
  unfold StmtRule.setOrDefine
  split
  · exact .assignFromCall _ hNames hTargets (hValues _ List.mem_cons_self) hSpan
  · exact .errorIf hSpan rfl hRest

theorem stepTarget (span : Span) (h : ∀ operand ∈ targets, operand.Composed .simple limits)
    (hSpan : limits.spans span) : Composed .simple limits (StmtRule.stepTarget targets span) := by
  unfold StmtRule.stepTarget
  split
  · exact .bind (.place (h _ List.mem_cons_self)) fun _ => .pure _
  · exact .error _ _ hSpan rfl

theorem assign {op : AssignOp} {values : List Operand} (span : Span)
    (hNames : op = .define → ∀ x ∈ targets.filterMap (·.source.ident?), limits.vars x)
    (hTargets : ∀ operand ∈ targets, operand.Composed .simple limits)
    (hValues : ∀ operand ∈ values, operand.Composed .simple limits) (hSpan : limits.spans span) :
    Composed .simple limits (StmtRule.assign op targets values span) := by
  cases op with
  | inc => exact .bind (.stepTarget span hTargets hSpan) fun _ => .emit _ (.inr rfl)
  | dec => exact .bind (.stepTarget span hTargets hSpan) fun _ => .emit _ (.inr rfl)
  | lone =>
      unfold StmtRule.assign
      dsimp only
      split
      · have hCall := hValues _ List.mem_cons_self
        exact .errorIf hSpan rfl (.bind hCall.compile fun _ => .bind (.toExpr _ _ hSpan) fun _ =>
          .emit _ (.inr rfl))
      · exact .error _ _ hSpan rfl
  | compound bin =>
      unfold StmtRule.assign
      dsimp only
      split
      · exact .bind (.place (hTargets _ List.mem_cons_self)) fun _ =>
          .bind (.value (hValues _ List.mem_cons_self)) fun _ => .emit _ (.inr rfl)
      · exact .error _ _ hSpan rfl
  | set => exact .setOrDefine _ (by simp) hTargets hValues hSpan
  | define => exact .setOrDefine _ (fun _ => hNames rfl) hTargets hValues hSpan

end Composed

theorem ident_operands (es : List Expr) :
    (operands es).filterMap (·.source.ident?) = es.filterMap (·.ident?) := by
  induction es with
  | nil => rw [operands]; rfl
  | cons e rest ih => rw [operands, List.filterMap_cons, List.filterMap_cons, ih]

mutual

/-- The compilation of a statement is put together from basic actions. It declares no other
variables than the statement and finds fault with the places of the statement only. -/
theorem compileStmt_placed : (s : Stmt) → (∀ x ∈ s.variables, limits.vars x) →
    s.Placed limits.spans → Composed .nested limits (compileStmt s)
  | .assign span op targets values, h, hPlaced => by
      rw [Stmt.Placed] at hPlaced
      rw [compileStmt]
      refine .nested (.assign span ?_ (operands_placed .simple targets hPlaced.2.1)
        (operands_placed .simple values hPlaced.2.2) hPlaced.1)
      rintro rfl
      rw [Stmt.variables] at h
      rw [ident_operands]
      exact h
  | .var span name type, h, hPlaced => by
      rw [Stmt.Placed] at hPlaced
      rw [compileStmt]
      rw [Stmt.variables] at h
      exact .nested (.declare name span (h name List.mem_cons_self)
        (operand_placed .simple hPlaced.2) hPlaced.1)
  | .ret span values, _, hPlaced => by
      rw [Stmt.Placed] at hPlaced
      rw [compileStmt]
      exact .nested (.ret span (operands_placed .simple values hPlaced.2) hPlaced.1)
  | .breakLoop span _, _, hPlaced => by
      rw [Stmt.Placed] at hPlaced
      rw [compileStmt]
      exact .jump _ span hPlaced
  | .continueLoop span _, _, hPlaced => by
      rw [Stmt.Placed] at hPlaced
      rw [compileStmt]
      exact .jump _ span hPlaced
  | .whileLoop _ cond body, h, hPlaced => by
      rw [Stmt.Placed] at hPlaced
      rw [compileStmt]
      rw [Stmt.variables] at h
      exact .loop (optOperand_placed .nested cond hPlaced.2.1) (by simp)
        (compileStmts_placed body h hPlaced.2.2)
  | .forLoop _ init cond post body, h, hPlaced => by
      rw [Stmt.Placed] at hPlaced
      rw [compileStmt]
      simp only [Stmt.variables, List.forall_mem_append] at h
      exact .forLoop (compileOptStmt_placed init h.1.1 hPlaced.2.1)
        (optOperand_placed .nested cond hPlaced.2.2.1)
        (compileOptStmt_placed post h.1.2 hPlaced.2.2.2.1)
        (compileStmts_placed body h.2 hPlaced.2.2.2.2)
  | .rangeLoop span key value collection body, h, hPlaced => by
      rw [Stmt.Placed] at hPlaced
      rw [compileStmt]
      simp only [Stmt.variables, List.forall_mem_append, Option.mem_toList] at h
      exact .rangeLoop span h.1.1 h.1.2 (operand_placed .nested hPlaced.2.1)
        (compileStmts_placed body h.2 hPlaced.2.2) hPlaced.1
  | .ifElse _ cond thenBody elseBody, h, hPlaced => by
      rw [Stmt.Placed] at hPlaced
      rw [compileStmt]
      simp only [Stmt.variables, List.forall_mem_append] at h
      exact .ifElse (operand_placed .nested hPlaced.2.1)
        (compileStmts_placed thenBody h.1 hPlaced.2.2.1)
        (compileOptStmts_placed elseBody h.2 hPlaced.2.2.2)
  | .switch _ subject cases fallback, h, hPlaced => by
      rw [Stmt.Placed] at hPlaced
      rw [compileStmt]
      simp only [Stmt.variables, List.forall_mem_append] at h
      exact .switch (optOperand_placed .nested subject hPlaced.2.1)
        (compileCases_placed cases h.1 hPlaced.2.2.1)
        (compileOptStmts_placed fallback h.2 hPlaced.2.2.2)
  | .block _ body, h, hPlaced => by
      rw [Stmt.Placed] at hPlaced
      rw [compileStmt]
      rw [Stmt.variables] at h
      exact .bind (.block (compileStmts_placed body h hPlaced.2)) fun _ => .emit _ (.inl rfl)

theorem compileStmts_placed : (stmts : List Stmt) → (∀ x ∈ variablesOf stmts, limits.vars x) →
    StmtsPlaced limits.spans stmts → Composed .nested limits (compileStmts stmts)
  | [], _, _ => by rw [compileStmts]; exact .pure _
  | stmt :: rest, h, hPlaced => by
      rw [StmtsPlaced] at hPlaced
      rw [compileStmts]
      simp only [variablesOf, List.forall_mem_append] at h
      exact .bind (compileStmt_placed stmt h.1 hPlaced.1) fun _ =>
        compileStmts_placed rest h.2 hPlaced.2

theorem compileOptStmt_placed : (stmt : Option Stmt) → (∀ x ∈ optVariables stmt, limits.vars x) →
    OptStmtPlaced limits.spans stmt →
    ∀ action ∈ compileOptStmt stmt, Composed .nested limits action
  | none, _, _ => by simp [compileOptStmt]
  | some stmt, h, hPlaced => by
      rw [OptStmtPlaced] at hPlaced
      rw [optVariables] at h
      rw [compileOptStmt]
      rintro action ⟨⟩
      exact compileStmt_placed stmt h hPlaced

theorem compileOptStmts_placed : (body : Option (List Stmt)) →
    (∀ x ∈ optVariablesOf body, limits.vars x) → OptStmtsPlaced limits.spans body →
    ∀ action ∈ compileOptStmts body, Composed .nested limits action
  | none, _, _ => by simp [compileOptStmts]
  | some body, h, hPlaced => by
      rw [OptStmtsPlaced] at hPlaced
      rw [optVariablesOf] at h
      rw [compileOptStmts]
      rintro action ⟨⟩
      exact compileStmts_placed body h hPlaced

theorem compileCases_placed : (cases : List (SwitchCase Stmt)) →
    (∀ x ∈ caseVariables cases, limits.vars x) → CasesPlaced limits.spans cases →
    Composed.Arms limits (compileCases cases)
  | [], _, _ => by simp [compileCases, Composed.Arms]
  | ⟨tests, body, _⟩ :: rest, h, hPlaced => by
      rw [CasesPlaced] at hPlaced
      simp only [caseVariables, List.forall_mem_append] at h
      rw [compileCases, compileCase, Composed.Arms, List.forall_mem_cons]
      exact ⟨⟨operands_placed .nested tests hPlaced.1.2.1,
        compileStmts_placed body h.1 hPlaced.1.2.2⟩, compileCases_placed rest h.2 hPlaced.2⟩

end

theorem compileStmt_composed (s : Stmt) (h : ∀ x ∈ s.variables, vars x) :
    Composed .nested (.naming vars) (compileStmt s) :=
  compileStmt_placed s h s.placed_any

theorem compileStmts_composed (stmts : List Stmt) (h : ∀ x ∈ variablesOf stmts, vars x) :
    Composed .nested (.naming vars) (compileStmts stmts) :=
  compileStmts_placed stmts h (stmtsPlaced_any stmts)

theorem bindInputs_composed (func : FuncType Ty) (index : Nat) (inputs : List (Member Ty)) :
    Composed .simple limits (bindInputs func index inputs) := by
  induction inputs generalizing index with
  | nil => exact .pure _
  | cons input rest ih =>
      unfold bindInputs
      dsimp only
      split
      · exact .bind (.bindName _ _ rfl) fun _ => ih _
      · exact ih _

theorem bindOutputs_composed (func : FuncType Ty) (index : Nat) (outputs : List (Member Ty)) :
    Composed .simple limits (bindOutputs func index outputs) := by
  induction outputs generalizing index with
  | nil => exact .pure _
  | cons output rest ih =>
      unfold bindOutputs
      dsimp only
      split
      · exact .bind (.bindName _ _ rfl) fun _ => ih _
      · exact ih _

theorem enterFunc_composed (func : FuncType Ty) (span : Span)
    (h : ∀ output, func.outputs = [output] → limits.vars output.name) (hSpan : limits.spans span) :
    Composed .simple limits (enterFunc func span) := by
  refine .bind (bindInputs_composed _ _ _) fun _ => ?_
  split
  · next output hOutputs =>
      split
      · exact .bind (.declareLocal _ _ _ rfl (h output hOutputs) hSpan) fun _ =>
          .bind (.bindName _ _ rfl) fun _ => .pure _
      · exact .pure _
  · exact .bind (bindOutputs_composed _ _ _) fun _ => .pure _

end GoToC
