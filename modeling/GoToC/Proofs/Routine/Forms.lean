import Mathlib.Data.List.Forall2
import GoToC.Proofs.Routine.Yields

/-!
# What forms come to

What calls, conversions, lengths and the forms that are written ahead come to. What is known of the
fragments of operands is left open.
-/

namespace GoToC

theorem operands_eq_map (es : List Expr) : operands es = es.map operand := by
  induction es with
  | nil => rfl
  | cons e rest ih => rw [operands, ih, List.map_cons, operand]

/-- The temporary that holds what was written ahead. -/
def Value.IsTemp (value : Value) : Prop :=
  ∃ serial type, value = .expr ⟨.localVar (RoutineM.tempName serial), type⟩

/-- A fragment that an argument is passed as: that of the argument, converted to the type that is
wanted. -/
def CExpr.PassedFor (good : Expr → Typed → Prop) (arg : Expr) (c : CExpr) : Prop :=
  ∃ found, good arg found ∧ ∃ conversion : Conversion, c = conversion.apply found.c

/-- What a call passes for the arguments that are left over: nothing if none are, or the slice that
they are collected in. -/
inductive CExpr.Packs (spread : Bool) : List Expr → List CExpr → Prop
  | nothing : Packs spread [] []
  | slice {rest serial} : spread = false →
      Packs spread rest [.localVar (RoutineM.tempName serial)]

/-- The address of a temporary for one of several results. -/
def CExpr.IsResult (c : CExpr) : Prop :=
  ∃ serial index, c = .addressOf (RoutineM.multiName serial index)

theorem composed_of_mem_operands {es : List Expr} {found : Operand} (h : found ∈ es.map operand) :
    found.Composed .expr .any := by
  obtain ⟨e, -, rfl⟩ := List.mem_map.mp h
  exact operand_composed .expr e

namespace Yields

variable {env : Env} {scopes : List Scope} {good : Expr → Typed → Prop} {args : List Expr}

/-! ## Calls -/

/-- Where nothing is collected there is an argument for every input. -/
theorem checkCount (variadic spread : Bool) (given inputs : Nat) (span : Span) :
    Yields env scopes False (Call.checkCount variadic spread given inputs span) fun _ =>
      (variadic && !spread) = false → given = inputs := by
  have hCount : Yields env scopes False (if variadic && !spread then
      (if given < inputs - 1 then RoutineM.error span (.argCount (.count given (inputs - 1) true))
        else Pure.pure ())
    else (if given ≠ inputs then RoutineM.error span (.argCount (.count given inputs false))
        else Pure.pure ()) : RoutineM Unit) fun _ =>
      (variadic && !spread) = false → given = inputs := by
    split
    · next hCollects =>
        split
        · exact .error _ _
        · exact .pure fun h => absurd (hCollects.symm.trans h) (by decide)
    · split
      · exact .error _ _
      · next hSame => exact .pure fun _ => Decidable.not_not.mp hSame
  unfold Call.checkCount
  dsimp only
  split
  · exact .bind (.error _ _) fun _ (_ : True) => hCount
  · exact hCount

theorem fixedArgs (number : Nat) {inputs : List (Member Ty)} (hLength : args.length ≤ inputs.length)
    (h : ∀ arg ∈ args, Yields env scopes False (operand arg).value (good arg)) :
    Yields env scopes False (Call.fixedArgs number (args.map operand) inputs) fun passed =>
      List.Forall₂ (CExpr.PassedFor good) args passed := by
  induction args generalizing number inputs with
  | nil => exact .pure .nil
  | cons arg rest ih =>
      cases inputs with
      | nil => simp at hLength
      | cons input inputs =>
          refine .bind (h arg List.mem_cons_self) fun found hFound =>
            .bind (.conversion _ _ _ _) fun c hc =>
              .bind (ih _ (Nat.le_of_succ_le_succ hLength)
                fun a ha => h a (List.mem_cons_of_mem arg ha)) fun others hOthers => ?_
          exact .pure (.cons ⟨found, hFound, hc⟩ hOthers)

/-- The slice that arguments are collected in is a temporary. -/
theorem packVariadic (type : Ty) (args : List Expr) (span : Span) :
    Yields env scopes False (Call.packVariadic type (args.map operand) span) fun c =>
      ∃ serial, c = .localVar (RoutineM.tempName serial) := by
  refine .bind (.types _) fun elem _ => ?_
  split
  · exact .fail _
  · next elem _ =>
      refine .bind (.temp _ _) fun slice hSlice => .bind (.emit _ id) fun _ _ => ?_
      have hItems : Composed .expr .any
          (Call.appendItems slice elem "in variadic argument" span (args.map operand)) :=
        .appendItems _ _ _ _ (fun _ => composed_of_mem_operands) trivial
      refine .bind (hItems.yields env scopes) fun _ _ => .pure ?_
      obtain ⟨serial, rfl⟩ := hSlice
      exact ⟨serial, rfl⟩

/-- What a call of a C function comes to: its name with the arguments that it is passed. -/
theorem apply (callee : CExpr) (func : FuncType Ty) (leading : List CExpr)
    (inputs : List (Member Ty)) (spread : Bool) (span : Span)
    (h : ∀ arg ∈ args, Yields env scopes False (operand arg).value (good arg)) :
    Yields env scopes False
      (Call.apply callee func leading inputs (args.map operand) spread span) fun value =>
        ∃ passed rest cs packed results type, args = passed ++ rest ∧
          List.Forall₂ (CExpr.PassedFor good) passed cs ∧ CExpr.Packs spread rest packed ∧
          (∀ result ∈ results, CExpr.IsResult result) ∧
          value = .expr ⟨.call callee (leading ++ cs ++ packed ++ results), type⟩ := by
  refine .bind (checkCount _ _ _ _ _) fun _ hCount => ?_
  dsimp only
  rw [List.length_map] at hCount
  -- However many arguments go to inputs one by one, there are inputs for all of them.
  have hPassed (fixed : Nat) (hFixed : fixed ≤ inputs.length) :
      Yields env scopes False (Call.fixedArgs 1 ((args.map operand).take fixed) inputs)
        fun passed => List.Forall₂ (CExpr.PassedFor good) (args.take fixed) passed := by
    rw [← List.map_take]
    refine fixedArgs 1 ?_ fun arg hArg => h arg (List.mem_of_mem_take hArg)
    rw [List.length_take]
    omega
  have hResults (passed packed : List CExpr) (rest : List Expr) (fixed : Nat)
      (hArgs : args = args.take fixed ++ rest)
      (hMade : List.Forall₂ (CExpr.PassedFor good) (args.take fixed) passed)
      (hPacks : CExpr.Packs spread rest packed) :
      Yields env scopes False
        (Call.called callee (leading ++ passed ++ packed) func.outputs span) fun value =>
          ∃ passed rest cs packed results type, args = passed ++ rest ∧
            List.Forall₂ (CExpr.PassedFor good) passed cs ∧ CExpr.Packs spread rest packed ∧
            (∀ result ∈ results, CExpr.IsResult result) ∧
            value = .expr ⟨.call callee (leading ++ cs ++ packed ++ results), type⟩ :=
    .bind (.results _ _) fun found hFound =>
      .pure ⟨_, rest, passed, packed, found.1, _, hArgs, hMade, hPacks, hFound, rfl⟩
  cases hCollects : func.variadic && !spread with
  | false =>
      refine .bind (hPassed _ (Nat.le_refl _)) fun passed hMade => ?_
      refine hResults passed [] [] _ ?_ hMade .nothing
      rw [← hCount hCollects, if_neg (by decide), List.take_length, List.append_nil]
  | true =>
      refine .bind (hPassed _ (Nat.sub_le _ _)) fun passed hMade => ?_
      rw [if_pos rfl, ← List.map_drop]
      split
      · refine .bind (packVariadic _ _ _) fun slice hSlice => ?_
        have hSpread : spread = false := by
          simpa using (Bool.and_eq_true_iff.mp hCollects).2
        obtain ⟨serial, rfl⟩ := hSlice
        exact hResults passed [_] _ _ (List.take_append_drop _ _).symm hMade (.slice hSpread)
      · exact .bind (.fail _) fun _ (h : False) => h.elim

/-- What a conversion comes to: a conversion of the fragment of its one argument. -/
theorem converts (denoted : Ty) (span : Span)
    (h : ∀ arg ∈ args, Yields env scopes False (operand arg).value (good arg)) :
    Yields env scopes False (Call.conversion denoted (args.map operand) span) fun value =>
      ∃ arg c, args = [arg] ∧ CExpr.PassedFor good arg c ∧ value = .expr ⟨c, denoted⟩ := by
  rcases args with _ | ⟨arg, _ | ⟨other, rest⟩⟩
  · exact .error _ _
  · refine .bind (h arg List.mem_cons_self) fun value hValue => ?_
    have hFound (found : Option Conversion) :
        Yields env scopes False (Call.converted denoted value span found) fun made =>
          ∃ only c, [arg] = [only] ∧ CExpr.PassedFor good only c ∧ made = .expr ⟨c, denoted⟩ := by
      cases found with
      | some conversion => exact .pure ⟨arg, _, rfl, ⟨value, hValue, conversion, rfl⟩, rfl⟩
      | none => exact .error _ _
    have hConvert (convertible : Bool) :
        Yields env scopes False (Call.attempted denoted value span convertible) fun made =>
          ∃ only c, [arg] = [only] ∧ CExpr.PassedFor good only c ∧ made = .expr ⟨c, denoted⟩ := by
      cases convertible with
      | true => exact .bind (.types _) fun found _ => hFound found
      | false => exact .bind (.asked (.pure none)) fun found _ => hFound found
    refine .bind (.types _) fun _ _ => ?_
    split
    · exact .bind (.asked (.pure _)) fun found _ => hConvert found
    · refine .bind (.types _) fun _ _ => ?_
      split
      · exact .bind (.asked (.pure _)) fun found _ => hConvert found
      · refine .bind (.types _) fun _ _ => ?_
        split
        · exact .bind (.asked (.pure _)) fun found _ => hConvert found
        · exact .bind (.types _) fun _ _ => .bind (.asked (.pure _)) fun found _ => hConvert found
  · exact .error _ _

/-- What a length comes to: a count of what the fragment of its one argument holds. -/
theorem counts (spread : Bool) (span : Span)
    (h : ∀ arg ∈ args, Yields env scopes False (operand arg).value (good arg)) :
    Yields env scopes False (Call.lengthOf (args.map operand) spread span) fun value =>
      ∃ arg found, args = [arg] ∧ good arg found ∧ (value = .expr ⟨.byteCount found.c, .prim .int⟩ ∨
        ∃ elem, value = .expr ⟨.elementCount found.c elem, .prim .int⟩) := by
  rcases args with _ | ⟨arg, _ | ⟨other, rest⟩⟩
  · exact .error _ _
  · have hRest : Yields env scopes False (Call.lengthOf [operand arg] false span) fun value =>
        ∃ only found, [arg] = [only] ∧ good only found ∧
          (value = .expr ⟨.byteCount found.c, .prim .int⟩ ∨
            ∃ elem, value = .expr ⟨.elementCount found.c elem, .prim .int⟩) := by
      refine .bind (h arg List.mem_cons_self) fun value hValue =>
        .bind (.types _) fun isString _ => ?_
      split
      · exact .pure ⟨arg, value, rfl, hValue, .inl rfl⟩
      · refine .bind (.types _) fun found _ => ?_
        split
        · exact .bind (.types _) fun elem _ => .pure ⟨arg, value, rfl, hValue, .inr ⟨elem, rfl⟩⟩
        · exact .error _ _
    cases spread with
    | true => exact .bind (.error _ _) fun _ (_ : True) => hRest
    | false => exact hRest
  · exact .error _ _

/-- A member of a module is what it stands for there. -/
theorem moduleMember (id : ModuleId) (member : String) (span : Span) :
    Yields env scopes False (ExprRule.moduleMember id member span) fun value =>
      env.program.globalValue? id member = some value := by
  refine .bind .read fun found hFound => ?_
  rw [hFound]
  dsimp only
  split
  · exact .error _ _
  · next value hValue =>
      split
      · exact .bind (.asked (RoutineM.Idle.requireResolved _ _).asks) fun _ _ => .pure hValue
      · exact .pure hValue

/-! ## What is written ahead -/

/-- What `append` makes is a temporary. -/
theorem appended (args : List Expr) (spread : Bool) (span : Span) :
    Yields env scopes False (Call.appended (args.map operand) spread span) Value.IsTemp := by
  cases args with
  | nil => exact .error _ _
  | cons first items =>
      have hFirst : Composed .expr .any (operand first).value := value_composed .expr first
      have hTemp (result : String) (type : Ty) (h : ∃ serial, result = RoutineM.tempName serial) :
          Value.IsTemp (.expr ⟨.localVar result, type⟩) := by
        obtain ⟨serial, rfl⟩ := h
        exact ⟨serial, type, rfl⟩
      refine .bind (hFirst.yields env scopes) fun slice _ => .bind (.types _) fun found _ => ?_
      split
      · exact .error _ _
      · refine .bind (.temp _ _) fun result hResult => .bind (.emit _ id) fun _ _ => ?_
        split
        · split
          · next other hItems =>
              have hOther := composed_of_mem_operands
                (show other ∈ items.map operand from hItems ▸ List.mem_cons_self)
              have hSpread (elem : Ty) : Composed .expr .any
                  (Call.appendSpread result slice.type elem other span) :=
                .appendSpread _ _ _ _ hOther trivial
              exact .bind ((hSpread _).yields env scopes) fun _ _ =>
                .pure (hTemp result _ hResult)
          · exact .bind (.error _ _) fun _ (_ : True) => .pure (hTemp result _ hResult)
        · have hItems (elem : Ty) : Composed .expr .any (Call.appendItems result elem
              "in argument to `append`" span (items.map operand)) :=
            .appendItems _ _ _ _ (fun _ => composed_of_mem_operands) trivial
          exact .bind ((hItems _).yields env scopes) fun _ _ => .pure (hTemp result _ hResult)

/-- A part of a string or slice is a temporary. -/
theorem slice (span : Span) (receiver : Expr) (lo hi : Option Expr) : Yields env scopes False
      (ExprRule.slice ⟨receiver, compileExpr receiver⟩ (optOperand lo) (optOperand hi) span)
      Value.IsTemp := by
  have hReceiver : Composed .expr .any (operand receiver).value :=
    value_composed .expr receiver
  have hBound (bound : Option Expr) :
      Composed .expr .any (ExprRule.optSliceBound (optOperand bound)) :=
    .optSliceBound (optOperand_composed .expr bound)
  have hElement (container : Typed) :
      Composed .expr .any (ExprRule.slicedElement container span) := .slicedElement _ _ trivial
  refine .bind (hReceiver.yields env scopes) fun container _ =>
    .bind ((hElement container).yields env scopes) fun elem _ =>
      .bind (.temp _ _) fun copy hCopy => .bind (.emit _ id) fun _ _ =>
        .bind ((hBound lo).yields env scopes) fun lo' _ =>
          .bind ((hBound hi).yields env scopes) fun hi' _ => ?_
  have hTemp : Value.IsTemp (.expr ⟨.localVar copy, container.type⟩) := by
    obtain ⟨serial, rfl⟩ := hCopy
    exact ⟨serial, _, rfl⟩
  dsimp only
  split
  · exact .bind (.emit _ id) fun _ _ => .pure hTemp
  · exact .pure hTemp

theorem composed_type (e : Expr) : Composed .expr .any (operand e).type :=
  type_composed .expr e

/-- A new struct is a temporary. -/
theorem ctor (span : Span) (type : Expr) (fields : List (FieldInit Expr)) :
    Yields env scopes False (ExprRule.ctor ⟨type, compileExpr type⟩ (initOperands fields) span)
      Value.IsTemp := by
  refine .bind ((composed_type type).yields env scopes) fun structType _ =>
    .bind (.types _) fun found _ => ?_
  split
  · exact .error _ _
  · next record _ =>
      refine .bind (.temp _ _) fun handle hHandle => .bind (.emit _ id) fun _ _ => ?_
      have hFields : Composed .expr .any
          (ExprRule.initFields handle record (initOperands fields)) :=
        .initFields _ _ (initOperands_composed .expr fields)
      refine .bind (hFields.yields env scopes) fun _ _ => .pure ?_
      obtain ⟨serial, rfl⟩ := hHandle
      exact ⟨serial, _, rfl⟩

end Yields

end GoToC
