import GoToC.Proofs.Routine.Calls
import GoToC.Proofs.Routine.Scoped

/-!
# Names in expressions

An expression uses its identifiers in the order of the walk through its tree, each with the
declarations that are visible where it stands, and declares nothing. The name of a function that
is compiled in place is not looked up.
-/

namespace GoToC

variable {args : List Operand} {receiver : Operand}

/-- The number of arguments is right if it is not rejected. -/
theorem Call.countFits_of_gives {variadic spread : Bool} {given inputs : Nat} {span : Span}
    {value : Unit} (h : (checkCount variadic spread given inputs span).Gives value) :
    CountFits variadic spread given inputs := by
  obtain ⟨env, routine, after, hRun⟩ := h
  obtain ⟨cause, hExec⟩ := checkCount_exec variadic spread given inputs span env routine
  by_contra hRejected
  rw [if_neg hRejected, hRun] at hExec
  cases hExec

theorem operands_source (es : List Expr) : (operands es).map (·.source) = es := by
  induction es with
  | nil => rw [operands]; rfl
  | cons e rest ih => rw [operands, List.map_cons, ih]

theorem optOperand_source (e : Option Expr) : (optOperand e).map (·.source) = e := by
  cases e <;> rw [optOperand] <;> rfl

section

variable {env : Env} {find : Finder} {outlook : Outlook}

namespace Scoped

/-! ## Operands -/

/-- An operand that uses the names of its expression, wherever it stands. -/
abbrev OfOperand (env : Env) (find : Finder) (operand : Operand) : Prop :=
  ∀ outlook, Uses env find outlook operand.compile (operand.via find).compile
    (operand.source.namings env.hides outlook.visible)

theorem value {operand : Operand} (h : OfOperand env find operand) :
    Uses env find outlook operand.value
      (operand.via find).value (operand.source.namings env.hides outlook.visible) :=
  .close (h outlook) fun _ _ => .of_idle (.toSingle _ _)

theorem values {operands : List Operand} (h : ∀ operand ∈ operands, OfOperand env find operand) :
    Uses env find outlook (Operand.values operands) (Operand.values (operands.map (·.via find)))
      (namingsAll env.hides outlook.visible (operands.map (·.source))) := by
  induction operands with
  | nil => exact .blind (.pure _)
  | cons operand rest ih =>
      rw [List.map_cons, List.map_cons, namingsAll]
      exact .follow (.value (h operand List.mem_cons_self)) fun _ _ =>
        .close (ih fun o ho => h o (List.mem_cons_of_mem operand ho)) fun _ _ => .pure _

theorem type {operand : Operand} (h : OfOperand env find operand) :
    Uses env find outlook operand.type
      (operand.via find).type (operand.source.namings env.hides outlook.visible) := by
  refine .close (h outlook) fun found _ => ?_
  split
  · exact .pure _
  · exact .error _ _

/-! ## Calls -/

theorem appendItems (slice : String) (elem : Ty) (context : String) (span : Span)
    {operands : List Operand} (h : ∀ operand ∈ operands, OfOperand env find operand) :
    Uses env find outlook (Call.appendItems slice elem context span operands)
      (Call.appendItems slice elem context span (operands.map (·.via find)))
      (namingsAll env.hides outlook.visible (operands.map (·.source))) := by
  induction operands with
  | nil => exact .blind (.pure _)
  | cons operand rest ih =>
      rw [List.map_cons, List.map_cons, namingsAll]
      exact .follow (.value (h operand List.mem_cons_self)) fun _ _ =>
        .skip (.of_idle (.convert _ _ _ _)) fun _ _ => .skip (.temp _ _) fun _ _ =>
          .skip (.emit _) fun _ _ => .skip (.emit _) fun _ _ => ih (List.forall_mem_cons.mp h).2

theorem packVariadic (sliceType : Ty) (span : Span) {operands : List Operand}
    (h : ∀ operand ∈ operands, OfOperand env find operand) :
    Uses env find outlook (Call.packVariadic sliceType operands span)
      (Call.packVariadic sliceType (operands.map (·.via find)) span)
      (namingsAll env.hides outlook.visible (operands.map (·.source))) := by
  refine .skip (.types _) fun found _ => ?_
  split
  · exact .fail _
  · exact .skip (.temp _ _) fun _ _ => .skip (.emit _) fun _ _ =>
      .close (.appendItems _ _ _ _ h) fun _ _ => .pure _

/-- No argument is left out if there are as many inputs. -/
theorem fixedArgs (number : Nat) {operands : List Operand} {inputs : List (Member Ty)}
    (hCount : operands.length ≤ inputs.length)
    (h : ∀ operand ∈ operands, OfOperand env find operand) :
    Uses env find outlook (Call.fixedArgs number operands inputs)
      (Call.fixedArgs number (operands.map (·.via find)) inputs)
      (namingsAll env.hides outlook.visible (operands.map (·.source))) := by
  induction operands generalizing number inputs with
  | nil => exact .blind (.pure _)
  | cons operand rest ih =>
      cases inputs with
      | nil => cases hCount
      | cons input inputs =>
          rw [List.map_cons, List.map_cons, namingsAll]
          exact .follow (.value (h operand List.mem_cons_self)) fun _ _ =>
            .skip (.of_idle (.convert _ _ _ _)) fun _ _ => .close
              (ih (number + 1) (Nat.le_of_succ_le_succ hCount)
                fun o ho => h o (List.mem_cons_of_mem operand ho)) fun _ _ => .pure _

theorem apply (callee : CExpr) (func : FuncType Ty) (leading : List CExpr)
    (inputs : List (Member Ty)) (spread : Bool) (span : Span)
    (h : ∀ operand ∈ args, OfOperand env find operand) :
    Uses env find outlook (Call.apply callee func leading inputs args spread span)
      (Call.apply callee func leading inputs (args.map (·.via find)) spread span)
      (namingsAll env.hides outlook.visible (args.map (·.source))) := by
  have hEnd (passed packed : List CExpr) : RoutineM.Blind
      (Call.called callee (leading ++ passed ++ packed) func.outputs span) :=
    .bind (.results _ _) fun _ => .pure _
  unfold Call.apply
  simp only [List.length_map, ← List.map_take, ← List.map_drop]
  refine .skip (.of_idle (.checkCount _ _ _ _ _)) fun _ hChecked => ?_
  have hFits := Call.countFits_of_gives hChecked
  unfold Call.CountFits at hFits
  cases hCollects : func.variadic && !spread with
  | false =>
      rw [hCollects] at hFits
      have hAll : args.take inputs.length = args := List.take_of_length_le hFits.2.le
      simp only [Bool.false_eq_true, ↓reduceIte, hAll]
      exact .close (.fixedArgs 1 hFits.2.le h) fun passed _ => .bind (.pure _) fun _ => hEnd _ _
  | true =>
      have hSplit : args.map (·.source) = (args.take (inputs.length - 1)).map (·.source) ++
          (args.drop (inputs.length - 1)).map (·.source) := by
        rw [← List.map_append, List.take_append_drop]
      simp only [↓reduceIte]
      rw [hSplit, namingsAll_append]
      refine .follow (.fixedArgs 1 (by rw [List.length_take]; omega) fun o ho =>
        h o (List.mem_of_mem_take ho)) fun passed _ => ?_
      split
      · exact .close (.packVariadic _ _ fun o ho => h o (List.mem_of_mem_drop ho))
          fun _ _ => .bind (.pure _) fun _ => hEnd _ _
      · exact .fail_bind _

theorem conversion (type : Ty) (span : Span) (h : ∀ operand ∈ args, OfOperand env find operand) :
    Uses env find outlook (Call.conversion type args span)
      (Call.conversion type (args.map (·.via find)) span)
      (namingsAll env.hides outlook.visible (args.map (·.source))) := by
  unfold Call.conversion
  rw [List.length_map]
  rcases args with _ | ⟨arg, _ | ⟨other, rest⟩⟩
  · exact .error _ _
  · rw [List.map_singleton, List.map_singleton, namingsAll_singleton]
    exact .close (.value (h arg List.mem_cons_self)) fun value _ =>
      .of_idle (.converted type value span)
  · exact .error _ _

theorem lengthOf (spread : Bool) (span : Span) (h : ∀ operand ∈ args, OfOperand env find operand) :
    Uses env find outlook (Call.lengthOf args spread span)
      (Call.lengthOf (args.map (·.via find)) spread span)
      (namingsAll env.hides outlook.visible (args.map (·.source))) := by
  unfold Call.lengthOf
  rw [List.length_map]
  rcases args with _ | ⟨arg, _ | ⟨other, rest⟩⟩
  · exact .error _ _
  · rw [List.map_singleton, List.map_singleton, namingsAll_singleton]
    dsimp only
    split
    · exact .error_bind _ _
    · refine .close (.value (h arg List.mem_cons_self)) fun value _ => .bind (.types _) fun _ => ?_
      split
      · exact .pure _
      · refine .bind (.types _) fun found => ?_
        split
        · exact .bind (.types _) fun _ => .pure _
        · exact .error _ _
  · exact .error _ _

theorem appendSpread (result : String) (sliceType elem : Ty) {other : Operand} (span : Span)
    (h : OfOperand env find other) :
    Uses env find outlook (Call.appendSpread result sliceType elem other span)
      (Call.appendSpread result sliceType elem (other.via find) span)
      (other.source.namings env.hides outlook.visible) :=
  .close (.value h) fun _ _ => .bind (.of_idle (.convert _ _ _ _)) fun _ =>
    .bind (.temp _ _) fun _ => .bind (.temp _ _) fun _ => .bind (.emit _) fun _ =>
      .bind (.types _) fun _ => .emit _

theorem appended (spread : Bool) (span : Span) (h : ∀ operand ∈ args, OfOperand env find operand) :
    Uses env find outlook (Call.appended args spread span)
      (Call.appended (args.map (·.via find)) spread span)
      (namingsAll env.hides outlook.visible (args.map (·.source))) := by
  cases args with
  | nil => exact .error _ _
  | cons first items =>
      have hItems (o : Operand) (ho : o ∈ items) := h o (List.mem_cons_of_mem first ho)
      unfold Call.appended
      rw [List.map_cons, List.map_cons, namingsAll]
      simp only [List.length_cons, List.length_map]
      refine .follow (.value (h first List.mem_cons_self)) fun slice _ =>
        .skip (.types _) fun found _ => ?_
      cases found with
      | none => exact .error _ _
      | some elem =>
          refine .skip (.temp _ _) fun result _ => .skip (.emit _) fun _ _ => ?_
          split
          · rcases items with _ | ⟨other, _ | ⟨another, rest⟩⟩
            · exact .error_bind _ _
            · rw [List.map_singleton, List.map_singleton, namingsAll_singleton]
              exact .close (.appendSpread _ _ _ _ (hItems other List.mem_cons_self)) fun _ _ =>
                .pure _
            · exact .error_bind _ _
          · exact .close (.appendItems _ _ _ _ hItems) fun _ _ => .pure _

/-- A callee is used unless the call is compiled in place. -/
theorem call {callee : Operand} (spread : Bool) (span : Span)
    (hCallee : OfOperand env find callee) (h : ∀ operand ∈ args, OfOperand env find operand) :
    Uses env find outlook (Call.call callee args spread span)
      (Call.call (callee.via find) (args.map (·.via find)) spread span)
      ((if callee.source.isInPlace env.hides outlook.visible then []
        else callee.source.namings env.hides outlook.visible) ++
        namingsAll env.hides outlook.visible (args.map (·.source))) := by
  refine .intrinsic callee.source fun found hFound => ?_
  rw [← hFound]
  cases found with
  | some intrinsic =>
      cases intrinsic with
      | len => exact .lengthOf spread span h
      | append => exact .appended spread span h
  | none =>
      refine .follow (hCallee outlook) fun value _ => ?_
      split
      · exact .conversion _ _ h
      · exact .apply _ _ _ _ _ _ h
      · refine .skip (.of_idle (.toSingle _ _)) fun e _ => .skip (.types _) fun func _ => ?_
        split
        · exact .apply _ _ _ _ _ _ h
        · exact .error _ _

/-! ## Expressions -/

theorem unary (op : UnaryOp) {operand : Operand} (h : OfOperand env find operand) :
    Uses env find outlook (ExprRule.unary op operand) (ExprRule.unary op (operand.via find))
      (operand.source.namings env.hides outlook.visible) :=
  .close (.value h) fun _ _ => .pure _

theorem binary (op : BinaryOp) {left right : Operand} (hLeft : OfOperand env find left)
    (hRight : OfOperand env find right) :
    Uses env find outlook (ExprRule.binary op left right)
      (ExprRule.binary op (left.via find) (right.via find))
      (left.source.namings env.hides outlook.visible ++
        right.source.namings env.hides outlook.visible) :=
  .follow (.value hLeft) fun _ _ => .close (.value hRight) fun _ _ => .pure _

theorem dot (member : String) (span : Span) (h : OfOperand env find receiver) :
    Uses env find outlook (ExprRule.dot receiver member span)
      (ExprRule.dot (receiver.via find) member span)
      (receiver.source.namings env.hides outlook.visible) := by
  refine .close (h outlook) fun value _ => ?_
  split
  · exact .of_idle (.moduleMember _ _ _)
  · exact .bind (.of_idle (.toSingle _ _)) fun _ => .of_idle (.valueMember _ _ _)

theorem index {subscript : Operand} (hReceiver : OfOperand env find receiver)
    (hSubscript : OfOperand env find subscript) :
    Uses env find outlook (ExprRule.index receiver subscript)
      (ExprRule.index (receiver.via find) (subscript.via find))
      (receiver.source.namings env.hides outlook.visible ++
        subscript.source.namings env.hides outlook.visible) :=
  .follow (hReceiver outlook) fun _ _ => .close (hSubscript outlook) fun _ _ => .pure _

theorem sliceBound {bound : Operand} (h : OfOperand env find bound) :
    Uses env find outlook (ExprRule.sliceBound bound)
      (ExprRule.sliceBound (bound.via find)) (bound.source.namings env.hides outlook.visible) :=
  .close (.value h) fun _ _ => .bind (.of_idle (.convert _ _ _ _)) fun _ =>
    .bind (.temp _ _) fun _ => .bind (.emit _) fun _ => .pure _

theorem optSliceBound {bound : Option Operand} (h : ∀ operand ∈ bound, OfOperand env find operand) :
    Uses env find outlook (ExprRule.optSliceBound bound)
      (ExprRule.optSliceBound (bound.map (·.via find)))
      (namingsOpt env.hides outlook.visible (bound.map (·.source))) := by
  cases bound with
  | none => exact .blind (.pure _)
  | some operand => exact .map _ (.sliceBound (h operand rfl))

theorem slice {receiver : Operand} {lo hi : Option Operand} (span : Span)
    (hReceiver : OfOperand env find receiver) (hLo : ∀ operand ∈ lo, OfOperand env find operand)
    (hHi : ∀ operand ∈ hi, OfOperand env find operand) :
    Uses env find outlook (ExprRule.slice receiver lo hi span)
      (ExprRule.slice (receiver.via find) (lo.map (·.via find)) (hi.map (·.via find)) span)
      (receiver.source.namings env.hides outlook.visible ++
        (namingsOpt env.hides outlook.visible (lo.map (·.source)) ++
          namingsOpt env.hides outlook.visible (hi.map (·.source)))) := by
  refine .follow (.value hReceiver) fun container _ => .skip (.slicedElement _ _) fun _ _ =>
    .skip (.temp _ _) fun _ _ => .skip (.emit _) fun _ _ =>
      .follow (.optSliceBound hLo) fun lo _ => .close (.optSliceBound hHi) fun hi _ => ?_
  dsimp only
  split
  · exact .bind (.emit _) fun _ => .pure _
  · exact .pure _

theorem ctor {type : Operand} {fields fields' : List (FieldInit Operand)} {namings : List Naming}
    (span : Span) (hType : OfOperand env find type)
    (hFields : ∀ handle record, Uses env find outlook (ExprRule.initFields handle record fields)
      (ExprRule.initFields handle record fields') namings) :
    Uses env find outlook (ExprRule.ctor type fields span)
      (ExprRule.ctor (type.via find) fields' span)
      (type.source.namings env.hides outlook.visible ++ namings) := by
  refine .follow (.type hType) fun structType _ => .skip (.types _) fun found _ => ?_
  split
  · exact .error _ _
  · exact .skip (.temp _ _) fun _ _ => .skip (.emit _) fun _ _ =>
      .close (hFields _ _) fun _ _ => .pure _

/-! ## Trees -/

theorem initOperands (handle : String) (record : StructType Ty) {fields : List (FieldInit Expr)}
    (h : ∀ init ∈ GoToC.initOperands fields, OfOperand env find init.value) :
    Uses env find outlook (ExprRule.initFields handle record (GoToC.initOperands fields))
      (ExprRule.initFields handle record (initOperandsBy find fields))
      (namingsInits env.hides outlook.visible fields) := by
  induction fields with
  | nil => rw [GoToC.initOperands, namingsInits]; exact .blind (.pure _)
  | cons init rest ih =>
      obtain ⟨name, value, span⟩ := init
      rw [GoToC.initOperands, initOperand, List.forall_mem_cons] at h
      rw [GoToC.initOperands, initOperand, initOperandsBy, namingsInits, ExprRule.initFields,
        ExprRule.initFields]
      dsimp only
      cases record.field? name with
      | none => exact .error _ _
      | some field =>
          exact .follow (.value h.1) fun _ _ => .skip (.of_idle (.convert _ _ _ _))
            fun _ _ => .skip (.emit _) fun _ _ => ih h.2

theorem members {params : List (Param Expr)}
    (h : ∀ param ∈ paramOperands params, OfOperand env find param.type) :
    Uses env find outlook (Operand.members (paramOperands params))
      (Operand.members (paramOperandsBy find params))
      (namingsParams env.hides outlook.visible params) := by
  induction params with
  | nil => rw [paramOperands, namingsParams]; exact .blind (.pure _)
  | cons param rest ih =>
      rw [paramOperands, paramOperand, List.forall_mem_cons] at h
      rw [paramOperands, paramOperand, namingsParams]
      exact .follow (.type h.1) fun _ _ => .close (ih h.2) fun _ _ => .pure _

theorem methods {specs : List (MethodSpec Expr)}
    (h : ∀ spec ∈ specOperands specs, spec.signature.All (OfOperand env find)) :
    Uses env find outlook (Operand.methods (specOperands specs))
      (Operand.methods (specOperandsBy find specs))
      (namingsSpecs env.hides outlook.visible specs) := by
  induction specs with
  | nil => rw [specOperands, namingsSpecs]; exact .blind (.pure _)
  | cons spec rest ih =>
      obtain ⟨name, ⟨variadic, inputs, outputs⟩, span⟩ := spec
      rw [specOperands, specOperand, signatureOperands, List.forall_mem_cons] at h
      rw [specOperands, specOperand, signatureOperands, namingsSpecs]
      exact .follow (.follow (.members h.1.1) fun _ _ => .close (.members h.1.2)
        fun _ _ => .newFunc _ _ _ _) fun _ _ => .close (ih h.2) fun _ _ => .pure _

/-- An expression uses its names as the tree tells. -/
theorem kept : Operand.Kept (OfOperand env find) where
  int _ _ outlook := by rw [Expr.namings]; exact .blind (.pure _)
  str _ _ outlook := by rw [Expr.namings]; exact .blind (.pure _)
  ident span name outlook := by rw [Expr.namings]; exact .lookup name span
  unary _ op _ h outlook := by rw [Expr.namings]; exact .unary op h
  binary _ op _ _ hLeft hRight outlook := by rw [Expr.namings]; exact .binary op hLeft hRight
  call span callee args spread hCallee hArgs outlook := by
    have hCall : Uses env find outlook _ _ _ := .call spread span hCallee hArgs
    rw [operands_source, ← operandsBy_eq] at hCall
    rw [Expr.namings]
    exact hCall
  dot span _ member h outlook := by rw [Expr.namings]; exact .dot member span h
  index _ _ _ hReceiver hSubscript outlook := by
    rw [Expr.namings]
    exact .index hReceiver hSubscript
  slice span receiver lo hi hReceiver hLo hHi outlook := by
    have hSlice : Uses env find outlook _ _ _ := .slice span hReceiver hLo hHi
    rw [optOperand_source, optOperand_source, ← optOperandBy_eq, ← optOperandBy_eq] at hSlice
    rw [Expr.namings, List.append_assoc]
    exact hSlice
  ctor span _ _ hType hFields outlook := by
    rw [Expr.namings]
    exact .ctor span hType fun handle record => .initOperands handle record hFields
  pointerType _ _ h outlook := by rw [Expr.namings]; exact .close (.type h) fun _ _ => .pure _
  sliceType _ _ h outlook := by rw [Expr.namings]; exact .close (.type h) fun _ _ => .pure _
  mapType _ _ _ hKey hValue outlook := by
    rw [Expr.namings]
    exact .follow (.type hKey) fun _ _ => .close (.type hValue) fun _ _ => .pure _
  structType _ _ hFields outlook := by
    rw [Expr.namings]
    exact .close (.skip .nextSerial fun _ _ => .close (.members hFields)
      fun _ _ => .bind (.newStruct _ _) fun _ => .pure _) fun _ _ => .pure _
  interfaceType _ specs hSpecs outlook := by
    rw [Expr.namings]
    refine .close ?_ fun _ _ => .pure _
    cases specs with
    | nil => rw [namingsSpecs]; exact .blind (.pure _)
    | cons spec rest =>
        exact .skip .nextSerial fun _ _ => .close (.methods hSpecs)
          fun _ _ => .bind .read fun _ => .pure _

end Scoped

end

end GoToC
