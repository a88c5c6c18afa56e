import GoToC.Proofs.Routine.Spelled

/-!
# Expressions keep a routine spelled

The parts that an expression evaluates ahead of itself go to variables that are declared first, and
its fragment names these, the variables and parameters in scope, and no others. All other names in
its fragment, in the statements that are written ahead of it and in its type are words of the
source.
-/

namespace GoToC

variable {args : List Operand} {specs : List (MethodSpec Operand)} {name member : String}
  {fields : List (Param Operand)} {elem sliceType : Ty} {callee : CExpr} {receiver : Operand}

variable {g : Idiom} {known : Set OwnName}

namespace Spells

/-! ## Operands -/

/-- An operand that keeps a routine spelled, whatever is known. -/
abbrev OfOperand (g : Idiom) (operand : Operand) : Prop :=
  ∀ known, Spells g known operand.compile (Value.Spelled g.d)

/-- Values that are all spelled with the same names. -/
def SpelledValues (d : Diction) (known : Set OwnName) (values : List Typed) : Prop :=
  ∀ e ∈ values, e.Spelled d known

theorem value {operand : Operand} (h : OfOperand g operand) :
    Spells g known operand.value (Typed.Spelled g.d) :=
  .bind (h known) fun _ _ _ hValue => .toSingle _ hValue

theorem values {operands : List Operand} (h : ∀ operand ∈ operands, OfOperand g operand) :
    Spells g known (Operand.values operands) (SpelledValues g.d) := by
  induction operands generalizing known with
  | nil => exact .pure (by simp [SpelledValues])
  | cons operand rest ih =>
      refine .bind (.value (h operand List.mem_cons_self)) fun known first _ hFirst =>
        .bind (ih fun o ho => h o (List.mem_cons_of_mem operand ho)) fun _ others le hOthers => ?_
      exact .pure (List.forall_mem_cons.mpr ⟨hFirst.mono le, hOthers⟩)

theorem type {operand : Operand} (h : OfOperand g operand) :
    Spells g known operand.type fun _ => Ty.WordedIn g.d := by
  refine .bind (h known) fun _ found _ hFound => ?_
  split
  · exact .pure hFound
  · exact .error _ _

/-- A parameter whose name, if it has one, is a word of the source. -/
structure OfParam (g : Idiom) (param : Param Operand) : Prop where
  name : g.d.strict → NamedByIdentifier param.name
  type : OfOperand g param.type

theorem members {params : List (Param Operand)} (h : ∀ param ∈ params, OfParam g param) :
    Spells g known (Operand.members params) fun _ => Ty.WordedAllIn g.d := by
  induction params generalizing known with
  | nil => exact .pure fun _ => trivial
  | cons param rest ih =>
      have hParam := h param List.mem_cons_self
      exact .bind (.type hParam.type) fun _ _ _ hType =>
        .bind (ih fun p hp => h p (List.mem_cons_of_mem param hp)) fun _ _ _ hOthers =>
          .pure fun hStrict => ⟨⟨hParam.name hStrict, hType hStrict⟩, hOthers hStrict⟩

structure OfSignature (g : Idiom) (sig : Signature Operand) : Prop where
  inputs : ∀ param ∈ sig.inputs, OfParam g param
  outputs : ∀ param ∈ sig.outputs, OfParam g param

theorem signature {receiver : Option (Param Operand)} {sig : Signature Operand}
    (hReceiver : ∀ param ∈ receiver, OfParam g param) (h : OfSignature g sig) :
    Spells g known (Operand.signature receiver sig) fun _ func => (Ty.func func).WordedIn g.d := by
  refine .bind (.members fun param hp => ?_) fun _ _ _ hInputs => .bind (.members h.outputs)
    fun _ _ _ hOutputs => .newFunc _ _ hInputs hOutputs
  rcases List.mem_append.mp hp with hp | hp
  · exact hReceiver param (Option.mem_toList.mp hp)
  · exact h.inputs param hp

/-- A method that an interface lists. -/
structure OfSpec (g : Idiom) (spec : MethodSpec Operand) : Prop where
  name : g.d.strict → isIdentifier spec.name = true
  signature : OfSignature g spec.signature

theorem methods (h : ∀ spec ∈ specs, OfSpec g spec) :
    Spells g known (Operand.methods specs) fun _ => Ty.WordedAllIn g.d := by
  induction specs generalizing known with
  | nil => exact .pure fun _ => trivial
  | cons spec rest ih =>
      have hSpec := h spec List.mem_cons_self
      exact .bind (.signature (by simp) hSpec.signature) fun _ _ _ hFunc =>
        .bind (ih fun s hs => h s (List.mem_cons_of_mem spec hs)) fun _ _ _ hOthers =>
          .pure fun hStrict => ⟨⟨fun _ => hSpec.name hStrict, hFunc hStrict⟩, hOthers hStrict⟩

theorem structType (hName : g.d.Word name) (h : ∀ param ∈ fields, OfParam g param) :
    Spells g known (Operand.structType name fields) fun _ => Ty.WordedIn g.d :=
  .bind (.members h) fun _ _ _ hFields => .bind (.newStruct hName hFields) fun _ _ _ hRecord =>
    .pure hRecord

theorem interfaceType (name : String) (h : ∀ spec ∈ specs, OfSpec g spec) :
    Spells g known (Operand.interfaceType name specs) fun _ => Ty.WordedIn g.d :=
  .bind (.methods h) fun _ _ _ hMethods => .bind .read fun _ _ _ _ => .pure hMethods

theorem anonymousStruct (h : ∀ param ∈ fields, OfParam g param) :
    Spells g known (Operand.anonymousStruct fields) fun _ => Ty.WordedIn g.d := by
  refine .bind .nextSerial fun _ serial _ _ => .structType (fun _ => ?_) h
  have hPrefix : isWordTail "_struct_" = true := by decide
  exact isWordTail_append.mpr ⟨hPrefix, isWordTail_toString serial⟩

theorem anonymousInterface (h : ∀ spec ∈ specs, OfSpec g spec) :
    Spells g known (Operand.anonymousInterface specs) fun _ => Ty.WordedIn g.d := by
  unfold Operand.anonymousInterface
  split
  · exact .pure fun _ => trivial
  · exact .bind .nextSerial fun _ _ _ _ => .interfaceType _ h

/-! ## Calls -/

theorem appendItems {slice : String} (context : String) (span : Span) {operands : List Operand}
    (hSlice : .variable slice ∈ known) (hElem : elem.WordedIn g.d)
    (h : ∀ operand ∈ operands, OfOperand g operand) :
    Spells g known (Call.appendItems slice elem context span operands) fun _ _ => True := by
  induction operands generalizing known with
  | nil => exact .pure trivial
  | cons operand rest ih =>
      refine .bind (.value (h operand List.mem_cons_self)) fun _ _ le₁ hValue =>
        .bind (.convert _ hValue.c _ _) fun _ c le₂ hc =>
          .bind (.temp _ hElem) fun _ item le₃ hItem =>
          .bind (.emit ⟨hItem, hc.mono le₃⟩) fun _ _ le₄ _ => ?_
      have hSlice := le₄ (le₃ (le₂ (le₁ hSlice)))
      exact .bind (.emit ⟨hSlice, le₄ hItem⟩) fun _ _ le₅ _ =>
        ih (le₅ hSlice) (List.forall_mem_cons.mp h).2

theorem packVariadic (span : Span) {operands : List Operand} (hType : sliceType.WordedIn g.d)
    (h : ∀ operand ∈ operands, OfOperand g operand) :
    Spells g known (Call.packVariadic sliceType operands span) (CExpr.Spelled g.d) := by
  refine .bind (.sliceElement? hType) fun _ found _ hFound => ?_
  split
  · exact .fail _
  · next elem =>
      exact .bind (.temp _ hType) fun _ slice _ hSlice => .bind (.emit hSlice) fun _ _ le₁ _ =>
        .bind (.appendItems _ _ (le₁ hSlice) (hFound elem rfl) h) fun _ _ le₂ _ =>
          .pure (le₂ (le₁ hSlice))

theorem fixedArgs (number : Nat) {operands : List Operand} (inputs : List (Member Ty))
    (h : ∀ operand ∈ operands, OfOperand g operand) :
    Spells g known (Call.fixedArgs number operands inputs) fun k args =>
      ∀ arg ∈ args, arg.Spelled g.d k := by
  induction operands generalizing number inputs known with
  | nil => exact .pure (by simp)
  | cons operand rest ih =>
      cases inputs with
      | nil => exact .pure (by simp)
      | cons input inputs =>
          refine .bind (.value (h operand List.mem_cons_self)) fun _ value _ hValue =>
            .bind (.convert _ hValue.c _ _) fun _ c _ hc =>
              .bind (ih _ _ fun o ho => h o (List.mem_cons_of_mem operand ho))
                fun _ others le hOthers => .pure ?_
          exact List.forall_mem_cons.mpr ⟨hc.mono le, hOthers⟩

theorem apply {func : FuncType Ty} {leading : List CExpr} {inputs : List (Member Ty)}
    (spread : Bool) (span : Span) (hCallee : callee.Spelled g.d known)
    (hFunc : (Ty.func func).WordedIn g.d) (hLeading : ∀ arg ∈ leading, arg.Spelled g.d known)
    (hInputs : ∀ input ∈ inputs, input ∈ func.inputs) (h : ∀ operand ∈ args, OfOperand g operand) :
    Spells g known (Call.apply callee func leading inputs args spread span)
      (Value.Spelled g.d) := by
  -- Once all arguments are there, the call is put together.
  have hCall {k : Set OwnName} {passed packed : List CExpr} (le : known ⊆ k)
      (hPassed : ∀ arg ∈ passed, arg.Spelled g.d k) (hPacked : ∀ arg ∈ packed, arg.Spelled g.d k) :
      Spells g k (Call.called callee (leading ++ passed ++ packed) func.outputs span)
        (Value.Spelled g.d) := by
    refine .bind (.results _ fun hs => (hFunc hs).2) fun _ found le' hFound => .pure
      ⟨⟨hCallee.mono (le.trans le'), CExpr.spelledAll_iff.mpr fun arg hArg => ?_⟩, hFound.2⟩
    simp only [List.mem_append] at hArg
    rcases hArg with ((hArg | hArg) | hArg) | hArg
    · exact (hLeading arg hArg).mono (le.trans le')
    · exact (hPassed arg hArg).mono le'
    · exact (hPacked arg hArg).mono le'
    · exact hFound.1 arg hArg
  refine .bind (.asked (RoutineM.Idle.checkCount _ _ _ _ _).asks) fun _ _ le₁ _ =>
    .bind (.fixedArgs _ _ fun o ho => h o (List.mem_of_mem_take ho)) fun _ passed le₂ hPassed => ?_
  have hRest {k : Set OwnName} {packed : List CExpr} (le₃ : _ ⊆ k)
      (hPacked : ∀ arg ∈ packed, arg.Spelled g.d k) :=
    hCall ((le₁.trans le₂).trans le₃) (fun arg hArg => (hPassed arg hArg).mono le₃) hPacked
  split
  · split
    · next last _ hDrop =>
        have hLast : last ∈ inputs := List.mem_of_mem_drop (hDrop ▸ List.mem_cons_self)
        have hType : last.type.WordedIn g.d := fun hs =>
          (Ty.wordedAll_iff.mp (hFunc hs).1 last (hInputs last hLast)).2
        refine .bind (.packVariadic _ hType fun o ho => h o (List.mem_of_mem_drop ho))
          fun _ c le₃ hc => hRest le₃ ?_
        simpa using hc
    · exact .bind (.fail _) fun _ _ le₃ hPacked => hRest le₃ hPacked
  · exact hRest subset_rfl (by simp)

theorem conversion {type : Ty} (span : Span) (hType : type.WordedIn g.d)
    (h : ∀ operand ∈ args, OfOperand g operand) :
    Spells g known (Call.conversion type args span) (Value.Spelled g.d) := by
  unfold Call.conversion
  split
  · next arg =>
      refine .bind (.value (h arg List.mem_cons_self)) fun known value _ hValue => ?_
      have hFound (k : Set OwnName) (le : known ⊆ k) (found : Option Conversion) :
          Spells g k (Call.converted type value span found) (Value.Spelled g.d) := by
        cases found with
        | some conversion => exact .pure ⟨(hValue.c.mono le).converted _, hType⟩
        | none => exact .error _ _
      have hEnd (k : Set OwnName) (le : known ⊆ k) (convertible : Bool) :
          Spells g k (Call.attempted type value span convertible) (Value.Spelled g.d) := by
        cases convertible with
        | true => exact .bind (.answer _) fun k' found le' _ => hFound k' (le.trans le') found
        | false =>
            exact .bind (.asked (.pure _)) fun k' found le' _ => hFound k' (le.trans le') found
      -- Four questions in a row; the first `no` ends them.
      refine .bind (.answer _) fun k₁ _ le₁ _ => ?_
      split
      · exact .bind (.asked (.pure _)) fun k answer le _ => hEnd k (le₁.trans le) answer
      · refine .bind (.answer _) fun k₂ _ le₂ _ => ?_
        split
        · exact .bind (.asked (.pure _)) fun k answer le _ =>
            hEnd k ((le₁.trans le₂).trans le) answer
        · refine .bind (.answer _) fun k₃ _ le₃ _ => ?_
          split
          · exact .bind (.asked (.pure _)) fun k answer le _ =>
              hEnd k (((le₁.trans le₂).trans le₃).trans le) answer
          · exact .bind (.answer _) fun k₄ _ le₄ _ => .bind (.asked (.pure _)) fun k answer le _ =>
              hEnd k ((((le₁.trans le₂).trans le₃).trans le₄).trans le) answer
  · exact .error _ _

theorem lengthOf (spread : Bool) (span : Span) (h : ∀ operand ∈ args, OfOperand g operand) :
    Spells g known (Call.lengthOf args spread span) (Value.Spelled g.d) := by
  unfold Call.lengthOf
  split
  · next arg =>
      refine errorIf _ _ fun _ known _ => .bind (.value (h arg List.mem_cons_self))
        fun _ value _ hValue => .bind (.answer _) fun _ _ le₁ _ => ?_
      split
      · exact .pure ⟨hValue.c.mono le₁, fun _ => trivial⟩
      · refine .bind (.answer _) fun _ found le₂ _ => ?_
        split
        · exact .bind (.cType _) fun _ elem le₃ hElem =>
            .pure ⟨⟨hValue.c.mono ((le₁.trans le₂).trans le₃), hElem⟩, fun _ => trivial⟩
        · exact .error _ _
  · exact .error _ _

theorem appendSpread {result : String} {other : Operand} (span : Span)
    (hResult : .variable result ∈ known) (hSlice : sliceType.WordedIn g.d)
    (hElem : elem.WordedIn g.d) (h : OfOperand g other) :
    Spells g known (Call.appendSpread result sliceType elem other span) fun _ _ => True := by
  refine .bind (.value h) fun _ value le₁ hValue =>
    .bind (.convert _ hValue.c _ _) fun _ c le₂ hc =>
    .bind (.temp _ hSlice) fun _ source le₃ hSource => .bind (.temp _ hElem) fun _ item le₄ hItem =>
      .bind (.emit ⟨le₄ hSource, (hc.mono le₃).mono le₄⟩) fun _ _ le₅ _ =>
        .bind (.cType _) fun _ _ le₆ hType => .emit ?_
  have le := le₅.trans le₆
  exact ⟨le (le₄ (le₃ (le₂ (le₁ hResult)))), le (le₄ hSource), hType, le hItem⟩

theorem appended (spread : Bool) (span : Span) (h : ∀ operand ∈ args, OfOperand g operand) :
    Spells g known (Call.appended args spread span) (Value.Spelled g.d) := by
  unfold Call.appended
  split
  · exact .error _ _
  · next first items =>
      have hItems (o : Operand) (ho : o ∈ items) := h o (List.mem_cons_of_mem first ho)
      refine .bind (.value (h first List.mem_cons_self)) fun _ slice _ hSlice =>
        .bind (.sliceElement? hSlice.type) fun _ found le₁ hFound => ?_
      split
      · exact .error _ _
      · next elem =>
          have hElem := hFound elem rfl
          refine .bind (.temp _ hSlice.type) fun _ result le₂ hResult =>
            .bind (.emit ⟨hResult, (hSlice.c.mono le₁).mono le₂⟩) fun known _ le₃ _ => ?_
          have hKnown : .variable result ∈ known := le₃ hResult
          have hEnd {k : Set OwnName} (le : known ⊆ k) :
              (Value.expr ⟨.localVar result, slice.type⟩).Spelled g.d k := ⟨le hKnown, hSlice.type⟩
          dsimp only
          split
          · split
            · exact .bind (.appendSpread _ hKnown hSlice.type hElem (hItems _ List.mem_cons_self))
                fun _ _ le _ => .pure (hEnd le)
            · exact .bind (.error _ _) fun _ _ le (_ : True) => .pure (hEnd le)
          · exact .bind (.appendItems _ _ hKnown hElem hItems) fun _ _ le _ => .pure (hEnd le)

theorem call {callee : Operand} (spread : Bool) (span : Span) (hCallee : OfOperand g callee)
    (h : ∀ operand ∈ args, OfOperand g operand) :
    Spells g known (Call.call callee args spread span) (Value.Spelled g.d) := by
  refine .bind (.asked (.intrinsic? _)) fun known found _ _ => ?_
  split
  · exact .lengthOf _ _ h
  · exact .appended _ _ h
  · refine .bind (hCallee known) fun _ value _ hValue => ?_
    split
    · exact .conversion _ hValue h
    · refine .apply _ _ hValue.callee hValue.func (by simpa using hValue.receiver) ?_ h
      intro input hInput
      split at hInput
      · exact List.mem_of_mem_drop hInput
      · exact hInput
    · refine .bind (.toSingle _ hValue) fun _ e _ he => .bind (.func? he.type)
        fun _ found le hFound => ?_
      split
      · next func =>
          exact .apply _ _ (he.c.mono le) (hFound func rfl) (by simp) (fun _ hInput => hInput) h
      · exact .error _ _

/-! ## Expressions -/

theorem unary (op : UnaryOp) {operand : Operand} (h : OfOperand g operand) :
    Spells g known (ExprRule.unary op operand) (Value.Spelled g.d) :=
  .bind (.value h) fun _ _ _ hValue => .pure ⟨hValue.c, fun _ => trivial⟩

theorem binary (op : BinaryOp) {left right : Operand} (hLeft : OfOperand g left)
    (hRight : OfOperand g right) :
    Spells g known (ExprRule.binary op left right) (Value.Spelled g.d) :=
  .bind (.value hLeft) fun _ _ _ hl => .bind (.value hRight) fun _ _ le hr =>
    .pure ⟨⟨hl.c.mono le, hr.c⟩, fun _ => trivial⟩

theorem moduleMember (id : ModuleId) (member : String) (span : Span) :
    Spells g known (ExprRule.moduleMember id member span) (Value.Spelled g.d) := by
  refine .bind .read fun _ env _ hEnv => ?_
  dsimp only
  split
  · exact .error _ _
  · next value hValue =>
      have hSpelled := hEnv.program.globalValue? hValue
      split
      · exact .bind (.asked (RoutineM.Idle.requireResolved _ _).asks) fun _ _ le _ =>
          .pure (hSpelled.mono le)
      · exact .pure hSpelled

theorem boundMethod? {receiver : CExpr} {method : Option (Member Ty)}
    (hMethod : ∀ m ∈ method, callee.Spelled g.d known ∧ m.type.WordedIn g.d)
    (hReceiver : receiver.Spelled g.d known) :
    Spells g known (ExprRule.boundMethod? callee receiver method) fun k found =>
      ∀ value ∈ found, value.Spelled g.d k := by
  cases method with
  | none => exact .pure (by simp)
  | some method =>
      obtain ⟨hCallee, hType⟩ := hMethod method rfl
      refine .bind (.func? hType) fun _ found le hFound => .pure fun value hValue => ?_
      obtain ⟨func, rfl, rfl⟩ := Option.map_eq_some_iff.mp hValue
      exact ⟨hCallee.mono le, hReceiver.mono le, hFound func rfl⟩

theorem valueMember {receiver : Typed} (span : Span) (h : receiver.Spelled g.d known)
    (hMember : g.d.Word member) :
    Spells g known (ExprRule.valueMember receiver member span) (Value.Spelled g.d) := by
  have hFound (k : Set OwnName) (found : Option Value) (_ : known ⊆ k)
      (hFound : ∀ value ∈ found, value.Spelled g.d k) :
      Spells g k (ExprRule.foundMethod receiver member span found) (Value.Spelled g.d) := by
    cases found with
    | none => exact .error _ _
    | some value => exact .pure (hFound value rfl)
  refine .bind (.pointeeStruct? h.type) fun _ pointee le₁ hPointee => ?_
  split
  · next record =>
      split
      · next field hField =>
          exact .pure ⟨⟨h.c.mono le₁, hMember⟩, fun hs => (hPointee record rfl hs).field hField⟩
      · exact .bind .read fun _ env le₂ hEnv =>
          .bind (.boundMethod? (fun _ hMethod => hEnv.program.method? hMethod)
            (h.c.mono (le₁.trans le₂))) fun k found le₃ =>
              hFound k found ((le₁.trans le₂).trans le₃)
  · refine .bind (.interface? h.type) fun _ found le₂ hInterface => ?_
    split
    · next record =>
        have hMethods (hs : g.d.strict) := Ty.wordedAll_iff.mp (hInterface record rfl hs)
        exact .bind (.boundMethod? (fun method hMethod =>
          ⟨hMember, fun hs => (hMethods hs method (List.mem_of_find?_eq_some hMethod)).2⟩)
            (h.c.mono (le₁.trans le₂))) fun k found le₃ =>
              hFound k found ((le₁.trans le₂).trans le₃)
    · exact .error _ _

theorem dot (span : Span) (h : OfOperand g receiver) (hMember : g.d.Word member) :
    Spells g known (ExprRule.dot receiver member span) (Value.Spelled g.d) := by
  refine .bind (h known) fun _ value _ hValue => ?_
  split
  · exact .moduleMember _ _ _
  · exact .bind (.toSingle _ hValue) fun _ _ _ hReceiver => .valueMember _ hReceiver hMember

theorem index {subscript : Operand} (hReceiver : OfOperand g receiver)
    (hSubscript : OfOperand g subscript) :
    Spells g known (ExprRule.index receiver subscript) (Value.Spelled g.d) :=
  .bind (hReceiver known) fun known _ _ hContainer => .bind (hSubscript known) fun _ _ le hIndex =>
    .pure ⟨hContainer.mono le, hIndex⟩

/-- The variable of a bound is declared. -/
theorem optSliceBound {bound : Option Operand} (h : ∀ operand ∈ bound, OfOperand g operand) :
    Spells g known (ExprRule.optSliceBound bound) fun k found =>
      ∀ name ∈ found, .variable name ∈ k := by
  cases bound with
  | none => exact .pure (by simp)
  | some operand =>
      refine .map (.bind (.value (h operand rfl)) fun _ value _ hValue =>
        .bind (.convert _ hValue.c _ _) fun _ c _ hc => .bind (.temp _ fun _ => trivial)
          fun _ name le hName => .bind (.emit ⟨hName, hc.mono le⟩) fun _ _ le' _ => .pure ?_)
      simpa using le' hName

theorem slicedElement (container : Typed) (span : Span) :
    Spells g known (ExprRule.slicedElement container span) fun _ found =>
      ∀ elem ∈ found, g.d.Word elem := by
  refine .bind (.answer _) fun _ _ _ _ => ?_
  split
  · exact .pure (by simp)
  · refine .bind (.answer _) fun _ found _ _ => ?_
    split
    · exact .bind (.cType _) fun _ _ _ hElem => .pure (by simpa using hElem)
    · exact .error _ _

theorem slice {receiver : Operand} {lo hi : Option Operand} (span : Span)
    (hReceiver : OfOperand g receiver) (hLo : ∀ operand ∈ lo, OfOperand g operand)
    (hHi : ∀ operand ∈ hi, OfOperand g operand) :
    Spells g known (ExprRule.slice receiver lo hi span) (Value.Spelled g.d) := by
  refine .bind (.value hReceiver) fun _ container _ hContainer =>
    .bind (.slicedElement _ _) fun _ elem le₁ hElem => .bind (.temp _ hContainer.type)
      fun _ copy le₂ hCopy => .bind (.emit ⟨hCopy, (hContainer.c.mono le₁).mono le₂⟩)
        fun _ _ le₃ _ => .bind (.optSliceBound hLo) fun _ lo le₄ hLo =>
          .bind (.optSliceBound hHi) fun known hi le₅ hHi => ?_
  have hKnown : .variable copy ∈ known := le₅ (le₄ (le₃ hCopy))
  dsimp only
  split
  · exact .bind (.emit ⟨hKnown, hElem, fun n hn => le₅ (hLo n hn), hHi⟩) fun _ _ le₆ _ =>
      .pure ⟨le₆ hKnown, hContainer.type⟩
  · exact .pure ⟨hKnown, hContainer.type⟩

/-- A field that a new struct is given a value for. -/
structure OfInit (g : Idiom) (init : FieldInit Operand) : Prop where
  name : g.d.Word init.name
  value : OfOperand g init.value

theorem initFields {handle : String} (record : StructType Ty) {fields : List (FieldInit Operand)}
    (hHandle : .variable handle ∈ known) (h : ∀ init ∈ fields, OfInit g init) :
    Spells g known (ExprRule.initFields handle record fields) fun _ _ => True := by
  induction fields generalizing known with
  | nil => exact .pure trivial
  | cons init rest ih =>
      have hInit := h init List.mem_cons_self
      unfold ExprRule.initFields
      split
      · exact .error _ _
      · exact .bind (.value hInit.value) fun _ value le₁ hValue =>
          .bind (.convert _ hValue.c _ _) fun _ c le₂ hc =>
            .bind (.emit ⟨le₂ (le₁ hHandle), hInit.name, hc⟩) fun _ _ le₃ _ =>
              ih (le₃ (le₂ (le₁ hHandle))) (List.forall_mem_cons.mp h).2

theorem ctor {type : Operand} {fields : List (FieldInit Operand)} (span : Span)
    (hType : OfOperand g type) (h : ∀ init ∈ fields, OfInit g init) :
    Spells g known (ExprRule.ctor type fields span) (Value.Spelled g.d) := by
  refine .bind (.type hType) fun _ structType _ hStruct => .bind (.struct? hStruct)
    fun _ found _ hFound => ?_
  split
  · exact .error _ _
  · next record =>
      have hPointer : (Ty.pointer structType).WordedIn g.d := hStruct
      exact .bind (.temp _ hPointer) fun _ handle _ hHandle =>
        .bind (.emit ⟨hHandle, fun hs => (hFound record rfl hs).struct_cName⟩) fun _ _ le₁ _ =>
          .bind (.initFields _ (le₁ hHandle) h) fun _ _ le₂ _ =>
            .pure ⟨le₂ (le₁ hHandle), hPointer⟩

/-! ## Words of the source -/

variable {word : String → Prop}

/-- An operand that is spelled if it is well formed. -/
abbrev WhenFormed (g : Idiom) (word : String → Prop) (operand : Operand) : Prop :=
  (g.d.strict → operand.source.Formed word) → OfOperand g operand

section

variable (hWord : ∀ name, word name → isIdentifier name = true)

include hWord

theorem paramOperands {params : List (Param Expr)} (h : g.d.strict → ParamsFormed word params)
    (hTypes : ∀ param ∈ paramOperands params, WhenFormed g word param.type) :
    ∀ param ∈ GoToC.paramOperands params, OfParam g param := fun param hParam =>
  ⟨fun hs hNamed => hWord _ (((h hs).operands param hParam).1 hNamed),
    hTypes param hParam fun hs => ((h hs).operands param hParam).2.formed⟩

theorem signatureOperands {sig : Signature Expr} (h : g.d.strict → SignatureFormed word sig)
    (hTypes : (signatureOperands sig).All (WhenFormed g word)) :
    OfSignature g (GoToC.signatureOperands sig) := by
  obtain ⟨variadic, inputs, outputs⟩ := sig
  simp only [SignatureFormed, imp_and] at h
  exact ⟨paramOperands hWord h.1 hTypes.1, paramOperands hWord h.2.1 hTypes.2⟩

theorem specOperands {specs : List (MethodSpec Expr)} (h : g.d.strict → SpecsFormed word specs)
    (hTypes : ∀ spec ∈ specOperands specs, spec.signature.All (WhenFormed g word)) :
    ∀ spec ∈ GoToC.specOperands specs, OfSpec g spec := by
  induction specs with
  | nil => simp [GoToC.specOperands]
  | cons spec rest ih =>
      simp only [SpecsFormed, imp_and] at h
      rw [GoToC.specOperands, specOperand, List.forall_mem_cons] at hTypes ⊢
      exact ⟨⟨fun hs => hWord _ (h.1.1 hs), signatureOperands hWord h.1.2 hTypes.1⟩,
        ih h.2 hTypes.2⟩

/-- An expression keeps a routine spelled if its words are words of the source. -/
theorem kept : Operand.Kept (WhenFormed g word) where
  int _ _ _ _ := .pure ⟨trivial, fun _ => trivial⟩
  str _ _ _ _ := .pure ⟨trivial, fun _ => trivial⟩
  ident span name _ _ := .lookup name span
  unary _ op _ ih h _ := .unary op (ih h)
  binary _ op _ _ ihLeft ihRight h _ := .binary op (ihLeft fun hs => (h hs).1)
    (ihRight fun hs => (h hs).2)
  call span _ _ spread ihCallee ihArgs h _ := .call spread span (ihCallee fun hs => (h hs).1)
    fun arg hArg => ihArgs arg hArg fun hs => (h hs).2.operands arg hArg
  dot span _ _ ih h _ := .dot span (ih fun hs => (h hs).1) fun hs =>
    isWordTail_of_isIdentifier (hWord _ (h hs).2)
  index _ _ _ ihReceiver ihIndex h _ := .index (ihReceiver fun hs => (h hs).1)
    (ihIndex fun hs => (h hs).2)
  slice span _ _ _ ihReceiver ihLo ihHi h _ := .slice span (ihReceiver fun hs => (h hs).1)
    (fun bound hBound => ihLo bound hBound fun hs => (h hs).2.1.operand bound hBound)
    (fun bound hBound => ihHi bound hBound fun hs => (h hs).2.2.operand bound hBound)
  ctor span _ _ ihType ihFields h _ := .ctor span (ihType fun hs => (h hs).1.formed)
    fun init hInit =>
      ⟨fun hs => isWordTail_of_isIdentifier (hWord _ ((h hs).2.operands init hInit).1),
        ihFields init hInit fun hs => ((h hs).2.operands init hInit).2⟩
  pointerType _ _ ih h _ := .bind (.type (ih fun hs => Expr.IsType.formed (h hs)))
    fun _ _ _ hInner => .pure hInner
  sliceType _ _ ih h _ := .bind (.type (ih fun hs => Expr.IsType.formed (h hs)))
    fun _ _ _ hElem => .pure hElem
  mapType _ _ _ ihKey ihValue h _ := .bind (.type (ihKey fun hs => (h hs).1.formed))
    fun _ _ _ hKey => .bind (.type (ihValue fun hs => (h hs).2.formed)) fun _ _ _ hValue =>
      .pure fun hs => ⟨hKey hs, hValue hs⟩
  structType _ _ ihFields h _ := .bind (.anonymousStruct (paramOperands hWord h ihFields))
    fun _ _ _ hType => .pure hType
  interfaceType _ _ ihSpecs h _ := .bind (.anonymousInterface (specOperands hWord h ihSpecs))
    fun _ _ _ hType => .pure hType

end

end Spells

/-- A word of the source. -/
abbrev SourceWord (name : String) : Prop := isIdentifier name = true

section

variable {word : String → Prop} (hWord : ∀ name, word name → isIdentifier name = true)

include hWord

theorem compileExpr_spells (e : Expr) (h : g.d.strict → e.Formed word) :
    Spells.OfOperand g (operand e) := (Spells.kept hWord).operand e h

theorem operands_spell (es : List Expr) (h : g.d.strict → ExprsFormed word es) :
    ∀ operand ∈ operands es, Spells.OfOperand g operand := fun found hFound =>
  (Spells.kept hWord).operands es found hFound fun hs => (h hs).operands found hFound

theorem optOperand_spells (e : Option Expr) (h : g.d.strict → OptExprFormed word e) :
    ∀ operand ∈ optOperand e, Spells.OfOperand g operand := fun found hFound =>
  (Spells.kept hWord).optOperand e found hFound fun hs => (h hs).operand found hFound

/-- The type that a declaration gives a name. -/
theorem compileNamedType_spells {e : Expr} (hName : isIdentifier name = true) (h : e.Formed word) :
    Spells g known (compileNamedType e name) fun _ => Ty.WordedIn g.d := by
  unfold compileNamedType
  split
  · rw [Expr.Formed] at h
    exact .structType (fun _ => isWordTail_of_isIdentifier hName)
      (Spells.paramOperands hWord (fun _ => h) ((Spells.kept hWord).paramOperands _))
  · rw [Expr.Formed] at h
    exact .interfaceType _
      (Spells.specOperands hWord (fun _ => h) ((Spells.kept hWord).specOperands _))
  · exact .type (compileExpr_spells hWord e fun _ => h)

/-- The type of a declared function or method. -/
theorem compileSignature_spells {receiver : Option (Param Expr)} {signature : Signature Expr}
    (hReceiver : ∀ param ∈ receiver, OptionalWord word param.name ∧ param.type.IsType word)
    (h : SignatureFormed word signature) :
    Spells g known (compileSignature receiver signature) fun _ func =>
      (Ty.func func).WordedIn g.d := by
  refine .signature (fun param hParam => ?_)
    (Spells.signatureOperands hWord (fun _ => h) ((Spells.kept hWord).signatureOperands signature))
  obtain ⟨⟨name, type, span⟩, hWritten, rfl⟩ := Option.mem_map.mp hParam
  obtain ⟨hName, hType⟩ := hReceiver _ hWritten
  exact ⟨fun _ hNamed => hWord _ (hName hNamed),
    compileExpr_spells hWord type fun _ => hType.formed⟩

end

/-- Whatever words there are, an expression names only what is known. -/
theorem compileExpr_closes {within : Option Setting} {params : Set OwnName} (e : Expr) :
    Spells.OfOperand (.closing within params) (operand e) :=
  compileExpr_spells (fun _ hWord => hWord) e False.elim

end GoToC
