import GoToC.Proofs.Routine.Operands
import GoToC.Proofs.Routine.SafeValue

/-!
# Expressions are safe

Once the types of a module are built, its expressions compile to sound values or fail
with errors, whatever they are made of.
-/

namespace GoToC

variable {type elem : Ty} {s : Setting} {args : List Operand} {inputs outputs : List (Member Ty)}
  {func : FuncType Ty} {receiver : Operand} {fields : List (FieldInit Operand)}
  {action : RoutineM Value}

namespace Safe

variable {s : Setting}

/-! ## Variables -/

theorem requestTypedef (h : type.Usable s.values) :
    Safe s (RoutineM.requestTypedef type) fun _ => True := by
  intro env routine hEnv hRoutine
  have hRequest := s.settled.request_usable routine.supply.typedefs h
  unfold RoutineM.requestTypedef
  rw [RoutineM.bind_exec, RoutineM.get_exec]
  simp only [RoutineM.bind_exec, RoutineM.read_exec, hEnv.types]
  cases hItem : (routine.supply.typedefs.request s.store type).1 with
  | error fault =>
      rw [hItem] at hRequest
      exact .inl hRequest
  | ok item =>
      cases item with
      | none => exact ⟨trivial, hRoutine⟩
      | some item => exact ⟨trivial, hRoutine⟩

theorem addLocal (name : String) (h : type.Usable s.values) (span : Span) :
    Safe s (RoutineM.addLocal name type span) fun _ => True := by
  refine (Safe.types (s.settled.hasZeroValue_usable h)).bind fun hasZero hHasZero => ?_
  refine .errorIf _ _ fun hCheck => ?_
  refine (Safe.requestTypedef h).bind fun _ _ => ?_
  refine (Safe.types (s.settled.cType_usable h)).bind fun cType _ => ?_
  have hTrue : s.store.hasZeroValue type = .ok true := by
    rw [hHasZero.1]
    simpa using hCheck
  obtain ⟨text, hText⟩ := TypeStore.zeroValue_of_hasZeroValue hTrue
  have hZero : s.store.Answers (s.store.zeroValue type) fun _ => True := by rw [hText]; trivial
  exact (Safe.types hZero).bind fun init _ => .modify fun _ => rfl

theorem temp (h : type.Usable s.values) (span : Span) :
    Safe s (RoutineM.temp type span) fun name => isCName name = true :=
  Safe.nextSerial.bind fun serial _ => (Safe.addLocal _ h span).bind fun _ _ =>
    .pure (isCName_tempName serial)

theorem declareLocal {name : String} (hName : isIdentifier name = true) (h : type.Usable s.values)
    (span : Span) :
    Safe s (RoutineM.declareLocal name type span) fun cName => isCName cName = true := by
  have hRest (cName : String) (hcName : isCName cName = true) :
      Safe s (do
        RoutineM.addLocal cName type span
        return cName) fun cName => isCName cName = true :=
    (Safe.addLocal cName h span).bind fun _ _ => .pure hcName
  refine Safe.get.bind fun routine _ => ?_
  split
  · have hRenamed : Safe s (RoutineM.renamedVariable name <$> RoutineM.nextSerial) fun cName =>
        isCName cName = true :=
      .map (Safe.nextSerial.mono fun serial _ =>
        isCName_renamedVariable serial (isWordTail_of_isIdentifier hName))
    exact hRenamed.bind hRest
  · exact hRest _ (isCName_variableName (isWordTail_of_isIdentifier hName))

end Safe

/-! ## Calls -/

namespace Call

variable {s : Setting}

theorem appendItems_safe (slice : String) (hElem : elem.Plain s.values) (context : String)
    (span : Span) {operands : List Operand} (h : ∀ operand ∈ operands, operand.Sound s) :
    Safe s (appendItems slice elem context span operands) fun _ => True := by
  induction operands with
  | nil => exact .pure trivial
  | cons operand rest ih =>
      refine (h operand List.mem_cons_self).value.bind fun value hValue => ?_
      refine (Safe.convert hElem.usable hValue _ _).bind fun c _ => ?_
      refine (Safe.temp hElem.usable span).bind fun item _ => ?_
      refine (Safe.emit _).bind fun _ _ => (Safe.emit _).bind fun _ _ => ?_
      exact ih (List.forall_mem_cons.mp h).2

theorem packVariadic_safe (hElem : elem.Plain s.values) (span : Span) {operands : List Operand}
    (h : ∀ operand ∈ operands, operand.Sound s) :
    Safe s (packVariadic (.slice elem) operands span) fun c => c.Fits s.values.strict := by
  have hSlice : s.store.Answers (s.store.sliceElement? (.slice elem)) fun found =>
      found = some elem := rfl
  refine (Safe.types hSlice).bind fun found hFound => ?_
  rw [hFound.2]
  refine (Safe.temp (Ty.usable_slice.mpr hElem) span).bind fun slice hName => ?_
  refine (Safe.emit _).bind fun _ _ => ?_
  refine (appendItems_safe slice hElem _ span h).bind fun _ _ => .pure ?_
  rw [CExpr.Fits]
  exact hName

theorem fixedArgs_safe (number : Nat) {operands : List Operand}
    (h : ∀ operand ∈ operands, operand.Sound s) (hInputs : Ty.PlainAll s.values inputs) :
    Safe s (fixedArgs number operands inputs) fun cs => ∀ c ∈ cs, c.Fits s.values.strict := by
  induction operands generalizing number inputs with
  | nil => exact .pure (by simp)
  | cons operand rest ih =>
      cases inputs with
      | nil => exact .pure (by simp)
      | cons input inputs =>
          rw [Ty.PlainAll] at hInputs
          refine (h operand List.mem_cons_self).value.bind fun value hValue => ?_
          refine (Safe.convert hInputs.1.2.usable hValue _ _).bind fun c hc => ?_
          have hRest := ih (number + 1) (List.forall_mem_cons.mp h).2 hInputs.2
          refine hRest.bind fun others hOthers => .pure ?_
          simpa using ⟨hc, hOthers⟩

theorem resultTemps_safe (serial : Nat) (span : Span) (index : Nat)
    (h : Ty.PlainAll s.values outputs) :
    Safe s (resultTemps serial span index outputs) fun members =>
      ∀ member ∈ members, isCName member.name = true ∧ member.type.Plain s.values := by
  induction outputs generalizing index with
  | nil => exact .pure (by simp)
  | cons output rest ih =>
      rw [Ty.PlainAll] at h
      refine (Safe.addLocal _ h.1.2.usable span).bind fun _ _ => ?_
      refine (ih (index + 1) h.2).bind fun others hOthers => .pure ?_
      simpa using ⟨⟨isCName_multiName serial index, h.1.2⟩, hOthers⟩

/-- What a call gives for the outputs of a function. -/
def SoundResults (k : Known) (results : List CExpr × Ty) : Prop :=
  (∀ c ∈ results.1, c.Fits k.strict) ∧ (results.2.Plain k ∨ ∃ members, results.2 = .multi members ∧
      (∀ member ∈ members, isCName member.name = true ∧ member.type.Plain k) ∧
        ∀ member ∈ members, CExpr.addressOf member.name ∈ results.1)

theorem results_safe (h : Ty.PlainAll s.values outputs) (span : Span) :
    Safe s (results outputs span) (SoundResults s.values) := by
  unfold results
  split
  · exact .pure ⟨by simp, .inl (by simp [Ty.Plain])⟩
  · next output =>
      rw [Ty.PlainAll] at h
      exact .pure ⟨by simp, .inl h.1.2⟩
  · refine Safe.nextSerial.bind fun serial _ => ?_
    refine (resultTemps_safe serial span 0 h).bind fun members hMembers => .pure ⟨?_, ?_⟩
    · intro c hc
      obtain ⟨member, hMember, rfl⟩ := List.mem_map.mp hc
      rw [CExpr.Fits]
      exact (hMembers member hMember).1
    · exact .inr ⟨members, rfl, hMembers, fun member hMember => List.mem_map_of_mem hMember⟩

theorem checkCount_safe (variadic spread : Bool) (given inputs : Nat) (span : Span) :
    Safe s (checkCount variadic spread given inputs span) fun _ => True := by
  refine .errorIf _ _ fun _ => ?_
  split
  · split
    · exact .error _ _
    · exact .pure trivial
  · split
    · exact .error _ _
    · exact .pure trivial

/-- The last of the inputs that a variadic function is called with is a slice. -/
def EndsInSlice (inputs : List (Member Ty)) : Prop :=
  ∃ init name elem, inputs = init ++ [⟨name, .slice elem⟩]

theorem apply_safe {callee : CExpr} {leading : List CExpr} (spread : Bool) (span : Span)
    (hCallee : callee.IsName ∧ callee.Fits s.values.strict)
    (hFunc : (Ty.func func).PlainFunc s.values) (hLeading : ∀ c ∈ leading, c.Fits s.values.strict)
    (hInputs : Ty.PlainAll s.values inputs)
    (hVariadic : func.variadic = true → EndsInSlice inputs)
    (h : ∀ operand ∈ args, operand.Sound s) :
    Safe s (apply callee func leading inputs args spread span) (Value.Given s) := by
  rw [Ty.PlainFunc] at hFunc
  -- Once all arguments are there, the call is put together.
  have hCall (passed packed : List CExpr) (hPassed : ∀ c ∈ passed, c.Fits s.values.strict)
      (hPacked : ∀ c ∈ packed, c.Fits s.values.strict) :
      Safe s (called callee (leading ++ passed ++ packed) func.outputs span) (Value.Given s) := by
    refine (results_safe hFunc.2.1 span).bind fun found hFound => .pure ?_
    have hFits : CExpr.Fits s.values.strict
        (.call callee (leading ++ passed ++ packed ++ found.1)) := by
      rw [CExpr.Fits, CExpr.fitAll_iff]
      refine ⟨hCallee.1, hCallee.2, fun c hc => ?_⟩
      simp only [List.mem_append] at hc
      rcases hc with ((hc | hc) | hc) | hc
      · exact hLeading c hc
      · exact hPassed c hc
      · exact hPacked c hc
      · exact hFound.1 c hc
    rcases hFound.2 with hPlain | ⟨members, hMulti, hMembers, hPassed⟩
    · exact Typed.Sound.given (.of_plain hPlain hFits)
    · refine ⟨.inr ⟨hFits, members, hMulti, hMembers⟩, fun others hType => ?_⟩
      obtain rfl : members = others := Ty.multi.inj (hMulti.symm.trans hType)
      exact ⟨_, _, rfl, fun member hMember => List.mem_append_right _ (hPassed member hMember)⟩
  refine (checkCount_safe _ _ _ _ _).bind fun _ _ => ?_
  refine (fixedArgs_safe 1 (fun o ho => h o (List.mem_of_mem_take ho)) hInputs).bind
    fun passed hPassed => ?_
  split
  · next hCollects =>
      have hEnds := hVariadic (by simp only [Bool.and_eq_true] at hCollects; exact hCollects.1)
      obtain ⟨init, name, elem, rfl⟩ := hEnds
      have hElem : elem.Plain s.values := by
        have hLast := (Ty.plainAll_iff.mp hInputs ⟨name, .slice elem⟩ (by simp)).2
        rw [Ty.Plain] at hLast
        exact hLast
      split
      · next last tail hDrop =>
          simp only [List.length_append, List.length_singleton, Nat.add_sub_cancel,
            List.drop_left, List.cons.injEq] at hDrop
          rw [← hDrop.1]
          refine (packVariadic_safe hElem span fun o ho => h o (List.mem_of_mem_drop ho)).bind
            fun packed hPacked => ?_
          exact hCall passed [packed] hPassed (by simpa using hPacked)
      · next hDrop => simp at hDrop
  · exact hCall passed [] hPassed (by simp)

/-- A cast is safe once its target is known to be storable and neither side a function. -/
theorem cast_safe {value : Typed} (hType : type.Usable s.values) (hValue : value.Sound s.values)
    (hStorable : s.store.isStorable type = .ok true) (hTarget : s.store.func? type = .ok none)
    (hSource : s.store.func? value.type = .ok none) :
    Safe s (RoutineM.types (·.cast type value.type)) fun _ => True := by
  obtain ⟨shape, hPeel, hShape⟩ := Safe.exists_convertible hTarget hStorable
  have hFunc : ∀ func, value.type ≠ .func func := by
    intro func hEq
    rw [hEq, TypeStore.func?_func] at hSource
    cases hSource
  rcases s.settled.cast_usable hType hValue.usable hPeel hShape hFunc with hCast | ⟨hCast, hMeta⟩
  · exact (Safe.types hCast).mono fun _ _ => trivial
  · refine Safe.read.bind fun env hEnv => ?_
    dsimp only
    rw [hEnv.types, hCast]
    exact .fail (.inr ⟨rfl, hMeta⟩)

theorem conversion_safe (whole : s.types = s.values) (hType : type.Plain s.types) (span : Span)
    (h : ∀ operand ∈ args, operand.Sound s) :
    Safe s (conversion type args span) (Value.Given s) := by
  rw [whole] at hType
  unfold conversion
  split
  · next arg =>
      refine (h arg List.mem_cons_self).value.bind fun value hValue => ?_
      have hRefused : Safe s (attempted type value span false) (Value.Given s) :=
        .mismatch _ _ _ _
      -- Four questions in a row; only if none of them rules it out, a cast is tried.
      refine (Safe.types (s.settled.isStorable_usable hType.usable)).bind
        fun storable hStorable => ?_
      split
      · exact hRefused
      next hStored =>
      refine (Safe.types (s.settled.func?_usable hType.usable)).bind fun target hTarget => ?_
      split
      · exact hRefused
      next hNoTarget =>
      refine (Safe.types (s.settled.func?_usable hValue.usable)).bind fun source hSource => ?_
      split
      · exact hRefused
      next hNoSource =>
      refine (Safe.types (s.settled.isPrim_usable hValue.usable _)).bind fun isVoid _ => ?_
      have hCast : Safe s (RoutineM.types (·.cast type value.type)) fun _ => True := by
        refine cast_safe hType.usable hValue ?_ ?_ ?_
        · rw [hStorable.1]
          simpa using hStored
        · rw [hTarget.1]
          simpa using hNoTarget
        · rw [hSource.1]
          simpa using hNoSource
      cases isVoid with
      | true => exact hRefused
      | false =>
          refine hCast.bind fun found _ => ?_
          split
          · exact .pure (Typed.Sound.given (.of_plain hType (hValue.fits.converted _)))
          · exact .mismatch _ _ _ _
  · exact .error _ _

theorem lengthOf_safe (spread : Bool) (span : Span) (h : ∀ operand ∈ args, operand.Sound s) :
    Safe s (lengthOf args spread span) (Value.Given s) := by
  have hInt {c : CExpr} (hFits : c.Fits s.values.strict) : (Value.expr ⟨c, .prim .int⟩).Given s :=
    Typed.Sound.given (.of_plain (by simp [Ty.Plain]) hFits)
  unfold lengthOf
  split
  · next arg =>
      refine .errorIf _ _ fun _ => ?_
      refine (h arg List.mem_cons_self).value.bind fun value hValue => ?_
      refine (Safe.types (s.settled.isPrim_usable hValue.usable _)).bind fun isString _ => ?_
      split
      · exact .pure (hInt (by rw [CExpr.Fits]; exact hValue.fits))
      · refine (Safe.types (s.settled.sliceElement?_usable hValue.usable)).bind
          fun found hFound => ?_
        split
        · next elem =>
            have hElem : elem.Plain s.values := hFound.2 elem rfl
            refine (Safe.types (s.settled.cType_usable hElem.usable)).bind fun text hText => ?_
            exact .pure (hInt (by rw [CExpr.Fits]; exact ⟨hValue.fits, hText.2⟩))
        · exact .error _ _
  · exact .error _ _

theorem appendSpread_safe (result : String) {sliceType : Ty} {other : Operand} (span : Span)
    (hSlice : sliceType.Usable s.values) (hElem : elem.Plain s.values) (h : other.Sound s) :
    Safe s (appendSpread result sliceType elem other span) fun _ => True := by
  refine h.value.bind fun value hValue => ?_
  refine (Safe.convert hSlice hValue _ _).bind fun c _ => ?_
  refine (Safe.temp hSlice span).bind fun source _ => ?_
  refine (Safe.temp hElem.usable span).bind fun item _ => (Safe.emit _).bind fun _ _ => ?_
  exact (Safe.types (s.settled.cType_usable hElem.usable)).bind fun _ _ => .emit _

theorem appended_safe (spread : Bool) (span : Span) (h : ∀ operand ∈ args, operand.Sound s) :
    Safe s (appended args spread span) (Value.Given s) := by
  unfold appended
  split
  · exact .error _ _
  · next first items =>
      have hItems (o : Operand) (ho : o ∈ items) := h o (List.mem_cons_of_mem first ho)
      refine (h first List.mem_cons_self).value.bind fun slice hSlice => ?_
      refine (Safe.types (s.settled.sliceElement?_usable hSlice.usable)).bind fun found hFound => ?_
      split
      · exact .error _ _
      · next elem =>
          have hElem : elem.Plain s.values := hFound.2 elem rfl
          refine (Safe.temp hSlice.usable span).bind fun result hResult => ?_
          have hDone : (Value.expr ⟨.localVar result, slice.type⟩).Given s :=
            Typed.Sound.given ⟨hSlice.usable, by rw [CExpr.Fits]; exact hResult, fun _ _ => trivial⟩
          refine (Safe.emit _).bind fun _ _ => ?_
          dsimp only
          split
          · split
            · next other =>
                exact (appendSpread_safe result span hSlice.usable hElem
                  (hItems other List.mem_cons_self)).bind fun _ _ => .pure hDone
            · exact Safe.bind (Safe.error _ _ : Safe s _ fun _ => True) fun _ _ => .pure hDone
          · exact (appendItems_safe result hElem _ span hItems).bind fun _ _ => .pure hDone

theorem intrinsic?_safe (callee : Expr) : Safe s (intrinsic? callee) fun _ => True := by
  unfold intrinsic?
  dsimp only
  split
  · exact .pure trivial
  · refine Safe.read.bind fun _ _ => Safe.get.bind fun _ _ => ?_
    split
    · exact .pure trivial
    · exact .pure trivial

/-- The inputs that a method is called with after its receiver. -/
theorem endsInSlice_explicit (h : (Ty.func func).PlainFunc s.values)
    (hVariadic : func.variadic = true) :
    EndsInSlice (if func.isMethod then func.inputs.drop 1 else func.inputs) := by
  rw [Ty.PlainFunc] at h
  obtain ⟨init, name, elem, hInputs, hMethod⟩ := h.2.2 hVariadic
  split
  · next isMethod =>
      cases init with
      | nil => exact absurd rfl (hMethod isMethod)
      | cons first rest => exact ⟨rest, name, elem, by rw [hInputs]; rfl⟩
  · exact ⟨init, name, elem, hInputs⟩

theorem call_safe (whole : s.types = s.values) {callee : Operand} (spread : Bool) (span : Span)
    (hCallee : callee.Sound s) (h : ∀ operand ∈ args, operand.Sound s) :
    Safe s (call callee args spread span) (Value.Given s) := by
  refine (intrinsic?_safe _).bind fun found _ => ?_
  split
  · exact lengthOf_safe _ _ h
  · exact appended_safe _ _ h
  · refine Safe.bind hCallee fun value hValue => ?_
    split
    · exact conversion_safe whole hValue span h
    · next bound =>
        have hFunc := hValue.func
        have hInputs : Ty.PlainAll s.values
            (if bound.func.isMethod then bound.func.inputs.drop 1 else bound.func.inputs) := by
          rw [Ty.PlainFunc, Ty.plainAll_iff] at hFunc
          rw [Ty.plainAll_iff]
          intro member hMember
          split at hMember
          · exact hFunc.1 member (List.mem_of_mem_drop hMember)
          · exact hFunc.1 member hMember
        exact apply_safe spread span hValue.callee hFunc (by simpa using hValue.receiver) hInputs
          (endsInSlice_explicit hFunc) h
    · refine (Safe.toSingle span hValue).bind fun e he => ?_
      refine (Safe.types (s.settled.func?_usable he.usable)).bind fun func hFunc => ?_
      split
      · next func =>
          obtain ⟨hType, hPlain, -⟩ := hFunc.2 func rfl
          have hParts := hPlain
          rw [Ty.PlainFunc] at hParts
          refine apply_safe spread span ⟨he.name func hType, he.fits⟩ hPlain (by simp) hParts.1 ?_ h
          intro hVariadic
          obtain ⟨init, name, elem, hInputs, -⟩ := hParts.2.2 hVariadic
          exact ⟨init, name, elem, hInputs⟩
      · exact .error _ _

end Call

/-! ## Expressions -/

namespace ExprRule

variable {s : Setting}

theorem unary_safe (op : UnaryOp) {operand : Operand} (h : operand.Sound s) :
    Safe s (unary op operand) (Value.Alone s) := by
  refine h.value.bind fun value hValue => .pure (Typed.Sound.of_plain ?_ ?_)
  · cases op <;> simp [Ty.Plain]
  · rw [CExpr.Fits]
    exact hValue.fits

theorem binary_safe (op : BinaryOp) {left right : Operand} (hLeft : left.Sound s)
    (hRight : right.Sound s) : Safe s (binary op left right) (Value.Alone s) := by
  refine hLeft.value.bind fun l hl => hRight.value.bind fun r hr =>
    .pure (Typed.Sound.of_plain ?_ ?_)
  · simp [Ty.Plain]
  · rw [CExpr.Fits]
    exact ⟨hl.fits, hr.fits⟩

theorem index_safe {subscript : Operand} (hReceiver : receiver.Sound s)
    (hSubscript : subscript.Sound s) : Safe s (index receiver subscript) (Value.Alone s) :=
  Safe.bind hReceiver fun _ hContainer => Safe.bind hSubscript fun _ hPosition =>
    .pure ⟨hContainer, hPosition⟩

/-- The type of indices. -/
theorem int_plain {k : Known} : (Ty.prim .int).Plain k := by simp [Ty.Plain]

theorem sliceBound_safe {operand : Operand} (h : operand.Sound s) :
    Safe s (sliceBound operand) fun _ => True := by
  refine h.value.bind fun value hValue => ?_
  refine (Safe.convert int_plain.usable hValue _ _).bind fun c _ => ?_
  exact (Safe.temp int_plain.usable _).bind fun bound _ => (Safe.emit _).bind fun _ _ =>
    .pure trivial

theorem optSliceBound_safe {bound : Option Operand} (h : ∀ operand ∈ bound, operand.Sound s) :
    Safe s (optSliceBound bound) fun _ => True := by
  cases bound with
  | none => exact .pure trivial
  | some operand => exact .map (sliceBound_safe (h operand rfl))

theorem slicedElement_safe {container : Typed} (h : container.Sound s.values) (span : Span) :
    Safe s (slicedElement container span) fun _ => True := by
  refine (Safe.types (s.settled.isPrim_usable h.usable _)).bind fun _ _ => ?_
  split
  · exact .pure trivial
  · refine (Safe.types (s.settled.sliceElement?_usable h.usable)).bind fun found hFound => ?_
    split
    · next elem =>
        have hElem : elem.Plain s.values := hFound.2 elem rfl
        exact (Safe.types (s.settled.cType_usable hElem.usable)).bind fun _ _ => .pure trivial
    · exact .error _ _

theorem slice_safe {lo hi : Option Operand} (span : Span) (hReceiver : receiver.Sound s)
    (hLo : ∀ operand ∈ lo, operand.Sound s) (hHi : ∀ operand ∈ hi, operand.Sound s) :
    Safe s (slice receiver lo hi span) (Value.Alone s) := by
  refine hReceiver.value.bind fun container hContainer => ?_
  refine (slicedElement_safe hContainer span).bind fun elem _ => ?_
  refine (Safe.temp hContainer.usable span).bind fun copy hCopy => (Safe.emit _).bind fun _ _ => ?_
  refine (optSliceBound_safe hLo).bind fun lo _ => (optSliceBound_safe hHi).bind fun hi _ => ?_
  have hDone : (Value.expr ⟨.localVar copy, container.type⟩).Alone s :=
    ⟨hContainer.usable, by rw [CExpr.Fits]; exact hCopy, fun _ _ => trivial⟩
  dsimp only
  split
  · exact (Safe.emit _).bind fun _ _ => .pure hDone
  · exact .pure hDone

theorem initFields_safe (handle : String) {record : StructType Ty}
    (hRecord : (Ty.struct record).Plain s.values) (h : ∀ init ∈ fields, init.value.Sound s) :
    Safe s (initFields handle record fields) fun _ => True := by
  induction fields with
  | nil => exact .pure trivial
  | cons init rest ih =>
      unfold initFields
      split
      · exact .error _ _
      · next field hField =>
          rw [Ty.Plain, Ty.plainAll_iff] at hRecord
          have hPlain := (hRecord.2 field (List.mem_of_find?_eq_some hField)).2
          refine (h init List.mem_cons_self).value.bind fun value hValue => ?_
          refine (Safe.convert hPlain.usable hValue _ _).bind fun c _ => ?_
          refine (Safe.emit _).bind fun _ _ => ih (List.forall_mem_cons.mp h).2

theorem ctor_safe (whole : s.types = s.values) {type : Operand} (span : Span)
    (hType : type.SoundType s) (h : ∀ init ∈ fields, init.value.Sound s) :
    Safe s (ctor type fields span) (Value.Alone s) := by
  refine Safe.bind hType fun structType hStruct => ?_
  have hPlain : structType.Plain s.values := whole ▸ hStruct.1
  refine (Safe.types (s.settled.struct?_usable hPlain.usable)).bind fun found hFound => ?_
  split
  · exact .error _ _
  · next record =>
      have hPointer : (Ty.pointer structType).Plain s.values := by
        rw [Ty.Plain]
        exact hPlain
      refine (Safe.temp hPointer.usable span).bind fun handle hHandle => ?_
      refine (Safe.emit _).bind fun _ _ => ?_
      refine (initFields_safe handle (hFound.2 record rfl) h).bind fun _ _ => .pure ?_
      exact Typed.Sound.of_plain hPointer (by rw [CExpr.Fits]; exact hHandle)

end ExprRule

/-- What gives one value at the most does so, whatever expression it is. -/
theorem Safe.alone (h : Safe s action (Value.Alone s)) {call : Prop} :
    Safe s action fun value => value.Given s ∧ (call → value.Alone s) :=
  h.mono fun _ hValue => ⟨hValue.given, fun _ => hValue⟩

theorem Safe.sounds {call : Prop}
    (h : Safe s action fun value => value.Given s ∧ (call → value.Alone s)) :
    Safe s action (Value.Sound s) :=
  h.mono fun _ hValue => hValue.1.sound

section

variable {s : Setting} (whole : s.types = s.values)

include whole

/-- An expression compiles to a sound value, once the types of its module are built. Only that of a
call may be several. -/
theorem gives_kept : Operand.Kept fun operand => operand.source.Formed s.types.Word →
    Safe s operand.compile fun value =>
      value.Given s ∧ (operand.source.isCall = false → value.Alone s) where
  int _ _ _ := by
    refine .alone ?_
    exact .pure (Typed.Sound.of_plain (by simp [Ty.Plain]) (by simp [CExpr.Fits]))
  str _ _ _ := by
    refine .alone ?_
    exact .pure (Typed.Sound.of_plain (by simp [Ty.Plain]) (by simp [CExpr.Fits]))
  ident span _ h := .alone (.lookup h span)
  unary _ op _ ih h := .alone (ExprRule.unary_safe op (ih h).sounds)
  binary _ op _ _ ihLeft ihRight h :=
    .alone (ExprRule.binary_safe op (ihLeft h.1).sounds (ihRight h.2).sounds)
  call span _ _ spread ihCallee ihArgs h :=
    (Call.call_safe whole spread span (ihCallee h.1).sounds fun arg hArg =>
      (ihArgs arg hArg (h.2.operands arg hArg)).sounds).mono fun _ hValue => ⟨hValue, nofun⟩
  dot span _ _ ih h := .alone (ExprRule.dot_safe (ih h.1).sounds h.2.1 span)
  index _ _ _ ihReceiver ihIndex h :=
    .alone (ExprRule.index_safe (ihReceiver h.1).sounds (ihIndex h.2).sounds)
  slice span _ _ _ ihReceiver ihLo ihHi h :=
    .alone (ExprRule.slice_safe span (ihReceiver h.1).sounds
      (fun bound hBound => (ihLo bound hBound (h.2.1.operand bound hBound)).sounds)
      fun bound hBound => (ihHi bound hBound (h.2.2.operand bound hBound)).sounds)
  ctor span type _ _ ihFields h :=
    .alone (ExprRule.ctor_safe whole span (typeOperand_safe s type h.1) fun init hInit =>
      (ihFields init hInit (h.2.operands init hInit).2).sounds)
  pointerType span inner _ h :=
    .alone ((compileType_safe s (.pointerType span inner) h).mono fun _ hValue => hValue.1)
  sliceType span elem _ h :=
    .alone ((compileType_safe s (.sliceType span elem) h).mono fun _ hValue => hValue.1)
  mapType span key value _ _ h :=
    .alone ((compileType_safe s (.mapType span key value) h).mono fun _ hValue => hValue.1)
  structType span fields _ h :=
    .alone ((compileType_safe s (.structType span fields) h).mono fun _ hValue => hValue.1)
  interfaceType span specs _ h :=
    .alone ((compileType_safe s (.interfaceType span specs) h).mono fun _ hValue => hValue.1)

theorem compileExpr_gives (e : Expr) (h : e.Formed s.types.Word) :
    Safe s (compileExpr e) fun value => value.Given s ∧ (e.isCall = false → value.Alone s) :=
  (gives_kept whole).operand e h

theorem operands_safe (es : List Expr) (h : ExprsFormed s.types.Word es) :
    ∀ operand ∈ operands es, operand.Sound s := fun found hFound =>
  ((gives_kept whole).operands es found hFound (h.operands found hFound)).sounds

theorem optOperand_safe (e : Option Expr) (h : OptExprFormed s.types.Word e) :
    ∀ operand ∈ optOperand e, operand.Sound s := fun found hFound =>
  ((gives_kept whole).optOperand e found hFound (h.operand found hFound)).sounds

end

theorem compileExpr_given (whole : s.types = s.values) (e : Expr) (h : e.Formed s.types.Word) :
    Safe s (compileExpr e) (Value.Given s) :=
  (compileExpr_gives whole e h).mono fun _ hValue => hValue.1

/-- What is no call gives one value at the most. -/
theorem compileExpr_alone (whole : s.types = s.values) {e : Expr} (h : e.Formed s.types.Word)
    (hCall : e.isCall = false) : Safe s (compileExpr e) (Value.Alone s) :=
  (compileExpr_gives whole e h).mono fun _ hValue => hValue.2 hCall

theorem compileExpr_safe (whole : s.types = s.values) (e : Expr) (h : e.Formed s.types.Word) :
    Safe s (compileExpr e) (Value.Sound s) :=
  (compileExpr_given whole e h).sound

theorem operand_safe (whole : s.types = s.values) (e : Expr) (h : e.Formed s.types.Word) :
    (operand e).Sound s :=
  compileExpr_safe whole e h

end GoToC
