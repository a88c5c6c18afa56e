import GoToC.Proofs.Routine.Safe

/-!
# Names, values and type expressions are safe

Looking a name up gives a sound value, a sound value has a C fragment or none, and
conversions only ask what the type store can answer. Type expressions are read in any
setting, also while the types of a module are built: they never look into a type of that
module.
-/

namespace GoToC

variable {name member : String} {shape type : Ty} {specs : List (MethodSpec Operand)} {s : Setting}
  {fields : List (Param Operand)}

namespace Value

variable {s : Setting}

/-- The values of names that no module declares. -/
theorem alone_of_primValue? {value : Value} (hWord : s.types.Word name)
    (h : primValue? name = some value) : value.Alone s := by
  have hExpr (c : CExpr) (prim : Prim) (hFits : c.Fits s.values.strict) (hPrim : prim ≠ .type) :
      (Value.expr ⟨c, .prim prim⟩).Alone s :=
    ⟨.inl (by simp [Ty.Plain, hPrim]), hFits, by simp⟩
  unfold primValue? at h
  split at h
  · cases h
    exact hExpr _ _ (by simp [CExpr.Fits]) (by decide)
  · split at h
    · cases h
      exact hExpr _ _ (by simp [CExpr.Fits]) (by decide)
    · split at h
      · cases h
        exact hExpr _ _ (by simp [CExpr.Fits]) (by decide)
      · rw [Option.map_eq_some_iff] at h
        obtain ⟨prim, hFound, rfl⟩ := h
        have hName := List.find?_some hFound
        rw [beq_iff_eq] at hName
        show (Ty.prim prim).Plain s.types
        rw [Ty.Plain]
        rintro rfl
        exact hWord.2 hName.symm

end Value

theorem Routine.Sound.binding {k : Known} {routine : Routine} {value : Typed}
    (h : routine.Sound k) (hFound : routine.binding? name = some value) :
    value.Sound k ∧ value.c.IsVariable := by
  obtain ⟨scope, hScope, hLookup⟩ := List.exists_of_findSome?_eq_some hFound
  obtain ⟨before, after, hSplit, -⟩ := List.lookup_eq_some_iff.mp hLookup
  exact h scope hScope (name, value) (by simp [hSplit])

/-- The value of a global that is one value: globals are never the results of a call. -/
theorem Env.Sound.alone_globalValue? {env : Env} (h : env.Sound s) {id : ModuleId} {value : Value}
    (hFound : env.program.globalValue? id name = some value) (hSound : value.Sound s) :
    value.Alone s := by
  cases value with
  | expr e =>
      obtain ⟨global, hGlobal, hValue⟩ := Option.map_eq_some_iff.mp hFound
      cases hKnown : global.value with
      | none => cases hHandle : global.handle <;> simp [hKnown, hHandle] at hValue
      | some known =>
          cases known <;> simp [hKnown, GlobalValue.toValue] at hValue
          subst hValue
          exact h.exprs id name global _ hGlobal hKnown
  | _ => exact hSound

namespace Safe

variable {s : Setting}

theorem lookup (hWord : s.types.Word name) (span : Span) :
    Safe s (RoutineM.lookup name span) (Value.Alone s) := by
  refine Safe.read.bind fun env hEnv => Safe.get.bind fun routine hRoutine => ?_
  split
  · next value hFound => exact .pure (hRoutine.binding hFound).1
  · split
    · next value hFound =>
        exact .pure (hEnv.alone_globalValue? hFound (hEnv.own name value hFound))
    · dsimp only
      split
      · next value hFound =>
          refine .pure ?_
          rw [Option.orElse_eq_orElse, Option.orElse_eq_or, Option.or_eq_some_iff] at hFound
          rcases hFound with hShared | ⟨-, hPrim⟩
          · rw [Option.bind_eq_some_iff] at hShared
            obtain ⟨id, hId, hShared⟩ := hShared
            split at hShared
            · cases hShared
            · exact hEnv.alone_globalValue? hShared (hEnv.shared id name value hId hShared)
          · exact Value.alone_of_primValue? hWord hPrim
      · exact .error _ _

theorem isAssignable (name : String) : Safe s (RoutineM.isAssignable name) fun _ => True := by
  refine Safe.read.bind fun env _ => Safe.get.bind fun routine _ => ?_
  dsimp only
  split
  · exact .pure trivial
  · split
    · exact .pure trivial
    · exact .pure trivial

theorem single {e : Typed} (h : e.Result s.values) (span : Span) :
    Safe s (RoutineM.single e span) (Typed.Sound s.values) := by
  rcases h with h | ⟨-, members, hType, -⟩
  · refine (Safe.types (s.settled.multi?_usable h.usable)).bind fun found hFound => ?_
    rw [hFound.2]
    exact .pure h
  · have hMulti : s.store.Answers (s.store.multi? e.type) fun found => found = some members := by
      rw [hType]
      rfl
    refine (Safe.types hMulti).bind fun found hFound => ?_
    rw [hFound.2]
    exact .error _ _

theorem globalExpr {value : GlobalValue} (h : ∀ e, value = .expr e → e.Sound s.values)
    (span : Span) : Safe s (RoutineM.globalExpr value span) (Typed.Sound s.values) := by
  unfold RoutineM.globalExpr
  split
  · exact .pure (h _ rfl)
  · exact .error _ _

/-- The fragment of a value is one value, unless it was there from the beginning. -/
theorem toExpr_or (span : Span) {value : Value} (h : value.Sound s) :
    Safe s (RoutineM.toExpr span value) fun e => e.Sound s.values ∨ value = .expr e := by
  induction value with
  | expr e => exact .pure (.inr rfl)
  | global id name =>
      refine Safe.read.bind fun env hEnv => ?_
      split
      · next value hFound =>
          rw [Option.bind_eq_some_iff] at hFound
          obtain ⟨global, hGlobal, hValue⟩ := hFound
          refine (Safe.globalExpr (fun e he => ?_) span).mono fun _ he => .inl he
          exact hEnv.exprs id name global e hGlobal (by rw [hValue, he])
      · exact .error _ _
  | element container index ihContainer ihIndex =>
      have hResult {part : Value} (hPart : part.Sound s) {e : Typed}
          (he : e.Sound s.values ∨ part = .expr e) : e.Result s.values := by
        rcases he with he | rfl
        · exact .inl he
        · exact hPart
      refine (ihContainer h.1).bind fun c hc =>
        (Safe.single (hResult h.1 hc) span).bind fun c hc => ?_
      refine (ihIndex h.2).bind fun i hi => (Safe.single (hResult h.2 hi) span).bind fun i hi => ?_
      refine (Safe.types (s.settled.element?_usable hc.usable)).bind fun found hFound => ?_
      split
      · next elem =>
          refine .pure (.inl (.of_plain (hFound.2 elem rfl) ?_))
          rw [CExpr.Fits]
          exact ⟨hc.fits, hi.fits⟩
      · exact .error _ _
  | type denoted => exact .error _ _
  | module id => exact .error _ _
  | method bound => exact .error _ _

theorem toExpr (span : Span) {value : Value} (h : value.Sound s) :
    Safe s (RoutineM.toExpr span value) (Typed.Result s.values) := by
  refine (toExpr_or span h).mono fun e he => ?_
  rcases he with he | rfl
  · exact .inl he
  · exact h

theorem toExpr_given (span : Span) {value : Value} (h : value.Given s) :
    Safe s (RoutineM.toExpr span value) (Typed.Given s.values) := by
  refine (toExpr_or span h.sound).mono fun e he => ?_
  rcases he with he | rfl
  · exact he.given
  · exact h

theorem toExpr_alone (span : Span) {value : Value} (h : value.Alone s) :
    Safe s (RoutineM.toExpr span value) (Typed.Sound s.values) := by
  refine (toExpr_or span h.given.sound).mono fun e he => ?_
  rcases he with he | rfl
  · exact he
  · exact h

theorem toSingle (span : Span) {value : Value} (h : value.Sound s) :
    Safe s (RoutineM.toSingle span value) (Typed.Sound s.values) :=
  (Safe.toExpr span h).bind fun _ he => .single he span

/-- A shape that a variable can hold and that is no function can be converted to. -/
theorem convertible_of_isStorable (hShape : ∀ handle, shape ≠ .forward handle)
    (hFunc : ∀ func, shape ≠ .func func) (hStorable : s.store.isStorable shape = .ok true) :
    TypeStore.Convertible shape := by
  unfold TypeStore.isStorable at hStorable
  rw [TypeStore.peel_eq_self hShape] at hStorable
  unfold TypeStore.Convertible
  split
  · cases hStorable
  · exact hFunc _ rfl
  · cases hStorable
  · trivial

theorem func?_eq_of_peel (h : s.store.peel type = .ok shape) :
    s.store.func? type = s.store.func? shape := by
  unfold TypeStore.func?
  rw [h, TypeStore.peel_peel h]

theorem isStorable_eq_of_peel (h : s.store.peel type = .ok shape) :
    s.store.isStorable type = s.store.isStorable shape := by
  unfold TypeStore.isStorable
  rw [h, TypeStore.peel_peel h]

/-- A type that can be stored and is no function has a shape to convert to. -/
theorem exists_convertible (hFunc : s.store.func? type = .ok none)
    (hStorable : s.store.isStorable type = .ok true) :
    ∃ shape, s.store.peel type = .ok shape ∧ TypeStore.Convertible shape := by
  cases hPeel : s.store.peel type with
  | error fault =>
      rw [TypeStore.func?, hPeel] at hFunc
      cases hFunc
  | ok shape =>
      rw [func?_eq_of_peel hPeel] at hFunc
      rw [isStorable_eq_of_peel hPeel] at hStorable
      refine ⟨shape, rfl, convertible_of_isStorable (TypeStore.peel_not_forward hPeel) ?_ hStorable⟩
      rintro func rfl
      rw [TypeStore.func?_func] at hFunc
      cases hFunc

theorem convert {dest : Ty} {src : Typed} (hDest : dest.Usable s.values)
    (hSrc : src.Sound s.values) (span : Span) (context : String) :
    Safe s (RoutineM.convert dest src span context) fun c => c.Fits s.values.strict := by
  refine (Safe.types (s.settled.func?_usable hDest)).bind fun func hFunc => ?_
  split
  · refine (Safe.types (s.settled.isPrim_usable hSrc.usable _)).bind fun isNil _ => ?_
    split
    · exact .pure hSrc.fits
    · refine (Safe.types (s.settled.equal_usable hDest hSrc.usable)).bind fun same _ => ?_
      split
      · exact .pure hSrc.fits
      · exact .mismatch _ _ _ _
  · refine (Safe.types (s.settled.isStorable_usable hDest)).bind fun storable hStorable => ?_
    refine .errorIf _ _ fun hCheck => ?_
    have hTrue : s.store.isStorable dest = .ok true := by
      rw [hStorable.1]
      simpa using hCheck
    obtain ⟨shape, hPeel, hShape⟩ := exists_convertible hFunc.1 hTrue
    refine (Safe.types (s.settled.assign_usable hDest hSrc.usable hPeel hShape)).bind
      fun found _ => ?_
    split
    · exact .pure (hSrc.fits.converted _)
    · exact .mismatch _ _ _ _

end Safe

/-! ## Operands -/

namespace Operand

/-- An operand whose compilation gives a sound value. -/
def Sound (s : Setting) (operand : Operand) : Prop := Safe s operand.compile (Value.Sound s)

/-- An operand that is written as a slice type. -/
def IsSlice (operand : Operand) : Prop := ∃ span elem, operand.source = .sliceType span elem

/-- An operand that denotes a plain type, which is a slice if it is written as one. -/
def SoundType (s : Setting) (operand : Operand) : Prop :=
  Safe s operand.type fun type =>
    type.Plain s.types ∧ (operand.IsSlice → ∃ elem, type = .slice elem)

/-- A parameter with a sound type. -/
def SoundParam (s : Setting) (param : Param Operand) : Prop :=
  OptionalWord s.types.Word param.name ∧ param.type.SoundType s

/-- A signature of sound parameters; the last input of a variadic one is written as a slice. -/
structure SoundSignature (s : Setting) (sig : Signature Operand) : Prop where
  inputs : ∀ param ∈ sig.inputs, SoundParam s param
  outputs : ∀ param ∈ sig.outputs, SoundParam s param
  variadic : sig.variadic = true → ∃ param ∈ sig.inputs.getLast?, param.type.IsSlice

/-- The members that parameters declare. -/
structure MembersOf (k : Known) (params : List (Param Operand)) (members : List (Member Ty)) :
    Prop where
  plain : Ty.PlainAll k members
  names : members.map (·.name) = params.map (·.name)
  last : ∀ param ∈ params.getLast?, param.type.IsSlice →
    ∃ member ∈ members.getLast?, ∃ elem, member.type = .slice elem

variable {s : Setting}

theorem Sound.value {operand : Operand} (h : operand.Sound s) :
    Safe s operand.value (Typed.Sound s.values) :=
  Safe.bind h fun _ hValue => .toSingle _ hValue

theorem values_safe {operands : List Operand} (h : ∀ operand ∈ operands, operand.Sound s) :
    Safe s (Operand.values operands) fun es => ∀ e ∈ es, e.Sound s.values := by
  induction operands with
  | nil => exact .pure (by simp)
  | cons operand rest ih =>
      refine (h operand List.mem_cons_self).value.bind fun e he => ?_
      refine (ih fun o ho => h o (List.mem_cons_of_mem operand ho)).bind fun es hes => .pure ?_
      simpa using ⟨he, hes⟩

theorem members_safe {params : List (Param Operand)} (h : ∀ param ∈ params, SoundParam s param) :
    Safe s (Operand.members params) (MembersOf s.types params) := by
  induction params with
  | nil => exact .pure ⟨by simp [Ty.PlainAll], rfl, by simp⟩
  | cons param rest ih =>
      have hParam := h param List.mem_cons_self
      refine hParam.2.bind fun type hType => ?_
      refine (ih fun p hp => h p (List.mem_cons_of_mem param hp)).bind
        fun others hOthers => .pure ?_
      refine ⟨?_, by simp [hOthers.names], ?_⟩
      · rw [Ty.PlainAll]
        exact ⟨⟨fun hNamed => (hParam.1 hNamed).1, hType.1⟩, hOthers.plain⟩
      · -- The last member belongs to the last parameter, as there are equally many of both.
        intro last hLast hSlice
        have hLength : others.length = rest.length := by
          simpa using congrArg List.length hOthers.names
        cases rest with
        | nil =>
            rw [List.getLast?_singleton, Option.mem_some_iff] at hLast
            subst hLast
            obtain ⟨elem, hElem⟩ := hType.2 hSlice
            rw [List.length_nil, List.length_eq_zero_iff] at hLength
            exact ⟨⟨param.name, type⟩, by simp [hLength], elem, hElem⟩
        | cons second tail =>
            rw [List.getLast?_cons_cons] at hLast
            obtain ⟨member, hMember, hElem⟩ := hOthers.last last hLast hSlice
            cases others with
            | nil => cases hMember
            | cons first others => exact ⟨member, by rwa [List.getLast?_cons_cons], hElem⟩

/-- A signature is the type of a function of plain types. -/
theorem signature_safe {receiver : Option (Param Operand)} {sig : Signature Operand}
    (hReceiver : ∀ param ∈ receiver, SoundParam s param) (h : SoundSignature s sig) :
    Safe s (Operand.signature receiver sig) fun func =>
      (Ty.func func).PlainFunc s.types ∧
        func.inputs.map (·.name) = (receiver.toList ++ sig.inputs).map (·.name) ∧
        func.outputs.map (·.name) = sig.outputs.map (·.name) ∧
        func.isMethod = receiver.isSome := by
  have hParams : ∀ param ∈ receiver.toList ++ sig.inputs, SoundParam s param := by
    intro param hParam
    rcases List.mem_append.mp hParam with hParam | hParam
    · exact hReceiver param (Option.mem_toList.mp hParam)
    · exact h.inputs param hParam
  refine (members_safe hParams).bind fun inputs hInputs => ?_
  refine (members_safe h.outputs).bind fun outputs hOutputs => ?_
  refine (Safe.newFunc _ _ _ _).mono fun func hFunc => ?_
  obtain ⟨rfl, rfl, hVariadic, hMethod⟩ := hFunc
  have hLength : func.inputs.length = receiver.toList.length + sig.inputs.length := by
    simpa using congrArg List.length hInputs.names
  refine ⟨?_, hInputs.names, hOutputs.names, hMethod⟩
  rw [Ty.PlainFunc]
  refine ⟨hInputs.plain, hOutputs.plain, fun variadic => ?_⟩
  obtain ⟨param, hParam, hSlice⟩ := h.variadic (by rw [← hVariadic, variadic])
  have hLast : param ∈ (receiver.toList ++ sig.inputs).getLast? := by
    rw [List.getLast?_append, hParam]
    rfl
  obtain ⟨⟨name, type⟩, hMember, elem, hElem⟩ := hInputs.last param hLast hSlice
  obtain ⟨init, hInit⟩ := List.getLast?_eq_some_iff.mp hMember
  refine ⟨init, name, elem, by rw [hInit, ← hElem], fun isMethod hEmpty => ?_⟩
  -- The receiver of a method comes before the input that is known to be there.
  rw [hMethod] at isMethod
  have hInputsLength : 0 < sig.inputs.length := by
    cases hEmptyInputs : sig.inputs with
    | nil =>
        rw [hEmptyInputs] at hParam
        cases hParam
    | cons first others => simp
  cases receiver with
  | none => cases isMethod
  | some receiver =>
      have hOne : func.inputs.length = 1 := by rw [hInit, hEmpty]; rfl
      rw [Option.toList_some, List.length_singleton] at hLength
      omega

theorem methods_safe (h : ∀ spec ∈ specs, SoundSignature s spec.signature) :
    Safe s (Operand.methods specs) (Ty.PlainMethods s.types) := by
  induction specs with
  | nil => exact .pure (by simp [Ty.PlainMethods])
  | cons spec rest ih =>
      refine (signature_safe (by simp) (h spec List.mem_cons_self)).bind fun func hFunc => ?_
      refine (ih fun s hs => h s (List.mem_cons_of_mem spec hs)).bind fun others hOthers => .pure ?_
      rw [Ty.PlainMethods]
      refine ⟨⟨hFunc.1, ?_⟩, hOthers⟩
      rintro ⟨other, ⟨⟩, hMethod⟩
      rw [hFunc.2.2.2] at hMethod
      cases hMethod

theorem structType_safe (hName : isWordTail name = true)
    (h : ∀ param ∈ fields, SoundParam s param) :
    Safe s (Operand.structType name fields) (Ty.Plain s.types) := by
  refine (members_safe h).bind fun members hMembers => ?_
  exact (Safe.newStruct name hName hMembers.plain).bind fun record hRecord => .pure hRecord

theorem interfaceType_safe (name : String) (h : ∀ spec ∈ specs, SoundSignature s spec.signature) :
    Safe s (Operand.interfaceType name specs) (Ty.Plain s.types) := by
  refine (methods_safe h).bind fun methods hMethods => Safe.read.bind fun env _ => .pure ?_
  rw [Ty.Plain]
  exact hMethods

theorem anonymousStruct_safe (h : ∀ param ∈ fields, SoundParam s param) :
    Safe s (Operand.anonymousStruct fields) (Ty.Plain s.types) := by
  refine Safe.nextSerial.bind fun serial _ => structType_safe ?_ h
  exact isWordTail_append.mpr ⟨by decide +kernel, isWordTail_toString serial⟩

theorem anonymousInterface_safe (h : ∀ spec ∈ specs, SoundSignature s spec.signature) :
    Safe s (Operand.anonymousInterface specs) (Ty.Plain s.types) := by
  unfold Operand.anonymousInterface
  split
  · exact .pure (by simp [Ty.Plain])
  · exact Safe.nextSerial.bind fun _ _ => interfaceType_safe _ h

end Operand

/-! ## Members -/

namespace ExprRule

variable {s : Setting}

theorem requireResolved_safe (type : Ty) (span : Span) :
    Safe s (requireResolved type span) fun _ => s.store.validate type = .ok () := by
  refine Safe.read.bind fun env hEnv => ?_
  rw [hEnv.types]
  split
  · next hValid => exact .pure hValid
  · exact .error _ _
  · exact .error _ _

theorem moduleMember_safe (id : ModuleId) (member : String) (span : Span) :
    Safe s (moduleMember id member span) (Value.Alone s) := by
  refine Safe.read.bind fun env hEnv => ?_
  dsimp only
  split
  · exact .error _ _
  · next value hValue =>
      have hForeign := hEnv.foreign id member value hValue
      split
      · next type =>
          exact (requireResolved_safe type span).bind fun _ hValid => .pure (hForeign hValid)
      · next hType =>
          refine .pure (hEnv.alone_globalValue? hValue ?_)
          cases value with
          | type denoted => exact absurd rfl (hType denoted)
          | _ => exact hForeign

theorem boundMethod?_safe {callee receiver : CExpr} {method : Option (Member Ty)}
    (hMethod : ∀ m ∈ method, ∃ func, m.type = .func func ∧
      BoundMethod.Sound s ⟨callee, receiver, func⟩) :
    Safe s (boundMethod? callee receiver method) fun found =>
      ∀ value ∈ found, value.Alone s := by
  cases method with
  | none => exact .pure (by simp)
  | some method =>
      obtain ⟨func, hFunc, hSound⟩ := hMethod method rfl
      have hAnswer : s.store.Answers (s.store.func? method.type) fun found =>
          found = some func := by
        rw [hFunc]
        rfl
      refine (Safe.types hAnswer).bind fun found hFound => .pure ?_
      rw [hFound.2]
      rintro _ ⟨⟩
      exact hSound

theorem valueMember_safe {receiver : Typed} (h : receiver.Sound s.values)
    (hMember : isIdentifier member = true) (span : Span) :
    Safe s (valueMember receiver member span) (Value.Alone s) := by
  refine (Safe.types (s.settled.pointeeStruct?_usable h.usable)).bind fun pointee hPointee => ?_
  split
  · next record =>
      have hRecord : (Ty.struct record).Plain s.values := hPointee.2 record rfl
      rw [Ty.Plain, Ty.plainAll_iff] at hRecord
      split
      · next field hField =>
          have hPlain : field.type.Plain s.values :=
            (hRecord.2 field (List.mem_of_find?_eq_some hField)).2
          refine .pure (Typed.Sound.of_plain hPlain ?_)
          rw [CExpr.Fits]
          exact ⟨h.fits, hMember⟩
      · refine Safe.read.bind fun env hEnv => ?_
        have hFits : (CExpr.global (record.cName ++ "__" ++ member)).Fits s.values.strict := by
          rw [CExpr.Fits]
          exact fun strict => isCName_method (hRecord.1 strict).1 (hRecord.1 strict).2
            (isWordTail_of_isIdentifier hMember)
        have hMethod : ∀ m ∈ env.program.types.method? record member, ∃ func,
            m.type = .func func ∧ BoundMethod.Sound s
              ⟨.global (record.cName ++ "__" ++ member), receiver.c, func⟩ := by
          intro m hm
          rw [hEnv.types, TypeStore.method?, Option.mem_def, Option.map_eq_some_iff] at hm
          obtain ⟨entry, hEntry, rfl⟩ := hm
          obtain ⟨func, hType, hGiven⟩ := s.settled.methods entry (List.mem_of_find?_eq_some hEntry)
          have hKey : entry.1 = record.key := by
            have := List.find?_some hEntry
            simp only [Bool.and_eq_true, beq_iff_eq] at this
            exact this.1
          exact ⟨func, hType, hGiven.plain, h.fits, ⟨trivial, hFits⟩,
            .inr ⟨record.key, member, rfl, hKey ▸ hGiven⟩⟩
        refine (boundMethod?_safe hMethod).bind fun found hFound => ?_
        split
        · next value => exact .pure (hFound value rfl)
        · exact .error _ _
  · refine (Safe.types (s.settled.interface?_usable h.usable)).bind fun found hFound => ?_
    split
    · next record =>
        have hRecord : (Ty.interface record).Plain s.values := hFound.2 record rfl
        rw [Ty.Plain, Ty.plainMethods_iff] at hRecord
        have hMethod : ∀ m ∈ record.method? member, ∃ func, m.type = .func func ∧
            BoundMethod.Sound s ⟨.dispatch member, receiver.c, func⟩ := by
          intro m hm
          obtain ⟨hPlain, hNot⟩ := hRecord m (List.mem_of_find?_eq_some hm)
          obtain ⟨func, hType⟩ := hPlain.exists_func
          have hFunc : func.isMethod = false :=
            Bool.eq_false_iff.mpr fun hMethod => hNot ⟨func, hType, hMethod⟩
          exact ⟨func, hType, hType ▸ hPlain, h.fits, ⟨trivial, by rw [CExpr.Fits]; exact hMember⟩,
            .inl ⟨member, rfl, hFunc⟩⟩
        refine (boundMethod?_safe hMethod).bind fun found hFound => ?_
        split
        · next value => exact .pure (hFound value rfl)
        · exact .error _ _
    · exact .error _ _

theorem dot_safe {receiver : Operand} (h : receiver.Sound s)
    (hMember : isIdentifier member = true) (span : Span) :
    Safe s (dot receiver member span) (Value.Alone s) := by
  refine Safe.bind h fun value hValue => ?_
  split
  · exact moduleMember_safe _ _ _
  · exact (Safe.toSingle span hValue).bind fun e he => valueMember_safe he hMember span

end ExprRule

/-! ## Type expressions -/

theorem paramOperands_eq_map (params : List (Param Expr)) :
    paramOperands params = params.map paramOperand := by
  induction params with
  | nil => rw [paramOperands, List.map_nil]
  | cons param rest ih => rw [paramOperands, ih, List.map_cons]

/-- An operand whose compilation gives a sound value, which is a slice type if it is
written as one, denotes a type. -/
theorem Operand.soundType_of_compile {operand : Operand}
    (h : Safe s operand.compile fun value => value.Alone s ∧
      (operand.IsSlice → ∃ elem, value = .type (.slice elem))) : operand.SoundType s := by
  refine Safe.bind h fun value hValue => ?_
  split
  · next denoted =>
      refine .pure ⟨hValue.1, fun hSlice => ?_⟩
      obtain ⟨elem, hElem⟩ := hValue.2 hSlice
      cases hElem
      exact ⟨elem, rfl⟩
  · exact .error _ _

mutual

/-- An expression that has the form of a type compiles to a sound value. -/
theorem compileType_safe (s : Setting) : (e : Expr) → e.IsType s.types.Word →
    Safe s (compileExpr e) fun value => value.Alone s ∧
      ((∃ span elem, e = .sliceType span elem) → ∃ elem, value = .type (.slice elem))
  | .ident span name, h => by
      rw [compileExpr]
      rw [Expr.IsType] at h
      exact (Safe.lookup h span).mono fun value hValue => ⟨hValue, by simp⟩
  | .dot span (.ident inner name) member, h => by
      rw [compileExpr]
      rw [Expr.IsType] at h
      have hName : Operand.Sound s ⟨.ident inner name, compileExpr (.ident inner name)⟩ := by
        rw [compileExpr]
        exact (Safe.lookup h.1 inner).mono fun _ hValue => hValue.given.sound
      exact (ExprRule.dot_safe hName h.2.1 span).mono fun value hValue => ⟨hValue, by simp⟩
  | .pointerType _ inner, h => by
      rw [compileExpr]
      rw [Expr.IsType] at h
      have hInner : Operand.SoundType s ⟨inner, compileExpr inner⟩ :=
        Operand.soundType_of_compile (compileType_safe s inner h)
      refine hInner.bind fun type hType => .pure ⟨?_, by simp⟩
      show (Ty.pointer type).Plain s.types
      rw [Ty.Plain]
      exact hType.1
  | .sliceType _ elem, h => by
      rw [compileExpr]
      rw [Expr.IsType] at h
      have hElem : Operand.SoundType s ⟨elem, compileExpr elem⟩ :=
        Operand.soundType_of_compile (compileType_safe s elem h)
      refine hElem.bind fun type hType => .pure ⟨?_, fun _ => ⟨type, rfl⟩⟩
      show (Ty.slice type).Plain s.types
      rw [Ty.Plain]
      exact hType.1
  | .mapType _ key value, h => by
      rw [compileExpr]
      rw [Expr.IsType] at h
      refine (Operand.soundType_of_compile (compileType_safe s key h.1)).bind fun key hKey => ?_
      refine (Operand.soundType_of_compile (compileType_safe s value h.2)).bind
        fun value hValue => .pure ⟨?_, by simp⟩
      show (Ty.map key value).Plain s.types
      rw [Ty.Plain]
      exact ⟨hKey.1, hValue.1⟩
  | .structType _ fields, h => by
      rw [compileExpr]
      rw [Expr.IsType] at h
      exact (Operand.anonymousStruct_safe (paramOperands_safe s fields h)).bind fun _ hType =>
        .pure ⟨hType, by simp⟩
  | .interfaceType _ specs, h => by
      rw [compileExpr]
      rw [Expr.IsType] at h
      exact (Operand.anonymousInterface_safe (specOperands_safe s specs h)).bind fun _ hType =>
        .pure ⟨hType, by simp⟩
  | .int _ _, h | .str _ _, h | .unary _ _ _, h | .binary _ _ _ _, h | .call _ _ _ _, h
  | .index _ _ _, h | .slice _ _ _ _, h | .ctor _ _ _, h => by simp [Expr.IsType] at h
  | .dot _ (.int _ _) _, h | .dot _ (.str _ _) _, h | .dot _ (.unary _ _ _) _, h
  | .dot _ (.binary _ _ _ _) _, h | .dot _ (.call _ _ _ _) _, h | .dot _ (.dot _ _ _) _, h
  | .dot _ (.index _ _ _) _, h | .dot _ (.slice _ _ _ _) _, h | .dot _ (.ctor _ _ _) _, h
  | .dot _ (.pointerType _ _) _, h | .dot _ (.sliceType _ _) _, h | .dot _ (.mapType _ _ _) _, h
  | .dot _ (.structType _ _) _, h | .dot _ (.interfaceType _ _) _, h => by simp [Expr.IsType] at h
termination_by structural e => e

theorem paramOperands_safe (s : Setting) : (params : List (Param Expr)) →
    ParamsFormed s.types.Word params → ∀ param ∈ paramOperands params, Operand.SoundParam s param
  | [], _, param, h => by simp [paramOperands] at h
  | ⟨name, type, _⟩ :: rest, hFormed, param, h => by
      rw [ParamsFormed] at hFormed
      rw [paramOperands, paramOperand] at h
      rcases List.mem_cons.mp h with rfl | h
      · exact ⟨hFormed.1.1, Operand.soundType_of_compile (compileType_safe s type hFormed.1.2)⟩
      · exact paramOperands_safe s rest hFormed.2 param h
termination_by structural params => params

theorem signatureOperands_safe (s : Setting) : (sig : Signature Expr) →
    SignatureFormed s.types.Word sig → Operand.SoundSignature s (signatureOperands sig)
  | ⟨variadic, inputs, outputs⟩, h => by
      rw [SignatureFormed] at h
      rw [signatureOperands]
      refine ⟨paramOperands_safe s inputs h.1, paramOperands_safe s outputs h.2.1,
        fun hVariadic => ?_⟩
      obtain ⟨init, name, span, elem, whole, rfl⟩ := h.2.2 hVariadic
      refine ⟨paramOperand ⟨name, .sliceType span elem, whole⟩, ?_, span, elem, rfl⟩
      simp [paramOperands_eq_map]
termination_by structural sig => sig

theorem specOperands_safe (s : Setting) : (specs : List (MethodSpec Expr)) →
    SpecsFormed s.types.Word specs →
      ∀ spec ∈ specOperands specs, Operand.SoundSignature s spec.signature
  | [], _, spec, h => by simp [specOperands] at h
  | ⟨name, signature, _⟩ :: rest, hFormed, spec, h => by
      rw [SpecsFormed] at hFormed
      rw [specOperands, specOperand] at h
      rcases List.mem_cons.mp h with rfl | h
      · exact signatureOperands_safe s signature hFormed.1.2
      · exact specOperands_safe s rest hFormed.2 spec h
termination_by structural specs => specs

end

theorem typeOperand_safe (s : Setting) (e : Expr) (h : e.IsType s.types.Word) :
    Operand.SoundType s ⟨e, compileExpr e⟩ :=
  Operand.soundType_of_compile (compileType_safe s e h)

/-- The type that a declaration gives a name. -/
theorem compileNamedType_safe (s : Setting) {e : Expr} (hName : isIdentifier name = true)
    (h : e.IsType s.types.Word) : Safe s (compileNamedType e name) (Ty.Plain s.types) := by
  unfold compileNamedType
  split
  · rw [Expr.IsType] at h
    exact Operand.structType_safe (isWordTail_of_isIdentifier hName) (paramOperands_safe s _ h)
  · rw [Expr.IsType] at h
    exact Operand.interfaceType_safe name (specOperands_safe s _ h)
  · exact (typeOperand_safe s e h).mono fun _ hType => hType.1

/-- The type of a declared function or method. -/
theorem compileSignature_safe (s : Setting) {receiver : Option (Param Expr)}
    {signature : Signature Expr} (hReceiver : ∀ param ∈ receiver,
      OptionalWord s.types.Word param.name ∧ param.type.IsType s.types.Word)
    (h : SignatureFormed s.types.Word signature) :
    Safe s (compileSignature receiver signature) fun func =>
      (Ty.func func).PlainFunc s.types ∧
        func.inputs.map (·.name) = (receiver.toList ++ signature.inputs).map (·.name) ∧
        func.outputs.map (·.name) = signature.outputs.map (·.name) ∧
        func.isMethod = receiver.isSome := by
  have hParam : ∀ param ∈ receiver.map paramOperand, Operand.SoundParam s param := by
    intro param hParam
    obtain ⟨⟨name, type, span⟩, hFound, rfl⟩ := Option.map_eq_some_iff.mp hParam
    obtain ⟨hName, hType⟩ := hReceiver _ hFound
    rw [paramOperand]
    exact ⟨hName, typeOperand_safe s type hType⟩
  refine (Operand.signature_safe hParam (signatureOperands_safe s signature h)).mono
    fun func hFunc => ?_
  obtain ⟨hPlain, hInputs, hOutputs, hMethod⟩ := hFunc
  have hName (param : Param Expr) : (paramOperand param).name = param.name := by
    rw [paramOperand]
  have hNames (params : List (Param Expr)) :
      (paramOperands params).map (·.name) = params.map (·.name) := by
    rw [paramOperands_eq_map, List.map_map]
    exact List.map_congr_left fun param _ => hName param
  obtain ⟨variadic, inputs, outputs⟩ := signature
  rw [signatureOperands] at hInputs hOutputs
  refine ⟨hPlain, ?_, hOutputs.trans (hNames outputs), by simpa using hMethod⟩
  rw [hInputs, List.map_append, List.map_append, hNames inputs]
  cases receiver with
  | none => rfl
  | some param => simp [hName]

end GoToC
