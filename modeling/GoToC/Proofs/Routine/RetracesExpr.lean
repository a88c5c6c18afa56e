import GoToC.Proofs.Routine.RetracesValue

/-!
# Expressions that are compiled alike

Once the types of a module are built, an expression that is compiled against two programs that
are alike stands for alike values, whatever it is made of.
-/

namespace GoToC

variable {args args' operands' : List Operand} {receiver receiver' operand' : Operand} {span : Span}
  {problem : Problem} {elem elem' a b : Ty} {inputs inputs' outputs outputs' : List (Member Ty)}
  {record record' : StructType Ty} {fields fields' : List (FieldInit Operand)}

theorem forall₂_find? {α β : Type} {related : α → β → Prop} {test : α → Bool} {test' : β → Bool}
    {as : List α} {bs : List β} (h : List.Forall₂ related as bs)
    (hTest : ∀ a b, related a b → test a = test' b) :
    Option.Rel related (as.find? test) (bs.find? test') := by
  induction h with
  | nil => exact .none
  | @cons a b as bs hHead _ ih =>
      rw [List.find?_cons, List.find?_cons, hTest a b hHead]
      cases test' b with
      | true => exact .some hHead
      | false => exact ih

namespace Retraces

variable {α β : Type} {p : Pairing} {ledger : Ledger} {action : RoutineM α} {action' : RoutineM β}
  {good : Ledger → α → β → Prop}

/-- The ledger may be taken to be valid. -/
theorem assuming (h : ∀ now, ledger ≤ now → (∃ serial serial', now.Valid p serial serial') →
    Retraces p now action action' good) : Retraces p ledger action action' good := by
  intro now le env env' routine routine' hEnv hRoutine
  exact h now le ⟨_, _, hRoutine.valid⟩ now (le_refl now) env env' routine routine' hEnv hRoutine

theorem errorThen {γ : Type} {next : γ → RoutineM α} :
    Retraces p ledger ((RoutineM.error span problem : RoutineM γ) >>= next) action' good := by
  intro now _ env env' routine routine' _ _ value after hRun
  cases hRun

/-- The check of a condition that holds for both or for neither. -/
theorem errorWhen {check check' : Prop} [Decidable check] [Decidable check']
    (hSame : check ↔ check') {span' : Span} {problem' : Problem}
    (h : ¬ check → Retraces p ledger action action' good) :
    Retraces p ledger (do
      if check then RoutineM.error span problem
      action) (do
      if check' then RoutineM.error span' problem'
      action') good := by
  by_cases hCheck : check
  · simp only [if_pos hCheck]
    exact .errorThen
  · simp only [if_neg hCheck, if_neg (hSame.not.mp hCheck)]
    exact h hCheck

end Retraces

/-! ## Calls -/

namespace Call

variable {p : Pairing} {ledger : Ledger}

/-- The type of integers is alike to itself. -/
theorem int_alike : p.alike ledger (.prim .int) (.prim .int) :=
  p.formed (.prim .int) trivial

theorem checkCount_retraces (variadic spread : Bool) (given inputs : Nat) (span span' : Span) :
    Retraces p ledger (checkCount variadic spread given inputs span)
      (checkCount variadic spread given inputs span') fun _ _ _ => True := by
  refine .errorIf rfl fun _ => ?_
  split
  · split
    · exact .error
    · exact .pure fun _ _ => trivial
  · split
    · exact .error
    · exact .pure fun _ _ => trivial

theorem intrinsic?_retraces {callee callee' : Expr} (h : callee.bare = callee'.bare) :
    Retraces p ledger (intrinsic? callee) (intrinsic? callee') fun _ => Eq := by
  unfold intrinsic?
  rw [Expr.ident?_congr h]
  dsimp only
  split
  · exact .pure fun _ _ => rfl
  · next name found _ =>
      refine Retraces.read.bind fun now _ env env' hEnv => ?_
      refine Retraces.get.bind fun now le routine routine' hRoutine => ?_
      have hOwn : (env.program.global? env.module name).isSome =
          (env'.program.global? env'.module name).isSome := by
        have hKinds := congrArg Option.isSome (hEnv.kinds env.module name)
        rw [Option.isSome_map, Option.isSome_map] at hKinds
        rw [hKinds, hEnv.module]
      rw [Retraces.isBound_eq hRoutine name, hOwn]
      split
      · exact .pure fun _ _ => rfl
      · exact .pure fun _ _ => rfl

variable [p.Whole]

theorem appendItems_retraces (slice slice' : String) (context : String) (span span' : Span)
    (hElem : p.alike ledger elem elem') {operands : List Operand}
    (h : List.Forall₂ (Operand.Twin p) operands operands') :
    Retraces p ledger (appendItems slice elem context span operands)
      (appendItems slice' elem' context span' operands') fun _ _ _ => True := by
  induction h generalizing ledger with
  | nil => exact .pure fun _ _ => trivial
  | cons hFirst _ ih =>
      refine hFirst.value.bind fun now le value value' hValue => ?_
      have hElem := p.mono le hElem
      refine (Retraces.convert hElem hValue _ _ _ _).bind fun now le c c' _ => ?_
      have hElem := p.mono le hElem
      refine (Retraces.temp hElem _ _).bind fun now le item item' _ => ?_
      refine (Retraces.emit _ _).bind fun now le' _ _ _ => (Retraces.emit _ _).bind
        fun now le'' _ _ _ => ?_
      exact ih (p.mono (le_trans le (le_trans le' le'')) hElem)

theorem packVariadic_retraces (hSlice : p.alike ledger a b) (span span' : Span)
    {operands : List Operand} (h : List.Forall₂ (Operand.Twin p) operands operands') :
    Retraces p ledger (packVariadic a operands span) (packVariadic b operands' span')
      fun _ _ _ => True := by
  refine (Retraces.sliceElement? hSlice).bind fun now le found found' hFound => ?_
  cases hFound with
  | none => exact .fail
  | some hElem =>
      refine (Retraces.temp (p.mono le hSlice) _ _).bind fun now le slice slice' _ => ?_
      refine (Retraces.emit _ _).bind fun now le' _ _ _ => ?_
      refine (appendItems_retraces _ _ _ _ _ (p.mono (le_trans le le') hElem) h).bind
        fun _ _ _ _ _ => .pure fun _ _ => trivial

theorem fixedArgs_retraces (number : Nat) {operands : List Operand}
    (h : List.Forall₂ (Operand.Twin p) operands operands')
    (hInputs : MembersTwin p ledger inputs inputs') :
    Retraces p ledger (fixedArgs number operands inputs) (fixedArgs number operands' inputs')
      fun _ _ _ => True := by
  induction h generalizing number ledger inputs inputs' with
  | nil => exact .pure fun _ _ => trivial
  | cons hFirst _ ih =>
      cases hInputs with
      | nil => exact .pure fun _ _ => trivial
      | cons hInput hRest =>
          refine hFirst.value.bind fun now le value value' hValue => ?_
          refine (Retraces.convert (p.mono le hInput.2) hValue _ _ _ _).bind
            fun now le' c c' _ => ?_
          exact (ih (number + 1) (MembersTwin.mono (le_trans le le') hRest)).bind
            fun _ _ _ _ _ => .pure fun _ _ => trivial

/-- The temporaries for several outputs have the types of the outputs; their names may differ. -/
theorem resultTemps_retraces (serial serial' : Nat) (span span' : Span) (index : Nat)
    (h : MembersTwin p ledger outputs outputs') :
    Retraces p ledger (resultTemps serial span index outputs)
      (resultTemps serial' span' index outputs')
      fun now => List.Forall₂ fun a b => p.alike now a.type b.type := by
  induction outputs generalizing index ledger outputs' with
  | nil =>
      cases h
      exact .pure fun _ _ => .nil
  | cons output rest ih =>
      cases h with
      | cons hFirst hRest =>
          refine (Retraces.addLocal _ _ hFirst.2 _ _).bind fun now le _ _ _ => ?_
          refine (ih (index + 1) (MembersTwin.mono le hRest)).bind
            fun now' le' others others' hOthers => .pure fun later le'' => ?_
          refine .cons (p.mono (le_trans le (le_trans le' le'')) hFirst.2) ?_
          exact hOthers.imp fun _ _ => p.mono le''

/-- The types of calls. -/
theorem results_retraces (h : MembersTwin p ledger outputs outputs') (span span' : Span) :
    Retraces p ledger (results outputs span) (results outputs' span')
      fun now found found' => p.alike now found.2 found'.2 := by
  have hSeveral : Retraces p ledger
      (do
        let members ← resultTemps (← RoutineM.nextSerial) span 0 outputs
        return (members.map (fun m => CExpr.addressOf m.name), Ty.multi members))
      (do
        let members ← resultTemps (← RoutineM.nextSerial) span' 0 outputs'
        return (members.map (fun m => CExpr.addressOf m.name), Ty.multi members))
      fun now found found' => p.alike now found.2 found'.2 := by
    refine Retraces.nextSerial.bind fun now le _ _ _ => ?_
    refine (resultTemps_retraces _ _ _ _ 0 (MembersTwin.mono le h)).bind
      fun now' _ members members' hMembers => .pure fun later le' =>
        Pairing.Whole.formed (.multi ?_)
    exact hMembers.imp fun _ _ => p.mono le'
  cases h with
  | nil => exact .pure fun _ _ => p.formed (.prim .void) trivial
  | cons hFirst hRest =>
      cases hRest with
      | nil => exact .pure fun _ le => p.mono le hFirst.2
      | cons => exact hSeveral

theorem apply_retraces (callee callee' : CExpr) {func func' : FuncType Ty}
    (leading leading' : List CExpr) (spread : Bool) (span span' : Span)
    (hFunc : FuncType.Twin (p.alike ledger) func func')
    (hInputs : MembersTwin p ledger inputs inputs') (h : List.Forall₂ (Operand.Twin p) args args') :
    Retraces p ledger (apply callee func leading inputs args spread span)
      (apply callee' func' leading' inputs' args' spread span') fun now => Value.Twin p now := by
  -- Once all arguments are there, the call is put together.
  have hCall {now : Ledger} (le : ledger ≤ now) (passed passed' packed packed' : List CExpr) :
      Retraces p now (called callee (leading ++ passed ++ packed) func.outputs span)
        (called callee' (leading' ++ passed' ++ packed') func'.outputs span')
        fun now => Value.Twin p now :=
    (results_retraces (MembersTwin.mono le hFunc.outputs) _ _).bind fun _ _ _ _ hType =>
      .pure fun _ le => p.mono le hType
  unfold apply
  rw [← hFunc.variadic, ← h.length_eq, ← hInputs.length_eq]
  refine (checkCount_retraces _ _ _ _ _ _).bind fun now le _ _ _ => ?_
  refine (fixedArgs_retraces 1 (List.forall₂_take _ h) (hInputs.mono le)).bind
    fun now' le' passed passed' _ => ?_
  have le := le_trans le le'
  cases func.variadic && !spread with
  | false => exact hCall le passed passed' [] []
  | true =>
      have hLast := List.forall₂_drop (inputs.length - 1) hInputs
      simp only [if_true]
      revert hLast
      generalize inputs.drop (inputs.length - 1) = last
      generalize inputs'.drop (inputs.length - 1) = last'
      intro hLast
      cases hLast with
      | nil => exact .fail
      | cons hInput _ =>
          refine (packVariadic_retraces (p.mono le hInput.2) _ _ (List.forall₂_drop _ h)).bind
            fun now le' packed packed' _ => ?_
          exact hCall (le_trans le le') passed passed' [packed] [packed']

theorem conversion_retraces (hType : p.alike ledger a b) (span span' : Span)
    (h : List.Forall₂ (Operand.Twin p) args args') :
    Retraces p ledger (conversion a args span) (conversion b args' span')
      fun now => Value.Twin p now := by
  cases h with
  | nil => exact .error
  | cons hArg hRest =>
      cases hRest with
      | cons => exact .error
      | nil =>
          refine hArg.value.bind fun now le value value' hValue => ?_
          have hType := p.mono le hType
          have hRefused (later : Ledger) : Retraces p later (attempted a value span false)
              (attempted b value' span' false) fun now => Value.Twin p now := .mismatch
          -- Four questions in a row; only if none of them rules it out, a cast is tried.
          refine (Retraces.isStorable hType).bind fun now₁ le₁ storable _ hSame => ?_
          subst hSame
          cases storable with
          | false => exact hRefused now₁
          | true =>
          have hType := p.mono le₁ hType
          have hValue := hValue.mono le₁
          refine (Retraces.func? hType).bind fun now₂ le₂ found found' hFound => ?_
          cases hFound with
          | some => exact hRefused now₂
          | none =>
          have hType := p.mono le₂ hType
          have hValue := hValue.mono le₂
          refine (Retraces.func? hValue).bind fun now₃ le₃ found found' hFound => ?_
          cases hFound with
          | some => exact hRefused now₃
          | none =>
          have hType := p.mono le₃ hType
          have hValue := hValue.mono le₃
          refine (Retraces.isPrim hValue .void).bind fun now₄ le₄ isVoid _ hSame => ?_
          subst hSame
          cases isVoid with
          | true => exact hRefused now₄
          | false =>
              have hType := p.mono le₄ hType
              refine (Retraces.cast hType (hValue.mono le₄)).bind fun now₅ le₅ found _ hSame => ?_
              subst hSame
              cases found with
              | some conversion => exact .pure fun _ le => p.mono (le_trans le₅ le) hType
              | none => exact .mismatch

theorem lengthOf_retraces (spread : Bool) (span span' : Span)
    (h : List.Forall₂ (Operand.Twin p) args args') :
    Retraces p ledger (lengthOf args spread span) (lengthOf args' spread span')
      fun now => Value.Twin p now := by
  cases h with
  | nil => exact .error
  | cons hArg hRest =>
      cases hRest with
      | cons => exact .error
      | nil =>
          refine .errorIf rfl fun _ => ?_
          refine hArg.value.bind fun now _ value value' hValue => ?_
          refine (Retraces.isPrim hValue .string).bind fun now le isString _ hSame => ?_
          subst hSame
          cases isString with
          | true => exact .pure fun _ _ => int_alike
          | false =>
              refine (Retraces.sliceElement? (hValue.mono le)).bind
                fun now _ found found' hFound => ?_
              cases hFound with
              | none => exact .error
              | some =>
                  exact (Retraces.mild TypeStore.mild_cType).bind fun _ _ _ _ _ =>
                    .pure fun _ _ => int_alike

theorem appendSpread_retraces (result result' : String) {slice slice' : Ty}
    {other other' : Operand} (span span' : Span) (hSlice : p.alike ledger slice slice')
    (hElem : p.alike ledger elem elem') (h : other.Twin p other') :
    Retraces p ledger (appendSpread result slice elem other span)
      (appendSpread result' slice' elem' other' span') fun _ _ _ => True := by
  refine h.value.bind fun now le value value' hValue => ?_
  have hSlice := p.mono le hSlice
  refine (Retraces.convert hSlice hValue _ _ _ _).bind fun now le₁ c c' _ => ?_
  refine (Retraces.temp (p.mono le₁ hSlice) _ _).bind fun now le₂ source source' _ => ?_
  have hElem := p.mono (le_trans le (le_trans le₁ le₂)) hElem
  refine (Retraces.temp hElem _ _).bind fun now _ item item' _ => ?_
  refine (Retraces.emit _ _).bind fun now _ _ _ _ => ?_
  exact (Retraces.mild TypeStore.mild_cType).bind fun _ _ _ _ _ => .emit _ _

theorem appended_retraces (spread : Bool) (span span' : Span)
    (h : List.Forall₂ (Operand.Twin p) args args') :
    Retraces p ledger (appended args spread span) (appended args' spread span')
      fun now => Value.Twin p now := by
  cases h with
  | nil => exact .error
  | cons hFirst hItems =>
      refine hFirst.value.bind fun now _ slice slice' hSlice => ?_
      refine (Retraces.sliceElement? hSlice).bind fun now le found found' hFound => ?_
      have hSlice := hSlice.mono le
      cases hFound with
      | none => exact .error
      | some hElem =>
          refine (Retraces.temp hSlice _ _).bind fun now le₁ result result' _ => ?_
          refine (Retraces.emit _ _).bind fun now le₂ _ _ _ => ?_
          have le := le_trans le₁ le₂
          have hSlice := hSlice.mono le
          have hElem := p.mono le hElem
          have hDone {later : Ledger} (le : now ≤ later) : Retraces p later
              (Pure.pure (Value.expr ⟨.localVar result, slice.type⟩))
              (Pure.pure (Value.expr ⟨.localVar result', slice'.type⟩))
              fun now => Value.Twin p now := .pure fun _ le' => p.mono (le_trans le le') hSlice
          cases spread with
          | false =>
              exact (appendItems_retraces _ _ _ _ _ hElem hItems).bind fun _ le _ _ _ => hDone le
          | true =>
              cases hItems with
              | nil => exact .errorThen
              | cons hOther hRest =>
                  cases hRest with
                  | cons => exact .errorThen
                  | nil =>
                      exact (appendSpread_retraces _ _ _ _ hSlice hElem hOther).bind
                        fun _ le _ _ _ => hDone le

theorem call_retraces {callee callee' : Operand} (spread : Bool) (span span' : Span)
    (hCallee : callee.Twin p callee') (h : List.Forall₂ (Operand.Twin p) args args') :
    Retraces p ledger (call callee args spread span) (call callee' args' spread span')
      fun now => Value.Twin p now := by
  refine (intrinsic?_retraces hCallee.source).bind fun now _ found _ hSame => ?_
  subst hSame
  cases found with
  | some intrinsic =>
      cases intrinsic with
      | len => exact lengthOf_retraces _ _ _ h
      | append => exact appended_retraces _ _ _ h
  | none =>
      refine (hCallee.compile now).bind fun now _ value value' hValue => ?_
      have hOther : Retraces p now (calledThrough value args spread span)
          (calledThrough value' args' spread span') fun now => Value.Twin p now := by
        refine (Retraces.toSingle _ _ hValue).bind fun now _ e e' he => ?_
        refine (Retraces.func? he).bind fun now _ found found' hFound => ?_
        cases hFound with
        | none => exact .error
        | some hFunc => exact apply_retraces _ _ _ _ _ _ _ hFunc hFunc.inputs h
      cases value with
      | type a =>
          cases value' with
          | type b => exact conversion_retraces hValue _ _ h
          | _ => exact hValue.elim
      | method bound =>
          cases value' with
          | method bound' =>
              have hFunc : FuncType.Twin (p.alike now) bound.func bound'.func := hValue
              have hInputs : MembersTwin p now
                  (if bound.func.isMethod then bound.func.inputs.drop 1 else bound.func.inputs)
                  (if bound'.func.isMethod then bound'.func.inputs.drop 1
                    else bound'.func.inputs) := by
                rw [← hFunc.isMethod]
                split
                · exact List.forall₂_drop 1 hFunc.inputs
                · exact hFunc.inputs
              exact apply_retraces _ _ _ _ _ _ _ hFunc hInputs h
          | _ => exact hValue.elim
      | _ => cases value' <;> first | exact hValue.elim | exact hOther

end Call

/-! ## Members -/

/-- Twins have alike members of the same names. -/
theorem Ledger.Valid.member {p : Pairing} [p.Whole] {ledger : Ledger} {serial serial' : Nat}
    (h : ledger.Valid p serial serial') {a b : NamedType} (hTwins : ledger.twins a b)
    (name : String) :
    Option.Rel (Member.Twin (p.alike ledger)) (a.members.find? (·.name == name))
      (b.members.find? (·.name == name)) := by
  have hMembers : MembersTwin p ledger a.members b.members :=
    (h.members a b hTwins).imp fun _ _ => .imp fun _ _ h => h.alike
  exact forall₂_find? hMembers fun x y hTwin => by rw [hTwin.1]

/-- Twins were given alike methods. -/
theorem method?_twin {p : Pairing} {ledger : Ledger} (hLedger : ledger.OneToOne)
    (hMethods : List.Forall₂ (MethodEntry.Twin p ledger) p.left.methods p.right.methods)
    (hTwins : ledger.twins (.struct record) (.struct record')) (name : String) :
    Option.Rel (Member.Twin (p.alike ledger)) (p.left.method? record name)
      (p.right.method? record' name) := by
  have hFound := @forall₂_find? _ _ _ (fun entry => entry.1 == record.key && entry.2.name == name)
    (fun entry => entry.1 == record'.key && entry.2.name == name) _ _ hMethods ?_
  · unfold TypeStore.method?
    revert hFound
    generalize p.left.methods.find? _ = found
    generalize p.right.methods.find? _ = found'
    intro hFound
    cases hFound with
    | none => exact .none
    | some hEntry => exact .some hEntry.2
  · rintro ⟨key, member⟩ ⟨key', member'⟩ ⟨⟨owner, owner', hOwners, hKey, hKey'⟩, hMember⟩
    dsimp only at hKey hKey' hMember ⊢
    have hTitle {r t : StructType Ty} (h : r.key = t.key) :
        (NamedType.struct r).title = (NamedType.struct t).title := by
      simp only [StructType.key, StructKey.mk.injEq] at h
      simp [NamedType.title, NamedType.tag, NamedType.package, NamedType.name, h]
    have hKeys : key = record.key ↔ key' = record'.key := by
      rw [hKey, hKey']
      constructor
      · intro hSame
        have hBoth := hLedger.left _ _ _ _ hOwners hTwins (hTitle hSame)
        rw [NamedType.struct.inj hBoth.2]
      · intro hSame
        have hBoth := hLedger.right _ _ _ _ hOwners hTwins (hTitle hSame)
        rw [NamedType.struct.inj hBoth.1]
    rw [hMember.1, Bool.eq_iff_iff]
    simp only [Bool.and_eq_true, beq_iff_eq, hKeys]

namespace ExprRule

open Call (int_alike)

variable {p : Pairing} {ledger : Ledger}

theorem index_retraces {subscript subscript' : Operand} (hReceiver : receiver.Twin p receiver')
    (hSubscript : subscript.Twin p subscript') :
    Retraces p ledger (index receiver subscript) (index receiver' subscript')
      fun now => Value.Twin p now :=
  (hReceiver.compile ledger).bind fun now _ _ _ hContainer => (hSubscript.compile now).bind
    fun _ le _ _ hPosition => .pure fun _ le' =>
      ⟨hContainer.mono (le_trans le le'), hPosition.mono le'⟩

variable [p.Whole]

theorem boundMethod?_retraces (callee callee' receiver receiver' : CExpr)
    {method method' : Option (Member Ty)}
    (h : Option.Rel (Member.Twin (p.alike ledger)) method method') :
    Retraces p ledger (boundMethod? callee receiver method) (boundMethod? callee' receiver' method')
      fun now => Option.Rel (Value.Twin p now) := by
  cases h with
  | none => exact .pure fun _ _ => .none
  | some hMember =>
      refine (Retraces.func? hMember.2).bind fun now _ found found' hFound => .pure fun _ le => ?_
      cases hFound with
      | none => exact .none
      | some hFunc => exact .some (hFunc.mono le)

theorem valueMember_retraces {receiver receiver' : Typed} (member : String) (span span' : Span)
    (h : receiver.Twin p ledger receiver') :
    Retraces p ledger (valueMember receiver member span) (valueMember receiver' member span')
      fun now => Value.Twin p now := by
  have hMethod {now : Ledger} (callee callee' : CExpr) {method method' : Option (Member Ty)}
      (hMember : Option.Rel (Member.Twin (p.alike now)) method method') :
      Retraces p now (boundMethod? callee receiver.c method >>= foundMethod receiver member span)
        (boundMethod? callee' receiver'.c method' >>= foundMethod receiver' member span')
        fun now => Value.Twin p now := by
    refine (boundMethod?_retraces callee callee' _ _ hMember).bind
      fun now _ found found' hFound => ?_
    cases hFound with
    | none => exact .error
    | some hValue => exact .pure fun _ le => hValue.mono le
  refine (Retraces.pointeeStruct? h).bind fun now le found found' hFound => ?_
  refine .assuming fun now le' ⟨_, _, hValid⟩ => ?_
  cases hFound with
  | @some record record' hTwins =>
      have hTwins := le' _ _ hTwins
      have hField := hValid.member hTwins member
      dsimp only
      unfold StructType.field?
      revert hField
      show Option.Rel _ (record.fields.find? _) (record'.fields.find? _) → _
      generalize record.fields.find? _ = field
      generalize record'.fields.find? _ = field'
      intro hField
      cases hField with
      | some hMember => exact .pure fun _ le => p.mono le hMember.2
      | none =>
          refine Retraces.read.bind fun now le env env' hEnv => .assuming fun later le' hValid => ?_
          obtain ⟨_, _, hValid⟩ := hValid
          rw [hEnv.left, hEnv.right]
          refine hMethod _ _ (method?_twin hValid.toOneToOne (hEnv.mono le').methods ?_ member)
          exact le' _ _ (le _ _ hTwins)
  | none =>
      refine (Retraces.interface? (h.mono (le_trans le le'))).bind
        fun now le found found' hFound => ?_
      refine .assuming fun now le' ⟨_, _, hValid⟩ => ?_
      cases hFound with
      | some hTwins => exact hMethod _ _ (hValid.member (le' _ _ hTwins) member)
      | none => exact .error

theorem dot_retraces (h : receiver.Twin p receiver') (member : String) (span span' : Span) :
    Retraces p ledger (dot receiver member span) (dot receiver' member span')
      fun now => Value.Twin p now := by
  refine (h.compile ledger).bind fun now _ value value' hValue => ?_
  have hOther : Retraces p now
      (do valueMember (← RoutineM.toSingle span value) member span)
      (do valueMember (← RoutineM.toSingle span' value') member span')
      fun now => Value.Twin p now :=
    (Retraces.toSingle _ _ hValue).bind fun _ _ _ _ he => valueMember_retraces member _ _ he
  cases value with
  | module id =>
      cases value' with
      | module id' =>
          obtain rfl : id = id' := hValue
          exact moduleMember_retraces (Pairing.Whole.names id) member span span'
      | _ => exact hValue.elim
  | _ => cases value' <;> first | exact hValue.elim | exact hOther

/-! ## Expressions -/

theorem unary_retraces (op : UnaryOp) {operand : Operand} (h : operand.Twin p operand') :
    Retraces p ledger (unary op operand) (unary op operand') fun now => Value.Twin p now :=
  h.value.bind fun _ _ _ _ _ => .pure fun _ _ => p.formed (.prim _) trivial

theorem binary_retraces (op : BinaryOp) {left right left' right' : Operand}
    (hLeft : left.Twin p left') (hRight : right.Twin p right') :
    Retraces p ledger (binary op left right) (binary op left' right') fun now => Value.Twin p now :=
  hLeft.value.bind fun _ _ _ _ _ => hRight.value.bind fun _ _ _ _ _ =>
    .pure fun _ _ => int_alike

theorem sliceBound_retraces {operand : Operand} (h : operand.Twin p operand') :
    Retraces p ledger (sliceBound operand) (sliceBound operand') fun _ _ _ => True := by
  refine h.value.bind fun now _ value value' hValue => ?_
  refine (Retraces.convert int_alike hValue _ _ _ _).bind fun now _ c c' _ => ?_
  refine (Retraces.temp int_alike _ _).bind fun now _ bound bound' _ => ?_
  exact (Retraces.emit _ _).bind fun _ _ _ _ _ => .pure fun _ _ => trivial

/-- The bounds are given for both or for neither. -/
theorem optSliceBound_retraces {bound bound' : Option Operand}
    (h : Option.Rel (Operand.Twin p) bound bound') :
    Retraces p ledger (optSliceBound bound) (optSliceBound bound')
      fun _ found found' => found.isSome = found'.isSome := by
  cases h with
  | none => exact .pure fun _ _ => rfl
  | some hOperand =>
      rw [optSliceBound, optSliceBound, map_eq_pure_bind, map_eq_pure_bind]
      exact (sliceBound_retraces hOperand).bind fun _ _ _ _ _ => .pure fun _ _ => rfl

theorem slicedElement_retraces {container container' : Typed}
    (h : container.Twin p ledger container') (span span' : Span) :
    Retraces p ledger (slicedElement container span) (slicedElement container' span')
      fun _ _ _ => True := by
  refine (Retraces.isPrim h .string).bind fun now le isString _ hSame => ?_
  subst hSame
  cases isString with
  | true => exact .pure fun _ _ => trivial
  | false =>
      refine (Retraces.sliceElement? (h.mono le)).bind fun now _ found found' hFound => ?_
      cases hFound with
      | none => exact .error
      | some =>
          exact (Retraces.mild TypeStore.mild_cType).bind fun _ _ _ _ _ =>
            .pure fun _ _ => trivial

theorem slice_retraces {lo hi lo' hi' : Option Operand} (span span' : Span)
    (hReceiver : receiver.Twin p receiver') (hLo : Option.Rel (Operand.Twin p) lo lo')
    (hHi : Option.Rel (Operand.Twin p) hi hi') :
    Retraces p ledger (slice receiver lo hi span) (slice receiver' lo' hi' span')
      fun now => Value.Twin p now := by
  refine hReceiver.value.bind fun now _ container container' hContainer => ?_
  refine (slicedElement_retraces hContainer _ _).bind fun now le elem elem' _ => ?_
  have hContainer := hContainer.mono le
  refine (Retraces.temp hContainer _ _).bind fun now le₁ copy copy' _ => ?_
  refine (Retraces.emit _ _).bind fun now le₂ _ _ _ => ?_
  refine (optSliceBound_retraces hLo).bind fun now le₃ lo lo' hLo => ?_
  refine (optSliceBound_retraces hHi).bind fun now le₄ hi hi' hHi => ?_
  have hContainer := hContainer.mono (le_trans le₁ (le_trans le₂ (le_trans le₃ le₄)))
  have hDone {later : Ledger} (le : now ≤ later) : Retraces p later
      (Pure.pure (Value.expr ⟨.localVar copy, container.type⟩))
      (Pure.pure (Value.expr ⟨.localVar copy', container'.type⟩))
      fun now => Value.Twin p now := .pure fun _ le' => hContainer.mono (le_trans le le')
  rw [hLo, hHi]
  dsimp only
  split
  · exact (Retraces.emit _ _).bind fun _ le _ _ _ => hDone le
  · exact hDone (le_refl now)

/-- A field of a new struct and what it is set to. -/
structure InitTwin (p : Pairing) (init init' : FieldInit Operand) : Prop where
  name : init.name = init'.name
  value : init.value.Twin p init'.value

theorem initFields_retraces (handle handle' : String)
    (hTwins : ledger.twins (.struct record) (.struct record'))
    (h : List.Forall₂ (InitTwin p) fields fields') :
    Retraces p ledger (initFields handle record fields) (initFields handle' record' fields')
      fun _ _ _ => True := by
  induction h generalizing ledger with
  | nil => exact .pure fun _ _ => trivial
  | @cons init init' rest rest' hInit _ ih =>
      refine .assuming fun now le ⟨_, _, hValid⟩ => ?_
      have hTwins := le _ _ hTwins
      have hField := hValid.member hTwins init.name
      unfold initFields StructType.field?
      rw [← hInit.name]
      revert hField
      show Option.Rel _ (record.fields.find? _) (record'.fields.find? _) → _
      generalize record.fields.find? _ = field
      generalize record'.fields.find? _ = field'
      intro hField
      cases hField with
      | none => exact .error
      | some hMember =>
          refine hInit.value.value.bind fun now le₁ value value' hValue => ?_
          refine (Retraces.convert (p.mono le₁ hMember.2) hValue _ _ _ _).bind
            fun now le₂ c c' _ => ?_
          refine (Retraces.emit _ _).bind fun now le₃ _ _ _ => ih ?_
          exact le₃ _ _ (le₂ _ _ (le₁ _ _ hTwins))

theorem ctor_retraces {type type' : Operand} (span span' : Span) (hType : type.TypeTwin p type')
    (h : List.Forall₂ (InitTwin p) fields fields') :
    Retraces p ledger (ctor type fields span) (ctor type' fields' span')
      fun now => Value.Twin p now := by
  refine (hType ledger).bind fun now _ a b hAlike => ?_
  refine (Retraces.struct? hAlike).bind fun now le found found' hFound => ?_
  cases hFound with
  | none => exact .error
  | some hTwins =>
      have hPointer : p.alike now (.pointer a) (.pointer b) :=
        p.formed (.pointer (p.mono le hAlike)) trivial
      refine (Retraces.temp hPointer _ _).bind fun now le₁ handle handle' _ => ?_
      refine (Retraces.emit _ _).bind fun now le₂ _ _ _ => ?_
      refine (initFields_retraces _ _ (le₂ _ _ (le₁ _ _ hTwins)) h).bind fun now le₃ _ _ _ => ?_
      exact .pure fun _ le₄ => p.mono (le_trans le₁ (le_trans le₂ (le_trans le₃ le₄))) hPointer

end ExprRule

section Expressions

variable {word : String → Prop}

mutual

/-- Expressions of one form stand for alike values, once the types of their module are built. -/
theorem operand_retraces {p : Pairing} [p.Whole] : (e e' : Expr) → e.Formed word →
    e.bare = e'.bare → Operand.Twin p ⟨e, compileExpr e⟩ ⟨e', compileExpr e'⟩
  | .int span value, e', _, h => by
      refine ⟨h, fun ledger => ?_⟩
      cases Expr.sameForm_of_bare h
      rw [compileExpr, compileExpr]
      exact .pure fun _ _ => p.formed (.prim .constInt) trivial
  | .str span text, e', _, h => by
      refine ⟨h, fun ledger => ?_⟩
      cases Expr.sameForm_of_bare h
      rw [compileExpr, compileExpr]
      exact .pure fun _ _ => p.formed (.prim .string) trivial
  | .ident span name, e', _, h => by
      refine ⟨h, fun ledger => ?_⟩
      cases Expr.sameForm_of_bare h
      rw [compileExpr, compileExpr]
      exact (Retraces.lookup name _ _).mono fun _ _ _ _ hValue => hValue.twin
  | .unary span op inner, e', hFormed, h => by
      refine ⟨h, fun ledger => ?_⟩
      rw [Expr.Formed] at hFormed
      cases Expr.sameForm_of_bare h with
      | unary _ _ _ hInner =>
          rw [compileExpr, compileExpr]
          exact ExprRule.unary_retraces op (operand_retraces _ _ hFormed hInner)
  | .binary span op left right, e', hFormed, h => by
      refine ⟨h, fun ledger => ?_⟩
      rw [Expr.Formed] at hFormed
      cases Expr.sameForm_of_bare h with
      | binary _ _ _ hLeft hRight =>
          rw [compileExpr, compileExpr]
          exact ExprRule.binary_retraces op (operand_retraces left _ hFormed.1 hLeft)
            (operand_retraces right _ hFormed.2 hRight)
  | .call span callee args spread, e', hFormed, h => by
      refine ⟨h, fun ledger => ?_⟩
      rw [Expr.Formed] at hFormed
      cases Expr.sameForm_of_bare h with
      | call _ span' _ hCallee hArgs =>
          rw [compileExpr, compileExpr]
          exact Call.call_retraces spread span span' (operand_retraces callee _ hFormed.1 hCallee)
            (operands_retraces args _ hFormed.2 hArgs)
  | .dot span receiver member, e', hFormed, h => by
      refine ⟨h, fun ledger => ?_⟩
      rw [Expr.Formed] at hFormed
      cases Expr.sameForm_of_bare h with
      | dot _ span' _ hReceiver =>
          rw [compileExpr, compileExpr]
          exact ExprRule.dot_retraces (operand_retraces receiver _ hFormed.1 hReceiver) member
            span span'
  | .index span receiver index, e', hFormed, h => by
      refine ⟨h, fun ledger => ?_⟩
      rw [Expr.Formed] at hFormed
      cases Expr.sameForm_of_bare h with
      | index _ _ hReceiver hIndex =>
          rw [compileExpr, compileExpr]
          exact ExprRule.index_retraces (operand_retraces receiver _ hFormed.1 hReceiver)
            (operand_retraces index _ hFormed.2 hIndex)
  | .slice span receiver lo hi, e', hFormed, h => by
      refine ⟨h, fun ledger => ?_⟩
      rw [Expr.Formed] at hFormed
      cases Expr.sameForm_of_bare h with
      | slice _ span' hReceiver hLo hHi =>
          rw [compileExpr, compileExpr]
          exact ExprRule.slice_retraces span span' (operand_retraces receiver _ hFormed.1 hReceiver)
            (optOperand_retraces lo _ hFormed.2.1 hLo) (optOperand_retraces hi _ hFormed.2.2 hHi)
  | .ctor span type fields, e', hFormed, h => by
      refine ⟨h, fun ledger => ?_⟩
      rw [Expr.Formed] at hFormed
      cases Expr.sameForm_of_bare h with
      | ctor _ span' hType hFields =>
          rw [compileExpr, compileExpr]
          exact ExprRule.ctor_retraces span span' (typeOperand_retraces type _ hFormed.1 hType)
            (initOperands_retraces fields _ hFormed.2 hFields)
  | .pointerType span inner, e', hFormed, h => by
      refine ⟨h, fun ledger => ?_⟩
      rw [Expr.Formed] at hFormed
      cases Expr.sameForm_of_bare h with
      | pointerType _ _ hInner =>
          rw [compileExpr, compileExpr]
          exact ExprRule.pointerType_retraces (typeOperand_retraces inner _ hFormed hInner)
  | .sliceType span elem, e', hFormed, h => by
      refine ⟨h, fun ledger => ?_⟩
      rw [Expr.Formed] at hFormed
      cases Expr.sameForm_of_bare h with
      | sliceType _ _ hElem =>
          rw [compileExpr, compileExpr]
          exact ExprRule.sliceType_retraces (typeOperand_retraces elem _ hFormed hElem)
  | .mapType span key value, e', hFormed, h => by
      refine ⟨h, fun ledger => ?_⟩
      rw [Expr.Formed] at hFormed
      cases Expr.sameForm_of_bare h with
      | mapType _ _ hKey hValue =>
          rw [compileExpr, compileExpr]
          exact ExprRule.mapType_retraces (typeOperand_retraces key _ hFormed.1 hKey)
            (typeOperand_retraces value _ hFormed.2 hValue)
  | .structType span fields, e', hFormed, h => by
      refine ⟨h, fun ledger => ?_⟩
      rw [Expr.Formed] at hFormed
      cases Expr.sameForm_of_bare h with
      | structType _ _ hFields =>
          rw [compileExpr, compileExpr]
          exact .asValue (Operand.anonymousStruct_retraces
            (paramOperands_retraces fields _ hFormed hFields))
  | .interfaceType span specs, e', hFormed, h => by
      refine ⟨h, fun ledger => ?_⟩
      rw [Expr.Formed] at hFormed
      cases Expr.sameForm_of_bare h with
      | interfaceType _ _ hSpecs =>
          rw [compileExpr, compileExpr]
          exact .asValue (Operand.anonymousInterface_retraces
            (specOperands_retraces specs _ hFormed hSpecs))
termination_by structural e => e

theorem operands_retraces {p : Pairing} [p.Whole] : (es es' : List Expr) → ExprsFormed word es →
    bareExprs es = bareExprs es' → List.Forall₂ (Operand.Twin p) (operands es) (operands es')
  | [], [], _, _ => by simp [operands]
  | [], _ :: _, _, h => by simp [bareExprs] at h
  | _ :: _, [], _, h => by simp [bareExprs] at h
  | e :: rest, e' :: rest', hFormed, h => by
      rw [ExprsFormed] at hFormed
      have hParts : e.bare = e'.bare ∧ bareExprs rest = bareExprs rest' := by
        simpa [bareExprs] using h
      rw [operands, operands]
      exact .cons (operand_retraces e e' hFormed.1 hParts.1)
        (operands_retraces rest rest' hFormed.2 hParts.2)
termination_by structural es => es

theorem optOperand_retraces {p : Pairing} [p.Whole] : (e e' : Option Expr) → OptExprFormed word e →
    bareOptExpr e = bareOptExpr e' → Option.Rel (Operand.Twin p) (optOperand e) (optOperand e')
  | none, none, _, _ => by
      rw [optOperand]
      exact .none
  | none, some _, _, h => by simp [bareOptExpr] at h
  | some _, none, _, h => by simp [bareOptExpr] at h
  | some e, some e', hFormed, h => by
      rw [OptExprFormed] at hFormed
      have hParts : e.bare = e'.bare := by simpa [bareOptExpr] using h
      rw [optOperand, optOperand]
      exact .some (operand_retraces e e' hFormed hParts)
termination_by structural e => e

theorem initOperands_retraces {p : Pairing} [p.Whole] : (fields fields' : List (FieldInit Expr)) →
    InitsFormed word fields → bareInits fields = bareInits fields' →
      List.Forall₂ (ExprRule.InitTwin p) (initOperands fields) (initOperands fields')
  | [], [], _, _ => by simp [initOperands]
  | [], _ :: _, _, h => by simp [bareInits] at h
  | _ :: _, [], _, h => by simp [bareInits] at h
  | ⟨name, value, _⟩ :: rest, ⟨name', value', _⟩ :: rest', hFormed, h => by
      rw [InitsFormed] at hFormed
      have hParts : (name = name' ∧ value.bare = value'.bare) ∧
          bareInits rest = bareInits rest' := by
        simpa [bareInits] using h
      rw [initOperands, initOperands, initOperand, initOperand]
      exact .cons ⟨hParts.1.1, operand_retraces value value' hFormed.1.2 hParts.1.2⟩
        (initOperands_retraces rest rest' hFormed.2 hParts.2)
termination_by structural fields => fields

end

end Expressions

end GoToC
