import GoToC.Proofs.Routine.RetracesExpr

/-!
# Statements that are compiled alike

Once the types of a module are built, a body that is compiled against two programs that are
alike is accepted against both or against neither, apart from types that one of the programs
cannot follow far enough.
-/

namespace GoToC

variable {targets targets' values values' : List Operand} {func func' : FuncType Ty}
  {arms arms' : List (List Operand × RoutineM Unit)} {cond cond' : Option Operand}
  {body body' : RoutineM Unit} {value value' : Typed}
  {action action' post post' : Option (RoutineM Unit)} {a b : Ty}
  {outputs outputs' : List (Member Ty)} {target target' : Operand}

/-- Actions that are run for what they write. -/
def ActionTwin (p : Pairing) (action action' : RoutineM Unit) : Prop :=
  ∀ ledger, Retraces p ledger action action' fun _ _ _ => True

namespace StmtRule

open Call (int_alike)

variable {p : Pairing} {ledger : Ledger}

theorem block_retraces {action action' : RoutineM Unit} (h : ActionTwin p action action') :
    Retraces p ledger (block action) (block action') fun _ _ _ => True :=
  (Retraces.capture (Retraces.inScope (h ledger))).bind fun _ _ _ _ _ => .pure fun _ _ => trivial

theorem optBlock_retraces (h : Option.Rel (ActionTwin p) action action') :
    Retraces p ledger (optBlock action) (optBlock action') fun _ _ _ => True := by
  cases h with
  | none => exact .pure fun _ _ => trivial
  | some hAction =>
      rw [optBlock, optBlock, map_eq_pure_bind, map_eq_pure_bind]
      exact (block_retraces hAction).bind fun _ _ _ _ _ => .pure fun _ _ => trivial

theorem jump_retraces (kind : JumpKind) (span span' : Span) :
    ActionTwin p (jump kind span) (jump kind span') := by
  intro ledger
  refine Retraces.read.bind fun now _ env env' hEnv => ?_
  have hLoop := hEnv.loop
  cases hLeft : env.loop with
  | none => exact .error
  | some number =>
      rw [hLeft] at hLoop
      obtain ⟨number', hRight⟩ := Option.isSome_iff_exists.mp hLoop.symm
      rw [hRight]
      exact .emit _ _

theorem getD_retraces (h : Option.Rel (ActionTwin p) action action') :
    ActionTwin p (action.getD (pure ())) (action'.getD (pure ())) := by
  cases h with
  | none => exact fun _ => .pure fun _ _ => trivial
  | some hAction => exact hAction

theorem definedNames_retraces (h : List.Forall₂ (Operand.Twin p) targets targets') :
    Retraces p ledger (definedNames targets) (definedNames targets') fun _ => Eq := by
  induction h generalizing ledger with
  | nil => exact .pure fun _ _ => rfl
  | cons hTarget _ ih =>
      unfold definedNames
      rw [Expr.ident?_congr hTarget.source]
      split
      · exact .error
      · refine ih.bind fun now _ names _ hSame => ?_
        subst hSame
        exact .pure fun _ _ => rfl

/-- The arms of a switch. -/
structure ArmTwin (p : Pairing) (arm arm' : List Operand × RoutineM Unit) : Prop where
  tests : List.Forall₂ (Operand.Twin p) arm.1 arm'.1
  body : ActionTwin p arm.2 arm'.2

theorem switchArms_retraces {tests tests' : List (List CExpr)}
    (hTests : tests.length = tests'.length) (h : List.Forall₂ (ArmTwin p) arms arms') :
    Retraces p ledger (switchArms tests arms) (switchArms tests' arms') fun _ _ _ => True := by
  induction h generalizing ledger tests tests' with
  | nil => cases tests <;> cases tests' <;> exact .pure fun _ _ => trivial
  | cons hArm _ ih =>
      cases tests with
      | nil =>
          rw [List.eq_nil_of_length_eq_zero hTests.symm]
          exact .pure fun _ _ => trivial
      | cons first others =>
          cases tests' with
          | nil => cases hTests
          | cons first' others' =>
              refine (block_retraces hArm.body).bind fun _ _ _ _ _ => ?_
              exact (ih (Nat.succ.inj hTests)).bind fun _ _ _ _ _ => .pure fun _ _ => trivial

/-- The results of a call as values. -/
theorem members_twin {members members' : List (Member Ty)}
    (h : List.Forall₂ (fun a b => p.alike ledger a.type b.type) members members') :
    List.Forall₂ (Typed.Twin p ledger) (members.map fun m => ⟨.localVar m.name, m.type⟩)
      (members'.map fun m => ⟨.localVar m.name, m.type⟩) := by
  rw [List.forall₂_map_left_iff, List.forall₂_map_right_iff]
  exact h

theorem returnNothing_retraces (hOutputs : MembersTwin p ledger func.outputs func'.outputs)
    (span span' : Span) :
    Retraces p ledger (returnNothing func span) (returnNothing func' span') fun _ _ _ => True := by
  refine Retraces.read.bind fun now _ env env' hEnv => ?_
  have hNamed := hEnv.namedResult
  cases hLeft : env.namedResult with
  | some result =>
      rw [hLeft] at hNamed
      obtain ⟨result', hRight⟩ := Option.isSome_iff_exists.mp hNamed.symm
      rw [hRight]
      exact .emit _ _
  | none =>
      have hRight : env'.namedResult = none := by
        rw [hLeft] at hNamed
        simpa using hNamed.symm
      rw [hRight]
      exact .errorWhen (by rw [hOutputs.length_eq]) fun _ => .emit _ _

variable [p.Whole]

theorem declare_retraces (name : String) {type type' : Operand} (hType : type.TypeTwin p type')
    (span span' : Span) : ActionTwin p (declare name type span) (declare name type' span') := by
  intro ledger
  refine (hType ledger).bind fun now _ a b hAlike => ?_
  refine (Retraces.declareLocal name hAlike _ _).bind fun now le cName cName' _ => ?_
  exact .bindName name (p.mono le hAlike)

theorem loopTest_retraces (h : Option.Rel (Operand.Twin p) cond cond') :
    Retraces p ledger (loopTest cond) (loopTest cond') fun _ _ _ => True := by
  cases h with
  | none => exact .pure fun _ _ => trivial
  | some hCond =>
      exact (Retraces.capture hCond.value).bind fun _ _ _ _ _ => .pure fun _ _ => trivial

theorem loop_retraces (hCond : Option.Rel (Operand.Twin p) cond cond')
    (hPost : Option.Rel (ActionTwin p) post post') (hBody : ActionTwin p body body') :
    ActionTwin p (loop cond post body) (loop cond' post' body') := by
  intro ledger
  refine Retraces.nextSerial.bind fun now _ number number' _ => ?_
  refine (loopTest_retraces hCond).bind fun now _ test test' _ => ?_
  refine (Retraces.inLoop _ _ (block_retraces hBody)).bind fun now _ body body' _ => ?_
  exact (Retraces.capture (getD_retraces hPost now)).bind fun _ _ _ _ _ => .emit _ _

theorem forLoop_retraces {init init' : Option (RoutineM Unit)}
    (hInit : Option.Rel (ActionTwin p) init init')
    (hCond : Option.Rel (Operand.Twin p) cond cond')
    (hPost : Option.Rel (ActionTwin p) post post') (hBody : ActionTwin p body body') :
    ActionTwin p (forLoop init cond post body) (forLoop init' cond' post' body') :=
  fun ledger => .inScope ((getD_retraces hInit ledger).bind fun now _ _ _ _ =>
    loop_retraces hCond hPost hBody now)

theorem rangeLocal_retraces (name : Option String) (hType : p.alike ledger a b)
    (span span' : Span) :
    Retraces p ledger (rangeLocal name a span) (rangeLocal name b span') fun _ _ _ => True := by
  unfold rangeLocal
  split
  · exact .pure fun _ _ => trivial
  · exact .pure fun _ _ => trivial
  · next name _ =>
      refine (Retraces.declareLocal name hType _ _).bind fun now le cName cName' _ => ?_
      exact (Retraces.bindName name (p.mono le hType)).bind fun _ _ _ _ _ =>
        .pure fun _ _ => trivial

theorem rangeElement_retraces {collection collection' : Typed}
    (h : collection.Twin p ledger collection') (span span' : Span) :
    Retraces p ledger (rangeElement collection span) (rangeElement collection' span')
      fun now found found' => p.alike now found.1 found'.1 := by
  refine (Retraces.sliceElement? h).bind fun now le found found' hFound => ?_
  cases hFound with
  | some hElem =>
      exact (Retraces.mild TypeStore.mild_cType).bind fun _ le _ _ _ =>
        .pure fun _ le' => p.mono (le_trans le le') hElem
  | none =>
      refine (Retraces.isPrim (h.mono le) .string).bind fun now _ isString _ hSame => ?_
      subst hSame
      cases isString with
      | true => exact .pure fun _ _ => p.formed (.prim .byte) trivial
      | false => exact .error

theorem rangeLoop_retraces (key value : Option String) {collection collection' : Operand}
    (hCollection : collection.Twin p collection') (hBody : ActionTwin p body body')
    (span span' : Span) :
    ActionTwin p (rangeLoop key value collection body span)
      (rangeLoop key value collection' body' span') := by
  intro ledger
  refine .inScope (hCollection.value.bind fun now _ source source' hSource => ?_)
  refine (rangeElement_retraces hSource _ _).bind fun now le₁ elem elem' hElem => ?_
  refine Retraces.nextSerial.bind fun now le₂ number number' _ => ?_
  refine (Retraces.temp (hSource.mono (le_trans le₁ le₂)) _ _).bind fun now le₃ copy copy' _ => ?_
  refine (Retraces.temp int_alike _ _).bind fun now le₄ index index' _ => ?_
  refine (Retraces.temp int_alike _ _).bind fun now le₅ limit limit' _ => ?_
  refine (Retraces.emit _ _).bind fun now le₆ _ _ _ => ?_
  refine (Retraces.emit _ _).bind fun now le₇ _ _ _ => ?_
  refine (Retraces.emit _ _).bind fun now le₈ _ _ _ => ?_
  refine (rangeLocal_retraces key int_alike _ _).bind fun now le₉ key key' _ => ?_
  have hElem := p.mono (le_trans le₂ (le_trans le₃ (le_trans le₄ (le_trans le₅ (le_trans le₆
    (le_trans le₇ (le_trans le₈ le₉))))))) hElem
  refine (rangeLocal_retraces value hElem _ _).bind fun now _ value value' _ => ?_
  exact (Retraces.inLoop _ _ (block_retraces hBody)).bind fun _ _ _ _ _ => .emit _ _

theorem ifElse_retraces {cond cond' : Operand} {thenBody thenBody' : RoutineM Unit}
    {elseBody elseBody' : Option (RoutineM Unit)} (hCond : cond.Twin p cond')
    (hThen : ActionTwin p thenBody thenBody')
    (hElse : Option.Rel (ActionTwin p) elseBody elseBody') :
    ActionTwin p (ifElse cond thenBody elseBody) (ifElse cond' thenBody' elseBody') :=
  fun _ => hCond.value.bind fun _ _ _ _ _ => (block_retraces hThen).bind fun _ _ _ _ _ =>
    (optBlock_retraces hElse).bind fun _ _ _ _ _ => .emit _ _

theorem switchTests_retraces (h : List.Forall₂ (ArmTwin p) arms arms') :
    Retraces p ledger (switchTests arms) (switchTests arms')
      fun _ tests tests' => tests.length = tests'.length := by
  induction h generalizing ledger with
  | nil => exact .pure fun _ _ => rfl
  | cons hArm _ ih =>
      refine (Operand.values_retraces hArm.tests).bind fun now _ _ _ _ => ?_
      exact ih.bind fun _ _ _ _ hLength => .pure fun _ _ => congrArg (· + 1) hLength

theorem switch_retraces {subject subject' : Option Operand}
    {fallback fallback' : Option (RoutineM Unit)}
    (hSubject : Option.Rel (Operand.Twin p) subject subject')
    (hArms : List.Forall₂ (ArmTwin p) arms arms')
    (hFallback : Option.Rel (ActionTwin p) fallback fallback') :
    ActionTwin p (switch subject arms fallback) (switch subject' arms' fallback') := by
  intro ledger
  have hRest (now : Ledger) (c c' : CExpr) : Retraces p now
      (do
        let tests ← switchTests arms
        let arms ← switchArms tests arms
        let fallback ← optBlock fallback
        RoutineM.emit (.switch c arms (fallback.getD [])))
      (do
        let tests ← switchTests arms'
        let arms ← switchArms tests arms'
        let fallback ← optBlock fallback'
        RoutineM.emit (.switch c' arms (fallback.getD []))) fun _ _ _ => True :=
    (switchTests_retraces hArms).bind fun _ _ _ _ hTests => (switchArms_retraces hTests hArms).bind
      fun _ _ _ _ _ => (optBlock_retraces hFallback).bind fun _ _ _ _ _ => .emit _ _
  cases hSubject with
  | none => exact hRest ledger _ _
  | some hOperand =>
      exact hOperand.value.bind fun now _ value value' _ => hRest now value.c value'.c

/-! ## Returns -/

theorem setResults_retraces (func func' : FuncType Ty) (span span' : Span) (index : Nat)
    {values values' : List Typed} (hOutputs : MembersTwin p ledger outputs outputs')
    (h : List.Forall₂ (Typed.Twin p ledger) values values') :
    Retraces p ledger (setResults func span index outputs values)
      (setResults func' span' index outputs' values') fun _ _ _ => True := by
  induction outputs generalizing index outputs' values values' ledger with
  | nil =>
      cases hOutputs
      exact .pure fun _ _ => trivial
  | cons output rest ih =>
      cases hOutputs with
      | cons hOutput hRest =>
          cases h with
          | nil => exact .pure fun _ _ => trivial
          | cons hValue hOthers =>
              refine (Retraces.convert hOutput.2 hValue _ _ _ _).bind fun now le₁ c c' _ => ?_
              refine (Retraces.emit _ _).bind fun now le₂ _ _ _ => ?_
              have le := le_trans le₁ le₂
              exact ih (index + 1) (MembersTwin.mono le hRest) (hOthers.imp fun _ _ => .mono le)

theorem returnThrough_retraces {values values' : List Typed}
    (hOutputs : MembersTwin p ledger func.outputs func'.outputs)
    (h : List.Forall₂ (Typed.Twin p ledger) values values') (span span' : Span) :
    Retraces p ledger (returnThrough func values span) (returnThrough func' values' span')
      fun _ _ _ => True :=
  (setResults_retraces func func' span span' 0 hOutputs h).bind fun _ _ _ _ _ => .emit _ _

theorem returnOne_retraces {value value' : Operand}
    (hOutputs : MembersTwin p ledger func.outputs func'.outputs) (h : value.Twin p value')
    (span span' : Span) :
    Retraces p ledger (returnOne func value span) (returnOne func' value' span')
      fun _ _ _ => True := by
  have hSeveral : Retraces p ledger (returnSeveral func value span)
      (returnSeveral func' value' span') fun _ _ _ => True := by
    refine (h.compile ledger).bind fun now le₁ value value' hValue => ?_
    refine (Retraces.toExpr _ _ hValue).bind fun now le₂ e e' he => ?_
    refine (Retraces.multi? he).bind fun now le₃ found found' hFound => ?_
    have hOutputs := MembersTwin.mono (le_trans le₁ (le_trans le₂ le₃)) hOutputs
    cases hFound with
    | none => exact .error
    | some hMembers =>
        refine .errorWhen (by rw [hMembers.length_eq, hOutputs.length_eq]) fun _ => ?_
        refine (Retraces.emit _ _).bind fun now le _ _ _ => ?_
        exact returnThrough_retraces (MembersTwin.mono le hOutputs)
          (members_twin (hMembers.imp fun _ _ => p.mono le)) _ _
  obtain ⟨inputs, outputs, variadic, isMethod, number⟩ := func
  obtain ⟨inputs', outputs', variadic', isMethod', number'⟩ := func'
  dsimp only at hOutputs
  cases hOutputs with
  | nil => exact hSeveral
  | cons hOutput hRest =>
      cases hRest with
      | cons => exact hSeveral
      | nil =>
          refine h.value.bind fun now le value value' hValue => ?_
          exact (Retraces.convert (p.mono le hOutput.2) hValue _ _ _ _).bind fun _ _ _ _ _ =>
            .emit _ _

theorem ret_retraces (h : List.Forall₂ (Operand.Twin p) values values') (span span' : Span) :
    ActionTwin p (ret values span) (ret values' span') := by
  intro ledger
  refine Retraces.read.bind fun now _ env env' hEnv => ?_
  cases hLeft : env.func with
  | none => exact .error
  | some func =>
      obtain ⟨func', hRight, hFunc⟩ := hEnv.func func hLeft
      rw [hRight]
      have hSeveral : Retraces p now
          (do
            if values.length ≠ func.outputs.length then
              RoutineM.error span (.resultCount (.returnCount values.length func.outputs.length))
            returnThrough func (← Operand.values values) span)
          (do
            if values'.length ≠ func'.outputs.length then
              RoutineM.error span' (.resultCount (.returnCount values'.length func'.outputs.length))
            returnThrough func' (← Operand.values values') span') fun _ _ _ => True := by
        refine .errorWhen (by rw [h.length_eq, hFunc.outputs.length_eq]) fun _ => ?_
        refine (Operand.values_retraces h).bind fun now le es es' hes => ?_
        exact returnThrough_retraces (MembersTwin.mono le hFunc.outputs) hes _ _
      cases h with
      | nil => exact returnNothing_retraces hFunc.outputs _ _
      | cons hFirst hRest =>
          cases hRest with
          | nil => exact returnOne_retraces hFunc.outputs hFirst _ _
          | cons => exact hSeveral

/-! ## Assignments -/

theorem place_retraces (h : target.Twin p target') :
    Retraces p ledger (place target) (place target') fun now => Typed.Twin p now := by
  have hRest (now : Ledger) (assignable : Bool) : Retraces p now
      (do
        if !assignable then RoutineM.error target.span (.invalidTarget .notAssignable)
        target.value)
      (do
        if !assignable then RoutineM.error target'.span (.invalidTarget .notAssignable)
        target'.value) fun now => Typed.Twin p now := .errorIf rfl fun _ => h.value
  have hSource := h.source
  unfold place
  cases hLeft : target.source with
  | ident span name =>
      cases hRight : target'.source with
      | ident span' name' =>
          rw [hLeft, hRight] at hSource
          have hName : name = name' := by simpa [Expr.bare] using hSource
          subst hName
          refine (Retraces.isAssignable name).bind fun now _ assignable _ hSame => ?_
          subst hSame
          exact hRest now assignable
      | _ =>
          rw [hLeft, hRight] at hSource
          cases hSource
  | dot =>
      cases hRight : target'.source with
      | dot => exact hRest ledger true
      | _ =>
          rw [hLeft, hRight] at hSource
          cases hSource
  | index =>
      cases hRight : target'.source with
      | index => exact hRest ledger true
      | _ =>
          rw [hLeft, hRight] at hSource
          cases hSource
  | _ =>
      intro now _ env env' routine routine' _ _ value after hRun
      cases hRun

theorem assignTo_retraces (hTarget : target.Twin p target') (hValue : value.Twin p ledger value')
    (span span' : Span) :
    Retraces p ledger (assignTo target value span) (assignTo target' value' span')
      fun _ _ _ => True := by
  unfold assignTo
  rw [Expr.ident?_congr hTarget.source]
  split
  · exact .emit _ _
  · refine (place_retraces hTarget).bind fun now le place place' hPlace => ?_
    refine (Retraces.convert hPlace (hValue.mono le) _ _ _ _).bind fun now _ c c' _ => ?_
    exact (Retraces.mild TypeStore.mild_cType).bind fun _ _ _ _ _ => .emit _ _

theorem assignAll_retraces (span span' : Span)
    (hTargets : List.Forall₂ (Operand.Twin p) targets targets')
    (hValues : List.Forall₂ (Operand.Twin p) values values') :
    ActionTwin p (assignAll span targets values) (assignAll span' targets' values') := by
  induction hTargets generalizing values values' with
  | nil => exact fun _ => .pure fun _ _ => trivial
  | cons hTarget _ ih =>
      cases hValues with
      | nil => exact fun _ => .pure fun _ _ => trivial
      | cons hValue hOthers =>
          intro ledger
          refine hValue.value.bind fun now _ e e' he => ?_
          exact (assignTo_retraces hTarget he _ _).bind fun now _ _ _ _ => ih hOthers now

theorem defineTyped_retraces (name : String) (h : value.Twin p ledger value') (span span' : Span)
    (hType : p.alike ledger a b) :
    Retraces p ledger (defineTyped name value span a) (defineTyped name value' span' b)
      fun _ _ _ => True := by
  refine (Retraces.isPrim hType .nil).bind fun now le₁ isNil _ hSame => ?_
  refine .errorIf hSame fun _ => ?_
  have hType := p.mono le₁ hType
  refine (Retraces.declareLocal name hType _ _).bind fun now le₂ cName cName' _ => ?_
  have hType := p.mono le₂ hType
  refine (Retraces.convert hType (h.mono (le_trans le₁ le₂)) _ _ _ _).bind fun now le₃ c c' _ => ?_
  refine (Retraces.mild TypeStore.mild_cType).bind fun now le₄ _ _ _ => ?_
  refine (Retraces.emit _ _).bind fun now le₅ _ _ _ => ?_
  exact .bindName name (p.mono (le_trans le₃ (le_trans le₄ le₅)) hType)

theorem defineOne_retraces (name : String) (h : value.Twin p ledger value') (span span' : Span) :
    Retraces p ledger (defineOne name value span) (defineOne name value' span')
      fun _ _ _ => True := by
  unfold defineOne
  split
  · exact .emit _ _
  · refine (Retraces.isPrim h .constInt).bind fun now le isConst _ hSame => ?_
    subst hSame
    cases isConst with
    | true => exact defineTyped_retraces name (h.mono le) span span' int_alike
    | false => exact defineTyped_retraces name (h.mono le) span span' (h.mono le)

theorem defineAll_retraces (span span' : Span) (names : List String) {values values' : List Typed}
    (h : List.Forall₂ (Typed.Twin p ledger) values values') :
    Retraces p ledger (defineAll span names values) (defineAll span' names values')
      fun _ _ _ => True := by
  induction names generalizing values values' ledger with
  | nil => exact .pure fun _ _ => trivial
  | cons name names ih =>
      cases h with
      | nil => exact .pure fun _ _ => trivial
      | cons hValue hOthers =>
          refine (defineOne_retraces name hValue _ _).bind fun now le _ _ _ => ?_
          exact ih (hOthers.imp fun _ _ => .mono le)

theorem assignEach_retraces (span span' : Span)
    (hTargets : List.Forall₂ (Operand.Twin p) targets targets') {results results' : List Typed}
    (h : List.Forall₂ (Typed.Twin p ledger) results results') :
    Retraces p ledger (assignResults.assignEach span targets results)
      (assignResults.assignEach span' targets' results') fun _ _ _ => True := by
  induction hTargets generalizing results results' ledger with
  | nil => exact .pure fun _ _ => trivial
  | cons hTarget _ ih =>
      cases h with
      | nil => exact .pure fun _ _ => trivial
      | cons hResult hOthers =>
          refine (assignTo_retraces hTarget hResult _ _).bind fun now le _ _ _ => ?_
          exact ih (hOthers.imp fun _ _ => .mono le)

theorem assignFromCall_retraces {call call' : Operand} (define : Bool) (span span' : Span)
    (hTargets : List.Forall₂ (Operand.Twin p) targets targets') (hCall : call.Twin p call') :
    ActionTwin p (assignFromCall targets call define span)
      (assignFromCall targets' call' define span') := by
  intro ledger
  have hRest (now : Ledger) (names : Option (List String)) :
      Retraces p now (assignCalled targets call names span)
        (assignCalled targets' call' names span') fun _ _ _ => True := by
    refine (hCall.compile now).bind fun now _ value value' hValue => ?_
    refine (Retraces.toExpr _ _ hValue).bind fun now _ e e' he => ?_
    refine (Retraces.multi? he).bind fun now _ found found' hFound => ?_
    cases hFound with
    | none =>
        intro later _ env env' routine routine' _ _ result after hRun
        dsimp only at hRun
        split at hRun
        · obtain ⟨_, _, _, hError⟩ := RoutineM.bind_eq_ok.mp hRun
          cases hError
        · cases hRun
    | some hMembers =>
        refine .errorWhen (by rw [hMembers.length_eq, hTargets.length_eq]) fun _ => ?_
        refine (Retraces.emit _ _).bind fun now le _ _ _ => ?_
        have hResults := members_twin (hMembers.imp fun _ _ => p.mono le)
        cases names with
        | some names => exact defineAll_retraces _ _ names hResults
        | none => exact assignEach_retraces _ _ hTargets hResults
  cases define with
  | false => exact hRest ledger none
  | true =>
      show Retraces p ledger (some <$> definedNames targets >>= _)
        (some <$> definedNames targets' >>= _) _
      rw [map_eq_pure_bind, map_eq_pure_bind, bind_assoc, bind_assoc]
      refine (definedNames_retraces hTargets).bind fun now _ names _ hSame => ?_
      subst hSame
      exact hRest now (some names)

theorem setOrDefine_retraces (define : Bool) (span span' : Span)
    (hTargets : List.Forall₂ (Operand.Twin p) targets targets')
    (hValues : List.Forall₂ (Operand.Twin p) values values') :
    ActionTwin p (setOrDefine define targets values span)
      (setOrDefine define targets' values' span') := by
  intro ledger
  have hRest : Retraces p ledger
      (do
        if targets.length ≠ values.length then
          RoutineM.error span (.resultCount (.assignCount targets.length values.length))
        if define then
          let names ← definedNames targets
          let values ← Operand.values values
          defineAll span names values
        else assignAll span targets values)
      (do
        if targets'.length ≠ values'.length then
          RoutineM.error span' (.resultCount (.assignCount targets'.length values'.length))
        if define then
          let names ← definedNames targets'
          let values ← Operand.values values'
          defineAll span' names values
        else assignAll span' targets' values') fun _ _ _ => True := by
    refine .errorWhen (by rw [hTargets.length_eq, hValues.length_eq]) fun _ => ?_
    cases define with
    | false => exact assignAll_retraces _ _ hTargets hValues ledger
    | true =>
        refine (definedNames_retraces hTargets).bind fun now _ names _ hSame => ?_
        subst hSame
        exact (Operand.values_retraces hValues).bind fun _ _ _ _ hes =>
          defineAll_retraces _ _ names hes
  cases hTargets with
  | nil => exact hRest
  | cons hFirst hMore =>
      cases hMore with
      | nil => exact hRest
      | cons hSecond hOthers =>
          cases hValues with
          | nil => exact hRest
          | cons hValue hMoreValues =>
              cases hMoreValues with
              | nil =>
                  exact assignFromCall_retraces define _ _ (.cons hFirst (.cons hSecond hOthers))
                    hValue ledger
              | cons => exact hRest

theorem stepTarget_retraces (h : List.Forall₂ (Operand.Twin p) targets targets')
    (span span' : Span) :
    Retraces p ledger (stepTarget targets span) (stepTarget targets' span') fun _ _ _ => True := by
  cases h with
  | nil => exact .error
  | cons hTarget hRest =>
      cases hRest with
      | nil => exact (place_retraces hTarget).bind fun _ _ _ _ _ => .pure fun _ _ => trivial
      | cons => exact .error

theorem assign_retraces (op : AssignOp) (span span' : Span)
    (hTargets : List.Forall₂ (Operand.Twin p) targets targets')
    (hValues : List.Forall₂ (Operand.Twin p) values values') :
    ActionTwin p (assign op targets values span) (assign op targets' values' span') := by
  intro ledger
  cases op with
  | inc => exact (stepTarget_retraces hTargets _ _).bind fun _ _ _ _ _ => .emit _ _
  | dec => exact (stepTarget_retraces hTargets _ _).bind fun _ _ _ _ _ => .emit _ _
  | lone =>
      cases hValues with
      | nil => exact .error
      | cons hCall hRest =>
          cases hRest with
          | cons => exact .error
          | nil =>
              refine .errorIf (by rw [Expr.isCall_congr hCall.source]) fun _ => ?_
              refine (hCall.compile ledger).bind fun now _ value value' hValue => ?_
              exact (Retraces.toExpr _ _ hValue).bind fun _ _ _ _ _ => .emit _ _
  | compound bin =>
      cases hTargets with
      | nil => exact .error
      | cons hTarget hMore =>
          cases hMore with
          | cons => exact .error
          | nil =>
              cases hValues with
              | nil => exact .error
              | cons hValue hRest =>
                  cases hRest with
                  | cons => exact .error
                  | nil =>
                      exact (place_retraces hTarget).bind fun _ _ _ _ _ =>
                        hValue.value.bind fun _ _ _ _ _ => .emit _ _
  | set => exact setOrDefine_retraces false _ _ hTargets hValues ledger
  | define => exact setOrDefine_retraces true _ _ hTargets hValues ledger

end StmtRule

/-! ## Statements and bodies -/

section Statements

open StmtRule

variable {word : String → Prop}

mutual

theorem compileStmt_retraces {p : Pairing} [p.Whole] : (stmt stmt' : Stmt) → stmt.Formed word →
    stmt.bare = stmt'.bare → ActionTwin p (compileStmt stmt) (compileStmt stmt')
  | .assign span op targets values, _, hFormed, h => by
      rw [Stmt.Formed] at hFormed
      cases Stmt.sameForm_of_bare h with
      | assign _ span' _ hTargets hValues =>
          rw [compileStmt, compileStmt]
          exact assign_retraces op span span' (operands_retraces targets _ hFormed.1 hTargets)
            (operands_retraces values _ hFormed.2 hValues)
  | .var span name type, _, hFormed, h => by
      rw [Stmt.Formed] at hFormed
      cases Stmt.sameForm_of_bare h with
      | var _ span' _ hType =>
          rw [compileStmt, compileStmt]
          exact declare_retraces name (typeOperand_retraces type _ hFormed.2 hType) span span'
  | .ret span values, _, hFormed, h => by
      rw [Stmt.Formed] at hFormed
      cases Stmt.sameForm_of_bare h with
      | ret _ span' hValues =>
          rw [compileStmt, compileStmt]
          exact ret_retraces (operands_retraces values _ hFormed hValues) span span'
  | .breakLoop span label, _, _, h => by
      cases Stmt.sameForm_of_bare h with
      | breakLoop _ span' =>
          rw [compileStmt, compileStmt]
          exact jump_retraces _ span span'
  | .continueLoop span label, _, _, h => by
      cases Stmt.sameForm_of_bare h with
      | continueLoop _ span' =>
          rw [compileStmt, compileStmt]
          exact jump_retraces _ span span'
  | .whileLoop span cond body, _, hFormed, h => by
      rw [Stmt.Formed] at hFormed
      cases Stmt.sameForm_of_bare h with
      | whileLoop _ _ hCond hBody =>
          rw [compileStmt, compileStmt]
          exact loop_retraces (optOperand_retraces cond _ hFormed.1 hCond) .none
            (compileStmts_retraces body _ hFormed.2 hBody)
  | .forLoop span init cond post body, _, hFormed, h => by
      rw [Stmt.Formed] at hFormed
      cases Stmt.sameForm_of_bare h with
      | forLoop _ _ hInit hCond hPost hBody =>
          rw [compileStmt, compileStmt]
          exact forLoop_retraces (compileOptStmt_retraces init _ hFormed.1 hInit)
            (optOperand_retraces cond _ hFormed.2.1 hCond)
            (compileOptStmt_retraces post _ hFormed.2.2.1 hPost)
            (compileStmts_retraces body _ hFormed.2.2.2 hBody)
  | .rangeLoop span key value collection body, _, hFormed, h => by
      rw [Stmt.Formed] at hFormed
      cases Stmt.sameForm_of_bare h with
      | rangeLoop _ span' _ _ hCollection hBody =>
          rw [compileStmt, compileStmt]
          exact rangeLoop_retraces key value (operand_retraces collection _ hFormed.2.2.1
            hCollection) (compileStmts_retraces body _ hFormed.2.2.2 hBody) span span'
  | .ifElse span cond thenBody elseBody, _, hFormed, h => by
      rw [Stmt.Formed] at hFormed
      cases Stmt.sameForm_of_bare h with
      | ifElse _ _ hCond hThen hElse =>
          rw [compileStmt, compileStmt]
          exact ifElse_retraces (operand_retraces cond _ hFormed.1 hCond)
            (compileStmts_retraces thenBody _ hFormed.2.1 hThen)
            (compileOptStmts_retraces elseBody _ hFormed.2.2 hElse)
  | .switch span subject arms fallback, _, hFormed, h => by
      rw [Stmt.Formed] at hFormed
      cases Stmt.sameForm_of_bare h with
      | switch _ _ hSubject hArms hFallback =>
          rw [compileStmt, compileStmt]
          exact switch_retraces (optOperand_retraces subject _ hFormed.1 hSubject)
            (compileCases_retraces arms _ hFormed.2.1 hArms)
            (compileOptStmts_retraces fallback _ hFormed.2.2 hFallback)
  | .block span body, _, hFormed, h => by
      rw [Stmt.Formed] at hFormed
      cases Stmt.sameForm_of_bare h with
      | block _ _ hBody =>
          rw [compileStmt, compileStmt]
          exact fun _ => (block_retraces (compileStmts_retraces body _ hFormed hBody)).bind
            fun _ _ _ _ _ => .emit _ _
termination_by structural stmt => stmt

theorem compileStmts_retraces {p : Pairing} [p.Whole] : (stmts stmts' : List Stmt) →
    StmtsFormed word stmts → bareStmts stmts = bareStmts stmts' →
      ActionTwin p (compileStmts stmts) (compileStmts stmts')
  | [], [], _, _ => by
      rw [compileStmts]
      exact fun _ => .pure fun _ _ => trivial
  | [], _ :: _, _, h => by simp [bareStmts] at h
  | _ :: _, [], _, h => by simp [bareStmts] at h
  | stmt :: rest, stmt' :: rest', hFormed, h => by
      rw [StmtsFormed] at hFormed
      have hParts : stmt.bare = stmt'.bare ∧ bareStmts rest = bareStmts rest' := by
        simpa [bareStmts] using h
      rw [compileStmts, compileStmts]
      exact fun ledger => (compileStmt_retraces stmt stmt' hFormed.1 hParts.1 ledger).bind
        fun now _ _ _ _ => compileStmts_retraces rest rest' hFormed.2 hParts.2 now
termination_by structural stmts => stmts

theorem compileOptStmt_retraces {p : Pairing} [p.Whole] : (stmt stmt' : Option Stmt) →
    OptStmtFormed word stmt → bareOptStmt stmt = bareOptStmt stmt' →
      Option.Rel (ActionTwin p) (compileOptStmt stmt) (compileOptStmt stmt')
  | none, none, _, _ => by
      rw [compileOptStmt]
      exact .none
  | none, some _, _, h => by simp [bareOptStmt] at h
  | some _, none, _, h => by simp [bareOptStmt] at h
  | some stmt, some stmt', hFormed, h => by
      rw [OptStmtFormed] at hFormed
      have hStmt : stmt.bare = stmt'.bare := by simpa [bareOptStmt] using h
      rw [compileOptStmt, compileOptStmt]
      exact .some (compileStmt_retraces stmt stmt' hFormed hStmt)
termination_by structural stmt => stmt

theorem compileOptStmts_retraces {p : Pairing} [p.Whole] : (body body' : Option (List Stmt)) →
    OptStmtsFormed word body → bareOptStmts body = bareOptStmts body' →
      Option.Rel (ActionTwin p) (compileOptStmts body) (compileOptStmts body')
  | none, none, _, _ => by
      rw [compileOptStmts]
      exact .none
  | none, some _, _, h => by simp [bareOptStmts] at h
  | some _, none, _, h => by simp [bareOptStmts] at h
  | some body, some body', hFormed, h => by
      rw [OptStmtsFormed] at hFormed
      have hBody : bareStmts body = bareStmts body' := by simpa [bareOptStmts] using h
      rw [compileOptStmts, compileOptStmts]
      exact .some (compileStmts_retraces body body' hFormed hBody)
termination_by structural body => body

theorem compileCases_retraces {p : Pairing} [p.Whole] : (arms arms' : List (SwitchCase Stmt)) →
    CasesFormed word arms → bareCases arms = bareCases arms' →
      List.Forall₂ (ArmTwin p) (compileCases arms) (compileCases arms')
  | [], [], _, _ => by
      rw [compileCases]
      exact .nil
  | [], _ :: _, _, h => by simp [bareCases] at h
  | _ :: _, [], _, h => by simp [bareCases] at h
  | ⟨tests, body, _⟩ :: rest, ⟨tests', body', _⟩ :: rest', hFormed, h => by
      rw [CasesFormed] at hFormed
      have hParts : (bareExprs tests = bareExprs tests' ∧ bareStmts body = bareStmts body') ∧
          bareCases rest = bareCases rest' := by simpa [bareCases] using h
      rw [compileCases, compileCases, compileCase, compileCase]
      exact .cons ⟨operands_retraces tests tests' hFormed.1.1 hParts.1.1,
        compileStmts_retraces body body' hFormed.1.2 hParts.1.2⟩
        (compileCases_retraces rest rest' hFormed.2 hParts.2)
termination_by structural arms => arms

end

variable {p : Pairing} {ledger : Ledger}

theorem bindInputs_retraces (func func' : FuncType Ty) (index : Nat)
    {inputs inputs' : List (Member Ty)} (h : MembersTwin p ledger inputs inputs') :
    Retraces p ledger (bindInputs func index inputs) (bindInputs func' index inputs')
      fun _ _ _ => True := by
  induction inputs generalizing index ledger inputs' with
  | nil =>
      cases h
      exact .pure fun _ _ => trivial
  | cons input rest ih =>
      cases h with
      | cons hInput hRest =>
          unfold bindInputs
          rw [← hInput.1]
          dsimp only
          split
          · refine (Retraces.bindName _ hInput.2).bind fun now le _ _ _ => ?_
            exact ih (index + 1) (MembersTwin.mono le hRest)
          · exact ih (index + 1) hRest

theorem bindOutputs_retraces (func func' : FuncType Ty) (index : Nat)
    (h : MembersTwin p ledger outputs outputs') :
    Retraces p ledger (bindOutputs func index outputs) (bindOutputs func' index outputs')
      fun _ _ _ => True := by
  induction outputs generalizing index ledger outputs' with
  | nil =>
      cases h
      exact .pure fun _ _ => trivial
  | cons output rest ih =>
      cases h with
      | cons hOutput hRest =>
          unfold bindOutputs
          rw [← hOutput.1]
          dsimp only
          split
          · refine (Retraces.bindName _ hOutput.2).bind fun now le _ _ _ => ?_
            exact ih (index + 1) (MembersTwin.mono le hRest)
          · exact ih (index + 1) hRest

variable [p.Whole]

theorem enterFunc_retraces (h : FuncType.Twin (p.alike ledger) func func') (span span' : Span) :
    Retraces p ledger (enterFunc func span) (enterFunc func' span')
      fun _ result result' => result.isSome = result'.isSome := by
  refine (bindInputs_retraces func func' 0 h.inputs).bind fun now le _ _ _ => ?_
  have hOutputs : MembersTwin p now func.outputs func'.outputs := MembersTwin.mono le h.outputs
  have hMany : Retraces p now
      (do
        bindOutputs func 0 func.outputs
        return (none : Option String))
      (do
        bindOutputs func' 0 func'.outputs
        return (none : Option String)) fun _ result result' => result.isSome = result'.isSome :=
    (bindOutputs_retraces func func' 0 hOutputs).bind fun _ _ _ _ _ => .pure fun _ _ => rfl
  revert hMany hOutputs
  generalize func.outputs = outputs
  generalize func'.outputs = outputs'
  intro hOutputs hMany
  cases hOutputs with
  | nil => exact hMany
  | cons hOutput hRest =>
      cases hRest with
      | cons => exact hMany
      | nil =>
          dsimp only
          rw [← hOutput.1]
          split
          · refine (Retraces.declareLocal _ hOutput.2 _ _).bind fun now le cName cName' _ => ?_
            exact (Retraces.bindName _ (p.mono le hOutput.2)).bind fun _ _ _ _ _ =>
              .pure fun _ _ => rfl
          · exact .pure fun _ _ => rfl

/-- Bodies of one form are accepted alike for functions of alike types. -/
theorem compileBody_retraces (hFunc : FuncType.Twin (p.alike ledger) func func')
    {body body' : List Stmt} (hFormed : StmtsFormed word body)
    (h : bareStmts body = bareStmts body') (span span' : Span) :
    Retraces p ledger (compileBody func body span) (compileBody func' body' span')
      fun _ _ _ => True := by
  refine (enterFunc_retraces hFunc span span').bind fun now le result result' hResult => ?_
  intro later le' env env' routine routine' hEnv hRoutine value after hRun
  have hStmts : ActionTwin p (compileStmts body) (compileStmts body') :=
    compileStmts_retraces body body' hFormed h
  have hBody := Retraces.inScope (hStmts later)
  refine hBody later (le_refl later) { env with func := some func, namedResult := result }
    { env' with func := some func', namedResult := result' } routine routine' ?_ hRoutine value
    after hRun
  have hTwin := hFunc.mono (le_trans le le')
  refine { hEnv with func := ?_, namedResult := hResult }
  rintro _ ⟨⟩
  exact ⟨func', rfl, hTwin⟩

end Statements

end GoToC
