import GoToC.Proofs.Routine.SafeExpr

/-!
# Statements and bodies are safe

Once the types of a module are built, its statements compile or fail with errors. What a
block declares is a sound variable, so that the routine stays sound.
-/

namespace GoToC

variable {targets values : List Operand} {type : Ty} {name : String} {cond : Option Operand}
  {body : RoutineM Unit} {arms : List (List Operand × RoutineM Unit)} {e value : Typed}
  {action post : Option (RoutineM Unit)} {outputs : List (Member Ty)} {func : FuncType Ty}
  {target : Operand} {results : List Typed}

namespace StmtRule

variable {s : Setting}

/-- A statement, or part of one, that is safe to compile. -/
def SafeAction (s : Setting) (action : RoutineM Unit) : Prop := Safe s action fun _ => True

theorem block_safe {action : RoutineM Unit} (h : SafeAction s action) :
    Safe s (block action) fun _ => True :=
  (Safe.capture (Safe.inScope h)).bind fun _ _ => .pure trivial

theorem optBlock_safe (h : ∀ a ∈ action, SafeAction s a) :
    Safe s (optBlock action) fun _ => True := by
  cases action with
  | none => exact .pure trivial
  | some a => exact .map (block_safe (h a rfl))

/-- A variable of the routine as a value. -/
theorem localVar_sound {cName : String} (hName : isCName cName = true)
    (hType : type.Usable s.values) : Typed.Sound s.values ⟨.localVar cName, type⟩ :=
  ⟨hType, by rw [CExpr.Fits]; exact hName, fun _ _ => trivial⟩

theorem declare_safe (whole : s.types = s.values) {type : Operand}
    (hName : isIdentifier name = true) (hType : type.SoundType s) (span : Span) :
    SafeAction s (declare name type span) := by
  refine Safe.bind hType fun type hType => ?_
  have hUsable : type.Usable s.values := (whole ▸ hType.1).usable
  refine (Safe.declareLocal hName hUsable span).bind fun cName hcName => ?_
  exact .bindName name (localVar_sound hcName hUsable) trivial

theorem jump_safe (kind : JumpKind) (span : Span) : SafeAction s (jump kind span) := by
  refine Safe.read.bind fun env _ => ?_
  split
  · exact .emit _
  · exact .error _ _

theorem loopTest_safe (h : ∀ operand ∈ cond, operand.Sound s) :
    Safe s (loopTest cond) fun _ => True := by
  cases cond with
  | none => exact .pure trivial
  | some operand => exact (Safe.capture (h operand rfl).value).bind fun _ _ => .pure trivial

theorem getD_safe (h : ∀ a ∈ action, SafeAction s a) : SafeAction s (action.getD (pure ())) := by
  cases action with
  | none => exact .pure trivial
  | some a => exact h a rfl

theorem loop_safe (hCond : ∀ operand ∈ cond, operand.Sound s) (hPost : ∀ a ∈ post, SafeAction s a)
    (hBody : SafeAction s body) : SafeAction s (loop cond post body) := by
  refine Safe.nextSerial.bind fun number _ => (loopTest_safe hCond).bind fun test _ => ?_
  refine (Safe.inLoop number (block_safe hBody)).bind fun body _ => ?_
  exact (Safe.capture (getD_safe hPost)).bind fun post _ => .emit _

theorem forLoop_safe {init : Option (RoutineM Unit)} (hInit : ∀ a ∈ init, SafeAction s a)
    (hCond : ∀ operand ∈ cond, operand.Sound s) (hPost : ∀ a ∈ post, SafeAction s a)
    (hBody : SafeAction s body) : SafeAction s (forLoop init cond post body) :=
  .inScope ((getD_safe hInit).bind fun _ _ => loop_safe hCond hPost hBody)

theorem rangeLocal_safe {name : Option String} (hName : ∀ n ∈ name, isIdentifier n = true)
    (hType : type.Usable s.values) (span : Span) :
    Safe s (rangeLocal name type span) fun _ => True := by
  unfold rangeLocal
  split
  · exact .pure trivial
  · exact .pure trivial
  · next name _ =>
      refine (Safe.declareLocal (hName name rfl) hType span).bind fun cName hcName => ?_
      exact (Safe.bindName name (localVar_sound hcName hType) trivial).bind fun _ _ => .pure trivial

theorem rangeElement_safe {collection : Typed} (h : collection.Sound s.values) (span : Span) :
    Safe s (rangeElement collection span) fun found => found.1.Plain s.values := by
  refine (Safe.types (s.settled.sliceElement?_usable h.usable)).bind fun found hFound => ?_
  split
  · next elem =>
      have hElem : elem.Plain s.values := hFound.2 elem rfl
      exact (Safe.types (s.settled.cType_usable hElem.usable)).bind fun _ _ => .pure hElem
  · refine (Safe.types (s.settled.isPrim_usable h.usable _)).bind fun _ _ => ?_
    split
    · exact .pure (by simp [Ty.Plain])
    · exact .error _ _

theorem rangeLoop_safe {key value : Option String} {collection : Operand}
    (hKey : ∀ n ∈ key, isIdentifier n = true) (hValue : ∀ n ∈ value, isIdentifier n = true)
    (hCollection : collection.Sound s) (hBody : SafeAction s body) (span : Span) :
    SafeAction s (rangeLoop key value collection body span) := by
  have hInt : (Ty.prim .int).Usable s.values := ExprRule.int_plain.usable
  refine .inScope (hCollection.value.bind fun source hSource => ?_)
  refine (rangeElement_safe hSource _).bind fun elem hElem =>
    Safe.nextSerial.bind fun number _ => ?_
  refine (Safe.temp hSource.usable span).bind fun copy _ => ?_
  refine (Safe.temp hInt span).bind fun index _ => (Safe.temp hInt span).bind fun limit _ => ?_
  refine (Safe.emit _).bind fun _ _ => (Safe.emit _).bind fun _ _ =>
    (Safe.emit _).bind fun _ _ => ?_
  refine (rangeLocal_safe hKey hInt span).bind fun key _ => ?_
  refine (rangeLocal_safe hValue hElem.usable span).bind fun value _ => ?_
  exact (Safe.inLoop number (block_safe hBody)).bind fun body _ => .emit _

theorem ifElse_safe {cond : Operand} {thenBody : RoutineM Unit}
    {elseBody : Option (RoutineM Unit)} (hCond : cond.Sound s) (hThen : SafeAction s thenBody)
    (hElse : ∀ a ∈ elseBody, SafeAction s a) : SafeAction s (ifElse cond thenBody elseBody) :=
  hCond.value.bind fun _ _ => (block_safe hThen).bind fun _ _ =>
    (optBlock_safe hElse).bind fun _ _ => .emit _

/-- The arms of a switch, all of whose parts are safe to compile. -/
def SafeArms (s : Setting) (arms : List (List Operand × RoutineM Unit)) : Prop :=
  ∀ arm ∈ arms, (∀ operand ∈ arm.1, operand.Sound s) ∧ SafeAction s arm.2

theorem switchTests_safe (h : SafeArms s arms) : Safe s (switchTests arms) fun _ => True := by
  induction arms with
  | nil => exact .pure trivial
  | cons arm rest ih =>
      refine (Operand.values_safe (h arm List.mem_cons_self).1).bind fun _ _ => ?_
      exact (ih fun a ha => h a (List.mem_cons_of_mem arm ha)).bind fun _ _ => .pure trivial

theorem switchArms_safe (tests : List (List CExpr)) (h : SafeArms s arms) :
    Safe s (switchArms tests arms) fun _ => True := by
  induction arms generalizing tests with
  | nil => cases tests <;> exact .pure trivial
  | cons arm rest ih =>
      cases tests with
      | nil => exact .pure trivial
      | cons first others =>
          refine (block_safe (h arm List.mem_cons_self).2).bind fun _ _ => ?_
          exact (ih others fun a ha => h a (List.mem_cons_of_mem arm ha)).bind fun _ _ =>
            .pure trivial

theorem switch_safe {subject : Option Operand} {fallback : Option (RoutineM Unit)}
    (hSubject : ∀ operand ∈ subject, operand.Sound s) (hArms : SafeArms s arms)
    (hFallback : ∀ a ∈ fallback, SafeAction s a) : SafeAction s (switch subject arms fallback) := by
  have hRest (c : CExpr) : SafeAction s (do
      let tests ← switchTests arms
      let arms ← switchArms tests arms
      let fallback ← optBlock fallback
      RoutineM.emit (.switch c arms (fallback.getD []))) :=
    (switchTests_safe hArms).bind fun _ _ => (switchArms_safe _ hArms).bind fun _ _ =>
      (optBlock_safe hFallback).bind fun _ _ => .emit _
  unfold switch
  split
  · next operand => exact (hSubject operand rfl).value.bind fun value _ => hRest value.c
  · exact hRest (.int 1)

/-! ## Returns -/

theorem setResults_safe (func : FuncType Ty) (span : Span) (index : Nat) {values : List Typed}
    (hOutputs : Ty.PlainAll s.values outputs) (h : ∀ e ∈ values, e.Sound s.values) :
    SafeAction s (setResults func span index outputs values) := by
  induction outputs generalizing index values with
  | nil => exact .pure trivial
  | cons output rest ih =>
      cases values with
      | nil => exact .pure trivial
      | cons value others =>
          rw [Ty.PlainAll] at hOutputs
          refine (Safe.convert hOutputs.1.2.usable (h value List.mem_cons_self) _ _).bind
            fun c _ => (Safe.emit _).bind fun _ _ => ?_
          exact ih (index + 1) hOutputs.2 (List.forall_mem_cons.mp h).2

theorem returnThrough_safe {values : List Typed} (hOutputs : Ty.PlainAll s.values func.outputs)
    (h : ∀ e ∈ values, e.Sound s.values) (span : Span) :
    SafeAction s (returnThrough func values span) :=
  (setResults_safe func span 0 hOutputs h).bind fun _ _ => .emit _

theorem returnNothing_safe (func : FuncType Ty) (span : Span) :
    SafeAction s (returnNothing func span) := by
  refine Safe.read.bind fun env _ => ?_
  split
  · exact .emit _
  · exact .errorIf _ _ fun _ => .emit _

/-- The results of a call as values. -/
theorem members_sound {members : List (Member Ty)}
    (h : ∀ member ∈ members, isCName member.name = true ∧ member.type.Plain s.values) :
    ∀ e ∈ members.map fun m => (⟨.localVar m.name, m.type⟩ : Typed), e.Sound s.values := by
  intro e he
  obtain ⟨member, hMember, rfl⟩ := List.mem_map.mp he
  exact localVar_sound (h member hMember).1 (h member hMember).2.usable

/-- Only results of a call are found to be a list of values. -/
theorem multi?_eq (h : e.Result s.values) : Safe s (RoutineM.types (·.multi? e.type)) fun found =>
      ∀ members ∈ found, e.type = .multi members := by
  rcases h with h | ⟨-, members, hType, -⟩
  · refine (Safe.types (s.settled.multi?_usable h.usable)).mono fun found hFound => ?_
    rw [hFound.2]
    simp
  · have hMulti : s.store.Answers (s.store.multi? e.type) fun found => found = some members := by
      rw [hType]
      rfl
    refine (Safe.types hMulti).mono fun found hFound => ?_
    rw [hFound.2]
    simpa using hType

/-- What a value is found to be a list of are the results of a call. -/
theorem multi?_safe (h : e.Result s.values) :
    Safe s (RoutineM.types (·.multi? e.type)) fun found => ∀ members ∈ found,
      ∀ member ∈ members, isCName member.name = true ∧ member.type.Plain s.values := by
  refine (multi?_eq h).mono fun found hFound members hMembers => ?_
  have hType := hFound members hMembers
  rcases h with h | ⟨-, others, hOthers, hPlain⟩
  · exact absurd (hType ▸ h.usable) Ty.Usable.not_multi
  · obtain rfl : others = members := Ty.multi.inj (hOthers.symm.trans hType)
    exact hPlain

theorem returnOne_safe {value : Operand} (hOutputs : Ty.PlainAll s.values func.outputs)
    (h : value.Sound s) (span : Span) : SafeAction s (returnOne func value span) := by
  unfold returnOne
  split
  · next output hOutput =>
      rw [hOutput, Ty.PlainAll] at hOutputs
      refine h.value.bind fun value hValue => ?_
      exact (Safe.convert hOutputs.1.2.usable hValue _ _).bind fun c _ => .emit _
  · refine Safe.bind h fun value hValue => (Safe.toExpr span hValue).bind fun e he => ?_
    refine (multi?_safe he).bind fun found hFound => ?_
    split
    · next members =>
        exact .errorIf _ _ fun _ => (Safe.emit _).bind fun _ _ =>
          returnThrough_safe hOutputs (members_sound (hFound members rfl)) span
    · exact .error _ _

theorem ret_safe (h : ∀ operand ∈ values, operand.Sound s) (span : Span) :
    SafeAction s (ret values span) := by
  refine Safe.read.bind fun env hEnv => ?_
  split
  · exact .error _ _
  · next func hFunc =>
      have hPlain := hEnv.func func hFunc
      rw [Ty.PlainFunc] at hPlain
      split
      · exact returnNothing_safe func span
      · next value => exact returnOne_safe hPlain.2.1 (h value List.mem_cons_self) span
      · exact .errorIf _ _ fun _ => (Operand.values_safe h).bind fun es hes =>
          returnThrough_safe hPlain.2.1 hes span

/-! ## Assignments -/

theorem place_safe (h : target.Sound s) : Safe s (place target) (Typed.Sound s.values) := by
  have hRest (assignable : Bool) : Safe s (do
      if !assignable then RoutineM.error target.span (.invalidTarget .notAssignable)
      target.value) (Typed.Sound s.values) := .errorIf _ _ fun _ => h.value
  unfold place
  split
  · exact (Safe.isAssignable _).bind fun assignable _ => hRest assignable
  · exact hRest true
  · exact hRest true
  · exact hRest false

theorem assignTo_safe (hTarget : target.Sound s) (hValue : value.Sound s.values) (span : Span) :
    SafeAction s (assignTo target value span) := by
  unfold assignTo
  split
  · exact .emit _
  · refine (place_safe hTarget).bind fun place hPlace => ?_
    refine (Safe.convert hPlace.usable hValue _ _).bind fun c _ => ?_
    exact (Safe.types (s.settled.cType_usable hPlace.usable)).bind fun _ _ => .emit _

theorem assignAll_safe (span : Span) (hTargets : ∀ operand ∈ targets, operand.Sound s)
    (hValues : ∀ operand ∈ values, operand.Sound s) :
    SafeAction s (assignAll span targets values) := by
  induction targets generalizing values with
  | nil => exact .pure trivial
  | cons target rest ih =>
      cases values with
      | nil => exact .pure trivial
      | cons value others =>
          refine (hValues value List.mem_cons_self).value.bind fun e he => ?_
          refine (assignTo_safe (hTargets target List.mem_cons_self) he span).bind fun _ _ => ?_
          exact ih (List.forall_mem_cons.mp hTargets).2 (List.forall_mem_cons.mp hValues).2

theorem defineTyped_safe (hName : isIdentifier name = true) (h : value.Sound s.values)
    (span : Span) (hType : type.Usable s.values) :
    SafeAction s (defineTyped name value span type) := by
  refine (Safe.types (s.settled.isPrim_usable hType _)).bind fun isNil _ => ?_
  refine .errorIf _ _ fun _ => ?_
  refine (Safe.declareLocal hName hType span).bind fun cName hcName => ?_
  refine (Safe.convert hType h _ _).bind fun c _ => ?_
  refine (Safe.types (s.settled.cType_usable hType)).bind fun cType _ => ?_
  exact (Safe.emit _).bind fun _ _ => .bindName name (localVar_sound hcName hType) trivial

theorem defineOne_safe (hName : isIdentifier name = true) (h : value.Sound s.values) (span : Span) :
    SafeAction s (defineOne name value span) := by
  unfold defineOne
  split
  · exact .emit _
  · refine (Safe.types (s.settled.isPrim_usable h.usable _)).bind fun isConst _ => ?_
    split
    · exact defineTyped_safe hName h span ExprRule.int_plain.usable
    · exact defineTyped_safe hName h span h.usable

theorem defineAll_safe (span : Span) {names : List String} {values : List Typed}
    (hNames : ∀ name ∈ names, isIdentifier name = true) (h : ∀ e ∈ values, e.Sound s.values) :
    SafeAction s (defineAll span names values) := by
  induction names generalizing values with
  | nil => exact .pure trivial
  | cons name rest ih =>
      cases values with
      | nil => exact .pure trivial
      | cons value others =>
          refine (defineOne_safe (hNames name List.mem_cons_self) (h value List.mem_cons_self)
            span).bind fun _ _ => ?_
          exact ih (List.forall_mem_cons.mp hNames).2 (List.forall_mem_cons.mp h).2

/-- An operand that is a name is an identifier. -/
def NamesIdentifier (operand : Operand) : Prop :=
  ∀ name, operand.source.ident? = some name → isIdentifier name = true

theorem definedNames_safe (h : ∀ operand ∈ targets, NamesIdentifier operand) :
    Safe s (definedNames targets) fun names => ∀ name ∈ names, isIdentifier name = true := by
  induction targets with
  | nil => exact .pure (by simp)
  | cons target rest ih =>
      unfold definedNames
      split
      · exact .error _ _
      · next name hName =>
          have hFirst := h target List.mem_cons_self name hName
          refine (ih fun o ho => h o (List.mem_cons_of_mem target ho)).bind fun others hOthers => ?_
          exact .pure (by simpa using ⟨hFirst, hOthers⟩)

theorem assignEach_safe (span : Span) (hTargets : ∀ operand ∈ targets, operand.Sound s)
    (h : ∀ e ∈ results, e.Sound s.values) :
    SafeAction s (assignResults.assignEach span targets results) := by
  induction targets generalizing results with
  | nil => exact .pure trivial
  | cons target rest ih =>
      cases results with
      | nil => exact .pure trivial
      | cons result others =>
          refine (assignTo_safe (hTargets target List.mem_cons_self) (h result List.mem_cons_self)
            span).bind fun _ _ => ?_
          exact ih (List.forall_mem_cons.mp hTargets).2 (List.forall_mem_cons.mp h).2

theorem assignResults_safe {names : Option (List String)} (span : Span)
    (hTargets : ∀ operand ∈ targets, operand.Sound s)
    (hNames : ∀ ns ∈ names, ∀ name ∈ ns, isIdentifier name = true)
    (h : ∀ e ∈ results, e.Sound s.values) :
    SafeAction s (assignResults targets names results span) := by
  cases names with
  | none => exact assignEach_safe span hTargets h
  | some names => exact defineAll_safe span (hNames names rfl) h

theorem isPrim_result (h : e.Result s.values) (prim : Prim) :
    s.store.Answers (s.store.isPrim e.type prim) fun _ => True := by
  rcases h with h | ⟨-, members, hType, -⟩
  · exact s.settled.isPrim_usable h.usable prim
  · rw [hType]
    trivial

theorem assignFromCall_safe {call : Operand} (define : Bool) (span : Span)
    (hTargets : ∀ operand ∈ targets, operand.Sound s)
    (hNames : ∀ operand ∈ targets, NamesIdentifier operand) (hCall : call.Sound s) :
    SafeAction s (assignFromCall targets call define span) := by
  have hRest (names : Option (List String))
      (hNames : ∀ ns ∈ names, ∀ name ∈ ns, isIdentifier name = true) :
      SafeAction s (assignCalled targets call names span) := by
    refine Safe.bind hCall fun value hValue => (Safe.toExpr span hValue).bind fun e he => ?_
    refine (multi?_safe he).bind fun found hFound => ?_
    split
    · next members =>
        exact .errorIf _ _ fun _ => (Safe.emit _).bind fun _ _ =>
          assignResults_safe span hTargets hNames (members_sound (hFound members rfl))
    · dsimp only
      split
      · exact (Safe.types (isPrim_result he .void)).bind fun _ _ => .error _ _
      · exact .error _ _
  unfold assignFromCall
  dsimp only
  split
  · refine Safe.bind (.map ((definedNames_safe hNames).mono fun names h => ?_)) hRest
    simpa using h
  · exact hRest none (by simp)

theorem setOrDefine_safe (define : Bool) (span : Span)
    (hTargets : ∀ operand ∈ targets, operand.Sound s)
    (hNames : ∀ operand ∈ targets, NamesIdentifier operand)
    (hValues : ∀ operand ∈ values, operand.Sound s) :
    SafeAction s (setOrDefine define targets values span) := by
  have hRest : SafeAction s (if define then do
        let names ← definedNames targets
        let values ← Operand.values values
        defineAll span names values
      else assignAll span targets values) := by
    split
    · exact (definedNames_safe hNames).bind fun names hn => (Operand.values_safe hValues).bind
        fun es hes => defineAll_safe span hn hes
    · exact assignAll_safe span hTargets hValues
  unfold setOrDefine
  split
  · exact assignFromCall_safe _ _ hTargets hNames (hValues _ List.mem_cons_self)
  · exact .errorIf _ _ fun _ => hRest

theorem stepTarget_safe (h : ∀ operand ∈ targets, operand.Sound s) (span : Span) :
    Safe s (stepTarget targets span) fun _ => True := by
  unfold stepTarget
  split
  · exact (place_safe (h _ List.mem_cons_self)).bind fun _ _ => .pure trivial
  · exact .error _ _

theorem assign_safe (op : AssignOp) (span : Span) (hTargets : ∀ operand ∈ targets, operand.Sound s)
    (hNames : ∀ operand ∈ targets, NamesIdentifier operand)
    (hValues : ∀ operand ∈ values, operand.Sound s) :
    SafeAction s (assign op targets values span) := by
  cases op with
  | inc => exact (stepTarget_safe hTargets span).bind fun _ _ => .emit _
  | dec => exact (stepTarget_safe hTargets span).bind fun _ _ => .emit _
  | lone =>
      unfold assign
      dsimp only
      split
      · next call =>
          refine .errorIf _ _ fun _ => ?_
          refine Safe.bind (hValues call List.mem_cons_self) fun value hValue => ?_
          exact (Safe.toExpr span hValue).bind fun _ _ => .emit _
      · exact .error _ _
  | compound bin =>
      unfold assign
      dsimp only
      split
      · next target value =>
          refine (place_safe (hTargets target List.mem_cons_self)).bind fun _ _ => ?_
          exact (hValues value List.mem_cons_self).value.bind fun _ _ => .emit _
      · exact .error _ _
  | set => exact setOrDefine_safe _ _ hTargets hNames hValues
  | define => exact setOrDefine_safe _ _ hTargets hNames hValues

end StmtRule

/-! ## Statements -/

open StmtRule

theorem namesIdentifier_operands {k : Known} : (es : List Expr) → ExprsFormed k.Word es →
    ∀ operand ∈ operands es, NamesIdentifier operand
  | [], _, operand, h => by simp [operands] at h
  | e :: rest, hFormed, operand, h => by
      rw [ExprsFormed] at hFormed
      rw [operands] at h
      rcases List.mem_cons.mp h with rfl | h
      · intro name hName
        cases e with
        | ident span text =>
            cases hName
            rw [Expr.Formed] at hFormed
            exact hFormed.1.1
        | _ => cases hName
      · exact namesIdentifier_operands rest hFormed.2 operand h

mutual

theorem compileStmt_safe {s : Setting} (whole : s.types = s.values) :
    (stmt : Stmt) → stmt.Formed s.types.Word → SafeAction s (compileStmt stmt)
  | .assign span op targets values, h => by
      rw [Stmt.Formed] at h
      rw [compileStmt]
      exact assign_safe op span (operands_safe whole targets h.1)
        (namesIdentifier_operands targets h.1) (operands_safe whole values h.2)
  | .var span name type, h => by
      rw [Stmt.Formed] at h
      rw [compileStmt]
      exact declare_safe whole h.1.1 (typeOperand_safe s type h.2) span
  | .ret span values, h => by
      rw [Stmt.Formed] at h
      rw [compileStmt]
      exact ret_safe (operands_safe whole values h) span
  | .breakLoop span _, _ => by
      rw [compileStmt]
      exact jump_safe _ span
  | .continueLoop span _, _ => by
      rw [compileStmt]
      exact jump_safe _ span
  | .whileLoop _ cond body, h => by
      rw [Stmt.Formed] at h
      rw [compileStmt]
      exact loop_safe (optOperand_safe whole cond h.1) (by simp) (compileStmts_safe whole body h.2)
  | .forLoop _ init cond post body, h => by
      rw [Stmt.Formed] at h
      rw [compileStmt]
      exact forLoop_safe (compileOptStmt_safe whole init h.1) (optOperand_safe whole cond h.2.1)
        (compileOptStmt_safe whole post h.2.2.1) (compileStmts_safe whole body h.2.2.2)
  | .rangeLoop span key value collection body, h => by
      rw [Stmt.Formed] at h
      rw [compileStmt]
      exact rangeLoop_safe (fun n hn => (h.1 n hn).1) (fun n hn => (h.2.1 n hn).1)
        (operand_safe whole collection h.2.2.1) (compileStmts_safe whole body h.2.2.2) span
  | .ifElse _ cond thenBody elseBody, h => by
      rw [Stmt.Formed] at h
      rw [compileStmt]
      exact ifElse_safe (operand_safe whole cond h.1) (compileStmts_safe whole thenBody h.2.1)
        (compileOptStmts_safe whole elseBody h.2.2)
  | .switch _ subject cases fallback, h => by
      rw [Stmt.Formed] at h
      rw [compileStmt]
      exact switch_safe (optOperand_safe whole subject h.1) (compileCases_safe whole cases h.2.1)
        (compileOptStmts_safe whole fallback h.2.2)
  | .block _ body, h => by
      rw [Stmt.Formed] at h
      rw [compileStmt]
      exact (block_safe (compileStmts_safe whole body h)).bind fun _ _ => .emit _

theorem compileStmts_safe {s : Setting} (whole : s.types = s.values) :
    (stmts : List Stmt) → StmtsFormed s.types.Word stmts → SafeAction s (compileStmts stmts)
  | [], _ => by rw [compileStmts]; exact .pure trivial
  | stmt :: rest, h => by
      rw [StmtsFormed] at h
      rw [compileStmts]
      exact (compileStmt_safe whole stmt h.1).bind fun _ _ => compileStmts_safe whole rest h.2

theorem compileOptStmt_safe {s : Setting} (whole : s.types = s.values) : (stmt : Option Stmt) →
    OptStmtFormed s.types.Word stmt → ∀ action ∈ compileOptStmt stmt, SafeAction s action
  | none, _, action, h => by simp [compileOptStmt] at h
  | some stmt, hFormed, action, h => by
      rw [OptStmtFormed] at hFormed
      rw [compileOptStmt, Option.mem_some_iff] at h
      subst h
      exact compileStmt_safe whole stmt hFormed

theorem compileOptStmts_safe {s : Setting} (whole : s.types = s.values) :
    (body : Option (List Stmt)) → OptStmtsFormed s.types.Word body →
      ∀ action ∈ compileOptStmts body, SafeAction s action
  | none, _, action, h => by simp [compileOptStmts] at h
  | some body, hFormed, action, h => by
      rw [OptStmtsFormed] at hFormed
      rw [compileOptStmts, Option.mem_some_iff] at h
      subst h
      exact compileStmts_safe whole body hFormed

theorem compileCases_safe {s : Setting} (whole : s.types = s.values) :
    (cases : List (SwitchCase Stmt)) → CasesFormed s.types.Word cases →
      SafeArms s (compileCases cases)
  | [], _, arm, h => by simp [compileCases] at h
  | ⟨tests, body, _⟩ :: rest, hFormed, arm, h => by
      rw [CasesFormed] at hFormed
      rw [compileCases, compileCase] at h
      rcases List.mem_cons.mp h with rfl | h
      · exact ⟨operands_safe whole tests hFormed.1.1, compileStmts_safe whole body hFormed.1.2⟩
      · exact compileCases_safe whole rest hFormed.2 arm h

end

/-! ## Bodies -/

section Body

variable {s : Setting} {func : FuncType Ty}

theorem bindInputs_safe (hNames : ∀ input ∈ func.inputs, NamedByIdentifier input.name)
    (index : Nat) {inputs : List (Member Ty)} (h : Ty.PlainAll s.values inputs) :
    SafeAction s (bindInputs func index inputs) := by
  induction inputs generalizing index with
  | nil => exact .pure trivial
  | cons input rest ih =>
      rw [Ty.PlainAll] at h
      have hInput : Typed.Sound s.values ⟨.param (func.inputName index), input.type⟩ :=
        .of_plain h.1.2 (by rw [CExpr.Fits]; exact isCName_inputName func index hNames)
      unfold bindInputs
      dsimp only
      split
      · exact (Safe.bindName _ hInput trivial).bind fun _ _ => ih (index + 1) h.2
      · exact ih (index + 1) h.2

theorem bindOutputs_safe (hNames : ∀ output ∈ func.outputs, NamedByIdentifier output.name)
    (index : Nat) (h : Ty.PlainAll s.values outputs) :
    SafeAction s (bindOutputs func index outputs) := by
  induction outputs generalizing index with
  | nil => exact .pure trivial
  | cons output rest ih =>
      rw [Ty.PlainAll] at h
      have hOutput : Typed.Sound s.values ⟨.result (func.outputName index), output.type⟩ :=
        .of_plain h.1.2 (by rw [CExpr.Fits]; exact isCName_outputName func index hNames)
      unfold bindOutputs
      dsimp only
      split
      · exact (Safe.bindName _ hOutput trivial).bind fun _ _ => ih (index + 1) h.2
      · exact ih (index + 1) h.2

theorem enterFunc_safe (h : (Ty.func func).PlainFunc s.values) (span : Span) :
    Safe s (enterFunc func span) fun result => ∀ name ∈ result, isCName name = true := by
  rw [Ty.PlainFunc] at h
  have hInputNames := fun input hi => (Ty.plainAll_iff.mp h.1 input hi).1
  have hOutputNames := fun output ho => (Ty.plainAll_iff.mp h.2.1 output ho).1
  refine (bindInputs_safe hInputNames 0 h.1).bind fun _ _ => ?_
  split
  · next output hOutputs =>
      have hOutput : NamedByIdentifier output.name ∧ output.type.Plain s.values :=
        Ty.plainAll_iff.mp h.2.1 output (by simp [hOutputs])
      split
      · next hNamed =>
          have hUsable := hOutput.2.usable
          refine (Safe.declareLocal (hOutput.1 hNamed) hUsable span).bind fun cName hcName => ?_
          exact (Safe.bindName _ (localVar_sound hcName hUsable) trivial).bind fun _ _ =>
            .pure (by simpa using hcName)
      · exact .pure (by simp)
  · exact (bindOutputs_safe hOutputNames 0 h.2.1).bind fun _ _ => .pure (by simp)

theorem compileBody_safe (whole : s.types = s.values) {body : List Stmt}
    (hFunc : (Ty.func func).PlainFunc s.values) (h : StmtsFormed s.types.Word body)
    (span : Span) : SafeAction s (compileBody func body span) := by
  refine (enterFunc_safe hFunc span).bind fun result hResult env routine hEnv hRoutine => ?_
  have hBody := Safe.inScope (compileStmts_safe whole body h)
  refine hBody { env with func := some func, namedResult := result } routine ?_ hRoutine
  refine ⟨hEnv.types, hEnv.own, hEnv.shared, hEnv.foreign, hEnv.exprs, ?_, hResult, hEnv.package⟩
  rintro _ ⟨⟩
  exact hFunc

end Body

end GoToC
