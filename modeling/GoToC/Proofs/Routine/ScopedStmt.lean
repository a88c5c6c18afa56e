import GoToC.Proofs.Routine.ScopedExpr

/-!
# Names in statements

The statements of a function use and declare names in the order of the walk through the tree,
each block in a scope of its own. So every identifier that is looked up in the body of a function
is found where the rules of lexical scoping say.
-/

namespace GoToC

variable {targets : List Operand} {walk last : Outlook → Walk}
  {arms arms' : List (List Operand × RoutineM Unit)} {names : List String} {cond : Option Operand}
  {body body' : RoutineM Unit} {post post' : Option (RoutineM Unit)} {target : Operand}

/-! ## What actions can come to -/

/-- There is a value for each operand. -/
theorem Operand.length_of_gives {operands : List Operand} {found : List Typed}
    (h : (values operands).Gives found) : found.length = operands.length := by
  induction operands generalizing found with
  | nil => exact h.pure_eq ▸ rfl
  | cons operand rest ih =>
      obtain ⟨first, -, h⟩ := h.of_bind
      obtain ⟨others, hOthers, h⟩ := h.of_bind
      rw [← h.pure_eq, List.length_cons, List.length_cons, ih hOthers]

namespace StmtRule

/-- There is a list of tests for each arm. -/
theorem switchTests_length_of_gives {tests : List (List CExpr)}
    (h : (switchTests arms).Gives tests) : tests.length = arms.length := by
  induction arms generalizing tests with
  | nil => exact h.pure_eq ▸ rfl
  | cons arm rest ih =>
      obtain ⟨first, -, h⟩ := h.of_bind
      obtain ⟨others, hOthers, h⟩ := h.of_bind
      rw [← h.pure_eq, List.length_cons, List.length_cons, ih hOthers]

/-- A definition names all that is on its left. -/
theorem definedNames_of_gives (h : (definedNames targets).Gives names) :
    names = (targets.map (·.source)).filterMap (·.ident?) ∧ names.length = targets.length := by
  induction targets generalizing names with
  | nil => exact ⟨h.pure_eq ▸ rfl, h.pure_eq ▸ rfl⟩
  | cons target rest ih =>
      unfold definedNames at h
      split at h
      · exact absurd h RoutineM.Gives.not_error
      · next name hName =>
          obtain ⟨others, hOthers, h⟩ := h.of_bind
          obtain ⟨hNames, hLength⟩ := ih hOthers
          rw [← h.pure_eq, List.map_cons, List.filterMap_cons_some hName, ← hNames]
          exact ⟨rfl, congrArg (· + 1) hLength⟩

theorem definedNames_via (find : Finder) (targets : List Operand) :
    definedNames (targets.map (·.via find)) = definedNames targets := by
  induction targets with
  | nil => rfl
  | cons target rest ih => rw [List.map_cons, definedNames, definedNames, ih]; rfl

/-- Unless several targets stand on the left of one value, there is a value for each of them. -/
theorem setOrDefine_pairs {define : Bool} {values : List Operand} {span : Span}
    (h : ¬ (1 < targets.length ∧ values.length = 1)) :
    setOrDefine define targets values span = (do
      if targets.length ≠ values.length then
        RoutineM.error span (.resultCount (.assignCount targets.length values.length))
      if define then
        let names ← definedNames targets
        let values ← Operand.values values
        defineAll span names values
      else assignAll span targets values) := by
  unfold setOrDefine
  split
  · exact absurd ⟨by simp, rfl⟩ h
  · rfl

/-- Several targets on the left of one value. -/
theorem exists_of_lengths {values : List Operand} (h : 1 < targets.length ∧ values.length = 1) :
    ∃ first second rest call, targets = first :: second :: rest ∧ values = [call] := by
  obtain ⟨hTargets, hValues⟩ := h
  obtain ⟨call, rfl⟩ := List.length_eq_one_iff.mp hValues
  rcases targets with _ | ⟨first, _ | ⟨second, rest⟩⟩
  · cases hTargets
  · exact absurd hTargets (Nat.lt_irrefl 1)
  · exact ⟨first, second, rest, call, rfl, rfl⟩

end StmtRule

theorem ne_blank_of_isNamed {name : String} (h : isNamed name = true) : name ≠ "_" := by
  rintro rfl
  cases h

section

variable {env : Env} {find : Finder} {outlook : Outlook}

namespace Scoped

/-- A part of a statement that follows a walk, wherever it stands. -/
abbrev OfAction {α : Type} (env : Env) (find : Finder) (action action' : RoutineM α)
    (walk : Outlook → Walk) : Prop :=
  ∀ outlook, Scoped env find outlook action action' (walk outlook)

/-! ## Blocks and loops -/

theorem block {action action' : RoutineM Unit} (h : OfAction env find action action' walk) :
    Scoped env find outlook (StmtRule.block action) (StmtRule.block action') (outlook.block walk) :=
  .close (.capture (.inScope h)) fun _ _ => .pure _

theorem declare (name : String) {type : Operand} (span : Span) (h : OfOperand env find type) :
    Scoped env find outlook (StmtRule.declare name type span)
      (StmtRule.declare name (type.via find) span)
      ((outlook.look env.hides [type.source]).andThen (·.declare name)) := by
  rw [Outlook.look_singleton]
  exact .bind (.type h) fun _ _ => .skip (.declareLocal _ _ _) fun _ _ => .bindName _ _

theorem loopTest (h : ∀ operand ∈ cond, OfOperand env find operand) :
    Scoped env find outlook (StmtRule.loopTest cond) (StmtRule.loopTest (cond.map (·.via find)))
      (outlook.look env.hides (cond.map (·.source)).toList) := by
  cases cond with
  | none => exact .blind (.pure _)
  | some operand =>
      rw [Option.map_some, Option.map_some, Option.toList_some, Outlook.look_singleton]
      exact .close (.capture (.value (h operand rfl))) fun _ _ => .pure _

theorem loop (hCond : ∀ operand ∈ cond, OfOperand env find operand)
    (hPost : OfAction env find (post.getD (pure ())) (post'.getD (pure ())) last)
    (hBody : OfAction env find body body' walk) :
    Scoped env find outlook (StmtRule.loop cond post body)
      (StmtRule.loop (cond.map (·.via find)) post' body')
      (((outlook.look env.hides (cond.map (·.source)).toList).andThen (·.block walk)).andThen
        last) := by
  rw [Walk.andThen_assoc]
  exact .skip .nextSerial fun number _ => .bind (.loopTest hCond) fun _ _ =>
    .bind (.inLoop number (.block hBody)) fun _ _ =>
      .close (.capture (hPost _)) fun _ _ => .emit _

theorem forLoop {init init' : Option (RoutineM Unit)} {first : Outlook → Walk}
    (hInit : OfAction env find (init.getD (pure ())) (init'.getD (pure ())) first)
    (hCond : ∀ operand ∈ cond, OfOperand env find operand)
    (hPost : OfAction env find (post.getD (pure ())) (post'.getD (pure ())) last)
    (hBody : OfAction env find body body' walk) :
    Scoped env find outlook (StmtRule.forLoop init cond post body)
      (StmtRule.forLoop init' (cond.map (·.via find)) post' body')
      (outlook.block fun inner =>
        (((first inner).andThen (·.look env.hides (cond.map (·.source)).toList)).andThen
          (·.block walk)).andThen last) := by
  refine .inScope fun inner => ?_
  simp only [Walk.andThen_assoc]
  refine .bind (hInit inner) fun _ _ => ?_
  have hLoop : Scoped env find (first inner).outlook _ _ _ := .loop hCond hPost hBody
  rwa [Walk.andThen_assoc] at hLoop

theorem rangeLocal (name : Option String) (type : Ty) (span : Span) :
    Scoped env find outlook (StmtRule.rangeLocal name type span)
      (StmtRule.rangeLocal name type span) (outlook.declareAll name.toList) := by
  unfold StmtRule.rangeLocal
  split
  · exact .blind (.pure _)
  · exact .blind (.pure _)
  · next name hBlank =>
      rw [Option.toList_some, Outlook.declareAll_singleton _ hBlank]
      exact .skip (.declareLocal _ _ _) fun _ _ => .close (.bindName _ _) fun _ _ => .pure _

theorem rangeLoop (key value : Option String) {collection : Operand} (span : Span)
    (hCollection : OfOperand env find collection) (hBody : OfAction env find body body' walk) :
    Scoped env find outlook (StmtRule.rangeLoop key value collection body span)
      (StmtRule.rangeLoop key value (collection.via find) body' span)
      (outlook.block fun inner => ((inner.look env.hides [collection.source]).andThen
        (·.declareAll (key.toList ++ value.toList))).andThen (·.block walk)) := by
  refine .inScope fun inner => ?_
  simp only [Walk.andThen_assoc, Outlook.declareAll_append, Outlook.look_singleton]
  exact .bind (.value hCollection) fun _ _ => .skip (.rangeElement _ _) fun _ _ =>
    .skip .nextSerial fun number _ => .skip (.temp _ _) fun _ _ => .skip (.temp _ _) fun _ _ =>
      .skip (.temp _ _) fun _ _ => .skip (.emit _) fun _ _ => .skip (.emit _) fun _ _ =>
        .skip (.emit _) fun _ _ => .bind (.rangeLocal _ _ _) fun _ _ =>
          .bind (.rangeLocal _ _ _) fun _ _ =>
            .close (.inLoop number (.block hBody)) fun _ _ => .emit _

/-! ## Branches -/

theorem ifElse {cond : Operand} {thenBody thenBody' : RoutineM Unit}
    {elseBody elseBody' : Option (RoutineM Unit)} (hCond : OfOperand env find cond)
    (hThen : OfAction env find thenBody thenBody' walk)
    (hElse : OfAction env find (StmtRule.optBlock elseBody) (StmtRule.optBlock elseBody') last) :
    Scoped env find outlook (StmtRule.ifElse cond thenBody elseBody)
      (StmtRule.ifElse (cond.via find) thenBody' elseBody')
      (((outlook.look env.hides [cond.source]).andThen (·.block walk)).andThen last) := by
  rw [Walk.andThen_assoc, Outlook.look_singleton]
  exact .bind (.value hCond) fun _ _ => .bind (.block hThen) fun _ _ =>
    .close (hElse _) fun _ _ => .emit _

/-- Arms of the same tests, with identifiers found in a way of one's own. -/
abbrev SameTests (find : Finder) (arms arms' : List (List Operand × RoutineM Unit)) : Prop :=
  arms'.map (·.1) = arms.map (·.1.map (·.via find))

theorem switchTests (hSame : SameTests find arms arms')
    (h : ∀ arm ∈ arms, ∀ operand ∈ arm.1, OfOperand env find operand) :
    Scoped env find outlook (StmtRule.switchTests arms) (StmtRule.switchTests arms')
      (outlook.look env.hides (arms.flatMap fun arm => arm.1.map (·.source))) := by
  induction arms generalizing arms' with
  | nil =>
      obtain rfl := List.map_eq_nil_iff.mp hSame
      exact .blind (.pure _)
  | cons arm rest ih =>
      obtain ⟨⟨tests, body⟩, rest', rfl, hTests, hRest⟩ := List.map_eq_cons_iff.mp hSame
      obtain rfl : tests = arm.1.map (·.via find) := hTests
      rw [List.flatMap_cons, Outlook.look, namingsAll_append]
      exact .follow (.values (h arm List.mem_cons_self)) fun _ _ =>
        .close (ih hRest fun a ha => h a (List.mem_cons_of_mem arm ha)) fun _ _ => .pure _

theorem switch {subject : Option Operand} {fallback fallback' : Option (RoutineM Unit)}
    (hSame : SameTests find arms arms')
    (hSubject : ∀ operand ∈ subject, OfOperand env find operand)
    (hTests : ∀ arm ∈ arms, ∀ operand ∈ arm.1, OfOperand env find operand)
    (hArms : ∀ tests, tests.length = arms.length →
      OfAction env find (StmtRule.switchArms tests arms) (StmtRule.switchArms tests arms') walk)
    (hFallback : OfAction env find (StmtRule.optBlock fallback) (StmtRule.optBlock fallback')
    last) :
    Scoped env find outlook (StmtRule.switch subject arms fallback)
      (StmtRule.switch (subject.map (·.via find)) arms' fallback')
      ((((outlook.look env.hides (subject.map (·.source)).toList).andThen
        (·.look env.hides (arms.flatMap fun arm => arm.1.map (·.source)))).andThen walk).andThen
        last) := by
  have hRest (c : CExpr) (inner : Outlook) : Scoped env find inner (do
      let tests ← StmtRule.switchTests arms
      let arms ← StmtRule.switchArms tests arms
      let fallback ← StmtRule.optBlock fallback
      RoutineM.emit (.switch c arms (fallback.getD [])))
      (do
      let tests ← StmtRule.switchTests arms'
      let arms ← StmtRule.switchArms tests arms'
      let fallback ← StmtRule.optBlock fallback'
      RoutineM.emit (.switch c arms (fallback.getD [])))
      (((inner.look env.hides (arms.flatMap fun arm => arm.1.map (·.source))).andThen walk).andThen
        last) := by
    rw [Walk.andThen_assoc]
    exact .bind (.switchTests hSame hTests) fun tests hGives =>
      .bind (hArms tests (StmtRule.switchTests_length_of_gives hGives) _) fun _ _ =>
        .close (hFallback _) fun _ _ => .emit _
  simp only [Walk.andThen_assoc] at hRest ⊢
  cases subject with
  | none => exact .bind (.blind (.pure _)) fun c _ => hRest c outlook
  | some operand =>
      rw [Option.map_some, Option.map_some, Option.toList_some, Outlook.look_singleton]
      exact .bind (.value (hSubject operand rfl)) fun _ _ => .skip (.pure _) fun c _ =>
        hRest c outlook

/-! ## Returns -/

theorem returnOne (func : FuncType Ty) {value : Operand} (span : Span)
    (h : OfOperand env find value) : Uses env find outlook (StmtRule.returnOne func value span)
      (StmtRule.returnOne func (value.via find) span)
      (value.source.namings env.hides outlook.visible) := by
  unfold StmtRule.returnOne
  split
  · exact .close (.value h) fun _ _ => .bind (.of_idle (.convert _ _ _ _)) fun _ => .emit _
  · refine .close (h outlook) fun found _ => .bind (.of_idle (.toExpr _ _)) fun _ =>
      .bind (.types _) fun members => ?_
    split
    · have hEnd (members : List (Member Ty)) (c : CExpr) : RoutineM.Blind (do
          RoutineM.emit (.eval c)
          StmtRule.returnThrough func (members.map fun m => ⟨.localVar m.name, m.type⟩) span) :=
        .bind (.emit _) fun _ => .returnThrough _ _ _
      dsimp only
      split
      · exact .bind (.error _ _) fun _ => hEnd _ _
      · exact hEnd _ _
    · exact .error _ _

theorem ret {values : List Operand} (span : Span)
    (h : ∀ operand ∈ values, OfOperand env find operand) :
    Scoped env find outlook (StmtRule.ret values span) (StmtRule.ret (values.map (·.via find)) span)
      (outlook.look env.hides (values.map (·.source))) := by
  refine .skip .read fun env' _ => ?_
  split
  · exact .error _ _
  · rcases values with _ | ⟨value, _ | ⟨other, rest⟩⟩
    · exact .blind (.returnNothing _ _)
    · rw [List.map_singleton, List.map_singleton, Outlook.look_singleton]
      exact .returnOne _ _ (h value List.mem_cons_self)
    · simp only [List.map_cons, List.length_cons, List.length_map]
      split
      · exact .error_bind _ _
      · exact .close (.values h) fun _ _ => .returnThrough _ _ _

/-! ## Assignments -/

theorem place (h : OfOperand env find target) : Uses env find outlook (StmtRule.place target)
      (StmtRule.place (target.via find))
      (target.source.namings env.hides outlook.visible) := by
  have hRest (assignable : Bool) : Uses env find outlook (do
      if !assignable then RoutineM.error target.span (.invalidTarget .notAssignable)
      target.value) (do
      if !assignable then RoutineM.error target.span (.invalidTarget .notAssignable)
      (target.via find).value) (target.source.namings env.hides outlook.visible) := by
    cases assignable with
    | true => exact .value h
    | false => exact .error_bind _ _
  unfold StmtRule.place
  rw [Operand.via_source]
  dsimp only
  split
  · exact .isAssignable _ hRest
  · exact .skip (.pure _) fun _ _ => hRest _
  · exact .skip (.pure _) fun _ _ => hRest _
  · exact .skip (.pure _) fun _ _ => hRest _

theorem assignTo (value : Typed) (span : Span) (h : OfOperand env find target) :
    Scoped env find outlook (StmtRule.assignTo target value span)
      (StmtRule.assignTo (target.via find) value span)
      (outlook.lookTargets env.hides [target.source]) := by
  unfold StmtRule.assignTo
  rw [Outlook.lookTargets, Operand.via_source]
  by_cases hBlank : target.source.ident? = some "_"
  · rw [if_pos hBlank, if_pos hBlank, List.filter_cons_of_neg (by simpa using hBlank)]
    exact .blind (.emit _)
  · rw [if_neg hBlank, if_neg hBlank, List.filter_cons_of_pos (by simpa using hBlank),
      List.filter_nil, Outlook.look_singleton]
    exact .close (.place h) fun _ _ => .bind (.of_idle (.convert _ _ _ _)) fun _ => .bind (.types _)
      fun _ => .emit _

theorem assignAll (span : Span) {values : List Operand}
    (hTargets : ∀ operand ∈ targets, OfOperand env find operand)
    (hValues : ∀ operand ∈ values, OfOperand env find operand) :
    Scoped env find outlook (StmtRule.assignAll span targets values)
      (StmtRule.assignAll span (targets.map (·.via find)) (values.map (·.via find)))
      (outlook.lookPairs env.hides (targets.map (·.source)) (values.map (·.source))) := by
  induction targets generalizing values with
  | nil => exact .blind (.pure _)
  | cons target targets ih =>
      cases values with
      | nil => exact .blind (.pure _)
      | cons value values =>
          simp only [List.map_cons, Outlook.lookPairs, Walk.andThen_assoc, Outlook.look_singleton]
          exact .bind (.value (hValues value List.mem_cons_self)) fun found _ =>
            .bind (.assignTo found span (hTargets target List.mem_cons_self)) fun _ _ =>
              ih (List.forall_mem_cons.mp hTargets).2 (List.forall_mem_cons.mp hValues).2

theorem assignEach (span : Span) {results : List Typed} (hCount : targets.length = results.length)
    (h : ∀ operand ∈ targets, OfOperand env find operand) :
    Scoped env find outlook (StmtRule.assignResults.assignEach span targets results)
      (StmtRule.assignResults.assignEach span (targets.map (·.via find)) results)
      (outlook.lookTargets env.hides (targets.map (·.source))) := by
  induction targets generalizing results with
  | nil => exact .blind (.pure _)
  | cons target targets ih =>
      cases results with
      | nil => cases hCount
      | cons result results =>
          rw [List.map_cons, List.map_cons, Outlook.lookTargets_cons]
          exact .bind (.assignTo result span (h target List.mem_cons_self)) fun _ _ =>
            ih (Nat.succ.inj hCount) (List.forall_mem_cons.mp h).2

theorem defineTyped (name : String) (value : Typed) (span : Span) (type : Ty) :
    Scoped env find outlook (StmtRule.defineTyped name value span type)
      (StmtRule.defineTyped name value span type) (outlook.declare name) := by
  refine .skip (.types _) fun isNil _ => ?_
  dsimp only
  split
  · exact .error_bind _ _
  · exact .skip (.declareLocal _ _ _) fun _ _ => .skip (.of_idle (.convert _ _ _ _)) fun _ _ =>
      .skip (.types _) fun _ _ => .skip (.emit _) fun _ _ => .bindName _ _

theorem defineOne (name : String) (value : Typed) (span : Span) :
    Scoped env find outlook (StmtRule.defineOne name value span)
      (StmtRule.defineOne name value span) (outlook.declareAll [name]) := by
  unfold StmtRule.defineOne
  split
  · next hBlank =>
      rw [Outlook.declareAll, if_pos hBlank]
      exact .blind (.emit _)
  · next hBlank =>
      rw [Outlook.declareAll_singleton _ hBlank]
      refine .skip (.types _) fun isConst _ => ?_
      split
      · exact .skip (.pure _) fun type _ => .defineTyped name value span type
      · exact .skip (.pure _) fun type _ => .defineTyped name value span type

theorem defineAll (span : Span) {values : List Typed} (hCount : names.length = values.length) :
    Scoped env find outlook (StmtRule.defineAll span names values)
      (StmtRule.defineAll span names values) (outlook.declareAll names) := by
  induction names generalizing values outlook with
  | nil => exact .blind (.pure _)
  | cons name names ih =>
      cases values with
      | nil => cases hCount
      | cons value values =>
          rw [← List.singleton_append, Outlook.declareAll_append]
          exact .bind (.defineOne name value span) fun _ _ => ih (Nat.succ.inj hCount)

/-- The results of a call are assigned or defined after the call. -/
theorem fromCall (names : Option (List String)) {call : Operand} (span : Span)
    (hCall : OfOperand env find call)
    (hResults : ∀ results : List Typed, results.length = targets.length →
      OfAction env find (StmtRule.assignResults targets names results span)
        (StmtRule.assignResults (targets.map (·.via find)) names results span) walk) :
    Scoped env find outlook (StmtRule.assignCalled targets call names span)
      (StmtRule.assignCalled (targets.map (·.via find)) (call.via find) names span)
      ((outlook.look env.hides [call.source]).andThen walk) := by
  unfold StmtRule.assignCalled
  rw [Outlook.look_singleton, List.length_map, Operand.via_source]
  refine .bind (hCall outlook) fun _ _ => .skip (.of_idle (.toExpr _ _)) fun e _ =>
    .skip (.types _) fun found _ => ?_
  split
  · dsimp only
    split
    · exact .error_bind _ _
    · next hCount =>
        exact .skip (.emit _) fun _ _ =>
          hResults _ (by rw [List.length_map]; exact not_not.mp hCount) outlook
  · dsimp only
    split
    · exact .skip (.types _) fun _ _ => .error _ _
    · exact .skip (.pure _) fun _ _ => .error _ _

/-- The right side of a definition does not see the names on its left. -/
theorem define {targets values : List Operand} (span : Span)
    (hValues : ∀ operand ∈ values, OfOperand env find operand) :
    Scoped env find outlook (StmtRule.setOrDefine true targets values span)
      (StmtRule.setOrDefine true (targets.map (·.via find)) (values.map (·.via find)) span)
      ((outlook.look env.hides (values.map (·.source))).andThen
        (·.declareAll ((targets.map (·.source)).filterMap (·.ident?)))) := by
  by_cases hSides : 1 < targets.length ∧ values.length = 1
  · obtain ⟨first, second, rest, call, hTargets, rfl⟩ := StmtRule.exists_of_lengths hSides
    have hCalled : Scoped env find outlook (StmtRule.assignFromCall targets call true span)
        (StmtRule.assignFromCall (targets.map (·.via find)) (call.via find) true span)
        ((outlook.look env.hides [call.source]).andThen
          (·.declareAll ((targets.map (·.source)).filterMap (·.ident?)))) := by
      unfold StmtRule.assignFromCall
      rw [StmtRule.definedNames_via]
      refine .skip (.map _ (.definedNames _)) fun names hGives => ?_
      rw [map_eq_pure_bind] at hGives
      obtain ⟨defined, hDefined, hGives⟩ := hGives.of_bind
      obtain ⟨rfl, hLength⟩ := StmtRule.definedNames_of_gives hDefined
      rw [← hGives.pure_eq]
      exact .fromCall _ span (hValues call List.mem_cons_self) fun results hResults inner =>
        .defineAll span (hLength.trans hResults.symm)
    rw [hTargets] at hCalled ⊢
    exact hCalled
  · rw [StmtRule.setOrDefine_pairs hSides,
      StmtRule.setOrDefine_pairs (by simpa only [List.length_map] using hSides)]
    simp only [List.length_map, StmtRule.definedNames_via]
    split
    · exact .error_bind _ _
    · next hCount =>
        refine .skip (.definedNames _) fun names hGives =>
          .bind (.values hValues) fun found hFound => ?_
        obtain ⟨rfl, hLength⟩ := StmtRule.definedNames_of_gives hGives
        refine .defineAll span ?_
        rw [hLength, Operand.length_of_gives hFound]
        exact not_not.mp hCount

theorem set {targets values : List Operand} (span : Span)
    (hTargets : ∀ operand ∈ targets, OfOperand env find operand)
    (hValues : ∀ operand ∈ values, OfOperand env find operand) :
    Scoped env find outlook (StmtRule.setOrDefine false targets values span)
      (StmtRule.setOrDefine false (targets.map (·.via find)) (values.map (·.via find)) span)
      (outlook.assign env.hides .set (targets.map (·.source)) (values.map (·.source))) := by
  by_cases hSides : 1 < targets.length ∧ values.length = 1
  · obtain ⟨first, second, rest, call, rfl, rfl⟩ := StmtRule.exists_of_lengths hSides
    refine .skip (.pure _) fun names hGives => ?_
    rw [← hGives.pure_eq]
    show Scoped env find outlook _ _ ((outlook.look env.hides [call.source]).andThen
      (·.lookTargets env.hides ((first :: second :: rest).map (·.source))))
    exact .fromCall none span (hValues call List.mem_cons_self) fun results hResults inner =>
      .assignEach span hResults.symm hTargets
  · have hPairs : outlook.assign env.hides .set (targets.map (·.source)) (values.map (·.source)) =
        outlook.lookPairs env.hides (targets.map (·.source)) (values.map (·.source)) := by
      rcases targets with _ | ⟨first, _ | ⟨second, rest⟩⟩
      · rfl
      · rfl
      · rcases values with _ | ⟨call, _ | ⟨other, rest⟩⟩
        · rfl
        · exact absurd ⟨by simp, rfl⟩ hSides
        · rfl
    rw [hPairs, StmtRule.setOrDefine_pairs hSides,
      StmtRule.setOrDefine_pairs (by simpa only [List.length_map] using hSides)]
    simp only [List.length_map]
    split
    · exact .error_bind _ _
    · exact .assignAll span hTargets hValues

theorem stepTarget (span : Span) (h : ∀ operand ∈ targets, OfOperand env find operand) :
    Scoped env find outlook (StmtRule.stepTarget targets span)
      (StmtRule.stepTarget (targets.map (·.via find)) span)
      (outlook.look env.hides (targets.map (·.source))) := by
  unfold StmtRule.stepTarget
  rcases targets with _ | ⟨target, _ | ⟨other, rest⟩⟩
  · exact .error _ _
  · rw [List.map_singleton, List.map_singleton, Outlook.look_singleton]
    exact .close (.place (h target List.mem_cons_self)) fun _ _ => .pure _
  · exact .error _ _

theorem assign (op : AssignOp) {values : List Operand} (span : Span)
    (hTargets : ∀ operand ∈ targets, OfOperand env find operand)
    (hValues : ∀ operand ∈ values, OfOperand env find operand) :
    Scoped env find outlook (StmtRule.assign op targets values span)
      (StmtRule.assign op (targets.map (·.via find)) (values.map (·.via find)) span)
      (outlook.assign env.hides op (targets.map (·.source)) (values.map (·.source))) := by
  cases op with
  | inc => exact .close (.stepTarget span hTargets) fun _ _ => .emit _
  | dec => exact .close (.stepTarget span hTargets) fun _ _ => .emit _
  | lone =>
      unfold StmtRule.assign Outlook.assign
      rcases values with _ | ⟨call, _ | ⟨other, rest⟩⟩
      · exact .error _ _
      · rw [List.map_singleton, List.map_singleton, Outlook.look_singleton]
        dsimp only
        rw [Operand.via_source]
        split
        · exact .error_bind _ _
        · exact .close (hValues call List.mem_cons_self _) fun _ _ => .bind (.of_idle (.toExpr _ _))
            fun _ => .emit _
      · exact .error _ _
  | compound bin =>
      unfold StmtRule.assign Outlook.assign
      rcases targets with _ | ⟨target, _ | ⟨other, rest⟩⟩
      · exact .error _ _
      · rcases values with _ | ⟨value, _ | ⟨other, rest⟩⟩
        · exact .error _ _
        · simp only [List.map_singleton, Outlook.look_singleton]
          exact .bind (.place (hTargets target List.mem_cons_self)) fun _ _ =>
            .close (.value (hValues value List.mem_cons_self)) fun _ _ => .emit _
        · exact .error _ _
      · exact .error _ _
  | set => exact .set span hTargets hValues
  | define => exact .define span hValues

/-! ## Functions -/

/-- A member of a function is declared if it has a name. -/
theorem bindNamed (name : String) (value : Typed) {rest : RoutineM Unit}
    (h : OfAction env find rest rest (·.declareAll (names.filter isNamed))) :
    Scoped env find outlook (do
      if isNamed name then RoutineM.bind name value
      rest) (do
      if isNamed name then RoutineM.bind name value
      rest) (outlook.declareAll ((name :: names).filter isNamed)) := by
  dsimp only
  split
  · next hNamed =>
      rw [List.filter_cons_of_pos hNamed, Outlook.declareAll, if_neg (ne_blank_of_isNamed hNamed)]
      exact .bind (.bindName _ _) fun _ _ => h _
  · next hNamed =>
      rw [List.filter_cons_of_neg hNamed]
      exact h outlook

theorem bindInputs (func : FuncType Ty) (index : Nat) (inputs : List (Member Ty)) :
    Scoped env find outlook (GoToC.bindInputs func index inputs)
      (GoToC.bindInputs func index inputs)
      (outlook.declareAll ((inputs.map (·.name)).filter isNamed)) := by
  induction inputs generalizing index outlook with
  | nil => exact .blind (.pure _)
  | cons input rest ih => exact .bindNamed _ _ fun _ => ih (index + 1)

theorem bindOutputs (func : FuncType Ty) (index : Nat) (outputs : List (Member Ty)) :
    Scoped env find outlook (GoToC.bindOutputs func index outputs)
      (GoToC.bindOutputs func index outputs)
      (outlook.declareAll ((outputs.map (·.name)).filter isNamed)) := by
  induction outputs generalizing index outlook with
  | nil => exact .blind (.pure _)
  | cons output rest ih => exact .bindNamed _ _ fun _ => ih (index + 1)

end Scoped

/-- The names that a function declares around its body: those of its inputs and outputs. -/
def FuncType.declaredNames (func : FuncType Ty) : List String :=
  ((func.inputs ++ func.outputs).map (·.name)).filter isNamed

theorem Scoped.enterFunc (func : FuncType Ty) (span : Span) :
    Scoped env find outlook (GoToC.enterFunc func span) (GoToC.enterFunc func span)
      (outlook.declareAll func.declaredNames) := by
  rw [FuncType.declaredNames, List.map_append, List.filter_append, Outlook.declareAll_append]
  refine .bind (.bindInputs func 0 func.inputs) fun _ _ => ?_
  split
  · next output hOutput =>
      rw [hOutput, List.map_singleton]
      split
      · next hNamed =>
          rw [List.filter_cons_of_pos hNamed, List.filter_nil,
            Outlook.declareAll_singleton _ (ne_blank_of_isNamed hNamed)]
          exact .skip (.declareLocal _ _ _) fun _ _ => .close (.bindName _ _) fun _ _ => .pure _
      · next hNamed =>
          rw [List.filter_cons_of_neg hNamed]
          exact .blind (.pure _)
  · next outputs =>
      exact .close (.bindOutputs func 0 func.outputs) fun _ _ => .pure _

/-! ## Trees -/

theorem compileCases_tests (cases : List (SwitchCase Stmt)) :
    (compileCases cases).flatMap (fun arm => arm.1.map (·.source)) = cases.flatMap (·.tests) := by
  induction cases with
  | nil => rw [compileCases]; rfl
  | cons case rest ih =>
      rw [compileCases, List.flatMap_cons, List.flatMap_cons, ih, compileCase, operands_source]

theorem compileCasesBy_tests (cases : List (SwitchCase Stmt)) :
    Scoped.SameTests find (compileCases cases) (compileCasesBy find cases) := by
  induction cases with
  | nil => rw [compileCases, compileCasesBy]; rfl
  | cons case rest ih =>
      obtain ⟨tests, body, span⟩ := case
      rw [compileCases, compileCasesBy, compileCase, Scoped.SameTests, List.map_cons, List.map_cons,
        ih, operandsBy_eq]

theorem compileCases_length (cases : List (SwitchCase Stmt)) :
    (compileCases cases).length = cases.length := by
  induction cases with
  | nil => rw [compileCases]; rfl
  | cons case rest ih => rw [compileCases, List.length_cons, List.length_cons, ih]

theorem compileCases_use (cases : List (SwitchCase Stmt)) :
    ∀ arm ∈ compileCases cases, ∀ operand ∈ arm.1, Scoped.OfOperand env find operand := by
  induction cases with
  | nil => simp [compileCases]
  | cons case rest ih =>
      rw [compileCases, compileCase]
      rintro arm (_ | ⟨_, hArm⟩)
      · exact Scoped.kept.operands case.tests
      · exact ih arm hArm

mutual

/-- A statement uses and declares names as the tree tells. -/
theorem compileStmt_scoped : (s : Stmt) →
    Scoped.OfAction env find (compileStmt s) (compileStmtBy find s) (s.walk env.hides)
  | .assign span op targets values, outlook => by
      have hAssign : Scoped env find outlook _ _ _ :=
        .assign op span (Scoped.kept.operands targets) (Scoped.kept.operands values)
      rw [compileStmt, compileStmtBy, Stmt.walk, operandsBy_eq, operandsBy_eq]
      rwa [operands_source, operands_source] at hAssign
  | .var span name type, outlook => by
      rw [compileStmt, compileStmtBy, Stmt.walk]
      exact .declare name span (Scoped.kept.operand type)
  | .ret span values, outlook => by
      have hReturn : Scoped env find outlook _ _ _ := .ret span (Scoped.kept.operands values)
      rw [compileStmt, compileStmtBy, Stmt.walk, operandsBy_eq]
      rwa [operands_source] at hReturn
  | .breakLoop span _, outlook => by
      rw [compileStmt, compileStmtBy, Stmt.walk]
      exact .blind (.jump _ _)
  | .continueLoop span _, outlook => by
      rw [compileStmt, compileStmtBy, Stmt.walk]
      exact .blind (.jump _ _)
  | .whileLoop _ cond body, outlook => by
      have hLoop : Scoped env find outlook
          (StmtRule.loop (optOperand cond) none (compileStmts body))
          (StmtRule.loop ((optOperand cond).map (·.via find)) none (compileStmtsBy find body)) _ :=
        .loop (Scoped.kept.optOperand cond) (fun _ => .blind (.pure _)) (compileStmts_scoped body)
      rw [compileStmt, compileStmtBy, Stmt.walk, optOperandBy_eq]
      rwa [optOperand_source, Walk.andThen_nil] at hLoop
  | .forLoop _ init cond post body, outlook => by
      have hLoop : Scoped env find outlook _ _ _ := .forLoop (compileOptStmt_scoped init)
        (Scoped.kept.optOperand cond) (compileOptStmt_scoped post) (compileStmts_scoped body)
      rw [compileStmt, compileStmtBy, Stmt.walk, optOperandBy_eq]
      rwa [optOperand_source] at hLoop
  | .rangeLoop span key value collection body, outlook => by
      rw [compileStmt, compileStmtBy, Stmt.walk]
      exact .rangeLoop key value span (Scoped.kept.operand collection) (compileStmts_scoped body)
  | .ifElse _ cond thenBody elseBody, outlook => by
      rw [compileStmt, compileStmtBy, Stmt.walk]
      exact .ifElse (Scoped.kept.operand cond) (compileStmts_scoped thenBody)
        (compileOptStmts_scoped elseBody)
  | .switch _ subject cases fallback, outlook => by
      have hSwitch : Scoped env find outlook _ _ _ := .switch (compileCasesBy_tests cases)
        (Scoped.kept.optOperand subject)
        (compileCases_use cases)
        (fun tests hTests => compileCases_scoped cases tests
          (hTests.trans (compileCases_length cases)))
        (compileOptStmts_scoped fallback)
      rw [compileStmt, compileStmtBy, Stmt.walk, optOperandBy_eq]
      rwa [optOperand_source, compileCases_tests] at hSwitch
  | .block _ body, outlook => by
      rw [compileStmt, compileStmtBy, Stmt.walk]
      exact .close (.block (compileStmts_scoped body)) fun _ _ => .emit _

theorem compileStmts_scoped :
    (body : List Stmt) → Scoped.OfAction env find (compileStmts body) (compileStmtsBy find body)
      (walkAll env.hides body)
  | [], outlook => by
      rw [compileStmts, compileStmtsBy, walkAll]
      exact .blind (.pure _)
  | stmt :: rest, outlook => by
      rw [compileStmts, compileStmtsBy, walkAll]
      exact .bind (compileStmt_scoped stmt outlook) fun _ _ => compileStmts_scoped rest _

theorem compileOptStmt_scoped : (stmt : Option Stmt) →
    Scoped.OfAction env find ((compileOptStmt stmt).getD (pure ()))
      ((compileOptStmtBy find stmt).getD (pure ())) (walkOpt env.hides stmt)
  | none, outlook => by
      rw [compileOptStmt, compileOptStmtBy, walkOpt]
      exact .blind (.pure _)
  | some stmt, outlook => by
      rw [compileOptStmt, compileOptStmtBy, walkOpt]
      exact compileStmt_scoped stmt outlook

theorem compileOptStmts_scoped : (body : Option (List Stmt)) →
    Scoped.OfAction env find (StmtRule.optBlock (compileOptStmts body))
      (StmtRule.optBlock (compileOptStmtsBy find body)) (walkElse env.hides body)
  | none, outlook => by
      rw [compileOptStmts, compileOptStmtsBy, walkElse]
      exact .blind (.pure _)
  | some body, outlook => by
      rw [compileOptStmts, compileOptStmtsBy, walkElse]
      exact .map _ (.block (compileStmts_scoped body))

theorem compileCases_scoped : (cases : List (SwitchCase Stmt)) → (tests : List (List CExpr)) →
    tests.length = cases.length →
    Scoped.OfAction env find (StmtRule.switchArms tests (compileCases cases))
      (StmtRule.switchArms tests (compileCasesBy find cases)) (walkCases env.hides cases)
  | [], tests, _, outlook => by
      rw [compileCases, compileCasesBy, walkCases]
      cases tests <;> exact .blind (.pure _)
  | ⟨_, body, _⟩ :: rest, [], h, outlook => by cases h
  | ⟨_, body, _⟩ :: rest, _ :: tests, h, outlook => by
      rw [compileCases, compileCase, compileCasesBy, walkCases]
      exact .bind (.block (compileStmts_scoped body)) fun _ _ =>
        .close (compileCases_scoped rest tests (Nat.succ.inj h) _) fun _ _ => .pure _

end

/-- The body of a function follows the walk through it. -/
theorem compileBody_scoped (func : FuncType Ty) (body : List Stmt) (span : Span) :
    Scoped env find .start (compileBody func body span) (compileBodyBy find func body span)
      (walkBody env.hides func.declaredNames body) :=
  .bind (.enterFunc func span) fun _ _ => .withReader (.inScope (compileStmts_scoped body))
    fun _ hAlike => ⟨hAlike.program, hAlike.module, hAlike.package⟩

end

end GoToC
