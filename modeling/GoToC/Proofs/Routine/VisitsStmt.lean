import GoToC.Proofs.Routine.Denotes
import GoToC.Proofs.Routine.Visits

/-!
# Every statement of a body is visited

A rule for statements compiles its parts one after another and writes one statement around them.
So whatever stands inside of a part is visited on the way, and the parts that come before it can
run ahead of it. A body is gone through in the same way, down to the statement that is looked for.
-/

namespace GoToC

variable {α : Type} {body : List Stmt} {subject : Option Operand}
  {host : RoutineM Unit → RoutineM Unit} {env : Env} {routine : Routine} {func : FuncType Ty}
  {action : RoutineM Unit} {operands : List Operand} {result : Option String} {span : Span}

variable {s : Setting} {params known : Set OwnName} {stmt : Stmt} {seen around names : List String}
  {path : List StmtPart}

/-- An operand that can come before or after a statement that is visited. -/
structure OperandPart (s : Setting) (params : Set OwnName) (operand : Operand) : Prop where
  composed : operand.Composed .nested .any
  spells : Spells.OfOperand (.closing (some s) params) operand
  uses : ∀ env, Scoped.OfOperand env RoutineM.lookup operand

/-- An action that can come before or after a statement that is visited. -/
structure ActionPart (s : Setting) (params : Set OwnName) (action : RoutineM Unit) : Prop where
  composed : Composed .nested .any action
  spells : Spells.OfAction (.closing (some s) params) action
  walks : ∃ (action' : RoutineM Unit) (walk : Env → Outlook → Walk),
    ∀ env, Scoped.OfAction env RoutineM.lookup action action' (walk env)

namespace Prior

theorem nextSerial : Prior s params known [] RoutineM.nextSerial fun _ _ => True :=
  ⟨.nextSerial, .nextSerial, .blind .nextSerial⟩

theorem temp (type : Ty) (span : Span) :
    Prior s params known [] (RoutineM.temp type span) fun k name => .variable name ∈ k :=
  ⟨.temp type span trivial, .temp span False.elim, .blind (.temp type span)⟩

theorem emit {written : CStmt} (h : written.Closed known) :
    Prior s params known [] (RoutineM.emit written) fun _ _ => True :=
  ⟨.emit written (.inl rfl), .emit (CStmt.spelled_free.mpr h), .blind (.emit written)⟩

theorem value {operand : Operand} (h : OperandPart s params operand) :
    Prior s params known [] operand.value fun k e => e.c.Closed k :=
  ⟨.value h.composed, (Spells.value h.spells).mono fun _ _ _ he => Typed.spelled_free.mp he,
    .value h.uses⟩

theorem loopTest {cond : Option Operand} (h : ∀ operand ∈ cond, OperandPart s params operand) :
    Prior s params known [] (StmtRule.loopTest cond) fun k found =>
      CStmt.ClosedAll k found.1 ∧ ∀ c ∈ found.2, c.Closed k :=
  ⟨.loopTest fun o ho => (h o ho).composed,
    (Spells.loopTest fun o ho => (h o ho).spells).mono fun _ _ _ hFound =>
      ⟨CStmt.spelledAll_free.mp hFound.1, fun c hc => CExpr.spelled_free.mp (hFound.2 c hc)⟩,
    .loopTest fun o ho => (h o ho).uses⟩

theorem block (h : ActionPart s params action) :
    Prior s params known [] (StmtRule.block action) CStmt.ClosedAll := by
  obtain ⟨_, walk, hWalk⟩ := h.walks
  exact ⟨.block h.composed,
    (Spells.block h.spells).mono fun _ _ _ hBody => CStmt.spelledAll_free.mp hBody, .block hWalk⟩

theorem inLoop {action : RoutineM α} {good : Set OwnName → α → Prop} (number : Nat)
    (h : Prior s params known names action good) :
    Prior s params known names (RoutineM.inLoop number action) good :=
  ⟨.inLoop number rfl h.composed, .inLoop number h.spells, .inLoop number h.declares⟩

end Prior

namespace Visits

/-! ## Loops -/

section Loops

variable {cond : Option Operand} {post : Option (RoutineM Unit)} {body : RoutineM Unit}
  {host : RoutineM Unit → RoutineM Unit}

theorem loopBody (hCond : ∀ operand ∈ cond, OperandPart s params operand)
    (hPost : ∀ a ∈ post, ActionPart s params a)
    (hBody : ∀ known, Visits s params known stmt seen path around host) :
    Visits s params known stmt seen (.round :: path) around fun action =>
      StmtRule.loop cond post (host action) :=
  .second .nextSerial fun _ number _ _ => .second (.loopTest hCond) fun known test _ hTest =>
    .held (.inLoop number (.block (hBody known))) <|
      .behind (.capture (.getD fun a ha => (hPost a ha).composed)) fun post =>
        .emit (.round number test.1 test.2 post.2) hTest fun _ => rfl

theorem loopPost (hCond : ∀ operand ∈ cond, OperandPart s params operand)
    (hBody : ActionPart s params body)
    (hPost : ∀ known, Visits s params known stmt seen path around host) :
    Visits s params known stmt seen (.between :: path) around fun action =>
      StmtRule.loop cond (some (host action)) body := by
  refine .second .nextSerial fun _ number _ _ => .second (.loopTest hCond) fun _ test _ hTest =>
    .second (.inLoop number (.block hBody)) fun known body le hBody =>
      .held (.capture (hPost known)) ?_
  have hCond (c : CExpr) (hc : c ∈ test.2) : c.Closed known := (hTest.2 c hc).mono le
  exact .emit (.between number test.1 test.2 body) ⟨⟨hTest.1.mono le, hCond⟩, hBody⟩ fun _ => rfl

theorem forFirst (hCond : ∀ operand ∈ cond, OperandPart s params operand)
    (hPost : ∀ a ∈ post, ActionPart s params a) (hBody : ActionPart s params body)
    (h : Visits s params known stmt seen path around host) :
    Visits s params known stmt seen path around fun action =>
      StmtRule.forLoop (some (host action)) cond post body :=
  .inScope <| .first h fun _ => .loop (fun o ho => (hCond o ho).composed)
    (fun a ha => (hPost a ha).composed) hBody.composed

/-- What comes behind the first statement of a loop sees the names that it declares. -/
theorem forRest {init : Option (RoutineM Unit)} (hInit : ∀ a ∈ init, ActionPart s params a)
    (hNames : (init.getD (pure ())).Declares names)
    (h : ∀ known, Visits s params known stmt seen path (names ++ around) host) :
    Visits s params known stmt seen path around (fun action =>
      RoutineM.inScope do
        init.getD (pure ())
        host action) :=
  .inScope <| .second ⟨.getD fun a ha => (hInit a ha).composed,
    .getD (fun a ha => (hInit a ha).spells) _, hNames⟩ fun known _ _ _ => h known

theorem rangeBody {key value : Option String} {collection : Operand} (span : Span)
    (hKey : ∀ n ∈ key, isIdentifier n = true) (hValue : ∀ n ∈ value, isIdentifier n = true)
    (hPart : OperandPart s params collection)
    (hCollection : Spells.OfExpr (.closing (some s) params) collection)
    (hBody : ∀ known, Visits s params known stmt seen path
      (blockNames (key.toList ++ value.toList) ++ around) host) :
    Visits s params known stmt seen (.rangeRound :: path) around fun action =>
      StmtRule.rangeLoop key value collection (host action) span := by
  rw [blockNames_append] at hBody
  refine .inScope <| .second ⟨.value hPart.composed,
    .soundly (fun s hs => (hCollection.sound s hs).value) (.value (hCollection.spells none)),
    .value hPart.uses⟩ fun _ source _ hSource => .second ⟨.rangeElement _ _ trivial,
      .soundly (fun s hs => StmtRule.rangeElement_safe (hSource.1 s hs) _)
        (.rangeElement _ hSource.2), .blind (.rangeElement _ _)⟩ fun _ found le₁ hFound => ?_
  refine .second .nextSerial fun _ number le₂ _ => .second (.temp _ _) fun _ copy le₃ hCopy =>
    .second (.temp _ _) fun _ index le₄ hIndex =>
      .second (.temp _ _) fun known limit le₅ hLimit => ?_
  have hCopied : .variable copy ∈ known := le₅ (le₄ hCopy)
  have hIndexed : .variable index ∈ known := le₅ hIndex
  -- The copy, the index and the limit are set before the variables of a round are declared.
  refine .second (.emit (CStmt.closed_copy.mpr ⟨hCopied, ?_⟩)) fun _ _ le₆ _ =>
    .second (.emit (CStmt.closed_beforeFirst.mpr (le₆ hIndexed))) fun _ _ le₇ _ =>
      .second (.emit (CStmt.closed_copy.mpr ⟨le₇ (le₆ hLimit), ?_⟩)) fun _ _ le₈ _ => ?_
  · exact (Typed.spelled_free.mp hSource.2).mono (((le₁.trans le₂).trans le₃).trans (le₄.trans le₅))
  · split
    · exact CExpr.closed_elementCount.mpr (CExpr.closed_localVar.mpr (le₇ (le₆ hCopied)))
    · exact CExpr.closed_byteCount.mpr (CExpr.closed_localVar.mpr (le₇ (le₆ hCopied)))
  have leSet := (le₆.trans le₇).trans le₈
  refine .second ⟨.nested (.rangeLocal _ _ (fun _ _ => trivial) trivial),
    .soundly (fun _ _ => StmtRule.rangeLocal_safe hKey ExprRule.int_plain.usable span)
      (.rangeLocal _ (fun _ _ => False.elim) False.elim), .rangeLocal _ _ _⟩
      fun _ key le₉ hKey => .second ⟨.nested (.rangeLocal _ _ (fun _ _ => trivial) trivial),
        .soundly (fun s hs => StmtRule.rangeLocal_safe hValue (hFound.1 s hs).usable span)
          (.rangeLocal _ (fun _ _ => False.elim) False.elim), .rangeLocal _ _ _⟩
        fun known value le₁₀ hValue => ?_
  refine .held (.inLoop number (.block ?_)) ?_
  · simpa using hBody known
  have leRound := (leSet.trans le₉).trans le₁₀
  refine .emit (.rangeRound number index limit _) ⟨⟨leRound hIndexed, leRound hLimit⟩, ?_⟩
    fun _ => rfl
  exact CStmt.spelledAll_free.mp (spelledAll_rangeFetch (leRound hCopied) (leRound hIndexed)
    (fun _ _ => False.elim) (fun n hn => le₁₀ (hKey.2 n hn)) hValue.2)

end Loops

/-! ## Branches -/

section Branches

variable {cond : Operand} {thenBody : RoutineM Unit} {host : RoutineM Unit → RoutineM Unit}

theorem ifThen {elseBody : Option (RoutineM Unit)} (hCond : OperandPart s params cond)
    (hThen : ∀ known, Visits s params known stmt seen path around host)
    (hElse : ∀ a ∈ elseBody, ActionPart s params a) :
    Visits s params known stmt seen (.thenBody :: path) around fun action =>
      StmtRule.ifElse cond (host action) elseBody :=
  .second (.value hCond) fun known cond _ hCond =>
    .held (.block (hThen known)) <|
      .behind (.optBlock fun a ha => (hElse a ha).composed) fun elseBody =>
        .emit (.ifThen cond.c elseBody) hCond fun _ => rfl

theorem ifElse (hCond : OperandPart s params cond) (hThen : ActionPart s params thenBody)
    (hElse : ∀ known, Visits s params known stmt seen path around host) :
    Visits s params known stmt seen (.elseBody :: path) around fun action =>
      StmtRule.ifElse cond thenBody (some (host action)) := by
  refine .second (.value hCond) fun _ cond _ hCond =>
    .second (.block hThen) fun known thenBody le _ => ?_
  simp only [StmtRule.optBlock, map_eq_pure_bind, bind_assoc]
  exact .held (.block (hElse known)) <| .emit (.ifElse cond.c thenBody) (hCond.mono le) fun _ => rfl

theorem block (h : Visits s params known stmt seen path around host) :
    Visits s params known stmt seen (.block :: path) around (fun action => do
      RoutineM.emit (.block (← StmtRule.block (host action)))) :=
  .held (.block h) <| .emit .block trivial fun _ => rfl

end Branches

/-! ## Switches -/

section Switches

variable {arms earlier later : List (List Operand × RoutineM Unit)}
  {fallback : Option (RoutineM Unit)} {host : RoutineM Unit → RoutineM Unit}

/-- All parts of the arms of a switch. -/
def ArmParts (s : Setting) (params : Set OwnName) (arms : List (List Operand × RoutineM Unit)) :
    Prop :=
  ∀ arm ∈ arms, (∀ operand ∈ arm.1, OperandPart s params operand) ∧ ActionPart s params arm.2

theorem ArmParts.spells (h : ArmParts s params arms) :
    Spells.OfArms (.closing (some s) params) arms := fun a ha =>
  ⟨fun o ho => ((h a ha).1 o ho).spells, (h a ha).2.spells⟩

/-- Tests that are spelled with known names are closed under them. -/
theorem closed_tests {tests : List CExpr} (h : CExpr.SpelledAll .free known tests) :
    ∀ test ∈ tests, test.Closed known := fun test hTest =>
  CExpr.spelled_free.mp (CExpr.spelledAll_iff.mp h test hTest)

/-- Every arm has its tests. -/
theorem switchTests_prior (h : ArmParts s params arms) :
    Prior s params known [] (StmtRule.switchTests arms) fun k tests =>
      Spells.SpelledTests .free k tests ∧ tests.length = arms.length :=
  ⟨.switchTests fun a ha o ho => ((h a ha).1 o ho).composed, .switchTests h.spells,
    .switchTests fun a ha o ho => ((h a ha).1 o ho).uses⟩

/-- The statement that a switch is written as, once its arms are. -/
private theorem switched {kind : StmtPart} {subject : CExpr} {give : List CStmt → List CStmt}
    (frame : List CStmt → CFrame) (hFallback : ∀ a ∈ fallback, ActionPart s params a)
    (hFrame : ∀ fallback, (frame fallback).part = kind ∧ (frame fallback).Ahead known ∧
      ∀ part, (frame fallback).fill part = .switch subject (give part) fallback) :
    Wraps known kind id (fun part => do
      let fallback ← StmtRule.optBlock fallback
      RoutineM.emit (.switch subject (give part) (fallback.getD []))) := by
  refine .behind (.optBlock fun a ha => (hFallback a ha).composed) fun found => ?_
  obtain ⟨rfl, hAhead, hFill⟩ := hFrame (found.getD [])
  exact .emit _ hAhead fun part => congrArg RoutineM.emit (hFill part).symm

/-- An arm is visited after the arms before it. -/
theorem switchArm {subject : CExpr} (hArms : ArmParts s params (earlier ++ later))
    (hFallback : ∀ a ∈ fallback, ActionPart s params a)
    (h : ∀ known, Visits s params known stmt seen path around host) {tests : List (List CExpr)}
    (hTests : Spells.SpelledTests .free known tests)
    (hLength : tests.length = earlier.length + (later.length + 1))
    (hSubject : subject.Closed known) (before : List CStmt)
    (hBefore : CStmt.ClosedAll known before) :
    Visits s params known stmt seen (.arm (before.length + earlier.length) :: path) around
      (fun action => do
        let stmts ← StmtRule.switchArms tests (earlier ++ (operands, host action) :: later)
        let fallback ← StmtRule.optBlock fallback
        RoutineM.emit (.switch subject (before ++ stmts) (fallback.getD []))) := by
  induction earlier generalizing tests before known with
  | nil =>
      cases tests with
      | nil => simp at hLength
      | cons tests others =>
          obtain ⟨hFirst, -⟩ := List.forall_mem_cons.mp hTests
          have hLater (a : List Operand × RoutineM Unit) (ha : a ∈ later) :
              Composed .nested .any a.2 := (hArms a ha).2.composed
          simp only [List.nil_append, StmtRule.switchArms, bind_assoc, pure_bind]
          exact .held (.block (h known)) <| .behind (.switchArms others hLater) fun stmts =>
            switched (.arm subject before tests stmts) hFallback fun _ =>
              ⟨rfl, ⟨⟨hSubject, hBefore⟩, closed_tests hFirst⟩, fun _ => rfl⟩
  | cons arm rest ih =>
      cases tests with
      | nil => simp at hLength
      | cons tests others =>
          obtain ⟨hFirst, hOthers⟩ := List.forall_mem_cons.mp hTests
          simp only [List.cons_append, StmtRule.switchArms, bind_assoc, pure_bind]
          refine .second (.block (hArms arm List.mem_cons_self).2) fun known body le hBody => ?_
          have hNext : CStmt.ClosedAll known (before ++ [.arm tests body]) :=
            CStmt.closedAll_append.mpr ⟨hBefore.mono le, CStmt.closedAll_cons.mpr
              ⟨CStmt.closed_arm.mpr ⟨closed_tests (hFirst.mono le), hBody⟩, CStmt.closedAll_nil⟩⟩
          have hRest := ih (List.forall_mem_cons.mp hArms).2
            (fun list hList => (hOthers list hList).mono le) (by simp at hLength; omega)
              (hSubject.mono le) _ hNext
          have hIndex : (before ++ [CStmt.arm tests body]).length + rest.length =
              before.length + (arm :: rest).length := by
            rw [List.length_append, List.length_singleton, List.length_cons, Nat.add_assoc,
              Nat.add_comm 1]
          rw [hIndex] at hRest
          simpa only [List.append_assoc, List.singleton_append, List.nil_append] using hRest

/-- A switch is gone through once its subject is compiled. The tests of its arms are the same
whatever is put into them. -/
private theorem ofSubject {subject : Option Operand}
    (hSubject : ∀ operand ∈ subject, OperandPart s params operand)
    (arms : RoutineM Unit → List (List Operand × RoutineM Unit))
    (fallback : RoutineM Unit → Option (RoutineM Unit)) {tests : RoutineM (List (List CExpr))}
    (hTests : ∀ action, StmtRule.switchTests (arms action) = tests)
    (h : ∀ known c, c.Closed known → Visits s params known stmt seen path around fun action => do
      let tests ← tests
      let stmts ← StmtRule.switchArms tests (arms action)
      let fallback ← StmtRule.optBlock (fallback action)
      RoutineM.emit (.switch c stmts (fallback.getD []))) :
    Visits s params known stmt seen path around fun action =>
      StmtRule.switch subject (arms action) (fallback action) := by
  unfold StmtRule.switch
  simp only [hTests]
  cases subject with
  | some operand =>
      simp only [pure_bind]
      exact .second (.value (hSubject operand rfl)) fun known value _ hValue =>
        h known value.c hValue
  | none =>
      simp only [pure_bind]
      exact h known (.int 1) (CExpr.closed_int 1)

theorem switchTests_congr (operands : List Operand) (action action' : RoutineM Unit) :
    StmtRule.switchTests (earlier ++ (operands, action) :: later) =
      StmtRule.switchTests (earlier ++ (operands, action') :: later) := by
  induction earlier with
  | nil => rfl
  | cons arm rest ih => rw [List.cons_append, List.cons_append, StmtRule.switchTests, ih]; rfl

theorem switchCase (hSubject : ∀ operand ∈ subject, OperandPart s params operand)
    (hArms : ArmParts s params (earlier ++ (operands, action) :: later))
    (hFallback : ∀ a ∈ fallback, ActionPart s params a)
    (h : ∀ known, Visits s params known stmt seen path around host) :
    Visits s params known stmt seen (.arm earlier.length :: path) around fun action =>
      StmtRule.switch subject (earlier ++ (operands, host action) :: later) fallback := by
  have hOthers : ArmParts s params (earlier ++ later) := fun arm hArm =>
    hArms arm (by simp only [List.mem_append, List.mem_cons] at hArm ⊢; tauto)
  rw [← Nat.zero_add earlier.length]
  exact ofSubject hSubject (fun action => earlier ++ (operands, host action) :: later)
    (fun _ => fallback) (fun _ => switchTests_congr operands _ action) fun _ c hc =>
      .second (switchTests_prior hArms) fun _ tests le hTests =>
        switchArm hOthers hFallback h hTests.1 (by simpa using hTests.2) (hc.mono le) []
          CStmt.closedAll_nil

theorem switchFallback (hSubject : ∀ operand ∈ subject, OperandPart s params operand)
    (hArms : ArmParts s params arms)
    (h : ∀ known, Visits s params known stmt seen path around host) :
    Visits s params known stmt seen (.fallback :: path) around fun action =>
      StmtRule.switch subject arms (some (host action)) := by
  have hArmsPrior {known : Set OwnName} {tests : List (List CExpr)}
      (hTests : Spells.SpelledTests .free known tests) :
      Prior s params known [] (StmtRule.switchArms tests arms) CStmt.ClosedAll := by
    refine ⟨.switchArms tests fun a ha => ⟨fun o ho => ((hArms a ha).1 o ho).composed,
      (hArms a ha).2.composed⟩, (Spells.switchArms hTests hArms.spells).mono
        fun _ _ _ hStmts => CStmt.spelledAll_free.mp hStmts, .switchArms tests fun a ha => ?_⟩
    have hBlock : Prior s params ∅ [] (StmtRule.block a.2) CStmt.ClosedAll := .block (hArms a ha).2
    exact hBlock.declares
  refine ofSubject hSubject (fun _ => arms) (fun action => some (host action)) (fun _ => rfl)
    fun _ c hc => .second (switchTests_prior hArms) fun _ tests le₁ hTests =>
      .second (hArmsPrior hTests.1) fun known stmts le₂ hStmts => ?_
  simp only [StmtRule.optBlock, map_eq_pure_bind, bind_assoc, pure_bind]
  exact .held (.block (h known)) <|
    .emit (.otherwise c stmts) ⟨hc.mono (le₁.trans le₂), hStmts⟩ fun _ => rfl

end Switches

end Visits

/-! ## Statements of a source -/

theorem OperandPart.ofExpr (e : Expr) : OperandPart s params ⟨e, compileExpr e⟩ :=
  ⟨operand_composed .nested e, compileExpr_closes e, fun _ => Scoped.kept.operand e⟩

theorem OperandPart.ofOption (e : Option Expr) :
    ∀ operand ∈ optOperand e, OperandPart s params operand := fun operand h =>
  ⟨optOperand_composed .nested e operand h,
    optOperand_spells (fun _ hWord => hWord) e False.elim operand h,
    fun _ => Scoped.kept.optOperand e operand h⟩

namespace ActionPart

variable (whole : s.types = s.values)

include whole

theorem ofStmts (h : StmtsFormed s.types.Word body) : ActionPart s params (compileStmts body) :=
  ⟨compileStmts_composed body fun _ _ => trivial,
    compileStmts_spell (.closing whole params) body fun _ => h,
    _, _, fun _ => compileStmts_scoped body⟩

theorem ofOption {stmt : Option Stmt} (h : OptStmtFormed s.types.Word stmt) :
    ∀ action ∈ compileOptStmt stmt, ActionPart s params action := by
  cases stmt with
  | none => simp [compileOptStmt]
  | some stmt =>
      rw [compileOptStmt]
      rintro _ ⟨⟩
      exact ⟨compileStmt_composed stmt fun _ _ => trivial,
        compileStmt_spells (.closing whole params) stmt
        fun _ => h, _, _, fun _ => compileStmt_scoped stmt⟩

theorem ofOptions {body : Option (List Stmt)} (h : OptStmtsFormed s.types.Word body) :
    ∀ action ∈ compileOptStmts body, ActionPart s params action := by
  cases body with
  | none => simp [compileOptStmts]
  | some body =>
      rw [compileOptStmts]
      rintro _ ⟨⟩
      exact ofStmts whole h

theorem ofCases {cases : List (SwitchCase Stmt)} (h : CasesFormed s.types.Word cases) :
    Visits.ArmParts s params (compileCases cases) := by
  induction cases with
  | nil => simp [compileCases, Visits.ArmParts]
  | cons case rest ih =>
      obtain ⟨tests, body, span⟩ := case
      rw [CasesFormed] at h
      rw [compileCases, compileCase]
      rintro arm (_ | ⟨_, hArm⟩)
      · exact ⟨fun operand hOperand => ⟨operands_composed .nested tests operand hOperand,
          operands_spell (fun _ hWord => hWord) tests False.elim operand hOperand,
          fun _ => Scoped.kept.operands tests operand hOperand⟩,
          ofStmts whole h.1.2⟩
      · exact ih h.2 arm hArm

end ActionPart

/-- Whatever stands inside of statements is visited when they are compiled. -/
theorem compileStmts_visits (whole : s.types = s.values) (h : stmt.At seen path host around body)
    (hFormed : StmtsFormed s.types.Word body) :
    Visits s params known stmt seen path around host := by
  have hRest (rest : List Stmt) : Composed .nested .any (compileStmts rest) :=
    compileStmts_composed rest fun _ _ => trivial
  induction h generalizing known with
  | first => exact .first (.self stmt) fun _ => hRest _
  | @later _ _ _ other rest _ ih =>
      rw [StmtsFormed] at hFormed
      exact .second ⟨compileStmt_composed other fun _ _ => trivial,
        compileStmt_spells (.closing whole params) other (fun _ => hFormed.1) known,
          .compileStmt other⟩ fun known _ _ _ => ih hFormed.2
  | whileBody _ ih =>
      simp only [StmtsFormed, Stmt.Formed] at hFormed
      exact .first (.loopBody (.ofOption _) (by simp) fun _ => ih hFormed.1.2) fun _ => hRest _
  | forInit _ ih =>
      simp only [StmtsFormed, Stmt.Formed] at hFormed
      obtain ⟨⟨hInit, -, hPost, hBody⟩, -⟩ := hFormed
      exact .first (.forFirst (.ofOption _) (.ofOption whole hPost) (.ofStmts whole hBody)
        (ih ⟨hInit, trivial⟩)) fun _ => hRest _
  | forBody _ ih =>
      simp only [StmtsFormed, Stmt.Formed] at hFormed
      obtain ⟨⟨hInit, -, hPost, hBody⟩, -⟩ := hFormed
      exact .first (.forRest (.ofOption whole hInit) (.compileOptStmt _) fun _ =>
        .loopBody (.ofOption _) (.ofOption whole hPost) fun _ => ih hBody) fun _ => hRest _
  | forPost _ ih =>
      simp only [StmtsFormed, Stmt.Formed] at hFormed
      obtain ⟨⟨hInit, -, hPost, hBody⟩, -⟩ := hFormed
      exact .first (.forRest (.ofOption whole hInit) (.compileOptStmt _) fun _ =>
        .loopPost (.ofOption _) (.ofStmts whole hBody) fun _ => ih ⟨hPost, trivial⟩)
          fun _ => hRest _
  | rangeBody _ ih =>
      simp only [StmtsFormed, Stmt.Formed] at hFormed
      obtain ⟨⟨hKey, hValue, hCollection, hBody⟩, -⟩ := hFormed
      exact .first (.rangeBody _ (fun n hn => (hKey n hn).1) (fun n hn => (hValue n hn).1)
        (.ofExpr _) (compileExpr_ofExpr (.closing whole params) _ fun _ => hCollection)
          fun _ => ih hBody) fun _ => hRest _
  | thenBody _ ih =>
      simp only [StmtsFormed, Stmt.Formed] at hFormed
      exact .first (.ifThen (.ofExpr _) (fun _ => ih hFormed.1.2.1)
        (.ofOptions whole hFormed.1.2.2)) fun _ => hRest _
  | elseBody _ ih =>
      simp only [StmtsFormed, Stmt.Formed] at hFormed
      exact .first (.ifElse (.ofExpr _) (.ofStmts whole hFormed.1.2.1) fun _ =>
        ih hFormed.1.2.2) fun _ => hRest _
  | arm _ ih =>
      simp only [StmtsFormed, Stmt.Formed] at hFormed
      obtain ⟨⟨-, hCases, hFallback⟩, -⟩ := hFormed
      have hArms : Visits.ArmParts s params _ := ActionPart.ofCases whole hCases
      rw [casesFormed_append, CasesFormed] at hCases
      rw [compileCases_append, compileCases, compileCase] at hArms
      rw [← compileCases_length]
      exact .first (.switchCase (.ofOption _) hArms (.ofOptions whole hFallback) fun _ =>
        ih hCases.2.1.2) fun _ => hRest _
  | fallback _ ih =>
      simp only [StmtsFormed, Stmt.Formed] at hFormed
      exact .first (.switchFallback (.ofOption _) (ActionPart.ofCases whole hFormed.1.2.1) fun _ =>
        ih hFormed.1.2.2) fun _ => hRest _
  | block _ ih =>
      simp only [StmtsFormed, Stmt.Formed] at hFormed
      exact .first (.block (ih hFormed.1)) fun _ => hRest _

/-! ## Bodies -/

theorem RoutineM.Still.silent {action : RoutineM α} (h : action.Still) : Silent action := by
  intro env routine value after hRun
  have hKeeps := h env routine value after hRun
  rw [hKeeps.locals]
  exact ⟨hKeeps.body, List.prefix_rfl⟩

theorem RoutineM.bindName_still (name : String) (value : Typed) : (bind name value).Still := by
  intro env routine done after hRun
  rw [bindName_exec] at hRun
  cases hRun
  exact ⟨rfl, rfl⟩

theorem bindInputs_still (func : FuncType Ty) (index : Nat) (inputs : List (Member Ty)) :
    (bindInputs func index inputs).Still := by
  induction inputs generalizing index with
  | nil => exact (RoutineM.Asks.pure _).still
  | cons input rest ih =>
      unfold bindInputs
      dsimp only
      split
      · exact (RoutineM.bindName_still _ _).bind fun _ => ih (index + 1)
      · exact ih (index + 1)

theorem bindOutputs_still (func : FuncType Ty) (index : Nat) (outputs : List (Member Ty)) :
    (bindOutputs func index outputs).Still := by
  induction outputs generalizing index with
  | nil => exact (RoutineM.Asks.pure _).still
  | cons output rest ih =>
      unfold bindOutputs
      dsimp only
      split
      · exact (RoutineM.bindName_still _ _).bind fun _ => ih (index + 1)
      · exact ih (index + 1)

/-- Nothing is written before the body of a function. -/
theorem enterFunc_silent (func : FuncType Ty) (span : Span) : Silent (enterFunc func span) := by
  have hBind (name : String) (value : Typed) : Silent (RoutineM.bind name value) :=
    (RoutineM.bindName_still name value).silent
  have hDeclare (name : String) (type : Ty) : Silent (RoutineM.declareLocal name type span) := by
    intro env routine cName after hRun
    have hQuiet : Yields env routine.scopes True (RoutineM.declareLocal name type span)
        fun _ => True := .declareLocal name type span
    have hComposed : Composed .simple .any (RoutineM.declareLocal name type span) :=
      .declareLocal name type span rfl trivial trivial
    exact ⟨(hQuiet routine cName after rfl hRun).2.2 trivial,
      hComposed.carries Routine.carried_locals hRun⟩
  unfold enterFunc
  refine .bind (bindInputs_still func 0 func.inputs).silent fun _ => ?_
  split
  · split
    · exact .bind (hDeclare _ _) fun _ => .bind (hBind _ _) fun _ => .pure _
    · exact .pure _
  · exact .bind (bindOutputs_still func 0 _).silent fun _ => .pure _

/-- The body of a function is compiled as that of the function, with its named result. -/
theorem Steady.asBody (h : Steady s params known env routine)
    (hFunc : (Ty.func func).PlainFunc s.values) (hParams : func.ownNames ⊆ known)
    (hResult : ∀ name ∈ result, isCName name = true)
    (hKnown : ∀ name ∈ result, .variable name ∈ known) :
    Steady s params known { env with func := some func, namedResult := result } routine where
  sounds := by
    rintro _ ⟨⟩
    obtain ⟨hEnv, hRoutine⟩ := h.sounds s rfl
    refine ⟨{ hEnv with func := ?_, result := hResult }, hRoutine⟩
    rintro _ ⟨⟩
    exact hFunc
  knows := h.knows
  env := by
    refine { h.env with func := fun _ _ => False.elim, result := hKnown, outputs := ?_ }
    rintro _ ⟨⟩ hLength index hIndex
    exact hParams (.inr ⟨hLength, index, hIndex, rfl⟩)
  closed := h.closed

/-- What a function is compiled to with something in place of a statement of its body. -/
def bodyAround (func : FuncType Ty) (span : Span) (host : RoutineM Unit → RoutineM Unit)
    (action : RoutineM Unit) : RoutineM Unit := do
  let result ← enterFunc func span
  withReader (fun env => { env with func := some func, namedResult := result }) do
    RoutineM.inScope (host action)

theorem bodyAround_eq (h : stmt.At seen path host around body) (func : FuncType Ty) (span : Span) :
    bodyAround func span host (compileStmt stmt) = compileBody func body span := by
  rw [bodyAround, h.host_eq]
  rfl

theorem bodyAround_exec {entered : Routine} (host : RoutineM Unit → RoutineM Unit)
    (action : RoutineM Unit)
    (hEnter : (enterFunc func span).exec env routine = (.ok result, entered)) :
    (bodyAround func span host action).exec env routine = (RoutineM.inScope (host action)).exec
        { env with func := some func, namedResult := result } entered := by
  rw [bodyAround, RoutineM.bind_exec, hEnter]
  rfl

/-- Whatever stands inside of the body of a function is visited once the function is entered. -/
theorem compileBody_visits (whole : s.types = s.values) (hFunc : (Ty.func func).PlainFunc s.values)
    (h : stmt.At seen path host (blockNames func.declaredNames) body)
    (hFormed : StmtsFormed s.types.Word body) {after : Routine}
    (hSteady : Steady s func.ownNames func.ownNames env routine) (hShows : routine.Shows [])
    (hRun : (compileBody func body span).exec env routine = (.ok (), after)) :
    ∃ result entered, (enterFunc func span).exec env routine = (.ok result, entered) ∧
      Nonempty (Visit s func.ownNames { env with func := some func, namedResult := result } stmt
        seen path (fun action => RoutineM.inScope (host action)) (fun _ => ()) id entered
          after) := by
  obtain ⟨result, entered, hEnter, hScope⟩ := compileBody_eq_ok.mp hRun
  have hSafe : ∀ s' ∈ some s, Safe s' (enterFunc func span) fun result =>
      ∀ name ∈ result, isCName name = true := by
    rintro _ ⟨⟩
    exact enterFunc_safe hFunc span
  have hSpells : Spells (.closing (some s) func.ownNames) func.ownNames (enterFunc func span) _ :=
    .soundly hSafe (.enterFunc span subset_rfl False.elim)
  obtain ⟨known, le, hResult, hEntered⟩ := hSteady.run hSpells hEnter
  have hBody := hEntered.asBody hFunc le (hResult.1 s rfl) hResult.2
  have hNames : entered.Shows (blockNames func.declaredNames) := by
    simpa using RoutineM.Declares.enterFunc func span env routine result entered [] hShows hEnter
  have hVisits : Visits s func.ownNames known stmt seen path (blockNames func.declaredNames)
      fun action => RoutineM.inScope (host action) := .inScope (compileStmts_visits whole h hFormed)
  rw [← h.host_eq] at hScope
  exact ⟨result, entered, hEnter, hVisits _ entered after hBody hNames hScope⟩

end GoToC
