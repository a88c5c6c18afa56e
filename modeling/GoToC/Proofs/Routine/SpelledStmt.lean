import GoToC.Proofs.Routine.SafeStmt
import GoToC.Proofs.Routine.SpelledExpr

/-!
# Statements keep a routine spelled

What a block declares is a variable of the routine, and what a return hands back goes to an output
parameter. The results of a call are the one place where names pass from a type into statements:
they are those whose addresses the call was given.
-/

namespace GoToC

variable {targets values : List Operand} {func : FuncType Ty} {cond : Option Operand}
  {body : RoutineM Unit} {arms : List (List Operand × RoutineM Unit)} {value e : Typed}
  {key name : Option String} {action post : Option (RoutineM Unit)} {type : Ty}
  {outputs : List (Member Ty)} {target : Operand} {results : List Typed}

variable {d : Diction} {g : Idiom} {known : Set OwnName} {word : String → Prop}

/-- Whether it matters what words a source holds. -/
def Idiom.Minds (g : Idiom) : Prop := g.d.strict ∨ ∃ s, s ∈ g.within

/-- An idiom for sources that hold given words: either types are sound, or all words are known. -/
structure Idiom.Suits (g : Idiom) (word : String → Prop) : Prop where
  whole : ∀ s ∈ g.within, s.types = s.values
  same : ∀ s ∈ g.within, s.types.Word = word
  ident : ∀ name, word name → isIdentifier name = true
  words : g.within = none → g.d.words ⊆ g.params

/-- Types are sound, whatever other words there are. -/
theorem Idiom.Suits.closing {s : Setting} (whole : s.types = s.values) (params : Set OwnName) :
    (Idiom.closing (some s) params).Suits s.types.Word where
  whole := by
    rintro _ ⟨⟩
    exact whole
  same := by
    rintro _ ⟨⟩
    rfl
  ident _ hWord := hWord.1
  words := nofun

/-- All words are known, whatever the types. -/
theorem Idiom.Suits.wording (d : Diction) : (Idiom.wording d).Suits SourceWord where
  whole _ := nofun
  same _ := nofun
  ident _ hWord := hWord
  words _ := subset_rfl

theorem spelledAll_rangeFetch {source index : String} {elem value : Option String}
    (hSource : .variable source ∈ known) (hIndex : .variable index ∈ known)
    (hElem : ∀ name ∈ elem, d.Word name) (hKey : ∀ name ∈ key, .variable name ∈ known)
    (hValue : ∀ name ∈ value, .variable name ∈ known) :
    CStmt.SpelledAll d known (StmtRule.rangeFetch source index elem key value) := by
  refine CStmt.spelledAll_iff.mpr fun stmt hStmt => ?_
  unfold StmtRule.rangeFetch at hStmt
  rcases List.mem_append.mp hStmt with hStmt | hStmt
  · obtain ⟨name, hName, rfl⟩ := List.mem_map.mp hStmt
    exact ⟨hKey name (Option.mem_toList.mp hName), hIndex⟩
  · obtain ⟨name, hName, rfl⟩ := List.mem_map.mp hStmt
    have hName := hValue name (Option.mem_toList.mp hName)
    cases elem with
    | none => exact ⟨hSource, hIndex, hName⟩
    | some elem => exact ⟨hSource, hElem elem rfl, hIndex, hName⟩

namespace Spells

/-- A part of a statement that keeps a routine spelled, whatever is known. -/
abbrev OfAction (g : Idiom) (action : RoutineM Unit) : Prop :=
  ∀ known, Spells g known action fun _ _ => True

/-- An operand that is safe to compile and keeps a routine spelled. -/
structure OfExpr (g : Idiom) (operand : Operand) : Prop where
  given : ∀ s ∈ g.within, Safe s operand.compile (Value.Given s)
  spells : ∀ within, OfOperand { g with within := within } operand

theorem OfExpr.sound {operand : Operand} (h : OfExpr g operand) :
    ∀ s ∈ g.within, operand.Sound s := fun s hs => (h.given s hs).sound

/-! ## Blocks and loops -/

theorem block {action : RoutineM Unit} (h : OfAction g action) :
    Spells g known (StmtRule.block action) (CStmt.SpelledAll g.d) :=
  .bind (.capture (.inScope (h known)) fun _ h => h) fun _ _ _ hFound => .pure hFound.2

theorem optBlock (h : ∀ a ∈ action, OfAction g a) :
    Spells g known (StmtRule.optBlock action) fun k found =>
      ∀ body ∈ found, CStmt.SpelledAll g.d k body := by
  cases action with
  | none => exact .pure (by simp)
  | some a => exact .map (.mono (.block (h a rfl)) fun _ _ _ hBody => by simpa using hBody)

theorem getD (h : ∀ a ∈ action, OfAction g a) : OfAction g (action.getD (Pure.pure ())) := by
  intro known
  cases action with
  | none => exact .pure trivial
  | some a => exact h a rfl known

theorem declare {name : String} {type : Operand} (span : Span) (hName : g.d.Word name)
    (h : OfOperand g.loose type) :
    Spells g.loose known (StmtRule.declare name type span) fun _ _ => True :=
  .bind (.type h) fun _ _ _ hType => .bind (.declareLocal _ hName hType) fun _ _ _ hCName =>
    .bindLoose _ (Typed.spelled_localVar hCName hType)

theorem jump (kind : JumpKind) (span : Span) :
    Spells g known (StmtRule.jump kind span) fun _ _ => True := by
  refine .bind .read fun _ env _ _ => ?_
  split
  · exact .emit trivial
  · exact .error _ _

theorem loopTest (h : ∀ operand ∈ cond, OfOperand g operand) :
    Spells g known (StmtRule.loopTest cond) fun k found =>
      CStmt.SpelledAll g.d k found.1 ∧ ∀ c ∈ found.2, c.Spelled g.d k := by
  cases cond with
  | none => exact .pure ⟨trivial, by simp⟩
  | some operand =>
      refine .bind (.capture (.value (h operand rfl)) fun le h => Typed.Spelled.mono h le)
        fun _ found _ hFound => .pure ⟨hFound.2, ?_⟩
      simpa using hFound.1.c

theorem loop (hCond : ∀ operand ∈ cond, OfOperand g operand) (hPost : ∀ a ∈ post, OfAction g a)
    (hBody : OfAction g body) : OfAction g (StmtRule.loop cond post body) := by
  intro known
  refine .bind .nextSerial fun _ number _ _ => .bind (.loopTest hCond) fun _ test _ hTest =>
    .bind (.inLoop number (.block hBody)) fun _ body le₁ hBody =>
      .bind (.capture (getD hPost _) fun _ h => h) fun _ post le₂ hPost => .emit ?_
  have le := le₁.trans le₂
  exact ⟨hTest.1.mono le, fun c hc => (hTest.2 c hc).mono le, hBody.mono le₂, hPost.2⟩

theorem forLoop {init : Option (RoutineM Unit)} (hInit : ∀ a ∈ init, OfAction g a)
    (hCond : ∀ operand ∈ cond, OfOperand g operand) (hPost : ∀ a ∈ post, OfAction g a)
    (hBody : OfAction g body) : OfAction g (StmtRule.forLoop init cond post body) :=
  fun known => .inScope (.bind (getD hInit known) fun known _ _ _ => loop hCond hPost hBody known)

/-- The variable that a range sets in every round is declared. -/
theorem rangeLocal (span : Span) (hName : ∀ n ∈ name, g.d.Word n) (hType : type.WordedIn g.d) :
    Spells g.loose known (StmtRule.rangeLocal name type span) fun k found =>
      ∀ cName ∈ found, .variable cName ∈ k := by
  unfold StmtRule.rangeLocal
  split
  · exact .pure (by simp)
  · exact .pure (by simp)
  · next name _ =>
      refine .bind (.declareLocal _ (hName name rfl) hType) fun _ cName _ hCName =>
        .bind (.bindLoose _ (Typed.spelled_localVar hCName hType)) fun _ _ le _ => .pure ?_
      simpa using le hCName

theorem rangeElement {collection : Typed} (span : Span) (h : collection.Spelled g.d known) :
    Spells g known (StmtRule.rangeElement collection span) fun _ found =>
      found.1.WordedIn g.d ∧ ∀ elem ∈ found.2, g.d.Word elem := by
  refine .bind (.sliceElement? h.type) fun _ found _ hFound => ?_
  split
  · next elem =>
      exact .bind (.cType _) fun _ _ _ hText => .pure ⟨hFound elem rfl, by simpa using hText⟩
  · refine .bind (.answer _) fun _ _ _ _ => ?_
    split
    · exact .pure ⟨fun _ => trivial, by simp⟩
    · exact .error _ _

theorem word_of_minds (h : ∀ n ∈ name, g.Minds → isIdentifier n = true) : ∀ n ∈ name, g.d.Word n :=
  fun n hn hStrict => isWordTail_of_isIdentifier (h n hn (.inl hStrict))

theorem rangeLoop {value : Option String} {collection : Operand}
    (hKey : ∀ n ∈ key, g.Minds → isIdentifier n = true)
    (hValue : ∀ n ∈ value, g.Minds → isIdentifier n = true) (span : Span)
    (hCollection : OfExpr g collection) (hBody : OfAction g body) :
    OfAction g (StmtRule.rangeLoop key value collection body span) := by
  intro known
  have hInt : (Ty.prim .int).WordedIn g.d := fun _ => trivial
  refine .inScope <| .bind (.soundly (fun s hs => (hCollection.sound s hs).value)
    (.value (hCollection.spells none))) fun _ source _ hSource =>
      .bind (.soundly (fun s hs => StmtRule.rangeElement_safe (hSource.1 s hs) _)
        (.rangeElement _ hSource.2)) fun _ found le₁ hFound => ?_
  refine .bind .nextSerial fun _ number le₂ _ => .bind (.temp _ hSource.2.type)
    fun _ copy le₃ hCopy => .bind (.temp _ hInt) fun _ index le₄ hIndex =>
      .bind (.temp _ hInt) fun known limit le₅ hLimit => ?_
  have hCopied : .variable copy ∈ known := le₅ (le₄ hCopy)
  have hIndexed : .variable index ∈ known := le₅ hIndex
  have hGiven := hSource.2.c.mono (((le₁.trans le₂).trans le₃).trans (le₄.trans le₅))
  -- The copy, the index and the limit are set before the variables of a round are declared.
  refine .bind (.emit ⟨hCopied, hGiven⟩) fun _ _ le₆ _ => .bind (.emit (le₆ hIndexed))
    fun _ _ le₇ _ => .bind (.emit ⟨le₇ (le₆ hLimit), ?_⟩) fun _ _ le₈ _ => ?_
  · split
    · next elem hElem => exact ⟨le₇ (le₆ hCopied), hFound.2.2 elem hElem⟩
    · exact le₇ (le₆ hCopied)
  have leSet := (le₆.trans le₇).trans le₈
  refine .bind (.soundly (fun s hs => StmtRule.rangeLocal_safe
    (fun n hn => hKey n hn (.inr ⟨s, hs⟩))
      ExprRule.int_plain.usable span) (.rangeLocal _ (word_of_minds hKey) hInt))
    fun _ key le₉ hKey => .bind (.soundly (fun s hs => StmtRule.rangeLocal_safe
        (fun n hn => hValue n hn (.inr ⟨s, hs⟩)) (hFound.1 s hs).usable span)
      (.rangeLocal _ (word_of_minds hValue) hFound.2.1)) fun _ value le₁₀ hValue =>
        .bind (.inLoop number (.block hBody)) fun _ body le₁₁ hBody => .emit ?_
  have leRound := (leSet.trans le₉).trans (le₁₀.trans le₁₁)
  exact ⟨leRound hIndexed, leRound hLimit, spelledAll_rangeFetch (leRound hCopied)
    (leRound hIndexed) hFound.2.2 (fun n hn => le₁₁ (le₁₀ (hKey.2 n hn)))
    fun n hn => le₁₁ (hValue.2 n hn), hBody⟩

/-! ## Branches -/

theorem ifElse {cond : Operand} {thenBody : RoutineM Unit} {elseBody : Option (RoutineM Unit)}
    (hCond : OfOperand g cond) (hThen : OfAction g thenBody)
    (hElse : ∀ a ∈ elseBody, OfAction g a) :
    OfAction g (StmtRule.ifElse cond thenBody elseBody) := fun _ =>
  .bind (.value hCond) fun _ _ _ hCond => .bind (.block hThen) fun _ _ le₁ hThen =>
    .bind (.optBlock hElse) fun _ _ le₂ hElse =>
      .emit ⟨hCond.c.mono (le₁.trans le₂), hThen.mono le₂, .of_forall hElse⟩

/-- All parts of the arms of a switch. -/
def OfArms (g : Idiom) (arms : List (List Operand × RoutineM Unit)) : Prop :=
  ∀ arm ∈ arms, (∀ operand ∈ arm.1, OfOperand g operand) ∧ OfAction g arm.2

/-- Tests that are all spelled with the same names. -/
def SpelledTests (d : Diction) (known : Set OwnName) (tests : List (List CExpr)) : Prop :=
  ∀ list ∈ tests, CExpr.SpelledAll d known list

theorem switchTests (h : OfArms g arms) : Spells g known (StmtRule.switchTests arms) fun k tests =>
      SpelledTests g.d k tests ∧ tests.length = arms.length := by
  induction arms generalizing known with
  | nil => exact .pure ⟨by simp [SpelledTests], rfl⟩
  | cons arm rest ih =>
      refine .bind (.values (h arm List.mem_cons_self).1) fun _ values _ hValues =>
        .bind (ih fun a ha => h a (List.mem_cons_of_mem arm ha)) fun _ others le hOthers =>
          .pure ⟨List.forall_mem_cons.mpr ⟨?_, hOthers.1⟩, by simp [hOthers.2]⟩
      refine CExpr.spelledAll_iff.mpr fun test hTest => ?_
      obtain ⟨value, hValue, rfl⟩ := List.mem_map.mp hTest
      exact (hValues value hValue).c.mono le

theorem switchArms {tests : List (List CExpr)} (hTests : SpelledTests g.d known tests)
    (h : OfArms g arms) :
    Spells g known (StmtRule.switchArms tests arms) (CStmt.SpelledAll g.d) := by
  induction arms generalizing tests known with
  | nil => cases tests <;> exact .pure trivial
  | cons arm rest ih =>
      cases tests with
      | nil => exact .pure trivial
      | cons first others =>
          obtain ⟨hFirst, hOthers⟩ := List.forall_mem_cons.mp hTests
          have hRest (a : List Operand × RoutineM Unit) (ha : a ∈ rest) :=
            h a (List.mem_cons_of_mem arm ha)
          exact .bind (.block (h arm List.mem_cons_self).2) fun _ body le₁ hBody =>
            .bind (ih (fun list hList => (hOthers list hList).mono le₁) hRest)
              fun _ stmts le₂ hStmts =>
                .pure ⟨⟨hFirst.mono (le₁.trans le₂), hBody.mono le₂⟩, hStmts⟩

theorem switch {subject : Option Operand} {fallback : Option (RoutineM Unit)}
    (hSubject : ∀ operand ∈ subject, OfOperand g operand) (hArms : OfArms g arms)
    (hFallback : ∀ a ∈ fallback, OfAction g a) :
    OfAction g (StmtRule.switch subject arms fallback) := by
  have hRest (known : Set OwnName) (c : CExpr) (hc : c.Spelled g.d known) :
      Spells g known (do
        let tests ← StmtRule.switchTests arms
        let arms ← StmtRule.switchArms tests arms
        let fallback ← StmtRule.optBlock fallback
        RoutineM.emit (.switch c arms (fallback.getD []))) fun _ _ => True := by
    refine .bind (.switchTests hArms) fun _ tests le₁ hTests =>
      .bind (.switchArms hTests.1 hArms) fun _ stmts le₂ hStmts =>
        .bind (.optBlock hFallback) fun _ found le₃ hFound => .emit
          ⟨hc.mono ((le₁.trans le₂).trans le₃), hStmts.mono le₃, ?_⟩
    cases found with
    | none => trivial
    | some body => exact hFound body rfl
  intro known
  unfold StmtRule.switch
  split
  · next operand =>
      exact .bind (.value (hSubject operand rfl)) fun known value _ hValue =>
        hRest known value.c hValue.c
  · exact hRest known (.int 1) trivial

/-! ## Returns -/

/-- Outputs are handed back through parameters, which are known. -/
theorem setResults (func : FuncType Ty) (span : Span) (index : Nat) {values : List Typed}
    (hOutputs : ∀ i < outputs.length, .parameter (func.outputName (index + i)) ∈ known)
    (h : SpelledValues g.d known values) :
    Spells g known (StmtRule.setResults func span index outputs values) fun _ _ => True := by
  induction outputs generalizing index values known with
  | nil => exact .pure trivial
  | cons output rest ih =>
      cases values with
      | nil => exact .pure trivial
      | cons value others =>
          obtain ⟨hValue, hOthers⟩ := List.forall_mem_cons.mp h
          refine .bind (.convert _ hValue.c _ _) fun _ c le₁ hc => .bind (.emit ⟨?_, hc⟩)
            fun _ _ le₂ _ => ih (index + 1) (fun i hi => ?_)
              fun e he => (hOthers e he).mono (le₁.trans le₂)
          · exact le₁ (by simpa using hOutputs 0 (by simp))
          · have hNext := hOutputs (i + 1) (by simpa using hi)
            rw [show index + 1 + i = index + (i + 1) by omega]
            exact le₂ (le₁ hNext)

theorem returnThrough {values : List Typed} (span : Span)
    (hOutputs : ∀ i < func.outputs.length, .parameter (func.outputName i) ∈ known)
    (h : SpelledValues g.d known values) :
    Spells g known (StmtRule.returnThrough func values span) fun _ _ => True :=
  .bind (.setResults func span 0 (by simpa using hOutputs) h) fun _ _ _ _ => .emit trivial

theorem returnNothing (func : FuncType Ty) (span : Span) :
    Spells g known (StmtRule.returnNothing func span) fun _ _ => True := by
  refine .bind .read fun _ env _ hEnv => ?_
  split
  · next result hResult => exact .emit (hEnv.result result hResult)
  · exact errorIf _ _ fun _ _ _ => .emit trivial

/-- The results of a call that several were passed for are variables of the routine. -/
theorem given_members {k : Known} (h : e.Given k) (hSpelled : e.Spelled d known)
    {members : List (Member Ty)} (hType : e.type = .multi members) :
    ∀ member ∈ members, .variable member.name ∈ known := by
  obtain ⟨callee, args, hCall, hPasses⟩ := h.passes members hType
  have hSpelled := hSpelled.c
  rw [hCall] at hSpelled
  exact fun member hMember => CExpr.spelledAll_iff.mp hSpelled.2 _ (hPasses member hMember)

/-- What a list of results is known by, once a value turned out to be one. -/
theorem callResults (hWords : g.within = none → g.d.words ⊆ g.params)
    (h : ∀ s ∈ g.within, e.Given s.values) (hSpelled : e.Spelled g.d known) :
    Spells g known (RoutineM.types (·.multi? e.type)) fun k found =>
      ∀ members ∈ found, SpelledValues g.d k (members.map fun m => ⟨.localVar m.name, m.type⟩) := by
  have hMembers {k : Set OwnName} {members : List (Member Ty)} (hTypes : Ty.WordedAllIn g.d members)
      (hNames : ∀ member ∈ members, .variable member.name ∈ k) :
      SpelledValues g.d k (members.map fun m => ⟨.localVar m.name, m.type⟩) := by
    intro value hValue
    obtain ⟨member, hMember, rfl⟩ := List.mem_map.mp hValue
    exact ⟨hNames member hMember, fun hs => (Ty.wordedAll_iff.mp (hTypes hs) member hMember).2⟩
  cases hWithin : g.within with
  | some s =>
      have hGiven := h s hWithin
      refine (Spells.both (fun s hs => StmtRule.multi?_eq (h s hs).result)
        (.multi? hSpelled.type)).mono fun k found le hFound members hMem => ?_
      exact hMembers (hFound.2 members hMem)
        (given_members hGiven (hSpelled.mono le) (hFound.1 s hWithin members hMem))
  | none =>
      refine .asks (.types _) fun env routine found hEnv _ hRun members hMem => ?_
      have hTypes : Ty.WordedAllIn g.d members := fun hs => (hEnv.program.types hs).multi?
        (hSpelled.type hs) (RoutineM.types_eq_ok.mp hRun).1 members hMem
      exact hMembers hTypes fun member hMember => .inl <| hWords hWithin fun hs =>
        isWordTail_of_named (Ty.wordedAll_iff.mp (hTypes hs) member hMember).1

theorem returnOne (hWords : g.within = none → g.d.words ⊆ g.params) {value : Operand}
    (span : Span) (hOutputs : func.outputs.length ≠ 1 →
      ∀ i < func.outputs.length, .parameter (func.outputName i) ∈ known) (h : OfExpr g value) :
    Spells g known (StmtRule.returnOne func value span) fun _ _ => True := by
  unfold StmtRule.returnOne
  split
  · exact .bind (.value (h.spells g.within)) fun _ _ _ hValue => .bind (.convert _ hValue.c _ _)
      fun _ _ _ hc => .emit hc
  · next hSeveral =>
      have hLength : func.outputs.length ≠ 1 := by
        intro hOne
        obtain ⟨output, hOutput⟩ := List.length_eq_one_iff.mp hOne
        exact hSeveral output hOutput
      refine .bind (.soundly h.given (h.spells none known)) fun _ value le₁ hValue =>
        .bind (.soundly (fun s hs => .toExpr_given span (hValue.1 s hs)) (.toExpr span hValue.2))
          fun _ e le₂ he => .bind (.callResults hWords he.1 he.2) fun _ found le₃ hFound => ?_
      split
      · next members =>
          refine errorIf _ _ fun _ _ le₄ => .bind (.emit (he.2.c.mono (le₃.trans le₄)))
            fun _ _ le₅ _ => .returnThrough span (fun i hi => ?_) fun e he => ?_
          · exact le₅ (le₄ (le₃ (le₂ (le₁ (hOutputs hLength i hi)))))
          · exact (hFound members rfl e he).mono (le₄.trans le₅)
      · exact .error _ _

theorem ret (hWords : g.within = none → g.d.words ⊆ g.params) (span : Span)
    (h : ∀ operand ∈ values, OfExpr g operand) : OfAction g (StmtRule.ret values span) := by
  intro known
  refine .bind .read fun _ env _ hEnv => ?_
  split
  · exact .error _ _
  · next func hFunc =>
      have hOutputs := hEnv.outputs func hFunc
      split
      · exact .returnNothing _ _
      · next value => exact .returnOne hWords _ hOutputs (h value List.mem_cons_self)
      · next hNotNone hNotOne =>
          refine errorIf _ _ fun hCount known le => ?_
          have hLength : func.outputs.length ≠ 1 := by
            intro hOne
            obtain ⟨value, rfl⟩ := List.length_eq_one_iff.mp ((not_not.mp hCount).trans hOne)
            exact hNotOne value rfl
          exact .bind (.values fun o ho => (h o ho).spells g.within) fun _ _ le' hValues =>
            .returnThrough _ (fun i hi => le' (le (hOutputs hLength i hi))) hValues

/-! ## Assignments -/

theorem place (h : OfOperand g target) :
    Spells g known (StmtRule.place target) (Typed.Spelled g.d) := by
  have hRest (known : Set OwnName) (assignable : Bool) : Spells g known (do
      if !assignable then RoutineM.error target.span (.invalidTarget .notAssignable)
      target.value) (Typed.Spelled g.d) := errorIf _ _ fun _ _ _ => .value h
  unfold StmtRule.place
  split
  · exact .bind (.asked (.isAssignable _)) fun known assignable _ _ => hRest known assignable
  · exact hRest known true
  · exact hRest known true
  · exact hRest known false

theorem assignTo (span : Span) (h : OfOperand g target) (hValue : value.Spelled g.d known) :
    Spells g known (StmtRule.assignTo target value span) fun _ _ => True := by
  unfold StmtRule.assignTo
  split
  · exact .emit hValue.c
  · exact .bind (.place h) fun _ _ le₁ hPlace => .bind (.convert _ (hValue.c.mono le₁) _ _)
      fun _ _ le₂ hc => .bind (.cType _) fun _ _ le₃ hType =>
        .emit ⟨hPlace.c.mono (le₂.trans le₃), hType, hc.mono le₃⟩

theorem assignAll (span : Span) (hTargets : ∀ operand ∈ targets, OfOperand g operand)
    (hValues : ∀ operand ∈ values, OfOperand g operand) :
    Spells g known (StmtRule.assignAll span targets values) fun _ _ => True := by
  induction targets generalizing values known with
  | nil => exact .pure trivial
  | cons target rest ih =>
      cases values with
      | nil => exact .pure trivial
      | cons value others =>
          exact .bind (.value (hValues value List.mem_cons_self)) fun _ _ _ hValue =>
            .bind (.assignTo _ (hTargets target List.mem_cons_self) hValue) fun _ _ _ _ =>
              ih (List.forall_mem_cons.mp hTargets).2 (List.forall_mem_cons.mp hValues).2

theorem defineTyped {name : String} (span : Span) (hName : g.d.Word name)
    (h : value.Spelled g.d known) (hType : type.WordedIn g.d) :
    Spells g.loose known (StmtRule.defineTyped name value span type) fun _ _ => True := by
  refine .bind (.answer _) fun _ isNil le₁ _ => errorIf _ _ fun _ _ le₂ =>
    .bind (.declareLocal _ hName hType) fun _ cName le₃ hCName =>
      .bind (.convert (g := g.loose) _ (h.c.mono ((le₁.trans le₂).trans le₃)) _ _) fun _ c le₄ hc =>
        .bind (.cType _) fun _ _ le₅ hText =>
          .bind (.emit ⟨le₅ (le₄ hCName), hText, hc.mono le₅⟩) fun _ _ le₆ _ => ?_
  exact .bindLoose _ (Typed.spelled_localVar (le₆ (le₅ (le₄ hCName))) hType)

theorem defineOne {name : String} (span : Span) (hName : g.d.Word name)
    (h : value.Spelled g.d known) :
    Spells g.loose known (StmtRule.defineOne name value span) fun _ _ => True := by
  unfold StmtRule.defineOne
  split
  · exact .emit h.c
  · refine .bind (.answer _) fun _ isConst le₁ _ => ?_
    have hInt : (Ty.prim .int).WordedIn g.d := fun _ => trivial
    split
    · exact .bind (.pure hInt) fun _ _ le₂ hType =>
        .defineTyped span hName (h.mono (le₁.trans le₂)) hType
    · exact .bind (.pure h.type) fun _ _ le₂ hType =>
        .defineTyped span hName (h.mono (le₁.trans le₂)) hType

theorem defineAll (span : Span) {names : List String} {values : List Typed}
    (hNames : ∀ name ∈ names, g.d.Word name) (h : SpelledValues g.d known values) :
    Spells g.loose known (StmtRule.defineAll span names values) fun _ _ => True := by
  induction names generalizing values known with
  | nil => exact .pure trivial
  | cons name rest ih =>
      cases values with
      | nil => exact .pure trivial
      | cons value others =>
          obtain ⟨hValue, hOthers⟩ := List.forall_mem_cons.mp h
          exact .bind (.defineOne span (hNames name List.mem_cons_self) hValue) fun _ _ le _ =>
            ih (List.forall_mem_cons.mp hNames).2 fun e he => (hOthers e he).mono le

/-- A target that is a name is a word of the source, if that matters. -/
def NamesWord (g : Idiom) (operand : Operand) : Prop := g.Minds → StmtRule.NamesIdentifier operand

theorem definedNames (h : ∀ operand ∈ targets, NamesWord g operand) :
    Spells g known (StmtRule.definedNames targets) fun _ names =>
      ∀ name ∈ names, g.Minds → isIdentifier name = true := by
  induction targets generalizing known with
  | nil => exact .pure (by simp)
  | cons target rest ih =>
      unfold StmtRule.definedNames
      split
      · exact .error _ _
      · next name hName =>
          refine .bind (ih fun t ht => h t (List.mem_cons_of_mem target ht))
            fun _ others _ hOthers => .pure ?_
          exact List.forall_mem_cons.mpr
            ⟨fun hMinds => h target List.mem_cons_self hMinds name hName, hOthers⟩

theorem assignEach (span : Span) (hTargets : ∀ operand ∈ targets, OfOperand g operand)
    (h : SpelledValues g.d known results) :
    Spells g known (StmtRule.assignResults.assignEach span targets results) fun _ _ => True := by
  induction targets generalizing results known with
  | nil => exact .pure trivial
  | cons target rest ih =>
      cases results with
      | nil => exact .pure trivial
      | cons result others =>
          obtain ⟨hResult, hOthers⟩ := List.forall_mem_cons.mp h
          exact .bind (.assignTo _ (hTargets target List.mem_cons_self) hResult) fun _ _ le _ =>
            ih (List.forall_mem_cons.mp hTargets).2 fun e he => (hOthers e he).mono le

theorem assignResults {names : Option (List String)} (span : Span)
    (hTargets : ∀ operand ∈ targets, OfOperand g.loose operand)
    (hNames : ∀ ns ∈ names, ∀ name ∈ ns, g.d.Word name) (h : SpelledValues g.d known results) :
    Spells g.loose known (StmtRule.assignResults targets names results span) fun _ _ => True := by
  cases names with
  | none => exact .assignEach span hTargets h
  | some names => exact .defineAll span (hNames names rfl) h

theorem assignFromCall (hWords : g.within = none → g.d.words ⊆ g.params) {call : Operand}
    (define : Bool) (span : Span) (hTargets : ∀ operand ∈ targets, OfExpr g operand)
    (hNames : ∀ operand ∈ targets, NamesWord g operand) (hCall : OfExpr g call) :
    Spells g known (StmtRule.assignFromCall targets call define span) fun _ _ => True := by
  have hRest (known : Set OwnName) (names : Option (List String))
      (hNames : ∀ ns ∈ names, ∀ name ∈ ns, g.Minds → isIdentifier name = true) :
      Spells g known (StmtRule.assignCalled targets call names span) fun _ _ => True := by
    refine .bind (.soundly hCall.given (hCall.spells none known)) fun _ value _ hValue =>
      .bind (.soundly (fun s hs => .toExpr_given span (hValue.1 s hs)) (.toExpr span hValue.2))
        fun _ e _ he => .bind (.both (fun s hs => StmtRule.multi?_safe (he.1 s hs).result)
          (.callResults hWords he.1 he.2)) fun _ found le₁ hFound => ?_
    split
    · next members =>
        have hSafe (s : Setting) (hs : s ∈ g.within) := StmtRule.assignResults_safe span
          (fun o ho => (hTargets o ho).sound s hs)
          (fun ns hns name hName => hNames ns hns name hName (.inr ⟨s, hs⟩))
          (StmtRule.members_sound (hFound.1 s hs members rfl))
        exact errorIf _ _ fun _ _ le₂ => .bind (.emit (he.2.c.mono (le₁.trans le₂)))
          fun _ _ le₃ _ => .lifted hSafe (.assignResults span
            (fun o ho => (hTargets o ho).spells none)
            (fun ns hns name hName hs =>
              isWordTail_of_isIdentifier (hNames ns hns name hName (.inl hs)))
            fun e he => (hFound.2 members rfl e he).mono (le₂.trans le₃))
    · dsimp only
      split
      · exact .bind (.answer _) fun _ _ _ _ => .error _ _
      · exact .bind (.pure trivial) fun _ _ _ (_ : True) => .error _ _
  unfold StmtRule.assignFromCall
  dsimp only
  split
  · exact .bind (.map (.mono (.definedNames hNames) fun _ _ _ hFound => by simpa using hFound))
      fun known names _ hFound => hRest known names hFound
  · exact hRest known none (by simp)

theorem setOrDefine (hWords : g.within = none → g.d.words ⊆ g.params) (define : Bool)
    (span : Span) (hTargets : ∀ operand ∈ targets, OfExpr g operand)
    (hNames : ∀ operand ∈ targets, NamesWord g operand)
    (hValues : ∀ operand ∈ values, OfExpr g operand) :
    Spells g known (StmtRule.setOrDefine define targets values span) fun _ _ => True := by
  unfold StmtRule.setOrDefine
  split
  · exact .assignFromCall hWords _ _ hTargets hNames (hValues _ List.mem_cons_self)
  · refine errorIf _ _ fun _ _ _ => ?_
    split
    · refine .bind (.definedNames hNames) fun _ names _ hNames => .bind (.soundly
        (fun s hs => Operand.values_safe fun o ho => (hValues o ho).sound s hs)
        (.values fun o ho => (hValues o ho).spells none)) fun _ es _ hes => ?_
      exact .lifted (fun s hs => StmtRule.defineAll_safe span
          (fun name hName => hNames name hName (.inr ⟨s, hs⟩)) (hes.1 s hs))
        (.defineAll span (fun name hName hs =>
          isWordTail_of_isIdentifier (hNames name hName (.inl hs))) hes.2)
    · exact .assignAll span (fun o ho => (hTargets o ho).spells g.within)
        fun o ho => (hValues o ho).spells g.within

theorem stepTarget (span : Span) (h : ∀ operand ∈ targets, OfOperand g operand) :
    Spells g known (StmtRule.stepTarget targets span) (CExpr.Spelled g.d) := by
  unfold StmtRule.stepTarget
  split
  · exact .bind (.place (h _ List.mem_cons_self)) fun _ _ _ hPlace => .pure hPlace.c
  · exact .error _ _

theorem assign (hWords : g.within = none → g.d.words ⊆ g.params) (op : AssignOp) (span : Span)
    (hTargets : ∀ operand ∈ targets, OfExpr g operand)
    (hNames : ∀ operand ∈ targets, NamesWord g operand)
    (hValues : ∀ operand ∈ values, OfExpr g operand) :
    OfAction g (StmtRule.assign op targets values span) := by
  intro known
  have hTarget := fun o ho => (hTargets o ho).spells g.within
  cases op with
  | inc => exact .bind (.stepTarget span hTarget) fun _ _ _ hc => .emit hc
  | dec => exact .bind (.stepTarget span hTarget) fun _ _ _ hc => .emit hc
  | lone =>
      unfold StmtRule.assign
      dsimp only
      split
      · next call =>
          exact errorIf _ _ fun _ known _ =>
            .bind ((hValues call List.mem_cons_self).spells g.within known) fun _ _ _ hValue =>
              .bind (.toExpr _ hValue) fun _ _ _ he => .emit he.c
      · exact .error _ _
  | compound bin =>
      unfold StmtRule.assign
      dsimp only
      split
      · exact .bind (.place (hTarget _ List.mem_cons_self)) fun _ _ _ hPlace =>
          .bind (.value ((hValues _ List.mem_cons_self).spells g.within)) fun _ _ le hValue =>
            .emit ⟨hPlace.c.mono le, hValue.c⟩
      · exact .error _ _
  | set => exact .setOrDefine hWords _ _ hTargets hNames hValues
  | define => exact .setOrDefine hWords _ _ hTargets hNames hValues

end Spells

/-! ## Statements of a source -/

/-- An expression of a source is an operand that is safe and keeps a routine spelled. -/
theorem compileExpr_ofExpr (suits : g.Suits word) (e : Expr) (h : g.Minds → e.Formed word) :
    Spells.OfExpr g (operand e) where
  given s hs := compileExpr_given (suits.whole s hs) e (suits.same s hs ▸ h (.inr ⟨s, hs⟩))
  spells _ := compileExpr_spells suits.ident e fun hs => h (.inl hs)

theorem operands_ofExpr (suits : g.Suits word) (es : List Expr)
    (h : g.Minds → ExprsFormed word es) : ∀ operand ∈ operands es, Spells.OfExpr g operand := by
  induction es with
  | nil => simp [operands]
  | cons e rest ih =>
      simp only [ExprsFormed, imp_and] at h
      rw [operands, List.forall_mem_cons]
      exact ⟨compileExpr_ofExpr suits e h.1, ih h.2⟩

theorem operands_namesWord (suits : g.Suits word) (es : List Expr)
    (h : g.Minds → ExprsFormed word es) : ∀ operand ∈ operands es, Spells.NamesWord g operand := by
  induction es with
  | nil => simp [operands]
  | cons e rest ih =>
      simp only [ExprsFormed, imp_and] at h
      rw [operands, List.forall_mem_cons]
      refine ⟨fun hMinds name hName => ?_, ih h.2⟩
      cases e with
      | ident span found =>
          obtain rfl : found = name := Option.some.inj hName
          exact suits.ident found (h.1 hMinds)
      | _ => cases hName

mutual

/-- A statement keeps a routine spelled. -/
theorem compileStmt_spells (suits : g.Suits word) : (stmt : Stmt) → (g.Minds → stmt.Formed word) →
    Spells.OfAction g (compileStmt stmt)
  | .assign span op targets values, h => by
      simp only [Stmt.Formed, imp_and] at h
      rw [compileStmt]
      exact .assign suits.words op span (operands_ofExpr suits targets h.1)
        (operands_namesWord suits targets h.1) (operands_ofExpr suits values h.2)
  | .var span name type, h => by
      simp only [Stmt.Formed, imp_and] at h
      rw [compileStmt]
      refine fun _ => .lifted (fun s hs => StmtRule.declare_safe (suits.whole s hs)
        (suits.ident _ (h.1 (.inr ⟨s, hs⟩)))
        (typeOperand_safe s type (suits.same s hs ▸ h.2 (.inr ⟨s, hs⟩))) span)
        (.declare span (fun hs => isWordTail_of_isIdentifier (suits.ident _ (h.1 (.inl hs)))) ?_)
      exact compileExpr_spells suits.ident type fun hs => (h.2 (.inl hs)).formed
  | .ret span values, h => by
      rw [Stmt.Formed] at h
      rw [compileStmt]
      exact .ret suits.words span (operands_ofExpr suits values h)
  | .breakLoop span _, _ => by
      rw [compileStmt]
      exact fun _ => .jump _ span
  | .continueLoop span _, _ => by
      rw [compileStmt]
      exact fun _ => .jump _ span
  | .whileLoop _ cond body, h => by
      simp only [Stmt.Formed, imp_and] at h
      rw [compileStmt]
      exact .loop (optOperand_spells suits.ident cond fun hs => h.1 (.inl hs)) (by simp)
        (compileStmts_spell suits body h.2)
  | .forLoop _ init cond post body, h => by
      simp only [Stmt.Formed, imp_and] at h
      rw [compileStmt]
      exact .forLoop (compileOptStmt_spells suits init h.1)
        (optOperand_spells suits.ident cond fun hs => h.2.1 (.inl hs))
        (compileOptStmt_spells suits post h.2.2.1) (compileStmts_spell suits body h.2.2.2)
  | .rangeLoop span key value collection body, h => by
      simp only [Stmt.Formed, imp_and] at h
      rw [compileStmt]
      exact .rangeLoop (fun n hn hMinds => suits.ident n (h.1 hMinds n hn))
        (fun n hn hMinds => suits.ident n (h.2.1 hMinds n hn)) span
        (compileExpr_ofExpr suits collection h.2.2.1) (compileStmts_spell suits body h.2.2.2)
  | .ifElse _ cond thenBody elseBody, h => by
      simp only [Stmt.Formed, imp_and] at h
      rw [compileStmt]
      exact .ifElse (compileExpr_spells suits.ident cond fun hs => h.1 (.inl hs))
        (compileStmts_spell suits thenBody h.2.1) (compileOptStmts_spell suits elseBody h.2.2)
  | .switch _ subject cases fallback, h => by
      simp only [Stmt.Formed, imp_and] at h
      rw [compileStmt]
      exact .switch (optOperand_spells suits.ident subject fun hs => h.1 (.inl hs))
        (compileCases_spell suits cases h.2.1) (compileOptStmts_spell suits fallback h.2.2)
  | .block _ body, h => by
      rw [Stmt.Formed] at h
      rw [compileStmt]
      exact fun _ => .bind (.block (compileStmts_spell suits body h)) fun _ _ _ hBody => .emit hBody

theorem compileStmts_spell (suits : g.Suits word) : (stmts : List Stmt) →
    (g.Minds → StmtsFormed word stmts) →
    Spells.OfAction g (compileStmts stmts)
  | [], _ => by rw [compileStmts]; exact fun _ => .pure trivial
  | stmt :: rest, h => by
      simp only [StmtsFormed, imp_and] at h
      rw [compileStmts]
      exact fun known => .bind (compileStmt_spells suits stmt h.1 known) fun known _ _ _ =>
        compileStmts_spell suits rest h.2 known

theorem compileOptStmt_spells (suits : g.Suits word) : (stmt : Option Stmt) →
    (g.Minds → OptStmtFormed word stmt) →
    ∀ action ∈ compileOptStmt stmt, Spells.OfAction g action
  | none, _, action, hAction => by simp [compileOptStmt] at hAction
  | some stmt, h, action, hAction => by
      rw [OptStmtFormed] at h
      rw [compileOptStmt, Option.mem_some_iff] at hAction
      subst hAction
      exact compileStmt_spells suits stmt h

theorem compileOptStmts_spell (suits : g.Suits word) : (body : Option (List Stmt)) →
    (g.Minds → OptStmtsFormed word body) → ∀ action ∈ compileOptStmts body, Spells.OfAction g action
  | none, _, action, hAction => by simp [compileOptStmts] at hAction
  | some body, h, action, hAction => by
      rw [OptStmtsFormed] at h
      rw [compileOptStmts, Option.mem_some_iff] at hAction
      subst hAction
      exact compileStmts_spell suits body h

theorem compileCases_spell (suits : g.Suits word) : (cases : List (SwitchCase Stmt)) →
    (g.Minds → CasesFormed word cases) → Spells.OfArms g (compileCases cases)
  | [], _, arm, hArm => by simp [compileCases] at hArm
  | ⟨tests, body, _⟩ :: rest, h, arm, hArm => by
      simp only [CasesFormed, imp_and] at h
      rw [compileCases, compileCase] at hArm
      rcases List.mem_cons.mp hArm with rfl | hArm
      · exact ⟨operands_spell suits.ident tests fun hs => h.1.1 (.inl hs),
          compileStmts_spell suits body h.1.2⟩
      · exact compileCases_spell suits rest h.2 arm hArm

end

/-! ## Bodies -/

/-- The parameters of the C function for a function type. -/
def FuncType.ownNames (func : FuncType Ty) : Set OwnName :=
  {n | (∃ index < func.inputs.length, n = .parameter (func.inputName index)) ∨
    func.outputs.length ≠ 1 ∧ ∃ index < func.outputs.length, n = .parameter (func.outputName index)}

namespace Spells

variable {func : FuncType Ty}

theorem bindInputs (index : Nat) {inputs : List (Member Ty)}
    (h : ∀ i < inputs.length, .parameter (func.inputName (index + i)) ∈ known)
    (hTypes : Ty.WordedAllIn g.d inputs) :
    Spells g.loose known (GoToC.bindInputs func index inputs) fun _ _ => True := by
  induction inputs generalizing index known with
  | nil => exact .pure trivial
  | cons input rest ih =>
      have hRest {k : Set OwnName} (le : known ⊆ k) :
          Spells g.loose k (GoToC.bindInputs func (index + 1) rest) fun _ _ => True := by
        refine ih (index + 1) (fun i hi => le ?_) fun hs => (hTypes hs).2
        rw [show index + 1 + i = index + (i + 1) by omega]
        exact h (i + 1) (by simpa using hi)
      have hFirst : OwnName.parameter (func.inputName index) ∈ known := by
        simpa using h 0 (by simp)
      unfold GoToC.bindInputs
      dsimp only
      split
      · exact .bind (.bindLoose _ ⟨hFirst, fun hs => (hTypes hs).1.2⟩) fun _ _ le _ => hRest le
      · exact hRest subset_rfl

theorem bindOutputs (index : Nat)
    (h : ∀ i < outputs.length, .parameter (func.outputName (index + i)) ∈ known)
    (hTypes : Ty.WordedAllIn g.d outputs) :
    Spells g.loose known (GoToC.bindOutputs func index outputs) fun _ _ => True := by
  induction outputs generalizing index known with
  | nil => exact .pure trivial
  | cons output rest ih =>
      have hRest {k : Set OwnName} (le : known ⊆ k) :
          Spells g.loose k (GoToC.bindOutputs func (index + 1) rest) fun _ _ => True := by
        refine ih (index + 1) (fun i hi => le ?_) fun hs => (hTypes hs).2
        rw [show index + 1 + i = index + (i + 1) by omega]
        exact h (i + 1) (by simpa using hi)
      have hFirst : OwnName.parameter (func.outputName index) ∈ known := by
        simpa using h 0 (by simp)
      unfold GoToC.bindOutputs
      dsimp only
      split
      · exact .bind (.bindLoose _ ⟨hFirst, fun hs => (hTypes hs).1.2⟩) fun _ _ le _ => hRest le
      · exact hRest subset_rfl

/-- The result that has a name is a variable of the routine. -/
theorem enterFunc (span : Span) (h : func.ownNames ⊆ known) (hFunc : (Ty.func func).WordedIn g.d) :
    Spells g.loose known (GoToC.enterFunc func span) fun k result =>
      ∀ name ∈ result, .variable name ∈ k := by
  have hInputs : ∀ i < func.inputs.length, .parameter (func.inputName (0 + i)) ∈ known :=
    fun i hi => h (.inl ⟨i, hi, by rw [Nat.zero_add]⟩)
  refine .bind (.bindInputs 0 hInputs fun hs => (hFunc hs).1) fun known _ le _ => ?_
  split
  · next output hOne =>
      have hOutput (hs : g.d.strict) :=
        Ty.wordedAll_iff.mp (hFunc hs).2 output (hOne ▸ List.mem_cons_self)
      have hType : output.type.WordedIn g.d := fun hs => (hOutput hs).2
      split
      · refine .bind (.declareLocal _ (fun hs => isWordTail_of_named (hOutput hs).1) hType)
          fun _ cName _ hName => .bind (.bindLoose _ (Typed.spelled_localVar hName hType))
            fun _ _ le' _ => .pure ?_
        simpa using le' hName
      · exact .pure (by simp)
  · next hSeveral =>
      have hLength : func.outputs.length ≠ 1 := by
        intro hOne
        obtain ⟨output, hOutput⟩ := List.length_eq_one_iff.mp hOne
        exact hSeveral output hOutput
      have hOutputs : ∀ i < func.outputs.length, .parameter (func.outputName (0 + i)) ∈ known :=
        fun i hi => le (h (.inr ⟨hLength, i, hi, by rw [Nat.zero_add]⟩))
      exact .bind (.bindOutputs 0 hOutputs fun hs => (hFunc hs).2) fun _ _ _ _ => .pure (by simp)

end Spells

/-- The body of a function keeps a routine with its parameters spelled. -/
theorem compileBody_spells (suits : g.Suits word)
    (hSafe : ∀ s ∈ g.within, (Ty.func func).PlainFunc s.values)
    (hFunc : (Ty.func func).WordedIn g.d) (hParams : func.ownNames ⊆ known) {body : List Stmt}
    (h : g.Minds → StmtsFormed word body) (span : Span) :
    Spells g known (compileBody func body span) fun _ _ => True := by
  refine .bind (.soundly (fun s hs => enterFunc_safe (hSafe s hs) span)
    (.enterFunc span hParams hFunc))
    fun known result leParams hResult env routine value after hSound le hEnv hRoutine hRun => ?_
  have hBody : Spells g known (RoutineM.inScope (compileStmts body)) fun _ _ => True :=
    .inScope (compileStmts_spell suits body h known)
  -- The body is compiled as that of the function, with its named result.
  have hEntered :
      Sounds g.within { env with func := some func, namedResult := result } routine := by
    intro s hs
    obtain ⟨hEnvSound, hRoutineSound⟩ := hSound s hs
    refine ⟨{ hEnvSound with func := ?_, result := hResult.1 s hs }, hRoutineSound⟩
    rintro _ ⟨⟩
    exact hSafe s hs
  have hKnown : Env.Spelled g.d known { env with func := some func, namedResult := result } := by
    refine { hEnv with func := by simpa using hFunc, result := hResult.2, outputs := ?_ }
    rintro _ ⟨⟩ hLength index hIndex
    exact leParams (hParams (.inr ⟨hLength, index, hIndex, rfl⟩))
  obtain ⟨hValue, hGrown, hSpelled, hSound'⟩ :=
    hBody { env with func := some func, namedResult := result } routine value after hEntered le
      hKnown hRoutine hRun
  exact ⟨hValue, hGrown, hSpelled, fun s hs => ⟨(hSound s hs).1, (hSound' s hs).2⟩⟩

/-- Whatever the types, a body is made of words of the source and of the names of its parameters. -/
theorem compileBody_words (hFunc : (Ty.func func).WordedIn d) {body : List Stmt}
    (h : d.strict → StmtsFormed SourceWord body) (span : Span) :
    Spells (.wording d) d.words (compileBody func body span) fun _ _ => True := by
  refine compileBody_spells (.wording d) (fun _ => nofun) hFunc ?_
    (fun hMinds => h (hMinds.resolve_right nofun)) span
  rintro _ (⟨index, -, rfl⟩ | ⟨-, index, -, rfl⟩) hStrict
  · exact (hFunc hStrict).inputName index
  · exact (hFunc hStrict).outputName index

end GoToC
