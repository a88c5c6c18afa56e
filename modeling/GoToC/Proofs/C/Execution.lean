import GoToC.Proofs.C.Closed
import GoToC.Proofs.Routine.Composed

/-!
# Execution of C statements

What runs after what in a routine, for any meaning of its fragments and of the statements that hold
no others. A jump leads to the loop whose number it tells. A place is arrived at after a number of
whole rounds of each loop around it; until all of them are in their first rounds, only what is ahead
of the place has run, so a variable that is not named there holds what it held before.
-/

namespace GoToC

variable {frame : CFrame} {known : Set OwnName} {part written : List CStmt} {cond : Option CExpr}
  {place : CPlace} {rounds : List Nat}

/-- How fragments and statements that hold no others work, on states of a routine. Both may have
any effects, but they leave the variables alone that they do not name. -/
structure Machine (V S : Type) where
  /-- What a variable of the routine holds. -/
  holds : S → String → V
  /-- What an initializer stands for. -/
  initial : String → V
  eval : CExpr → S → V → S → Prop
  step : CStmt → S → S → Prop
  truthy : V → Prop
  /-- Whether a test of a switch fits the subject. -/
  fits : V → V → Prop
  holds_of_eval {e : CExpr} {s t : S} {v : V} {name : String} :
    eval e s v t → .variable name ∉ e.ownNames → holds t name = holds s name
  holds_of_step {stmt : CStmt} {s t : S} {name : String} :
    step stmt s t → .variable name ∉ stmt.ownNames → holds t name = holds s name

/-- How statements end: at their end, by a jump, or by a return from the routine. -/
inductive Ending where
  | done
  | jumped (kind : JumpKind) (number : Nat)
  | returned
  deriving DecidableEq

namespace Ending

/-- Whether the rounds of a loop go on after one of them ended. -/
def goesOn (number : Nat) : Ending → Prop
  | done => True
  | jumped .again target => target = number
  | _ => False

/-- Whether a loop is left for what comes after it. -/
def leaves (number : Nat) : Ending → Prop
  | jumped .leave target => target = number
  | _ => False

end Ending

namespace CStmt

/-- The tests of an arm of a switch. -/
def armTests : CStmt → List CExpr
  | .arm tests _ => tests
  | _ => []

/-- The condition that a range goes on. -/
def rangeCond (index limit : String) : CExpr :=
  .unary .not (.binary .gtEq (.localVar index) (.localVar limit))

/-- A range as a loop that advances its index ahead of its condition. -/
def unrolled (number : Nat) (index limit : String) (fetch body : List CStmt) : CStmt :=
  .loop number [.increment (.localVar index)] (some (rangeCond index limit)) (fetch ++ body) []

end CStmt

namespace Machine

variable {V S : Type} (m : Machine V S)

/-- The variables of a routine hold what they are initialized to. -/
def Starts (locals : List CLocal) (s : S) : Prop :=
  ∀ var ∈ locals, m.holds s var.name = m.initial var.init

/-- A loop goes on after its condition. -/
def Passes : Option CExpr → S → S → Prop
  | none, s, t => t = s
  | some cond, s, t => ∃ v, m.eval cond s v t ∧ m.truthy v

/-- A loop ends at its condition. -/
def Stops : Option CExpr → S → S → Prop
  | none, _, _ => False
  | some cond, s, t => ∃ v, m.eval cond s v t ∧ ¬ m.truthy v

/-- None of the tests fits. -/
def Misses (subject : V) : List CExpr → S → S → Prop
  | [], s, t => t = s
  | test :: rest, s, t => ∃ v s', m.eval test s v s' ∧ ¬ m.fits subject v ∧ Misses subject rest s' t

/-- One of the tests fits, and those before it do not. -/
def Hits (subject : V) (tests : List CExpr) (s t : S) : Prop :=
  ∃ before test after v s', tests = before ++ test :: after ∧ m.Misses subject before s s' ∧
    m.eval test s' v t ∧ m.fits subject v

/-- A part that is no part of a loop is chosen to be run. -/
def Chooses : CFrame → S → S → Prop
  | .ifThen cond _, s, t => ∃ v, m.eval cond s v t ∧ m.truthy v
  | .ifElse cond _, s, t => ∃ v, m.eval cond s v t ∧ ¬ m.truthy v
  | .block, s, t => t = s
  | .arm subject earlier tests _ _, s, t => ∃ v s₁ s₂, m.eval subject s v s₁ ∧
      m.Misses v (earlier.flatMap CStmt.armTests) s₁ s₂ ∧ m.Hits v tests s₂ t
  | .otherwise subject arms, s, t => ∃ v s₁, m.eval subject s v s₁ ∧
      m.Misses v (arms.flatMap CStmt.armTests) s₁ t
  | .round .., _, _ | .between .., _, _ | .rangeRound .., _, _ => False

/-- Statements that run one after another. -/
inductive Runs : List CStmt → S → Ending → S → Prop
  | nil {s} : Runs [] s .done s
  | flat {stmt rest s s' t ending} :
      stmt.isFlat = true → (∀ value, stmt ≠ .ret value) → m.step stmt s s' → Runs rest s' ending t →
      Runs (stmt :: rest) s ending t
  | ret {value rest s t} :
      m.step (.ret value) s t → Runs (.ret value :: rest) s .returned t
  | jump {kind number rest s} :
      Runs (.jump kind number :: rest) s (.jumped kind number) s
  | part {frame part rest s s₁ s₂ t ending} :
      m.Chooses frame s s₁ → Runs part s₁ .done s₂ → Runs rest s₂ ending t →
      Runs (frame.fill part :: rest) s ending t
  | partOut {frame part rest s s' t ending} :
      m.Chooses frame s s' → Runs part s' ending t → ending ≠ .done →
      Runs (frame.fill part :: rest) s ending t
  /-- A conditional without a second part. -/
  | skip {cond thenBody rest s s' t v ending} :
      m.eval cond s v s' → ¬ m.truthy v → Runs rest s' ending t →
      Runs (.ifElse cond thenBody none :: rest) s ending t
  | again {number test body post rest cond s s₁ s₂ s₃ s₄ t round ending} :
      Runs test s .done s₁ → m.Passes cond s₁ s₂ → Runs body s₂ round s₃ → round.goesOn number →
      Runs post s₃ .done s₄ → Runs (.loop number test cond body post :: rest) s₄ ending t →
      Runs (.loop number test cond body post :: rest) s ending t
  | stop {number test body post rest cond s s₁ s₂ t ending} :
      Runs test s .done s₁ → m.Stops cond s₁ s₂ → Runs rest s₂ ending t →
      Runs (.loop number test cond body post :: rest) s ending t
  | leave {number test body post rest cond s s₁ s₂ s₃ t round ending} :
      Runs test s .done s₁ → m.Passes cond s₁ s₂ → Runs body s₂ round s₃ → round.leaves number →
      Runs rest s₃ ending t →
      Runs (.loop number test cond body post :: rest) s ending t
  | bodyOut {number test body post rest cond s s₁ s₂ t ending} :
      Runs test s .done s₁ → m.Passes cond s₁ s₂ → Runs body s₂ ending t →
      ¬ ending.goesOn number → ¬ ending.leaves number →
      Runs (.loop number test cond body post :: rest) s ending t
  /-- What is done between two rounds may leave a loop that is further out. -/
  | postOut {number test body post rest cond s s₁ s₂ s₃ t round ending} :
      Runs test s .done s₁ → m.Passes cond s₁ s₂ → Runs body s₂ round s₃ → round.goesOn number →
      Runs post s₃ ending t → ending ≠ .done →
      Runs (.loop number test cond body post :: rest) s ending t
  | range {number index limit fetch body rest s t ending} :
      Runs (CStmt.unrolled number index limit fetch body :: rest) s ending t →
      Runs (.rangeLoop number index limit fetch body :: rest) s ending t

/-- One whole round of a loop, after which it begins anew. -/
inductive Turn : CStmt → S → S → Prop
  | loop {number test body post cond s s₁ s₂ s₃ t round} :
      m.Runs test s .done s₁ → m.Passes cond s₁ s₂ → m.Runs body s₂ round s₃ →
      round.goesOn number → m.Runs post s₃ .done t → Turn (.loop number test cond body post) s t
  | range {number index limit fetch body s t} :
      Turn (CStmt.unrolled number index limit fetch body) s t →
      Turn (.rangeLoop number index limit fetch body) s t

/-- A number of whole rounds of a loop; what is no loop has none. -/
inductive Turns (stmt : CStmt) : Nat → S → S → Prop
  | zero {s} : Turns stmt 0 s s
  | succ {count s s' t} :
      m.Turn stmt s s' → Turns stmt count s' t → Turns stmt (count + 1) s t

/-- From the beginning of a statement, or of a round if it is a loop, to that of a part of it. -/
def Enters : CFrame → S → S → Prop
  | .round _ test cond _, s, t => ∃ s₁, m.Runs test s .done s₁ ∧ m.Passes cond s₁ t
  | .between number test cond body, s, t => ∃ s₁ s₂ round, m.Runs test s .done s₁ ∧
      m.Passes cond s₁ s₂ ∧ m.Runs body s₂ round t ∧ round.goesOn number
  | .rangeRound _ index limit fetch, s, t => ∃ s₁ s₂,
      m.Runs [.increment (.localVar index)] s .done s₁ ∧
      m.Passes (some (CStmt.rangeCond index limit)) s₁ s₂ ∧ m.Runs fetch s₂ .done t
  | frame, s, t => m.Chooses frame s t

/-- Statements that are written at a place are arrived at. For each statement around the place it
is told how many whole rounds of it went before, the outermost first. -/
inductive Arrives (written : List CStmt) : CPlace → List Nat → S → S → Prop
  | here {before after s t} :
      m.Runs before s .done t → Arrives written (.here before after) [] s t
  | within {before after frame place count rounds s s₁ s₂ s₃ t} :
      m.Runs before s .done s₁ → m.Turns (frame.fill (place.fill written)) count s₁ s₂ →
      m.Enters frame s₂ s₃ → Arrives written place rounds s₃ t →
      Arrives written (.within before frame place after) (count :: rounds) s t

end Machine

/-! ## What is not named is not changed -/

theorem CFrame.closed_fill (h : (frame.fill part).Closed known) :
    frame.Ahead known ∧ CStmt.ClosedAll known part := by
  cases frame with
  | ifThen cond elseBody =>
      obtain ⟨hCond, hPart, -⟩ := CStmt.closed_ifElse.mp h
      exact ⟨hCond, hPart⟩
  | ifElse cond thenBody =>
      obtain ⟨hCond, -, hPart⟩ := CStmt.closed_ifElse.mp h
      exact ⟨hCond, hPart part rfl⟩
  | block => exact ⟨trivial, CStmt.closed_block.mp h⟩
  | round number test cond post =>
      obtain ⟨hTest, hCond, hPart, -⟩ := CStmt.closed_loop.mp h
      exact ⟨⟨hTest, hCond⟩, hPart⟩
  | between number test cond body =>
      obtain ⟨hTest, hCond, hBody, hPart⟩ := CStmt.closed_loop.mp h
      exact ⟨⟨⟨hTest, hCond⟩, hBody⟩, hPart⟩
  | rangeRound number index limit fetch =>
      obtain ⟨hIndex, hLimit, hFetch, hPart⟩ := CStmt.closed_rangeLoop.mp h
      exact ⟨⟨⟨hIndex, hLimit⟩, hFetch⟩, hPart⟩
  | arm subject earlier tests later fallback =>
      obtain ⟨hSubject, hArms, -⟩ := CStmt.closed_switch.mp h
      obtain ⟨hEarlier, hRest⟩ := CStmt.closedAll_append.mp hArms
      obtain ⟨hTests, hPart⟩ := CStmt.closed_arm.mp (CStmt.closedAll_cons.mp hRest).1
      exact ⟨⟨⟨hSubject, hEarlier⟩, hTests⟩, hPart⟩
  | otherwise subject arms =>
      obtain ⟨hSubject, hArms, hPart⟩ := CStmt.closed_switch.mp h
      exact ⟨⟨hSubject, hArms⟩, hPart⟩

theorem CStmt.closed_unrolled {number : Nat} {index limit : String} {fetch body : List CStmt} :
    (unrolled number index limit fetch body).Closed known ↔
      (CStmt.rangeLoop number index limit fetch body).Closed known := by
  simp [unrolled, rangeCond, and_assoc]

theorem CStmt.closed_armTests {arms : List CStmt} (h : ClosedAll known arms) :
    ∀ test ∈ arms.flatMap armTests, test.Closed known := by
  intro test hTest
  obtain ⟨arm, hArm, hTest⟩ := List.mem_flatMap.mp hTest
  have hClosed := CStmt.closedAll_iff.mp h arm hArm
  cases arm with
  | arm tests body => exact (CStmt.closed_arm.mp hClosed).1 test hTest
  | _ => simp [armTests] at hTest

namespace Machine

variable {V S : Type} {m : Machine V S} {known : Set OwnName} {name : String} {s t : S}

theorem holds_eval {e : CExpr} {v : V} (hName : .variable name ∉ known) (h : m.eval e s v t)
    (hClosed : e.Closed known) : m.holds t name = m.holds s name :=
  m.holds_of_eval h fun hNamed => hName (hClosed _ hNamed)

theorem holds_step {stmt : CStmt} (hName : .variable name ∉ known) (h : m.step stmt s t)
    (hClosed : stmt.Closed known) : m.holds t name = m.holds s name :=
  m.holds_of_step h fun hNamed => hName (hClosed _ hNamed)

theorem Passes.holds (hName : .variable name ∉ known) (h : m.Passes cond s t)
    (hClosed : ∀ c ∈ cond, c.Closed known) : m.holds t name = m.holds s name := by
  cases cond with
  | none => exact congrArg (m.holds · name) h
  | some c =>
      obtain ⟨v, hEval, -⟩ := h
      exact holds_eval hName hEval (hClosed c rfl)

theorem Stops.holds (hName : .variable name ∉ known) (h : m.Stops cond s t)
    (hClosed : ∀ c ∈ cond, c.Closed known) : m.holds t name = m.holds s name := by
  cases cond with
  | none => exact h.elim
  | some c =>
      obtain ⟨v, hEval, -⟩ := h
      exact holds_eval hName hEval (hClosed c rfl)

theorem Misses.holds {subject : V} {tests : List CExpr} (hName : .variable name ∉ known)
    (h : m.Misses subject tests s t) (hClosed : ∀ test ∈ tests, test.Closed known) :
    m.holds t name = m.holds s name := by
  induction tests generalizing s with
  | nil => exact congrArg (m.holds · name) h
  | cons test rest ih =>
      obtain ⟨hTest, hRest⟩ := List.forall_mem_cons.mp hClosed
      obtain ⟨v, s', hEval, -, hMisses⟩ := h
      rw [ih hMisses hRest, holds_eval hName hEval hTest]

theorem Hits.holds {subject : V} {tests : List CExpr} (hName : .variable name ∉ known)
    (h : m.Hits subject tests s t) (hClosed : ∀ test ∈ tests, test.Closed known) :
    m.holds t name = m.holds s name := by
  obtain ⟨before, test, after, v, s', rfl, hMisses, hEval, -⟩ := h
  obtain ⟨hBefore, hRest⟩ := List.forall_mem_append.mp hClosed
  rw [holds_eval hName hEval (hRest test List.mem_cons_self), hMisses.holds hName hBefore]

theorem Chooses.holds (hName : .variable name ∉ known) (h : m.Chooses frame s t)
    (hAhead : frame.Ahead known) : m.holds t name = m.holds s name := by
  cases frame with
  | ifThen | ifElse =>
      obtain ⟨v, hEval, -⟩ := h
      exact holds_eval hName hEval hAhead
  | block => exact congrArg (m.holds · name) h
  | round | between | rangeRound => exact h.elim
  | arm subject earlier tests later fallback =>
      obtain ⟨v, s₁, s₂, hSubject, hMisses, hHits⟩ := h
      obtain ⟨⟨hClosed, hEarlier⟩, hTests⟩ := hAhead
      rw [hHits.holds hName hTests, hMisses.holds hName (CStmt.closed_armTests hEarlier),
        holds_eval hName hSubject hClosed]
  | otherwise subject arms =>
      obtain ⟨v, s₁, hSubject, hMisses⟩ := h
      rw [hMisses.holds hName (CStmt.closed_armTests hAhead.2), holds_eval hName hSubject hAhead.1]

/-- Statements change no variable that they do not name. -/
theorem Runs.holds {stmts : List CStmt} {ending : Ending} (hName : .variable name ∉ known)
    (h : m.Runs stmts s ending t) (hClosed : CStmt.ClosedAll known stmts) :
    m.holds t name = m.holds s name := by
  induction h with
  | nil => rfl
  | flat _ _ hStep _ ih =>
      obtain ⟨hStmt, hRest⟩ := CStmt.closedAll_cons.mp hClosed
      rw [ih hRest, holds_step hName hStep hStmt]
  | ret hStep => exact holds_step hName hStep (CStmt.closedAll_cons.mp hClosed).1
  | jump => rfl
  | part hChooses _ _ ihPart ihRest =>
      obtain ⟨hStmt, hRest⟩ := CStmt.closedAll_cons.mp hClosed
      obtain ⟨hAhead, hPart⟩ := CFrame.closed_fill hStmt
      rw [ihRest hRest, ihPart hPart, hChooses.holds hName hAhead]
  | partOut hChooses _ _ ihPart =>
      obtain ⟨hAhead, hPart⟩ := CFrame.closed_fill (CStmt.closedAll_cons.mp hClosed).1
      rw [ihPart hPart, hChooses.holds hName hAhead]
  | skip hEval _ _ ih =>
      obtain ⟨hStmt, hRest⟩ := CStmt.closedAll_cons.mp hClosed
      rw [ih hRest, holds_eval hName hEval (CStmt.closed_ifElse.mp hStmt).1]
  | again _ hPasses _ _ _ _ ihTest ihBody ihPost ihLoop =>
      obtain ⟨hTest, hCond, hBody, hPost⟩ := CStmt.closed_loop.mp
        (CStmt.closedAll_cons.mp hClosed).1
      rw [ihLoop hClosed, ihPost hPost, ihBody hBody, hPasses.holds hName hCond, ihTest hTest]
  | stop _ hStops _ ihTest ihRest =>
      obtain ⟨hStmt, hRest⟩ := CStmt.closedAll_cons.mp hClosed
      obtain ⟨hTest, hCond, -, -⟩ := CStmt.closed_loop.mp hStmt
      rw [ihRest hRest, hStops.holds hName hCond, ihTest hTest]
  | leave _ hPasses _ _ _ ihTest ihBody ihRest =>
      obtain ⟨hStmt, hRest⟩ := CStmt.closedAll_cons.mp hClosed
      obtain ⟨hTest, hCond, hBody, -⟩ := CStmt.closed_loop.mp hStmt
      rw [ihRest hRest, ihBody hBody, hPasses.holds hName hCond, ihTest hTest]
  | bodyOut _ hPasses _ _ _ ihTest ihBody =>
      obtain ⟨hTest, hCond, hBody, -⟩ := CStmt.closed_loop.mp (CStmt.closedAll_cons.mp hClosed).1
      rw [ihBody hBody, hPasses.holds hName hCond, ihTest hTest]
  | postOut _ hPasses _ _ _ _ ihTest ihBody ihPost =>
      obtain ⟨hTest, hCond, hBody, hPost⟩ := CStmt.closed_loop.mp
        (CStmt.closedAll_cons.mp hClosed).1
      rw [ihPost hPost, ihBody hBody, hPasses.holds hName hCond, ihTest hTest]
  | range _ ih =>
      obtain ⟨hStmt, hRest⟩ := CStmt.closedAll_cons.mp hClosed
      exact ih (CStmt.closedAll_cons.mpr ⟨CStmt.closed_unrolled.mpr hStmt, hRest⟩)

theorem enters_iff (hFrame : frame.part.repeats = false) :
    m.Enters frame s t ↔ m.Chooses frame s t := by
  cases frame with
  | round | between | rangeRound => cases hFrame
  | ifThen | ifElse | block | arm | otherwise => exact Iff.rfl

theorem Enters.holds (hName : .variable name ∉ known) (h : m.Enters frame s t)
    (hAhead : frame.Ahead known) : m.holds t name = m.holds s name := by
  cases frame with
  | round number test cond post =>
      obtain ⟨s₁, hTest, hPasses⟩ := h
      rw [hPasses.holds hName hAhead.2, hTest.holds hName hAhead.1]
  | between number test cond body =>
      obtain ⟨s₁, s₂, round, hTest, hPasses, hBody, -⟩ := h
      rw [hBody.holds hName hAhead.2, hPasses.holds hName hAhead.1.2, hTest.holds hName hAhead.1.1]
  | rangeRound number index limit fetch =>
      obtain ⟨s₁, s₂, hIndex, hPasses, hFetch⟩ := h
      obtain ⟨⟨hIndexed, hLimited⟩, hFetched⟩ := hAhead
      have hCond : ∀ c ∈ some (CStmt.rangeCond index limit), c.Closed known := by
        simp [CStmt.rangeCond, hIndexed, hLimited]
      rw [hFetch.holds hName hFetched, hPasses.holds hName hCond,
        hIndex.holds hName (by simp [hIndexed])]
  | ifThen | ifElse | block | arm | otherwise =>
      exact ((enters_iff rfl).mp h).holds hName hAhead

/-- Only a loop has rounds. -/
theorem Turns.eq_zero {count : Nat} (h : m.Turns (frame.fill part) count s t)
    (hFrame : frame.part.repeats = false) : count = 0 := by
  cases h with
  | zero => rfl
  | succ hTurn _ =>
      cases frame with
      | round | between | rangeRound => cases hFrame
      | ifThen | ifElse | block | arm | otherwise => cases hTurn

/-- Where no loop is around a place each arrival is a first one. -/
theorem Arrives.first (h : m.Arrives written place rounds s t)
    (hPlace : ∀ part ∈ place.path, part.repeats = false) : ∀ count ∈ rounds, count = 0 := by
  induction h with
  | here => simp
  | within _ hTurns _ _ ih =>
      obtain ⟨hFrame, hInner⟩ := List.forall_mem_cons.mp hPlace
      exact List.forall_mem_cons.mpr ⟨hTurns.eq_zero hFrame, ih hInner⟩

/-- On the way to a first arrival no variable changes that nothing ahead of the place names. -/
theorem Arrives.holds (hName : .variable name ∉ known) (h : m.Arrives written place rounds s t)
    (hFirst : ∀ count ∈ rounds, count = 0) (hAhead : place.Ahead known) :
    m.holds t name = m.holds s name := by
  induction h with
  | here hBefore => exact hBefore.holds hName hAhead
  | within hBefore hTurns hEnters _ ih =>
      obtain ⟨hNone, hRest⟩ := List.forall_mem_cons.mp hFirst
      subst hNone
      cases hTurns
      rw [ih hRest hAhead.2.2, hEnters.holds hName hAhead.2.1, hBefore.holds hName hAhead.1]

end Machine

end GoToC
