import GoToC.Proofs.Routine.Jumps

/-!
# Jumps that no loop is around

A jump with no loop around it is an error in its place. Statements that have such jumps are
compared with the same statements mended: as long as no such jump is met both are compiled alike,
and the first one that is met ends the compilation.
-/

namespace GoToC

variable {post post' : Option (RoutineM Unit)}

open RoutineM
open Outline (straysOf strays straysOf_append)

/-- What is wrong with a jump that no loop is around. -/
def JumpKind.astray : JumpKind → StatementProblem
  | leave => .breakOutside
  | again => .continueOutside

/-- The error that a jump of a package is which no loop is around. -/
def SourceJump.failure (package : String) (jump : SourceJump) : Failure :=
  .error ⟨package, jump.2, .invalidStatement jump.1.astray⟩

/-- An action that fails, at a stray jump or before in the way that another one fails too. -/
def Stops {α : Type} (stray : SourceJump) (action mended : RoutineM α) : Prop :=
  ∀ env routine, env.loop = none →
    ∃ failure after, action.exec env routine = (.error failure, after) ∧
      (failure = stray.failure env.package ∨
        ∃ after', mended.exec env routine = (.error failure, after'))

/-- An action with stray jumps, compared with one without them. If there are none both do the
same, else it stops at the first of them. -/
structure Meets {α : Type} (found : List SourceJump) (action mended : RoutineM α) : Prop where
  agrees : found = [] → ∀ env routine, env.loop = none →
    action.exec env routine = mended.exec env routine
  stops : ∀ stray rest, found = stray :: rest → Stops stray action mended

namespace Meets

variable {α β : Type} {found others : List SourceJump} {action mended : RoutineM α}

theorem same (action : RoutineM α) : Meets [] action action :=
  ⟨fun _ _ _ _ => rfl, nofun⟩

theorem bind_of_gives {next next' : α → RoutineM β} (h : Meets found action mended)
    (hNext : ∀ value, mended.Gives value → Meets others (next value) (next' value)) :
    Meets (found ++ others) (action >>= next) (mended >>= next') := by
  cases found with
  | cons stray rest =>
      refine ⟨nofun, fun first tail hFirst env routine hLoop => ?_⟩
      obtain rfl : stray = first := (List.cons.inj hFirst).1
      obtain ⟨failure, after, hRun, hFailure⟩ := h.stops stray rest rfl env routine hLoop
      refine ⟨failure, after, by rw [bind_exec, hRun], hFailure.imp_right ?_⟩
      rintro ⟨after', hMended⟩
      exact ⟨after', by rw [bind_exec, hMended]⟩
  | nil =>
      refine ⟨fun hNone env routine hLoop => ?_, fun stray rest hStray env routine hLoop => ?_⟩
      · rw [bind_exec, bind_exec, h.agrees rfl env routine hLoop]
        cases hRun : mended.exec env routine with
        | mk result middle =>
            cases result with
            | error failure => rfl
            | ok value =>
                exact (hNext value ⟨env, routine, middle, hRun⟩).agrees hNone env middle hLoop
      · rw [bind_exec, bind_exec, h.agrees rfl env routine hLoop]
        cases hRun : mended.exec env routine with
        | mk result middle =>
            cases result with
            | error failure => exact ⟨failure, middle, rfl, .inr ⟨middle, rfl⟩⟩
            | ok value =>
                exact (hNext value ⟨env, routine, middle, hRun⟩).stops stray rest hStray env middle
                  hLoop

theorem bind {next next' : α → RoutineM β} (h : Meets found action mended)
    (hNext : ∀ value, Meets others (next value) (next' value)) :
    Meets (found ++ others) (action >>= next) (mended >>= next') :=
  h.bind_of_gives fun value _ => hNext value

/-- What comes before is the same. -/
theorem after {next next' : α → RoutineM β} (hNext : ∀ value,
    Meets found (next value) (next' value)) : Meets found (action >>= next) (action >>= next') :=
  (same action).bind hNext

/-- What comes after is the same. -/
theorem before {next : α → RoutineM β} (h : Meets found action mended) :
    Meets found (action >>= next) (mended >>= next) := by
  have hBoth := h.bind fun value => same (next value)
  rwa [List.append_nil] at hBoth

theorem map {f : α → β} (h : Meets found action mended) :
    Meets found (f <$> action) (f <$> mended) := by
  rw [map_eq_pure_bind, map_eq_pure_bind]
  exact h.before

theorem inScope (h : Meets found action mended) :
    Meets found (RoutineM.inScope action) (RoutineM.inScope mended) := by
  refine ⟨fun hNone env routine hLoop => ?_, fun stray rest hStray env routine hLoop => ?_⟩
  · rw [inScope_exec, inScope_exec, h.agrees hNone env _ hLoop]
  · obtain ⟨failure, after, hRun, hFailure⟩ := h.stops stray rest hStray env
      { routine with scopes := [] :: routine.scopes } hLoop
    refine ⟨failure, _, by rw [inScope_exec, hRun], hFailure.imp_right ?_⟩
    rintro ⟨after', hMended⟩
    exact ⟨_, by rw [inScope_exec, hMended]⟩

theorem capture (h : Meets found action mended) :
    Meets found (RoutineM.capture action) (RoutineM.capture mended) := by
  refine ⟨fun hNone env routine hLoop => ?_, fun stray rest hStray env routine hLoop => ?_⟩
  · rw [capture_exec, capture_exec, h.agrees hNone env _ hLoop]
  · obtain ⟨failure, after, hRun, hFailure⟩ := h.stops stray rest hStray env
      { routine with body := #[] } hLoop
    refine ⟨failure, _, by rw [capture_exec, hRun], hFailure.imp_right ?_⟩
    rintro ⟨after', hMended⟩
    exact ⟨_, by rw [capture_exec, hMended]⟩

theorem block {action mended : RoutineM Unit} (h : Meets found action mended) :
    Meets found (StmtRule.block action) (StmtRule.block mended) :=
  h.inScope.capture.before

/-! ## Statements of all forms -/

/-- A jump that no loop is around, in whatever is compiled instead. -/
theorem jump (kind : JumpKind) (span : Span) (mended : RoutineM Unit) :
    Meets [(kind, span)] (StmtRule.jump kind span) mended := by
  refine ⟨nofun, fun stray rest hStray env routine hLoop => ⟨_, routine, ?_, .inl rfl⟩⟩
  obtain rfl : (kind, span) = stray := (List.cons.inj hStray).1
  unfold StmtRule.jump
  rw [bind_exec, read_exec]
  dsimp only
  rw [hLoop]
  cases kind <;> rfl

theorem loop (cond : Option Operand) (body : RoutineM Unit)
    (h : Meets found (post.getD (pure ())) (post'.getD (pure ()))) :
    Meets found (StmtRule.loop cond post body) (StmtRule.loop cond post' body) :=
  .after fun _ => .after fun _ => .after fun _ => h.capture.before

theorem forLoop {init init' : Option (RoutineM Unit)} (cond : Option Operand)
    (body : RoutineM Unit) (hInit : Meets found (init.getD (pure ())) (init'.getD (pure ())))
    (hPost : Meets others (post.getD (pure ())) (post'.getD (pure ()))) :
    Meets (found ++ others) (StmtRule.forLoop init cond post body)
      (StmtRule.forLoop init' cond post' body) :=
  .inScope (hInit.bind fun _ => .loop cond body hPost)

theorem ifElse (cond : Operand) {thenBody thenBody' : RoutineM Unit}
    {elseBody elseBody' : Option (RoutineM Unit)} (hThen : Meets found thenBody thenBody')
    (hElse : Meets others (StmtRule.optBlock elseBody) (StmtRule.optBlock elseBody')) :
    Meets (found ++ others) (StmtRule.ifElse cond thenBody elseBody)
      (StmtRule.ifElse cond thenBody' elseBody') :=
  .after fun _ => hThen.block.bind fun _ => hElse.before

theorem switch (subject : Option Operand) {arms arms' : List (List Operand × RoutineM Unit)}
    {fallback fallback' : Option (RoutineM Unit)}
    (hTests : StmtRule.switchTests arms = StmtRule.switchTests arms')
    (hArms : ∀ tests, tests.length = arms.length →
      Meets found (StmtRule.switchArms tests arms) (StmtRule.switchArms tests arms'))
    (hFallback : Meets others (StmtRule.optBlock fallback) (StmtRule.optBlock fallback')) :
    Meets (found ++ others) (StmtRule.switch subject arms fallback)
      (StmtRule.switch subject arms' fallback') := by
  have hRest (c : CExpr) : Meets (found ++ others) (do
      let tests ← StmtRule.switchTests arms
      let arms ← StmtRule.switchArms tests arms
      let fallback ← StmtRule.optBlock fallback
      emit (.switch c arms (fallback.getD []))) (do
      let tests ← StmtRule.switchTests arms'
      let arms ← StmtRule.switchArms tests arms'
      let fallback ← StmtRule.optBlock fallback'
      emit (.switch c arms (fallback.getD []))) := by
    rw [← hTests]
    exact (same _).bind_of_gives fun tests hGives =>
      (hArms tests (StmtRule.switchTests_length_of_gives hGives)).bind fun _ => hFallback.before
  unfold StmtRule.switch
  split
  · exact .after fun _ => .after fun _ => hRest _
  · exact .after fun _ => hRest _

end Meets

theorem switchTests_mended (cases : List (SwitchCase Stmt)) :
    StmtRule.switchTests (compileCases cases) =
      StmtRule.switchTests (compileCases (caseMended cases)) := by
  induction cases with
  | nil => rfl
  | cons case rest ih =>
      obtain ⟨tests, body, span⟩ := case
      simp only [compileCases, compileCase, caseMended, StmtRule.switchTests, ih]

mutual

/-- A statement is compiled like the mended one up to its first stray jump. -/
theorem compileStmt_meets : (stmt : Stmt) →
    Meets (straysOf stmt.outline) (compileStmt stmt) (compileStmt stmt.mended)
  | .assign _ _ _ _ => .same _
  | .var _ _ _ => .same _
  | .ret _ _ => .same _
  | .breakLoop span _ => by
      rw [compileStmt]
      exact .jump .leave span _
  | .continueLoop span _ => by
      rw [compileStmt]
      exact .jump .again span _
  | .whileLoop _ _ _ => .same _
  | .forLoop _ init cond post body => by
      rw [Stmt.mended, compileStmt, compileStmt, Stmt.outline, straysOf_append, straysOf, strays,
        straysOf, List.append_nil]
      exact .forLoop _ _ (compileOptStmt_meets init) (compileOptStmt_meets post)
  | .rangeLoop _ _ _ _ _ => .same _
  | .ifElse _ cond thenBody elseBody => by
      rw [Stmt.mended, compileStmt, compileStmt, Stmt.outline, straysOf_append]
      exact .ifElse _ (compileStmts_meets thenBody) (compileOptStmts_meets elseBody)
  | .switch _ subject cases fallback => by
      rw [Stmt.mended, compileStmt, compileStmt, Stmt.outline, straysOf_append]
      exact .switch _ (switchTests_mended cases) (compileCases_meets cases)
        (compileOptStmts_meets fallback)
  | .block _ body => by
      rw [Stmt.mended, compileStmt, compileStmt, Stmt.outline]
      exact (compileStmts_meets body).block.before

theorem compileStmts_meets : (body : List Stmt) →
    Meets (straysOf (outlinesOf body)) (compileStmts body) (compileStmts (mendedOf body))
  | [] => .same _
  | stmt :: rest => by
      rw [mendedOf, compileStmts, compileStmts, outlinesOf, straysOf_append]
      exact (compileStmt_meets stmt).bind fun _ => compileStmts_meets rest

theorem compileOptStmt_meets : (stmt : Option Stmt) →
    Meets (straysOf (optOutline stmt)) ((compileOptStmt stmt).getD (pure ()))
      ((compileOptStmt (optMended stmt)).getD (pure ()))
  | none => .same _
  | some stmt => by
      rw [optMended, compileOptStmt, compileOptStmt, optOutline]
      exact compileStmt_meets stmt

theorem compileOptStmts_meets : (body : Option (List Stmt)) →
    Meets (straysOf (optOutlinesOf body)) (StmtRule.optBlock (compileOptStmts body))
      (StmtRule.optBlock (compileOptStmts (optMendedOf body)))
  | none => .same _
  | some body => by
      rw [optMendedOf, compileOptStmts, compileOptStmts, optOutlinesOf]
      exact (compileStmts_meets body).block.map

theorem compileCases_meets : (cases : List (SwitchCase Stmt)) → ∀ tests : List (List CExpr),
    tests.length = (compileCases cases).length →
    Meets (straysOf (caseOutlines cases)) (StmtRule.switchArms tests (compileCases cases))
      (StmtRule.switchArms tests (compileCases (caseMended cases)))
  | [], _, _ => .same _
  | ⟨_, body, _⟩ :: rest, [], h => by simp [compileCases] at h
  | ⟨_, body, _⟩ :: rest, first :: tests, h => by
      simp only [compileCases, compileCase, List.length_cons, Nat.add_right_cancel_iff] at h
      simp only [caseMended, compileCases, compileCase, caseOutlines, straysOf_append,
        StmtRule.switchArms]
      exact (compileStmts_meets body).block.bind fun _ => (compileCases_meets rest tests h).before

end

/-- The body of a function is compiled like the mended one up to its first stray jump. -/
theorem compileBody_meets (func : FuncType Ty) (body : List Stmt) (span : Span) :
    Meets (strayJumps body) (compileBody func body span)
      (compileBody func (mendedOf body) span) := by
  refine .after fun result => ?_
  have hInner := (compileStmts_meets body).inScope
  exact ⟨fun hNone env routine hLoop => hInner.agrees hNone
      { env with func := some func, namedResult := result } routine hLoop,
    fun stray rest hStray env routine hLoop => hInner.stops stray rest hStray
      { env with func := some func, namedResult := result } routine hLoop⟩

/-- A body that is compiled has no stray jumps. -/
theorem strayJumps_of_compileBody {func : FuncType Ty} {body : List Stmt} {span : Span} {env : Env}
    {routine after : Routine} (hLoop : env.loop = none)
    (hRun : (compileBody func body span).exec env routine = (.ok (), after)) :
    strayJumps body = [] := by
  cases hStrays : strayJumps body with
  | nil => rfl
  | cons stray rest =>
      obtain ⟨failure, middle, hFailed, -⟩ :=
        (compileBody_meets func body span).stops stray rest hStrays env routine hLoop
      rw [hRun] at hFailed
      cases hFailed

end GoToC
