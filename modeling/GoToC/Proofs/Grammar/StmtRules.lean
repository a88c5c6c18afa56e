import GoToC.Proofs.Grammar.ExprRules

/-!
# Statements are well formed

The rules for blocks and statements give well-formed trees and do not run out of steps.
-/

namespace GoToC.Grammar

variable {enough : Prop} {word : String → Prop} {c : Cursor}

/-- A statement was read, and with it at least one token. -/
abbrev StmtRead (word : String → Prop) (c : Cursor) (stmt : Stmt) (c' : Cursor) : Prop :=
  c'.left < c.left ∧ stmt.Formed word

/-- A statement was read whose span is not known yet. -/
abbrev OpenStmtRead (word : String → Prop) (c : Cursor) (make : Span → Stmt) (c' : Cursor) : Prop :=
  c'.left < c.left ∧ ∀ whole, (make whole).Formed word

/-- The clauses of a loop were read behind the first one. -/
abbrev ClausesRead (word : String → Prop) (init : Option Stmt) (c : Cursor) (make : Span → Stmt)
    (c' : Cursor) : Prop :=
  c'.left < c.left ∧ ∀ whole, OptStmtFormed word init → (make whole).Formed word

/-- Statements were read, and with them at least one token. -/
abbrev BodyRead (word : String → Prop) (c : Cursor) (body : List Stmt) (c' : Cursor) : Prop :=
  c'.left < c.left ∧ StmtsFormed word body

/-- What is known of the arms that were read behind a default. -/
abbrev ArmsFormed (word : String → Prop) (fallback : Option (List Stmt)) (arms : Arms) : Prop :=
  OptStmtsFormed word fallback → CasesFormed word arms.cases ∧ OptStmtsFormed word arms.fallback

theorem parseLabel_reads : Reads enough word c parseLabel fun _ c' => c'.left ≤ c.left := by
  refine .kind_bind ?_
  split
  · next hKind => exact (Reads.advance hKind rfl).bind fun _ _ h => .pure (Nat.le_of_lt h)
  · exact .pure (Nat.le_refl _)

theorem isReadable_of_assignOp? {kind : TokenKind} {op : AssignOp} (h : assignOp? kind = some op) :
    kind.isReadable = true := by
  cases kind with
  | error cause => cases h
  | eof => cases h
  | _ => rfl

theorem isReadable_of_stepOp? {kind : TokenKind} {op : AssignOp} (h : stepOp? kind = some op) :
    kind.isReadable = true := by
  cases kind with
  | error cause => cases h
  | eof => cases h
  | _ => rfl

theorem parseSimple_reads (fuel : Nat) (c : Cursor) :
    Reads (16 * c.left + 6 ≤ fuel) word c (parseSimple fuel) fun simple c' =>
      c'.left < c.left ∧ ExprsFormed word simple.targets ∧ ExprsFormed word simple.values := by
  refine (parseExprs_reads fuel c).bind fun exprs c1 h1 => .kind_bind ?_
  have hNone : ExprsFormed word [] := by simp [ExprsFormed]
  split
  · next op hOp =>
      refine (Reads.advance rfl (isReadable_of_assignOp? hOp)).bind fun _ c2 h2 => ?_
      exact ((parseExprs_reads fuel c2).given (by omega)).bind fun values c3 h3 =>
        .pure ⟨by omega, h1.2, h3.2⟩
  · next op hNot hOp =>
      exact (Reads.advance rfl (isReadable_of_stepOp? hOp)).bind fun _ c2 h2 =>
        .pure ⟨by omega, h1.2, hNone⟩
  · exact .pure ⟨h1.1, hNone, h1.2⟩

theorem Simple.condition_formed {simple : Simple} {cond : Expr}
    (h : ExprsFormed word simple.values) (hCond : simple.condition? = some cond) :
    cond.Formed word := by
  unfold Simple.condition? at hCond
  split at hCond
  · next e _ hValues =>
      cases hCond
      rw [hValues, ExprsFormed] at h
      exact h.1
  · cases hCond

theorem parseRangeNames_reads :
    Reads enough word c parseRangeNames fun names c' => c'.left ≤ c.left ∧
      (∀ name ∈ names.1, word name) ∧ (∀ name ∈ names.2, word name) := by
  refine .check_bind ?_
  split
  · exact .pure ⟨Nat.le_refl _, by simp, by simp⟩
  · refine Reads.expectIdent.bind fun key c1 h1 => (Reads.eatSign .comma).bind fun eaten c2 h2 => ?_
    split
    · refine Reads.expectIdent.bind fun value c3 h3 => ?_
      refine (Reads.expectSign .colonEq).bind fun _ c4 h4 => .pure ⟨by omega, ?_, ?_⟩
      · simpa using h1.2
      · simpa using h3.2
    · refine (Reads.expectSign .colonEq).bind fun _ c3 h3 => .pure ⟨by omega, ?_, by simp⟩
      simpa using h1.2

/-- The span of a statement ends where the last token that was read ends. -/
theorem finish_reads {start : Span} {make : Span → Stmt} {good : Stmt → Cursor → Prop}
    (h : ∀ whole, good (make whole) c) :
    Reads enough word c ((do return start.merge (← previousSpan)) >>= fun whole =>
      pure (make whole)) good := by
  have hSpan : Reads enough word c (do return start.merge (← previousSpan)) fun _ c' => c' = c :=
    .previousSpan_bind fun _ => .pure rfl
  exact hSpan.bind fun whole c' hSame => .pure (hSame ▸ h whole)

/-! ## Rounds -/

section

variable {fuel : Nat}

theorem stmtsRound_reads {ends : List TokenKind}
    (hStmt : ∀ c, Reads (16 * c.left + 7 ≤ fuel) word c (parseStmt fuel) (StmtRead word c)) :
    Reads (16 * c.left + 7 ≤ fuel) word c (stmtsRound fuel ends)
      (RoundRead (fun _ => StmtsFormed word) () c) := by
  refine Reads.skipTerminators.bind fun _ c1 h1 => .kind_bind ?_
  split
  · exact .pure ⟨h1, by simp [StmtsFormed]⟩
  · refine .stopIf .unexpected fun _ => ?_
    refine ((hStmt c1).given (by omega)).bind fun first c2 h2 => ?_
    refine Reads.expectTerminator.bind fun _ c3 h3 => .pure ⟨by omega, fun others hOthers => ?_⟩
    show StmtsFormed word (_ :: others)
    rw [StmtsFormed]
    exact ⟨h2.2, hOthers⟩

theorem armsRound_reads {fallback : Option (List Stmt)}
    (hStmts : ∀ c, Reads (16 * c.left + 8 ≤ fuel) word c (parseStmts fuel armEnds)
      (LoopRead (fun _ => StmtsFormed word) () c)) :
    Reads (16 * c.left ≤ fuel) word c (armsRound fuel fallback)
      (RoundRead (ArmsFormed word) fallback c) := by
  refine Reads.skipTerminators.bind fun _ c1 h1 => .kind_bind ?_
  split
  · exact .pure ⟨h1, fun hFallback => ⟨by simp [CasesFormed], hFallback⟩⟩
  · refine (Reads.expectWord .case).bind fun start c2 h2 => ?_
    refine ((parseExprs_reads fuel c2).given (by omega)).bind fun tests c3 h3 => ?_
    refine (Reads.expectSign .colon).bind fun _ c4 h4 => ?_
    refine ((hStmts c4).given (by omega)).bind fun body c5 h5 => .previousSpan_bind fun stop => ?_
    refine .pure ⟨by omega, fun others hOthers hFallback => ⟨?_, (hOthers hFallback).2⟩⟩
    rw [CasesFormed]
    exact ⟨⟨h3.2, h5.2⟩, (hOthers hFallback).1⟩
  · next hKind =>
      refine (Reads.advance hKind rfl).bind fun _ c2 h2 => ?_
      refine (Reads.expectSign .colon).bind fun _ c3 h3 => ?_
      refine ((hStmts c3).given (by omega)).bind fun body c4 h4 => ?_
      refine .pure ⟨by omega, fun others hOthers _ => hOthers ?_⟩
      rw [OptStmtsFormed]
      exact h4.2
  · exact .unexpected

end

/-! ## Rules -/

mutual

theorem parseBlock_reads : (fuel : Nat) → (c : Cursor) →
    Reads (16 * c.left + 1 ≤ fuel) word c (parseBlock fuel) (BodyRead word c)
  | 0, _ => .exhausted (by omega)
  | fuel + 1, c => by
      rw [parseBlock]
      refine (Reads.expectSign .lbrace).bind fun _ c1 h1 => ?_
      refine ((parseStmts_reads fuel _ c1).given (by omega)).bind fun body c2 h2 => ?_
      exact (Reads.expectSign .rbrace).bind fun _ c3 h3 => .pure ⟨by omega, h2.2⟩

theorem parseStmts_reads : (fuel : Nat) → (ends : List TokenKind) → (c : Cursor) →
    Reads (16 * c.left + 8 ≤ fuel) word c (parseStmts fuel ends)
      (LoopRead (fun _ => StmtsFormed word) () c)
  | 0, _, _ => .exhausted (by omega)
  | fuel + 1, ends, c => by
      rw [parseStmts_eq]
      exact .rounds ((stmtsRound_reads (parseStmt_reads fuel)).given (by omega)) fun _ c' _ =>
        (parseStmts_reads fuel ends c').given (by omega)

theorem parseStmt_reads : (fuel : Nat) → (c : Cursor) →
    Reads (16 * c.left + 7 ≤ fuel) word c (parseStmt fuel) (StmtRead word c)
  | 0, _ => .exhausted (by omega)
  | fuel + 1, c => by
      rw [parseStmt]
      refine .span_bind fun start => .kind_bind ?_
      split
      · exact (parseIf_reads fuel c).given (by omega)
      · exact ((parseFor_reads fuel c).given (by omega)).bind fun make c1 h1 =>
          finish_reads fun whole => ⟨h1.1, h1.2 whole⟩
      · exact ((parseSwitch_reads fuel c).given (by omega)).bind fun make c1 h1 =>
          finish_reads fun whole => ⟨h1.1, h1.2 whole⟩
      · next hKind =>
          refine (Reads.advance hKind rfl).bind fun _ c1 h1 => .kind_bind ?_
          split
          · rw [pure_bind]
            exact finish_reads fun whole => ⟨h1, by simp [Stmt.Formed, ExprsFormed]⟩
          · refine ((parseExprs_reads fuel c1).given (by omega)).bind fun values c2 h2 =>
              finish_reads fun whole => ⟨by omega, ?_⟩
            rw [Stmt.Formed]
            exact h2.2
      · next hKind =>
          refine (Reads.advance hKind rfl).bind fun _ c1 h1 => ?_
          exact parseLabel_reads.bind fun label c2 h2 => finish_reads fun whole =>
            ⟨by omega, by simp [Stmt.Formed]⟩
      · next hKind =>
          refine (Reads.advance hKind rfl).bind fun _ c1 h1 => ?_
          exact parseLabel_reads.bind fun label c2 h2 => finish_reads fun whole =>
            ⟨by omega, by simp [Stmt.Formed]⟩
      · next hKind =>
          refine (Reads.advance hKind rfl).bind fun _ c1 h1 => ?_
          refine Reads.expectIdent.bind fun name c2 h2 => ?_
          refine ((parseType_reads fuel c2).given (by omega)).bind fun type c3 h3 => ?_
          refine finish_reads fun whole => ⟨by omega, ?_⟩
          rw [Stmt.Formed]
          exact ⟨h2.2, h3.2⟩
      · refine ((parseBlock_reads fuel c).given (by omega)).bind fun body c1 h1 =>
          finish_reads fun whole => ⟨h1.1, ?_⟩
        rw [Stmt.Formed]
        exact h1.2
      · refine ((parseSimple_reads fuel c).given (by omega)).bind fun simple c1 h1 =>
          finish_reads fun whole => ⟨h1.1, ?_⟩
        rw [Simple.toStmt, Stmt.Formed]
        exact h1.2

theorem parseIf_reads : (fuel : Nat) → (c : Cursor) →
    Reads (16 * c.left + 1 ≤ fuel) word c (parseIf fuel) (StmtRead word c)
  | 0, _ => .exhausted (by omega)
  | fuel + 1, c => by
      rw [parseIf]
      refine (Reads.expectWord .if).bind fun start c1 h1 => ?_
      refine ((parseExpr_reads fuel c1).given (by omega)).bind fun cond c2 h2 => ?_
      refine ((parseBlock_reads fuel c2).given (by omega)).bind fun thenBody c3 h3 => ?_
      refine ((parseElse_reads fuel c3).given (by omega)).bind fun elseBody c4 h4 => ?_
      refine .previousSpan_bind fun stop => .pure ⟨by omega, ?_⟩
      rw [Stmt.Formed]
      exact ⟨h2.2, h3.2, h4.2⟩

theorem parseElse_reads : (fuel : Nat) → (c : Cursor) →
    Reads (16 * c.left + 1 ≤ fuel) word c (parseElse fuel) fun body c' =>
      c'.left ≤ c.left ∧ OptStmtsFormed word body
  | 0, _ => .exhausted (by omega)
  | fuel + 1, c => by
      rw [parseElse]
      refine .check_bind ?_
      split
      · next hCheck =>
          have hKind : c.kind = .keyword .else := by simpa [Cursor.check] using hCheck
          refine (Reads.advance hKind rfl).bind fun _ c1 h1 => .check_bind ?_
          split
          · refine ((parseIf_reads fuel c1).given (by omega)).bind fun nested c2 h2 => ?_
            refine .pure ⟨by omega, ?_⟩
            rw [OptStmtsFormed, StmtsFormed, StmtsFormed]
            exact ⟨h2.2, trivial⟩
          · refine ((parseBlock_reads fuel c1).given (by omega)).bind fun body c2 h2 =>
              .pure ⟨by omega, ?_⟩
            rw [OptStmtsFormed]
            exact h2.2
      · exact .pure ⟨Nat.le_refl _, by simp [OptStmtsFormed]⟩

theorem parseFor_reads : (fuel : Nat) → (c : Cursor) →
    Reads (16 * c.left + 1 ≤ fuel) word c (parseFor fuel) (OpenStmtRead word c)
  | 0, _ => .exhausted (by omega)
  | fuel + 1, c => by
      rw [parseFor]
      refine (Reads.expectWord .for).bind fun _ c1 h1 => .cursor_bind ?_
      split
      · refine parseRangeNames_reads.bind fun names c2 h2 => ?_
        refine (Reads.expectWord .range).bind fun _ c3 h3 => ?_
        refine ((parseExpr_reads fuel c3).given (by omega)).bind fun collection c4 h4 => ?_
        refine ((parseBlock_reads fuel c4).given (by omega)).bind fun body c5 h5 =>
          .pure ⟨by omega, fun whole => ?_⟩
        rw [Stmt.Formed]
        exact ⟨h2.2.1, h2.2.2, h4.2, h5.2⟩
      · refine .checkSign_bind fun endless => ?_
        split
        · refine ((parseBlock_reads fuel c1).given (by omega)).bind fun body c2 h2 =>
            .pure ⟨by omega, fun whole => ?_⟩
          rw [Stmt.Formed]
          exact ⟨by simp [OptExprFormed], h2.2⟩
        · refine .checkSign_bind fun bare => ?_
          split
          · refine ((parseForClauses_reads fuel none c1).given (by omega)).mono fun make c2 h2 => ?_
            exact ⟨by omega, fun whole => h2.2 whole (by simp [OptStmtFormed])⟩
          · refine .span_bind fun start => ?_
            refine ((parseSimple_reads fuel c1).given (by omega)).bind fun simple c2 h2 =>
              .checkSign_bind fun body => ?_
            split
            · split
              · exact .unexpected
              · next cond hCond =>
                  refine ((parseBlock_reads fuel c2).given (by omega)).bind fun body c3 h3 =>
                    .pure ⟨by omega, fun whole => ?_⟩
                  rw [Stmt.Formed, OptExprFormed]
                  exact ⟨Simple.condition_formed h2.2.2 hCond, h3.2⟩
            · refine .previousSpan_bind fun stop => ?_
              have hInit : OptStmtFormed word (some (simple.toStmt (start.merge stop))) := by
                rw [OptStmtFormed, Simple.toStmt, Stmt.Formed]
                exact h2.2
              refine ((parseForClauses_reads fuel _ c2).given (by omega)).mono fun make c3 h3 => ?_
              exact ⟨by omega, fun whole => h3.2 whole hInit⟩

theorem parseForClauses_reads : (fuel : Nat) → (init : Option Stmt) → (c : Cursor) →
    Reads (16 * c.left + 1 ≤ fuel) word c (parseForClauses fuel init) (ClausesRead word init c)
  | 0, _, _ => .exhausted (by omega)
  | fuel + 1, init, c => by
      rw [parseForClauses]
      refine (Reads.expectSign .semicolon).bind fun _ c1 h1 => .checkSign_bind fun bare => ?_
      refine optional_bind bare ((parseExpr_reads fuel c1).given (by omega))
        fun cond c2 h2 hCond => ?_
      refine (Reads.expectSign .semicolon).bind fun _ c3 h3 => .checkSign_bind fun last => ?_
      have hBody (post : Option Stmt) (c4 : Cursor) (h4 : c4.left ≤ c3.left)
          (hPost : OptStmtFormed word post) :
          Reads (16 * c.left + 1 ≤ fuel + 1) word c4 (do
            let body ← parseBlock fuel
            return fun whole => .forLoop whole init cond post body) (ClausesRead word init c) := by
        refine ((parseBlock_reads fuel c4).given (by omega)).bind fun body c5 h5 =>
          .pure ⟨by omega, fun whole hInit => ?_⟩
        rw [Stmt.Formed]
        exact ⟨hInit, hCond, hPost, h5.2⟩
      dsimp only
      split
      · exact hBody none c3 (Nat.le_refl _) (by simp [OptStmtFormed])
      · refine .span_bind fun start => ?_
        refine ((parseSimple_reads fuel c3).given (by omega)).bind fun simple c4 h4 =>
          .previousSpan_bind fun stop => ?_
        refine hBody _ c4 (by omega) ?_
        rw [OptStmtFormed, Simple.toStmt, Stmt.Formed]
        exact h4.2

theorem parseSwitch_reads : (fuel : Nat) → (c : Cursor) →
    Reads (16 * c.left + 1 ≤ fuel) word c (parseSwitch fuel) (OpenStmtRead word c)
  | 0, _ => .exhausted (by omega)
  | fuel + 1, c => by
      rw [parseSwitch]
      refine (Reads.expectWord .switch).bind fun _ c1 h1 => .checkSign_bind fun bare => ?_
      refine optional_bind bare ((parseExpr_reads fuel c1).given (by omega))
        fun subject c2 h2 hSubject => ?_
      refine (Reads.expectSign .lbrace).bind fun _ c3 h3 => ?_
      refine ((parseArms_reads fuel none c3).given (by omega)).bind fun arms c4 h4 => ?_
      refine (Reads.expectSign .rbrace).bind fun _ c5 h5 => .pure ⟨by omega, fun whole => ?_⟩
      rw [Stmt.Formed]
      exact ⟨hSubject, h4.2 (by simp [OptStmtsFormed])⟩

theorem parseArms_reads : (fuel : Nat) → (fallback : Option (List Stmt)) → (c : Cursor) →
    Reads (16 * c.left + 1 ≤ fuel) word c (parseArms fuel fallback)
      (LoopRead (ArmsFormed word) fallback c)
  | 0, _, _ => .exhausted (by omega)
  | fuel + 1, fallback, c => by
      rw [parseArms_eq]
      exact .rounds ((armsRound_reads (parseStmts_reads fuel armEnds)).given (by omega))
        fun fallback c' _ => (parseArms_reads fuel fallback c').given (by omega)

end

end GoToC.Grammar
