import GoToC.Proofs.Grammar.Spans

/-!
# Spans of statements and declarations

A statement or a declaration starts with the first token that is read of it and ends with the last
one, so its place holds all of its parts, and every node of a file that is read is nested.
-/

namespace GoToC

variable {fits : Span → Prop} {make : Span → Stmt} {kind : TokenKind} {op : AssignOp}
  {file : SourceFile}

namespace Grammar

open Cursor (Clear AtName)
open GoToC.Span (Marks)

variable {tokens : List Token} {c c' : Cursor}

/-! ## Statements -/

/-- A node that runs from the token in front of one cursor to the token behind a later one. -/
theorem lies_of_past {node : SourceNode} (hPast : c.Past tokens c')
    (hStop : c'.previous.Marks tokens) (hSpan : node.span = c.span.merge c'.previous)
    (hChildren : SourceNode.AllLie (Marks tokens) c.span.start c'.previous.stop node.children)
    (hTidy : node.Tidy (Marks tokens)) :
    node.Lies (Marks tokens) c.span.start c'.previous.stop := by
  have hFilled := hStop.filled
  exact SourceNode.lies_of_merge hSpan (hPast.1.merge hStop) (by omega) hChildren hTidy

/-- A statement that wants nothing but its span. -/
structure OpenLies (tokens : List Token) (lo hi : Nat) (make : Span → Stmt) : Prop where
  span : ∀ whole, (make whole).span = whole
  children : ∀ whole, SourceNode.AllLie (Marks tokens) lo hi (make whole).children

/-- A statement ends with the token that was read last. -/
theorem OpenLies.finish (h : OpenLies tokens c.span.start c'.previous.stop make)
    (hPast : c.Past tokens c') (hStop : c'.previous.Marks tokens) :
    (SourceNode.stmt (make (c.span.merge c'.previous))).Lies (Marks tokens) c.span.start
      c'.previous.stop :=
  lies_of_past hPast hStop (h.span _) (h.children _) trivial

theorem finish_travels (h : OpenLies tokens c.span.start c'.previous.stop make)
    (hPast : c.Past tokens c') :
    Travels tokens c'
      ((do return c.span.merge (← previousSpan)) >>= fun whole => pure (make whole))
      fun stmt c'' => (SourceNode.stmt stmt).Lies (Marks tokens) c.span.start
        c''.previous.stop := by
  rw [bind_assoc]
  exact .previousSpan_bind (by omega) fun hStop => .pure (h.finish hPast hStop)

/-- A simple statement whose expressions are nested between two offsets. -/
abbrev Simple.Lies (tokens : List Token) (lo hi : Nat) (simple : Simple) : Prop :=
  Expr.AllLie (Marks tokens) lo hi (simple.targets ++ simple.values)

namespace Simple.Lies

variable {lo hi : Nat} {simple : Simple}

theorem toStmt (h : simple.Lies tokens lo hi) : OpenLies tokens lo hi simple.toStmt :=
  ⟨fun _ => rfl, fun _ => h⟩

theorem condition (h : simple.Lies tokens lo hi) {cond : Expr}
    (hCond : simple.condition? = some cond) : cond.Lies (Marks tokens) lo hi := by
  unfold Simple.condition? at hCond
  split at hCond
  · next e _ hValues =>
      cases hCond
      refine h (.expr cond) (List.mem_map_of_mem (List.mem_append_right _ ?_))
      rw [hValues]
      exact List.mem_cons_self
  · cases hCond

end Simple.Lies

theorem wantsName_of_assignOp? (h : assignOp? kind = some op) : kind.wantsName = false := by
  cases kind with
  | keyword word => cases h
  | punct sign => cases sign <;> first | rfl | cases h
  | _ => rfl

theorem wantsName_of_stepOp? (h : stepOp? kind = some op) : kind.wantsName = false := by
  cases kind with
  | keyword word => cases h
  | punct sign => cases sign <;> first | rfl | cases h
  | _ => rfl

theorem parseSimple_travels (fuel : Nat) (c : Cursor) :
    Travels tokens c (parseSimple fuel) fun simple c' =>
      c.Past tokens c' ∧ simple.Lies tokens c.span.start c'.previous.stop := by
  refine Goes.and_past ?_ (parseSimple_advances fuel c)
  apply (parseExprs_travels fuel c).bind
  intro exprs c1 h1 hExprs
  apply Goes.kind_bind
  split
  · next op _ hOp =>
      apply (Goes.advance rfl (isReadable_of_assignOp? hOp) (wantsName_of_assignOp? hOp)).bind
      rintro _ c2 h2 -
      apply (parseExprs_travels fuel c2).bind
      intro values c3 h3 hValues
      exact .pure (.append (hExprs.mono (Nat.le_refl _) (by omega))
        (hValues.mono (by omega) (Nat.le_refl _)))
  · next op _ hOp =>
      apply (Goes.advance rfl (isReadable_of_stepOp? hOp) (wantsName_of_stepOp? hOp)).bind
      rintro _ c2 h2 -
      exact .pure (.append (hExprs.mono (Nat.le_refl _) (by omega)) .nil)
  · exact .pure hExprs

theorem parseLabel_travels : Travels tokens c parseLabel fun _ _ => True := by
  apply Goes.kind_bind
  split
  · next name hKind => exact (Goes.advance hKind rfl rfl).bind fun _ _ _ _ => .pure trivial
  · exact .pure trivial

/-- The names of a range clause are there where one comes next. -/
theorem parseRangeNames_travels (hRange : atRange c = true) :
    Travels tokens c parseRangeNames fun _ _ => True := by
  apply Goes.check_bind
  split
  · exact .pure trivial
  · next hNames =>
      have hSound : c.kind.isError = false := by
        have hPeek : c.peek 0 = c.kind := rfl
        have hOther : (c.kind == .keyword .range) = false := Bool.eq_false_iff.mpr hNames
        cases hKind : c.kind with
        | error fault => simp [atRange, hPeek, hKind, TokenKind.isIdent] at hRange
        | _ => rfl
      apply (Goes.expectIdent.given fun _ => .inl hSound).bind
      rintro key c1 - -
      have hDefine (value : Option String) (c2 : Cursor) : Travels tokens c2 (do
          let _ ← expectSign .colonEq
          return (some key.1, value)) fun _ _ => True :=
        (Goes.expectSign .colonEq rfl).bind fun _ _ _ _ => .pure trivial
      apply Goes.eatSign_bind
      · intro c2 _
        apply (Goes.expectIdent.given fun h => Cursor.atName_of_behind h rfl).bind
        exact fun value c3 _ _ => hDefine _ c3
      · exact hDefine none c1

mutual

theorem parseBlock_travels : (fuel : Nat) → (c : Cursor) →
    Travels tokens c (parseBlock fuel) fun body c' =>
      SourceNode.AllLie (Marks tokens) c.span.start c'.previous.stop (body.map .stmt)
  | 0, _ => .exhausted
  | fuel + 1, c => by
      rw [parseBlock]
      apply (Goes.expectSign .lbrace rfl).bind
      intro _ c1 h1 _
      apply (parseStmts_travels fuel _ c1).bind
      intro body c2 h2 hBody
      apply (Goes.expectSign .rbrace rfl).bind
      intro _ c3 h3 _
      exact .pure (hBody.mono (by omega) (by omega))

theorem parseStmts_travels : (fuel : Nat) → (ends : List TokenKind) → (c : Cursor) →
    Travels tokens c (parseStmts fuel ends) fun body c' =>
      SourceNode.AllLie (Marks tokens) c.span.start c'.previous.stop (body.map .stmt)
  | 0, _, _ => .exhausted
  | fuel + 1, ends, c => by
      rw [parseStmts]
      apply Goes.skipTerminators.bind
      intro _ c1 h1 _
      apply Goes.kind_bind
      split
      · exact .pure .nil
      · apply Goes.stopIf
        apply (parseStmt_travels fuel c1).bind
        intro first c2 h2 hFirst
        apply Goes.expectTerminator.bind
        intro _ c3 h3 _
        apply (parseStmts_travels fuel ends c3).bind
        intro others c4 h4 hOthers
        exact .pure (.cons (hFirst.mono (by omega) (by omega))
          (hOthers.mono (by omega) (Nat.le_refl _)))

theorem parseStmt_travels : (fuel : Nat) → (c : Cursor) →
    Travels tokens c (parseStmt fuel) fun stmt c' =>
      (SourceNode.stmt stmt).Lies (Marks tokens) c.span.start c'.previous.stop
  | 0, _ => .exhausted
  | fuel + 1, c => by
      rw [parseStmt]
      apply Goes.span_bind
      apply Goes.kind_bind
      split
      · exact parseIf_travels fuel c
      · apply ((parseFor_travels fuel c).and_past (parseFor_advances fuel c)).bind
        rintro make c1 h1 ⟨hPast, hMake⟩
        exact finish_travels hMake hPast
      · apply ((parseSwitch_travels fuel c).and_past (parseSwitch_advances fuel c)).bind
        rintro make c1 h1 ⟨hPast, hMake⟩
        exact finish_travels hMake hPast
      · next hKind =>
          apply (Goes.advance hKind rfl rfl).bind
          rintro _ c1 h1 ⟨-, hPast⟩
          apply Goes.kind_bind
          split
          · rw [pure_bind]
            exact finish_travels ⟨fun _ => rfl, fun _ => .nil⟩ hPast
          · apply (parseExprs_travels fuel c1).bind
            intro values c2 h2 hValues
            exact finish_travels ⟨fun _ => rfl, fun _ => hValues.mono (by omega) (Nat.le_refl _)⟩
              (hPast.later h2)
      · next hKind =>
          apply (Goes.advance hKind rfl rfl).bind
          rintro _ c1 h1 ⟨-, hPast⟩
          apply parseLabel_travels.bind
          intro label c2 h2 _
          exact finish_travels ⟨fun _ => rfl, fun _ => .nil⟩ (hPast.later h2)
      · next hKind =>
          apply (Goes.advance hKind rfl rfl).bind
          rintro _ c1 h1 ⟨-, hPast⟩
          apply parseLabel_travels.bind
          intro label c2 h2 _
          exact finish_travels ⟨fun _ => rfl, fun _ => .nil⟩ (hPast.later h2)
      · next hKind =>
          apply (Goes.advance_name hKind rfl rfl).bind
          rintro _ c1 h1 ⟨-, hPast⟩
          apply Goes.expectIdent.bind
          intro _ c2 h2 _
          apply (parseType_travels fuel c2).bind
          intro type c3 h3 hType
          refine finish_travels ⟨fun _ => rfl, fun _ => ?_⟩ ((hPast.later h2).later h3)
          exact .single (hType.within (by omega) (by omega))
      · apply ((parseBlock_travels fuel c).and_past (parseBlock_advances fuel c)).bind
        rintro body c1 h1 ⟨hPast, hBody⟩
        exact finish_travels ⟨fun _ => rfl, fun _ => hBody⟩ hPast
      · apply (parseSimple_travels fuel c).bind
        rintro simple c1 h1 ⟨hPast, hSimple⟩
        exact finish_travels hSimple.toStmt hPast

theorem parseIf_travels : (fuel : Nat) → (c : Cursor) →
    Travels tokens c (parseIf fuel) fun stmt c' =>
      (SourceNode.stmt stmt).Lies (Marks tokens) c.span.start c'.previous.stop
  | 0, _ => .exhausted
  | fuel + 1, c => by
      rw [parseIf]
      apply (Goes.expectWord .if rfl).bind
      rintro _ c1 h1 ⟨rfl, hPast⟩
      apply (parseExpr_travels fuel c1).bind
      intro cond c2 h2 hCond
      apply (parseBlock_travels fuel c2).bind
      intro thenBody c3 h3 hThen
      apply (parseElse_travels fuel c3).bind
      intro elseBody c4 h4 hElse
      refine .previousSpan_bind (by omega) fun hStop => .pure ?_
      refine lies_of_past (((hPast.later h2).later h3).later h4) hStop rfl ?_ trivial
      have hBodies : SourceNode.AllLie (Marks tokens) c.span.start c4.previous.stop
          ((thenBody ++ elseBody.getD []).map .stmt) := by
        rw [List.map_append]
        exact .append (hThen.mono (by omega) (by omega)) (hElse.mono (by omega) (Nat.le_refl _))
      exact .cons (hCond.within (by omega) (by omega)) hBodies

theorem parseElse_travels : (fuel : Nat) → (c : Cursor) →
    Travels tokens c (parseElse fuel) fun body c' =>
      SourceNode.AllLie (Marks tokens) c.span.start c'.previous.stop ((body.getD []).map .stmt)
  | 0, _ => .exhausted
  | fuel + 1, c => by
      rw [parseElse]
      apply Goes.check_bind
      split
      · next hCheck =>
          apply (Goes.advance (beq_iff_eq.mp hCheck) rfl rfl).bind
          rintro _ c1 h1 -
          apply Goes.check_bind
          split
          · apply (parseIf_travels fuel c1).bind
            intro nested c2 h2 hNested
            exact .pure (.single (hNested.mono (by omega) (Nat.le_refl _)))
          · apply (parseBlock_travels fuel c1).bind
            intro body c2 h2 hBody
            exact .pure (hBody.mono (by omega) (Nat.le_refl _))
      · exact .pure .nil

theorem parseFor_travels : (fuel : Nat) → (c : Cursor) →
    Travels tokens c (parseFor fuel) fun make c' =>
      OpenLies tokens c.span.start c'.previous.stop make
  | 0, _ => .exhausted
  | fuel + 1, c => by
      rw [parseFor]
      apply (Goes.expectWord .for rfl).bind
      intro _ c1 h1 _
      apply Goes.cursor_bind
      split
      · next hRange =>
        apply (parseRangeNames_travels hRange).bind
        intro names c2 h2 _
        apply (Goes.expectWord .range rfl).bind
        intro _ c3 h3 _
        apply (parseExpr_travels fuel c3).bind
        intro collection c4 h4 hCollection
        apply (parseBlock_travels fuel c4).bind
        intro body c5 h5 hBody
        exact .pure ⟨fun _ => rfl, fun _ => .cons (hCollection.within (by omega) (by omega))
          (hBody.mono (by omega) (Nat.le_refl _))⟩
      · apply Goes.checkSign_bind
        split
        · apply (parseBlock_travels fuel c1).bind
          intro body c2 h2 hBody
          exact .pure ⟨fun _ => rfl, fun _ => hBody.mono (by omega) (Nat.le_refl _)⟩
        · apply Goes.checkSign_bind
          split
          · exact parseForClauses_travels fuel none c1 _ .nil (by omega)
          · apply Goes.span_bind
            apply (parseSimple_travels fuel c1).bind
            rintro simple c2 h2 ⟨hPast, hSimple⟩
            apply Goes.checkSign_bind
            split
            · split
              · exact .unexpected
              · next cond hCond =>
                  have hLies := hSimple.condition hCond
                  apply (parseBlock_travels fuel c2).bind
                  intro body c3 h3 hBody
                  exact .pure ⟨fun _ => rfl, fun _ => .cons (hLies.within (by omega) (by omega))
                    (hBody.mono (by omega) (Nat.le_refl _))⟩
            · refine .previousSpan_bind (by omega) fun hStop => ?_
              have hInit := hSimple.toStmt.finish hPast hStop
              exact parseForClauses_travels fuel _ c2 _
                (.single (hInit.mono (by omega) (Nat.le_refl _))) (by omega)

theorem parseForClauses_travels : (fuel : Nat) → (init : Option Stmt) → (c : Cursor) →
    (lo : Nat) → SourceNode.AllLie (Marks tokens) lo c.previous.stop (init.toList.map .stmt) →
    lo ≤ c.span.start →
    Travels tokens c (parseForClauses fuel init) fun make c' =>
      OpenLies tokens lo c'.previous.stop make
  | 0, _, _, _, _, _ => .exhausted
  | fuel + 1, init, c, lo, hInit, hLo => by
      rw [parseForClauses]
      apply (Goes.expectSign .semicolon rfl).bind
      intro _ c1 h1 _
      apply Goes.checkSign_bind
      apply optional_travels _ (parseExpr_travels fuel c1)
      intro cond c2 h2 hCond
      apply (Goes.expectSign .semicolon rfl).bind
      intro _ c3 h3 _
      apply Goes.checkSign_bind
      have hBody (post : Option Stmt) {c4 : Cursor} (h4 : c3.Onward c4)
          (hPost : SourceNode.AllLie (Marks tokens) lo c4.previous.stop (post.toList.map .stmt)) :
          Travels tokens c4 (do
            let body ← parseBlock fuel
            return fun whole => Stmt.forLoop whole init cond post body) fun make c' =>
              OpenLies tokens lo c'.previous.stop make := by
        apply (parseBlock_travels fuel c4).bind
        intro body c5 h5 hBody
        refine .pure ⟨fun _ => rfl, fun _ => ?_⟩
        rw [Stmt.children, List.map_append, List.map_append]
        exact .append (hCond.mono (by omega) (by omega)) (.append (.append
          (hInit.mono (Nat.le_refl _) (by omega)) (hPost.mono (Nat.le_refl _) (by omega)))
          (hBody.mono (by omega) (Nat.le_refl _)))
      dsimp only
      split
      · exact hBody none (by omega) .nil
      · apply Goes.span_bind
        apply (parseSimple_travels fuel c3).bind
        rintro simple c4 h4 ⟨hPast, hSimple⟩
        refine .previousSpan_bind (by omega) fun hStop => ?_
        have hPost := hSimple.toStmt.finish hPast hStop
        exact hBody _ h4 (.single (hPost.mono (by omega) (Nat.le_refl _)))

theorem parseSwitch_travels : (fuel : Nat) → (c : Cursor) →
    Travels tokens c (parseSwitch fuel) fun make c' =>
      OpenLies tokens c.span.start c'.previous.stop make
  | 0, _ => .exhausted
  | fuel + 1, c => by
      rw [parseSwitch]
      apply (Goes.expectWord .switch rfl).bind
      intro _ c1 h1 _
      apply Goes.checkSign_bind
      apply optional_travels _ (parseExpr_travels fuel c1)
      intro subject c2 h2 hSubject
      apply (Goes.expectSign .lbrace rfl).bind
      intro _ c3 h3 _
      apply (parseArms_travels fuel none c3 _ .nil (Nat.le_refl _)).bind
      intro arms c4 h4 hArms
      apply (Goes.expectSign .rbrace rfl).bind
      intro _ c5 h5 _
      refine .pure ⟨fun _ => rfl, fun _ => ?_⟩
      rw [Stmt.children, List.append_assoc]
      exact .append (hSubject.mono (by omega) (by omega)) (hArms.mono (by omega) (by omega))

/-- The arms lie behind each other, and a default that was read before lies in front of them. -/
theorem parseArms_travels : (fuel : Nat) → (fallback : Option (List Stmt)) → (c : Cursor) →
    (lo : Nat) → SourceNode.AllLie (Marks tokens) lo c.previous.stop
    ((fallback.getD []).map .stmt) →
    lo ≤ c.span.start →
    Travels tokens c (parseArms fuel fallback) fun arms c' =>
      SourceNode.AllLie (Marks tokens) lo c'.previous.stop
      (arms.cases.map .arm ++ (arms.fallback.getD []).map .stmt)
  | 0, _, _, _, _, _ => .exhausted
  | fuel + 1, fallback, c, lo, hFallback, hLo => by
      rw [parseArms]
      apply Goes.skipTerminators.bind
      intro _ c1 h1 _
      apply Goes.kind_bind
      split
      · exact .pure (hFallback.mono (Nat.le_refl _) (by omega))
      · apply (Goes.expectWord .case rfl).bind
        rintro _ c2 h2 ⟨rfl, hPast⟩
        apply (parseExprs_travels fuel c2).bind
        intro tests c3 h3 hTests
        apply (Goes.expectSign .colon rfl).bind
        intro _ c4 h4 _
        apply (parseStmts_travels fuel armEnds c4).bind
        intro body c5 h5 hBody
        refine .previousSpan_bind (by omega) fun hStop => ?_
        have hArm : (SourceNode.arm ⟨tests, body, c1.span.merge c5.previous⟩).Lies (Marks tokens)
            c1.span.start
            c5.previous.stop :=
          lies_of_past (((hPast.later h3).later h4).later h5) hStop rfl
            (.append (hTests.mono (by omega) (by omega)) (hBody.mono (by omega) (Nat.le_refl _)))
            trivial
        apply (parseArms_travels fuel fallback c5 lo
          (hFallback.mono (Nat.le_refl _) (by omega)) (by omega)).bind
        intro others c6 h6 hOthers
        exact .pure (.cons (hArm.mono (by omega) (by omega)) hOthers)
      · next hKind =>
          apply (Goes.advance hKind rfl rfl).bind
          rintro _ c2 h2 -
          apply (Goes.expectSign .colon rfl).bind
          intro _ c3 h3 _
          apply (parseStmts_travels fuel armEnds c3).bind
          intro body c4 h4 hBody
          exact parseArms_travels fuel (some body) c4 lo (hBody.mono (by omega) (Nat.le_refl _))
            (by omega)
      · exact .unexpected

end

/-! ## Declarations -/

theorem parsePackage_travels : Travels tokens c parsePackage fun _ _ => True :=
  (Goes.expectWord_name .package rfl).bind fun _ _ _ _ =>
    Goes.expectIdent.bind fun _ _ _ _ => .pure trivial

theorem parseImportPath_travels : Travels tokens c parseImportPath fun decl c' =>
    (SourceNode.importDecl decl).Lies (Marks tokens) c.span.start c'.previous.stop := by
  apply Goes.kind_bind
  split
  · next hKind =>
      apply (Goes.advance hKind rfl rfl).bind
      rintro token c1 h1 ⟨hSpan, hPast⟩
      have hStart : token.span.start = c.span.start := by rw [hSpan]
      have hStop : token.span.stop = c.span.stop := by rw [hSpan]
      have hMarks : token.span.Marks tokens := hSpan ▸ hPast.1
      have hBetween : token.span.Between c.span.start c1.previous.stop := by omega
      exact .pure (SourceNode.lies_leaf hMarks hBetween rfl trivial)
  · exact .unexpected

theorem parseImportPaths_travels (fuel : Nat) (c : Cursor) :
    Travels tokens c (parseImportPaths fuel) fun decls c' =>
      SourceNode.AllLie (Marks tokens) c.span.start c'.previous.stop (decls.map .importDecl) := by
  induction fuel generalizing c with
  | zero => exact .exhausted
  | succ fuel ih =>
      rw [parseImportPaths]
      apply Goes.skipTerminators.bind
      intro _ c1 h1 _
      apply (Goes.eatSign .rparen rfl).bind
      intro closed c2 h2 _
      split
      · exact .pure .nil
      · apply parseImportPath_travels.bind
        intro first c3 h3 hFirst
        apply (ih c3).bind
        intro others c4 h4 hOthers
        exact .pure (.cons (hFirst.mono (by omega) (by omega))
          (hOthers.mono (by omega) (Nat.le_refl _)))

theorem parseImports_travels (fuel : Nat) (c : Cursor) :
    Travels tokens c (parseImports fuel) fun decls c' =>
      SourceNode.AllLie (Marks tokens) c.span.start c'.previous.stop (decls.map .importDecl) := by
  apply (Goes.expectWord .import rfl).bind
  intro _ c1 h1 _
  apply (Goes.eatSign .lparen rfl).bind
  intro grouped c2 h2 _
  split
  · exact (parseImportPaths_travels fuel c2).mono fun decls c' _ hDecls =>
      hDecls.mono (by omega) (Nat.le_refl _)
  · apply parseImportPath_travels.bind
    intro decl c3 h3 hDecl
    exact .pure (.single (hDecl.mono (by omega) (Nat.le_refl _)))

theorem parseDeclaredType_travels (fuel : Nat) (c : Cursor) :
    Travels tokens c (parseDeclaredType fuel) fun type c' =>
      Expr.AllLie (Marks tokens) c.span.start c'.previous.stop type.toList := by
  apply Goes.checkSign_bind
  split
  · exact .pure .nil
  · rw [map_eq_pure_bind]
    exact (parseType_travels fuel c).bind fun type c1 _ hType => .pure (.single hType)

theorem parseConst_travels (fuel : Nat) (c : Cursor) :
    Travels tokens c (parseConst fuel) fun decl c' =>
      (SourceNode.constDecl decl).Lies (Marks tokens) c.span.start c'.previous.stop := by
  apply (Goes.expectWord_name .const rfl).bind
  rintro _ c1 h1 ⟨rfl, hPast⟩
  apply Goes.expectIdent.bind
  intro name c2 h2 _
  apply (parseDeclaredType_travels fuel c2).bind
  intro type c3 h3 hType
  apply (Goes.expectSign .eq rfl).bind
  intro _ c4 h4 _
  apply (parseExpr_travels fuel c4).bind
  intro value c5 h5 hValue
  refine .previousSpan_bind (by omega) fun hStop => .pure ?_
  exact lies_of_past ((((hPast.later h2).later h3).later h4).later h5) hStop rfl
    (.append (hType.mono (by omega) (by omega)) (.single (hValue.within (by omega) (by omega))))
    trivial

theorem parseVar_travels (fuel : Nat) (c : Cursor) : Travels tokens c (parseVar fuel) fun decl c' =>
      (SourceNode.varDecl decl).Lies (Marks tokens) c.span.start c'.previous.stop := by
  apply (Goes.expectWord_name .var rfl).bind
  rintro _ c1 h1 ⟨rfl, hPast⟩
  apply Goes.expectIdent.bind
  intro name c2 h2 _
  apply (parseDeclaredType_travels fuel c2).bind
  intro type c3 h3 hType
  apply (Goes.eatSign .eq rfl).bind
  intro given c4 h4 _
  have hRest (init : Option Expr) {c5 : Cursor} (h5 : c4.Onward c5)
      (hInit : Expr.AllLie (Marks tokens) c.span.start c5.previous.stop init.toList)
      : Travels tokens c5 (do
      if type.isNone && init.isNone then unexpected (.thing "type or `=`")
      return (⟨name.1, type, init, c.span.merge (← previousSpan)⟩ : VarDecl)) fun decl c' =>
        (SourceNode.varDecl decl).Lies (Marks tokens) c.span.start c'.previous.stop := by
    apply Goes.stopIf
    refine .previousSpan_bind (by omega) fun hStop => .pure ?_
    exact lies_of_past ((((hPast.later h2).later h3).later h4).later h5) hStop rfl
      (Expr.AllLie.append (hType.mono (by omega) (by omega)) hInit) trivial
  split
  · rw [map_eq_pure_bind, bind_assoc]
    apply (parseExpr_travels fuel c4).bind
    intro init c5 h5 hInit
    exact hRest (some init) h5 (.single (hInit.within (by omega) (by omega)))
  · exact hRest none (by omega) .nil

theorem parseTypeDecl_travels (fuel : Nat) (c : Cursor) :
    Travels tokens c (parseTypeDecl fuel) fun decl c' =>
      (SourceNode.typeDecl decl).Lies (Marks tokens) c.span.start c'.previous.stop := by
  apply (Goes.expectWord_name .type rfl).bind
  rintro _ c1 h1 ⟨rfl, hPast⟩
  apply Goes.expectIdent.bind
  intro name c2 h2 _
  apply (parseType_travels fuel c2).bind
  intro type c3 h3 hType
  refine .previousSpan_bind (by omega) fun hStop => .pure ?_
  exact lies_of_past ((hPast.later h2).later h3) hStop rfl
    (.single (hType.within (by omega) (by omega))) trivial

/-- Behind a receiver, or without one, there is a place for the name of the function. -/
theorem parseReceiver_travels (fuel : Nat) (c : Cursor) :
    Goes tokens (AtName tokens) (AtName tokens) c (parseReceiver fuel) fun receiver c' =>
      Param.AllLie (Marks tokens) c.span.start c'.previous.stop receiver.toList := by
  apply Goes.eatSign_bind
  · intro c1 h1
    apply (Goes.expectIdent.given fun h => Cursor.atName_of_behind h rfl).bind
    rintro ⟨name, _⟩ c2 h2 ⟨rfl, p2⟩
    apply (parseType_travels fuel c2).bind
    intro type c3 h3 hType
    refine ((Goes.expect rfl).upto fun _ h => Cursor.atName_of_behind h rfl).bind
      fun _ c4 h4 _ => ?_
    exact .pure (List.forall_mem_singleton.mpr ⟨p2.1, hType.within (by omega) (by omega)⟩)
  · exact .pure (List.forall_mem_nil _)

theorem parseFunc_travels (fuel : Nat) (c : Cursor) :
    Travels tokens c (parseFunc fuel) fun decl c' =>
      (SourceNode.funcDecl decl).Lies (Marks tokens) c.span.start c'.previous.stop := by
  apply (Goes.expectWord_name .func rfl).bind
  rintro _ c1 h1 ⟨rfl, hPast⟩
  apply (parseReceiver_travels fuel c1).bind
  intro receiver c2 h2 hReceiver
  apply Goes.expectIdent.bind
  intro name c3 h3 _
  apply ((parseSignature_travels fuel c3).within _).bind
  intro signature c4 h4 hSignature
  apply Goes.checkSign_bind
  have hRest (body : Option (List Stmt)) {c5 : Cursor} (h5 : c4.Onward c5)
      (hBody : SourceNode.AllLie (Marks tokens) c4.span.start c5.previous.stop
        ((body.getD []).map .stmt)) :
      Travels tokens c5 (do
      return (⟨receiver, name.1, signature, body, c.span.merge (← previousSpan)⟩ : FuncDecl))
        fun decl c' => (SourceNode.funcDecl decl).Lies (Marks tokens)
          c.span.start c'.previous.stop := by
    refine .previousSpan_bind (by omega) fun hStop => .pure ?_
    have hTypes : Expr.AllLie (Marks tokens) c.span.start c5.previous.stop
        (receiver.toList.map (·.type) ++ signature.types) :=
      .append (hReceiver.mono (by omega) (by omega)).types
        (hSignature.mono (by omega) (by omega)).types
    exact lies_of_past ((((hPast.later h2).later h3).later h4).later h5) hStop rfl
      (.append hTypes (hBody.mono (by omega) (Nat.le_refl _))) ⟨hReceiver.named, hSignature.named⟩
  split
  · rw [map_eq_pure_bind, bind_assoc]
    apply (parseBlock_travels fuel c4).bind
    intro body c5 h5 hBody
    exact hRest (some body) h5 hBody
  · exact hRest none (by omega) .nil

end Grammar

/-! ## Files -/

/-- A file whose declarations are nested. -/
structure SourceFile.Nested (fits : Span → Prop) (file : SourceFile) : Prop where
  imports : ∀ decl ∈ file.imports, (SourceNode.importDecl decl).Nested fits
  consts : ∀ decl ∈ file.consts, (SourceNode.constDecl decl).Nested fits
  vars : ∀ decl ∈ file.vars, (SourceNode.varDecl decl).Nested fits
  types : ∀ decl ∈ file.types, (SourceNode.typeDecl decl).Nested fits
  funcs : ∀ decl ∈ file.funcs, (SourceNode.funcDecl decl).Nested fits
  methods : ∀ decl ∈ file.methods, (SourceNode.funcDecl decl).Nested fits

theorem SourceFile.Nested.roots (h : file.Nested fits) : ∀ root ∈ file.roots, root.Nested fits := by
  simp only [SourceFile.roots, List.forall_mem_append, List.forall_mem_map]
  exact ⟨⟨⟨⟨⟨h.imports, h.consts⟩, h.vars⟩, h.types⟩, h.funcs⟩, h.methods⟩

theorem SourceFile.Nested.placed {fits' : Span → Prop} (h : file.Nested fits)
    (imp : ∀ span, fits span → fits' span) : file.Placed fits' where
  imports decl hDecl := (h.imports decl hDecl).placed imp
  consts decl hDecl := (h.consts decl hDecl).placed imp
  vars decl hDecl := (h.vars decl hDecl).placed imp
  types decl hDecl := (h.types decl hDecl).placed imp
  funcs decl hDecl := (h.funcs decl hDecl).placed imp
  methods decl hDecl := (h.methods decl hDecl).placed imp

namespace Grammar

open GoToC.Span (Marks)

variable {tokens : List Token} {file : SourceFile} {c : Cursor}

theorem addFunc_nested {decl : FuncDecl} (hFile : file.Nested fits)
    (hDecl : (SourceNode.funcDecl decl).Nested fits) : (addFunc file decl).Nested fits := by
  unfold addFunc
  split
  · exact { hFile with methods := forall_mem_concat hFile.methods hDecl }
  · exact { hFile with funcs := forall_mem_concat hFile.funcs hDecl }

theorem parseDecl_travels (fuel : Nat) (hFile : file.Nested (Marks tokens)) :
    Travels tokens c (parseDecl fuel file) fun file' _ => file'.Nested (Marks tokens) := by
  apply Goes.kind_bind
  split
  · exact parsePackage_travels.bind fun name c1 _ _ => .pure { hFile with }
  · apply ((parseImports_travels fuel c).within _).bind
    intro decls c1 _ hDecls
    have hMore : ∀ decl ∈ decls, (SourceNode.importDecl decl).Nested (Marks tokens) :=
      fun decl hDecl => (hDecls _ (List.mem_map_of_mem hDecl)).2
    exact .pure { hFile with imports := List.forall_mem_append.mpr ⟨hFile.imports, hMore⟩ }
  · exact ((parseConst_travels fuel c).within _).bind fun decl c1 _ hDecl =>
      .pure { hFile with consts := forall_mem_concat hFile.consts hDecl.2 }
  · exact ((parseVar_travels fuel c).within _).bind fun decl c1 _ hDecl =>
      .pure { hFile with vars := forall_mem_concat hFile.vars hDecl.2 }
  · exact ((parseTypeDecl_travels fuel c).within _).bind fun decl c1 _ hDecl =>
      .pure { hFile with types := forall_mem_concat hFile.types hDecl.2 }
  · exact ((parseFunc_travels fuel c).within _).bind fun decl c1 _ hDecl =>
      .pure (addFunc_nested hFile hDecl.2)
  · exact .unexpected

theorem parseDecls_travels (fuel : Nat) (hFile : file.Nested (Marks tokens)) :
    Travels tokens c (parseDecls fuel file) fun file' _ => file'.Nested (Marks tokens) := by
  induction fuel generalizing file c with
  | zero => exact .exhausted
  | succ fuel ih =>
      rw [parseDecls]
      apply Goes.skipTerminators.bind
      intro _ c1 _ _
      apply Goes.cursor_bind
      split
      · exact .pure hFile
      · apply (parseDecl_travels fuel hFile).bind
        intro file' c2 _ hFile'
        apply Goes.expectTerminator.bind
        intro _ c3 _ _
        exact .checkSign_bind (.stopIf (ih hFile'))

end Grammar

theorem Cursor.ofTokens_stands (source : String) : (ofTokens (lex source)).Stands (lex source) := by
  have hPrevious : (ofTokens (lex source)).previous = Span.nowhere := by
    cases lex source <;> rfl
  refine ⟨ofTokens_within (lex_ne_nil source), ofTokens_ordered source,
    fun token hToken => ((tokensFrom_tokenises 0 source.toList).span_le hToken).1, ?_, ?_, ?_⟩
  all_goals rw [hPrevious]
  · exact fun hBegun => absurd hBegun (Nat.lt_irrefl 0)
  · exact Nat.le_refl 0
  · exact Nat.zero_le _

theorem Cursor.ofTokens_clear (source : String) : (ofTokens (lex source)).Clear (lex source) := by
  have hFirst : (ofTokens (lex source)).position = 0 := by
    cases lex source <;> rfl
  intro kind hKind
  rw [behind, hFirst, List.take_zero] at hKind
  cases hKind

/-- A text that is read is nested, and one that is refused is reported at one of its tokens. -/
theorem parse_travels (source : String) :
    match parse source with
    | .ok file => file.Nested (Span.Marks (lex source))
    | .error (.error cause) => cause.Reported (lex source)
    | .error .exhausted => True := by
  have hEmpty : SourceFile.empty.Nested (Span.Marks (lex source)) := by
    constructor <;> exact List.forall_mem_nil _
  have hRun := Grammar.parseDecls_travels (Grammar.fuelFor (lex source)) hEmpty
    (Cursor.ofTokens_stands source) (Cursor.ofTokens_clear source) 0
  unfold parse parseTokens StateT.run
  cases hResult : Grammar.parseDecls (Grammar.fuelFor (lex source)) SourceFile.empty
      ⟨Cursor.ofTokens (lex source), 0⟩ with
  | ok found =>
      rw [hResult] at hRun
      exact { hRun.2.2.2 with }
  | error failure =>
      rw [hResult] at hRun
      cases failure with
      | error cause => exact hRun
      | exhausted => trivial

theorem parse_places (source : String) :
    match parse source with
    | .ok file => file.Placed (Span.Joins (lex source))
    | .error (.error cause) => cause.span.Joins (lex source)
    | .error .exhausted => True := by
  have hTravels := parse_travels source
  split
  · next file hParse =>
      rw [hParse] at hTravels
      exact hTravels.placed fun _ hMarks => hMarks.toJoins
  · next cause hParse =>
      rw [hParse] at hTravels
      exact hTravels.joins
  · trivial

/-- Every node of a text that is read runs from the start of a token to the end of one, it holds
the places of all nodes below it, and the left operand of a binary expression ends before the right
one starts. -/
theorem parse_nests {source : String} {file : SourceFile} (h : parse source = .ok file)
    {node : SourceNode} (hNode : file.Holds node) :
    node.span.MarksIn source ∧ (∀ below, node.Below below → node.span.Contains below.span) ∧
      ∀ span op left right, node = .expr (.binary span op left right) →
        span.Contains left.span ∧ span.Contains right.span ∧
          left.span.stop ≤ right.span.start := by
  obtain ⟨root, hRoot, hBelow⟩ := hNode
  have hTravels := parse_travels source
  rw [h] at hTravels
  have hNested : node.Nested _ := (hTravels.roots root hRoot |>.of_below hBelow).2
  refine ⟨hNested.place.toJoins.marksIn, fun below hIn => (hNested.of_below hIn).1, ?_⟩
  rintro span op left right rfl
  have hOperand {e : Expr} (he : e ∈ [left, right]) : span.Contains e.span :=
    (hNested.of_below (.single (List.mem_map_of_mem he))).1
  exact ⟨hOperand (by simp), hOperand (by simp), hNested.tidy⟩

/-- The places of a binary expression and of its operands. -/
def Expr.operandSpans? : Expr → Option (Span × Span × Span)
  | .binary span _ left right => some (span, left.span, right.span)
  | _ => none

theorem Expr.binary_of_operandSpans? {e : Expr} {whole first last : Span}
    (h : e.operandSpans? = some (whole, first, last)) :
    ∃ op left right, e = .binary whole op left right ∧ left.span = first ∧ right.span = last := by
  unfold operandSpans? at h
  split at h
  · next span op left right =>
      obtain ⟨rfl, hOperands⟩ := Prod.mk.inj (Option.some.inj h)
      exact ⟨op, left, right, rfl, Prod.mk.inj hOperands⟩
  · cases h

/-- A product whose left factor stands in parentheses, which are not part of it. -/
theorem parse_nests_product :
    ∃ file node, parse "const x = (1 + 2) * -3\n" = .ok file ∧ file.Holds node ∧
      node.span.MarksIn "const x = (1 + 2) * -3\n" ∧
      (∀ below, node.Below below → node.span.Contains below.span) ∧
      ∃ op left right, node = .expr (.binary ⟨11, 22⟩ op left right) ∧
        left.span = ⟨11, 16⟩ ∧ right.span = ⟨20, 22⟩ ∧ left.span.stop ≤ right.span.start := by
  have hSpans : (parse "const x = (1 + 2) * -3\n").toOption.map
      (fun file => file.consts.map (·.value.operandSpans?)) =
        some [some (⟨11, 22⟩, ⟨11, 16⟩, ⟨20, 22⟩)] := by decide +kernel
  cases hParse : parse "const x = (1 + 2) * -3\n" with
  | error failure =>
      rw [hParse] at hSpans
      cases hSpans
  | ok file =>
      rw [hParse] at hSpans
      replace hSpans : file.consts.map (·.value.operandSpans?) = _ := Option.some.inj hSpans
      obtain ⟨decl, hDecl, hValue⟩ := List.mem_map.mp (hSpans ▸ List.mem_singleton_self _)
      obtain ⟨op, left, right, hBinary, hLeft, hRight⟩ := Expr.binary_of_operandSpans? hValue
      have hHolds : file.Holds (.expr decl.value) := by
        refine ⟨.constDecl decl, ?_, .single (List.mem_append_right _ List.mem_cons_self)⟩
        simp [SourceFile.roots, hDecl]
      obtain ⟨hMarks, hContains, hOperands⟩ := parse_nests hParse hHolds
      have hNode : SourceNode.expr decl.value = .expr (.binary ⟨11, 22⟩ op left right) :=
        congrArg _ hBinary
      exact ⟨file, _, rfl, hHolds, hMarks, hContains, op, left, right, hNode, hLeft, hRight,
        (hOperands _ _ _ _ hNode).2.2⟩

end GoToC
