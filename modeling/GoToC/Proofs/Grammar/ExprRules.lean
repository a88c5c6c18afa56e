import GoToC.Proofs.Grammar.TypeRules

/-!
# Expressions are well formed

The rules for expressions give well-formed trees and do not run out of steps.
-/

namespace GoToC.Grammar

variable {enough : Prop} {word : String → Prop}

/-- An expression was read, and with it at least one token. -/
abbrev ExprRead (word : String → Prop) (c : Cursor) (e : Expr) (c' : Cursor) : Prop :=
  c'.left < c.left ∧ e.Formed word

/-- An expression in a place where it may be left out. -/
theorem optional_bind {β : Type} {c : Cursor} {parser : Parser Expr} {next : Option Expr → Parser β}
    {good : β → Cursor → Prop} (skip : Bool) (h : Reads enough word c parser (ExprRead word c))
    (hNext : ∀ found c', c'.left ≤ c.left → OptExprFormed word found →
      Reads enough word c' (next found) good) :
    Reads enough word c (if skip = true then pure none >>= next else some <$> parser >>= next)
      good := by
  have hNone : OptExprFormed word none := by simp [OptExprFormed]
  split
  · exact hNext none c (Nat.le_refl _) hNone
  · have hSome : Reads enough word c (some <$> parser) fun found c' =>
        c'.left ≤ c.left ∧ OptExprFormed word found := by
      refine .map (h.mono fun e c' he => ⟨Nat.le_of_lt he.1, ?_⟩)
      rw [OptExprFormed]
      exact he.2
    exact hSome.bind fun found c' hFound => hNext found c' hFound.1 hFound.2

/-- What holds of a tree that is read on from an operand. -/
abbrev StaysFormed (word : String → Prop) (operand e : Expr) : Prop :=
  operand.Formed word → e.Formed word

/-- A subscript of an operand was read, whose span is not known yet. -/
abbrev SubscriptRead (word : String → Prop) (operand : Expr) (c : Cursor) (subscript : Span → Expr)
    (c' : Cursor) : Prop :=
  c'.left ≤ c.left ∧ ∀ whole, StaysFormed word operand (subscript whole)

/-- Arguments were read, and whether the last one is spread. -/
abbrev ArgsFormed (word : String → Prop) (_ : Unit) (args : List Expr × Bool) : Prop :=
  ExprsFormed word args.1

/-! ## Rounds -/

section

variable {c : Cursor} {fuel : Nat}

theorem isReadable_of_binaryOp? {kind : TokenKind} {level : Nat} {op : BinaryOp}
    (h : binaryOp? kind = some (level, op)) : kind.isReadable = true := by
  cases kind with
  | error cause => cases h
  | eof => cases h
  | _ => rfl

theorem operatorsRound_reads {level : Nat} {left : Expr}
    (hBinary : ∀ level c, Reads (16 * c.left + 4 ≤ fuel) word c (parseBinary fuel level)
      (ExprRead word c)) :
    Reads (16 * c.left ≤ fuel) word c (operatorsRound fuel level left)
      (RoundRead (StaysFormed word) left c) := by
  refine .kind_bind ?_
  split
  · exact .pure ⟨Nat.le_refl _, id⟩
  · next opLevel op hOp =>
      split
      · exact .pure ⟨Nat.le_refl _, id⟩
      · refine (Reads.advance rfl (isReadable_of_binaryOp? hOp)).bind fun _ c1 h1 => ?_
        refine ((hBinary (opLevel + 1) c1).given (by omega)).bind fun right c2 h2 => ?_
        refine .node_bind (.pure ⟨by omega, fun e he hLeft => he ?_⟩)
        rw [Expr.Formed]
        exact ⟨hLeft, h2.2⟩

theorem fieldInitsRound_reads
    (hExpr : ∀ c, Reads (16 * c.left + 5 ≤ fuel) word c (parseExpr fuel) (ExprRead word c)) :
    Reads (16 * c.left ≤ fuel) word c (fieldInitsRound fuel)
      (RoundRead (fun _ => InitsFormed word) () c) := by
  refine Reads.skipNewlines.bind fun _ c1 h1 => .checkSign_bind fun closed => ?_
  split
  · exact .pure ⟨h1, by simp [InitsFormed]⟩
  · refine Reads.expectIdent.bind fun name c2 h2 => ?_
    refine (Reads.eatSign .colon).bind fun _ c3 h3 => ?_
    refine ((hExpr c3).given (by omega)).bind fun value c4 h4 => ?_
    refine Reads.skipNewlines.bind fun _ c5 h5 => (Reads.eatSign .comma).bind fun eaten c6 h6 => ?_
    have hInits (others : List (FieldInit Expr)) (hOthers : InitsFormed word others) :
        InitsFormed word (⟨name.1, value, name.2.merge value.span⟩ :: others) := by
      rw [InitsFormed]
      exact ⟨⟨h2.2, h4.2⟩, hOthers⟩
    split
    · exact .pure ⟨by omega, hInits⟩
    · exact .pure ⟨by omega, hInits [] (by simp [InitsFormed])⟩

theorem suffixRound_reads {operand : Expr}
    (hArgs : ∀ c, Reads (16 * c.left + 6 ≤ fuel) word c (parseArgs fuel)
      (LoopRead (ArgsFormed word) () c))
    (hSubscript : ∀ c, Reads (16 * c.left + 6 ≤ fuel) word c (parseSubscript fuel operand)
      (SubscriptRead word operand c)) :
    Reads (16 * c.left ≤ fuel) word c (suffixRound fuel operand)
      (RoundRead (StaysFormed word) operand c) := by
  refine .kind_bind ?_
  split
  · next hKind =>
      refine (Reads.advance hKind rfl).bind fun _ c1 h1 => ?_
      refine ((hArgs c1).given (by omega)).bind fun args c2 h2 => ?_
      refine (Reads.expectSign .rparen).bind fun stop c3 h3 => ?_
      refine .node_bind (.pure ⟨by omega, fun e he hOperand => he ?_⟩)
      rw [Expr.Formed]
      exact ⟨hOperand, h2.2⟩
  · next hKind =>
      refine (Reads.advance hKind rfl).bind fun _ c1 h1 => ?_
      refine ((hSubscript c1).given (by omega)).bind fun subscript c2 h2 => ?_
      refine (Reads.expectSign .rbracket).bind fun stop c3 h3 => ?_
      exact .node_bind (.pure ⟨by omega, fun e he hOperand => he (h2.2 _ hOperand)⟩)
  · next hKind =>
      refine (Reads.advance hKind rfl).bind fun _ c1 h1 => ?_
      refine Reads.expectIdent.bind fun member c2 h2 => ?_
      refine .node_bind (.pure ⟨by omega, fun e he hOperand => he ?_⟩)
      rw [Expr.Formed]
      exact ⟨hOperand, h2.2⟩
  · exact .pure ⟨Nat.le_refl _, id⟩

theorem argsRound_reads
    (hExpr : ∀ c, Reads (16 * c.left + 5 ≤ fuel) word c (parseExpr fuel) (ExprRead word c)) :
    Reads (16 * c.left + 5 ≤ fuel) word c (argsRound fuel) (RoundRead (ArgsFormed word) () c) := by
  refine Reads.skipNewlines.bind fun _ c1 h1 => .checkSign_bind fun closed => ?_
  split
  · exact .pure ⟨h1, by simp [ArgsFormed, ExprsFormed]⟩
  · refine ((hExpr c1).given (by omega)).bind fun arg c2 h2 => ?_
    have hArgs (others : List Expr) (hOthers : ExprsFormed word others) :
        ExprsFormed word (arg :: others) := by
      rw [ExprsFormed]
      exact ⟨h2.2, hOthers⟩
    have hOne : ExprsFormed word [arg] := hArgs [] (by simp [ExprsFormed])
    refine (Reads.eatSign .ellipsis).bind fun spread c3 h3 => ?_
    split
    · refine (Reads.eatSign .comma).bind fun _ c4 h4 => ?_
      exact Reads.skipNewlines.bind fun _ c5 h5 => .pure ⟨by omega, hOne⟩
    · refine Reads.skipNewlines.bind fun _ c4 h4 => (Reads.eatSign .comma).bind fun more c5 h5 => ?_
      split
      · exact .pure ⟨by omega, fun others hOthers => hArgs others.1 hOthers⟩
      · exact .pure ⟨by omega, hOne⟩

/-- The last round reads an expression too. -/
theorem exprsRound_reads
    (hExpr : ∀ c, Reads (16 * c.left + 5 ≤ fuel) word c (parseExpr fuel) (ExprRead word c)) :
    Reads (16 * c.left + 5 ≤ fuel) word c (exprsRound fuel) fun outcome c' =>
      c'.left < c.left ∧ RoundRead (fun _ => ExprsFormed word) () c outcome c' := by
  refine (hExpr c).bind fun first c1 h1 => (Reads.eatSign .comma).bind fun more c2 h2 => ?_
  have hExprs (others : List Expr) (hOthers : ExprsFormed word others) :
      ExprsFormed word (first :: others) := by
    rw [ExprsFormed]
    exact ⟨h1.2, hOthers⟩
  split
  · exact .pure ⟨by omega, by omega, hExprs⟩
  · exact .pure ⟨by omega, by omega, hExprs [] (by simp [ExprsFormed])⟩

end

/-! ## Rules -/

mutual

theorem parseExpr_reads : (fuel : Nat) → (c : Cursor) →
    Reads (16 * c.left + 5 ≤ fuel) word c (parseExpr fuel) (ExprRead word c)
  | 0, _ => .exhausted (by omega)
  | fuel + 1, c => by
      rw [parseExpr]
      exact (parseBinary_reads fuel 0 c).given (by omega)

theorem parseBinary_reads : (fuel level : Nat) → (c : Cursor) →
    Reads (16 * c.left + 4 ≤ fuel) word c (parseBinary fuel level) (ExprRead word c)
  | 0, _, _ => .exhausted (by omega)
  | fuel + 1, level, c => by
      rw [parseBinary]
      refine ((parseUnary_reads fuel c).given (by omega)).bind fun left c1 h1 => ?_
      refine ((parseOperators_reads fuel level left c1).given (by omega)).mono fun e c2 h2 => ?_
      exact ⟨by omega, h2.2 h1.2⟩

theorem parseOperators_reads : (fuel level : Nat) → (left : Expr) → (c : Cursor) →
    Reads (16 * c.left + 1 ≤ fuel) word c (parseOperators fuel level left)
      (LoopRead (StaysFormed word) left c)
  | 0, _, _, _ => .exhausted (by omega)
  | fuel + 1, level, left, c => by
      rw [parseOperators_eq]
      exact .rounds ((operatorsRound_reads (parseBinary_reads fuel)).given (by omega))
        fun left c' _ => (parseOperators_reads fuel level left c').given (by omega)

theorem parseUnary_reads : (fuel : Nat) → (c : Cursor) →
    Reads (16 * c.left + 3 ≤ fuel) word c (parseUnary fuel) (ExprRead word c)
  | 0, _ => .exhausted (by omega)
  | fuel + 1, c => by
      rw [parseUnary]
      refine .span_bind fun start => .kind_bind ?_
      split
      · next hKind =>
          refine (Reads.advance hKind rfl).bind fun _ c1 h1 => ?_
          refine ((parseUnary_reads fuel c1).given (by omega)).bind fun operand c2 h2 => ?_
          refine .node ⟨by omega, ?_⟩
          rw [Expr.Formed]
          exact h2.2
      · next hKind =>
          refine (Reads.advance hKind rfl).bind fun _ c1 h1 => ?_
          refine ((parseUnary_reads fuel c1).given (by omega)).bind fun operand c2 h2 => ?_
          refine .node ⟨by omega, ?_⟩
          rw [Expr.Formed]
          exact h2.2
      · exact (parseCtor_reads fuel c).given (by omega)
      · refine ((parsePrimary_reads fuel c).given (by omega)).bind fun operand c1 h1 => ?_
        refine ((parsePostfix_reads fuel operand c1).given (by omega)).mono fun e c2 h2 => ?_
        exact ⟨by omega, h2.2 h1.2⟩

theorem parseCtor_reads : (fuel : Nat) → (c : Cursor) →
    Reads (16 * c.left + 1 ≤ fuel) word c (parseCtor fuel) (ExprRead word c)
  | 0, _ => .exhausted (by omega)
  | fuel + 1, c => by
      rw [parseCtor]
      refine (Reads.expectSign .amp).bind fun start c1 h1 => ?_
      refine Reads.expectIdent.bind fun name c2 h2 => .node_bind ?_
      -- The rest is the same for a plain name and for a member of a module.
      have hRest (type : Expr) (c3 : Cursor) (h3 : c3.left ≤ c2.left) (hType : type.IsType word) :
          Reads (16 * c.left + 1 ≤ fuel + 1) word c3 (do
            let _ ← expectSign .lbrace
            let fields ← parseFieldInits fuel
            skipNewlines
            let stop ← expectSign .rbrace
            node (.ctor (start.merge stop) type fields)) (ExprRead word c) := by
        refine (Reads.expectSign .lbrace).bind fun _ c4 h4 => ?_
        refine ((parseFieldInits_reads fuel c4).given (by omega)).bind fun fields c5 h5 => ?_
        refine Reads.skipNewlines.bind fun _ c6 h6 => ?_
        refine (Reads.expectSign .rbrace).bind fun stop c7 h7 => .node ⟨by omega, ?_⟩
        rw [Expr.Formed]
        exact ⟨hType, h5.2⟩
      refine (Reads.eatSign .dot).bind fun eaten c3 h3 => ?_
      split
      · refine Reads.expectIdent.bind fun member c4 h4 => .node_bind ?_
        refine hRest _ c4 (by omega) ?_
        rw [Expr.IsType]
        exact ⟨h2.2, h4.2⟩
      · refine hRest _ c3 h3.1 ?_
        rw [Expr.IsType]
        exact h2.2

theorem parseFieldInits_reads : (fuel : Nat) → (c : Cursor) →
    Reads (16 * c.left + 1 ≤ fuel) word c (parseFieldInits fuel)
      (LoopRead (fun _ => InitsFormed word) () c)
  | 0, _ => .exhausted (by omega)
  | fuel + 1, c => by
      rw [parseFieldInits_eq]
      exact .rounds ((fieldInitsRound_reads (parseExpr_reads fuel)).given (by omega))
        fun _ c' _ => (parseFieldInits_reads fuel c').given (by omega)

theorem parsePostfix_reads : (fuel : Nat) → (operand : Expr) → (c : Cursor) →
    Reads (16 * c.left + 1 ≤ fuel) word c (parsePostfix fuel operand)
      (LoopRead (StaysFormed word) operand c)
  | 0, _, _ => .exhausted (by omega)
  | fuel + 1, operand, c => by
      rw [parsePostfix_eq]
      exact .rounds
        ((suffixRound_reads (parseArgs_reads fuel) (parseSubscript_reads fuel operand)).given
          (by omega))
        fun operand c' _ => (parsePostfix_reads fuel operand c').given (by omega)

theorem parseSubscript_reads : (fuel : Nat) → (operand : Expr) → (c : Cursor) →
    Reads (16 * c.left + 6 ≤ fuel) word c (parseSubscript fuel operand)
      (SubscriptRead word operand c)
  | 0, _, _ => .exhausted (by omega)
  | fuel + 1, operand, c => by
      rw [parseSubscript]
      refine Reads.skipNewlines.bind fun _ c1 h1 => .checkSign_bind fun found => ?_
      refine optional_bind found ((parseExpr_reads fuel c1).given (by omega)) fun lo c2 h2 hLo => ?_
      refine Reads.skipNewlines.bind fun _ c3 h3 => (Reads.eatSign .colon).bind
        fun eaten c4 h4 => ?_
      split
      · refine Reads.skipNewlines.bind fun _ c5 h5 => .checkSign_bind fun closed => ?_
        refine optional_bind closed ((parseExpr_reads fuel c5).given (by omega))
          fun hi c6 h6 hHi => ?_
        refine Reads.skipNewlines.bind fun _ c7 h7 => .pure ⟨by omega, fun whole hOperand => ?_⟩
        rw [Expr.Formed]
        exact ⟨hOperand, hLo, hHi⟩
      · split
        · refine .pure ⟨by omega, fun whole hOperand => ?_⟩
          rw [OptExprFormed] at hLo
          rw [Expr.Formed]
          exact ⟨hOperand, hLo⟩
        · exact .unexpected

theorem parseArgs_reads : (fuel : Nat) → (c : Cursor) →
    Reads (16 * c.left + 6 ≤ fuel) word c (parseArgs fuel) (LoopRead (ArgsFormed word) () c)
  | 0, _ => .exhausted (by omega)
  | fuel + 1, c => by
      rw [parseArgs_eq]
      exact .rounds ((argsRound_reads (parseExpr_reads fuel)).given (by omega)) fun _ c' _ =>
        (parseArgs_reads fuel c').given (by omega)

theorem parsePrimary_reads : (fuel : Nat) → (c : Cursor) →
    Reads (16 * c.left + 2 ≤ fuel) word c (parsePrimary fuel) (ExprRead word c)
  | 0, _ => .exhausted (by omega)
  | fuel + 1, c => by
      rw [parsePrimary]
      refine .of_sound fun hc => .span_bind fun start => .kind_bind ?_
      split
      · next hKind =>
          exact (Reads.advance hKind rfl).bind fun _ c1 h1 => .node ⟨h1, by simp [Expr.Formed]⟩
      · next hKind =>
          exact (Reads.advance hKind rfl).bind fun _ c1 h1 => .node ⟨h1, by simp [Expr.Formed]⟩
      · next hKind =>
          exact (Reads.advance hKind rfl).bind fun _ c1 h1 => .node ⟨h1, by simp [Expr.Formed]⟩
      · next name hKind =>
          refine (Reads.advance hKind rfl).bind fun _ c1 h1 => .node ⟨h1, ?_⟩
          rw [Expr.Formed]
          exact hc.word_of_ident hKind
      · next hKind =>
          refine (Reads.advance hKind rfl).bind fun _ c1 h1 => ?_
          refine Reads.skipNewlines.bind fun _ c2 h2 => ?_
          refine ((parseExpr_reads fuel c2).given (by omega)).bind fun inner c3 h3 => ?_
          refine Reads.skipNewlines.bind fun _ c4 h4 => ?_
          exact (Reads.expectSign .rparen).bind fun _ c5 h5 => .pure ⟨by omega, h3.2⟩
      · exact .fail
      · split
        · exact ((parseType_reads fuel c).given (by omega)).mono fun e c1 h1 => ⟨h1.1, h1.2.formed⟩
        · exact .fail

end

theorem parseExprs_reads (fuel : Nat) (c : Cursor) :
    Reads (16 * c.left + 6 ≤ fuel) word c (parseExprs fuel) fun es c' =>
      c'.left < c.left ∧ ExprsFormed word es := by
  induction fuel generalizing c with
  | zero => exact .exhausted (by omega)
  | succ fuel ih =>
      rw [parseExprs_eq]
      refine ((exprsRound_reads (parseExpr_reads fuel)).given (by omega)).bind
        fun outcome c1 h1 => ?_
      cases outcome with
      | leave es => exact .pure ⟨h1.1, h1.2.2⟩
      | again start complete =>
          refine .map (((ih c1).given (by omega)).mono fun es c2 h2 => ⟨by omega, ?_⟩)
          exact h1.2.2 es h2.2

end GoToC.Grammar
