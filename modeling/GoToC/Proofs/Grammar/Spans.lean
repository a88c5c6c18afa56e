import GoToC.Proofs.Grammar.Travels
import GoToC.Proofs.Tree.Nodes

/-!
# Spans of trees that are read

What a parser makes lies between the start of the first token that it reads and the end of the last
one, so the parts of a tree, which are read one after another, lie apart from each other and inside
the whole. What it refuses is reported at a token.
-/

namespace GoToC

variable {entries : List Entry}

namespace Grammar

open Cursor (Clear AtNaming)
open GoToC.Span (Marks)

variable {β : Type} {tokens : List Token} {c : Cursor}

/-! ## Types and signatures -/

namespace Entry

/-- An entry that has its name at a place among the tokens and its type between two offsets. -/
def Lies (tokens : List Token) (lo hi : Nat) : Entry → Prop
  | named _ span type => span.Marks tokens ∧ type.Lies (Marks tokens) lo hi
  | lone e => e.Lies (Marks tokens) lo hi

theorem Lies.mono {lo hi lo' hi' : Nat} {entry : Entry} (h : entry.Lies tokens lo hi)
    (hLo : lo' ≤ lo) (hHi : hi ≤ hi') : entry.Lies tokens lo' hi' := by
  have hExpr {e : Expr} (h : (SourceNode.expr e).Lies (Marks tokens) lo hi) :
      (SourceNode.expr e).Lies (Marks tokens) lo' hi' := h.mono hLo hHi
  cases entry with
  | named name span type => exact ⟨h.1, hExpr h.2⟩
  | lone e => exact hExpr h

theorem asName_marks {e : Expr} (h : e.span.Marks tokens) :
    match asName e with
    | .ok found => found.2.Marks tokens
    | .error cause => cause.Reported tokens := by
  cases e with
  | ident span name => exact h
  | _ => exact .of_marks h

variable {lo hi : Nat}

theorem settleNamed_lies {pending : List (String × Span)}
    (hPending : ∀ waiting ∈ pending, waiting.2.Marks tokens)
    (hEntries : ∀ entry ∈ entries, entry.Lies tokens lo hi) :
    match settleNamed pending entries with
    | .ok params => Param.AllLie (Marks tokens) lo hi params
    | .error cause => cause.Reported tokens := by
  induction entries generalizing pending with
  | nil =>
      cases pending with
      | nil => exact List.forall_mem_nil _
      | cons waiting others => exact .of_marks (hPending waiting List.mem_cons_self)
  | cons entry rest ih =>
      have hFirst := hEntries entry List.mem_cons_self
      have hRest := (List.forall_mem_cons.mp hEntries).2
      cases entry with
      | lone e =>
          have hName := asName_marks (e := e) hFirst.place
          rw [settleNamed]
          cases hFound : asName e with
          | error cause =>
              rw [hFound] at hName
              exact hName
          | ok found =>
              rw [hFound] at hName
              refine ih (fun waiting hWaiting => ?_) hRest
              rcases List.mem_append.mp hWaiting with hWaiting | hWaiting
              · exact hPending waiting hWaiting
              · rw [List.mem_singleton.mp hWaiting]
                exact hName
      | named name span type =>
          have hOthers := ih (List.forall_mem_nil _) hRest
          rw [settleNamed]
          cases hFound : settleNamed [] rest with
          | error cause =>
              rw [hFound] at hOthers
              exact hOthers
          | ok others =>
              rw [hFound] at hOthers
              refine List.forall_mem_append.mpr ⟨List.forall_mem_map.mpr fun waiting hWaiting => ?_,
                List.forall_mem_cons.mpr ⟨hFirst, hOthers⟩⟩
              exact ⟨hPending waiting hWaiting, hFirst.2⟩

/-- The parameters that entries stand for; an entry that is refused is reported where it stands. -/
theorem settle_lies (h : ∀ entry ∈ entries, entry.Lies tokens lo hi) :
    match settle entries with
    | .ok params => Param.AllLie (Marks tokens) lo hi params
    | .error cause => cause.Reported tokens := by
  unfold settle
  by_cases hNamed : entries.any isNamed = true
  · rw [if_pos hNamed]
    exact settleNamed_lies (List.forall_mem_nil _) h
  · rw [if_neg hNamed]
    refine List.forall_mem_map.mpr fun entry hEntry => ?_
    have hLies := h entry hEntry
    cases entry with
    | named name span type => exact hLies
    | lone e => exact ⟨hLies.place, hLies⟩

end Entry

mutual

theorem parseType_travels : (fuel : Nat) → (c : Cursor) →
    Travels tokens c (parseType fuel) fun e c' =>
      e.Lies (Marks tokens) c.span.start c'.previous.stop
  | 0, _ => .exhausted
  | fuel + 1, c => by
      rw [parseType]
      apply Goes.span_bind
      apply Goes.kind_bind
      split
      · next name hKind =>
          apply (Goes.advance hKind rfl rfl).bind
          rintro _ c1 h1 ⟨-, p1⟩
          apply Goes.node_bind
          have hBase {hi : Nat} (hHi : c.span.stop ≤ hi) :
              (Expr.ident c.span name).Lies (Marks tokens) c.span.start hi :=
            Expr.lies_leaf p1.1 ⟨Nat.le_refl _, Nat.le_of_lt p1.2.1, hHi⟩ rfl trivial
          apply Goes.eatSign_bind
          · intro c2 h2
            apply (Goes.expectIdent.given fun h => Cursor.atName_of_behind h rfl).bind
            rintro ⟨member, _⟩ c3 h3 ⟨rfl, p3⟩
            apply Goes.node
            exact Expr.lies_of_merge rfl (p1.1.merge p3.1) (by omega) (.single (hBase (by omega)))
              trivial
          · exact .pure (hBase (by omega))
      · next hKind =>
          apply (Goes.advance hKind rfl rfl).bind
          rintro _ c1 h1 ⟨-, p1⟩
          apply (parseType_travels fuel c1).bind
          intro inner c2 h2 hInner
          apply Goes.node
          exact Expr.lies_of_merge rfl (p1.1.merge hInner.place) (by omega)
            (.single (hInner.within (by omega) (by omega))) trivial
      · next hKind =>
          apply (Goes.advance hKind rfl rfl).bind
          rintro _ c1 h1 ⟨-, p1⟩
          apply (Goes.expectSign .rbracket rfl).bind
          intro _ c2 h2 _
          apply (parseType_travels fuel c2).bind
          intro elem c3 h3 hElem
          apply Goes.node
          exact Expr.lies_of_merge rfl (p1.1.merge hElem.place) (by omega)
            (.single (hElem.within (by omega) (by omega))) trivial
      · next hKind =>
          apply (Goes.advance hKind rfl rfl).bind
          rintro _ c1 h1 ⟨-, p1⟩
          apply (Goes.expectSign .lbracket rfl).bind
          intro _ c2 h2 _
          apply (parseType_travels fuel c2).bind
          intro key c3 h3 hKey
          apply (Goes.expectSign .rbracket rfl).bind
          intro _ c4 h4 _
          apply (parseType_travels fuel c4).bind
          intro value c5 h5 hValue
          apply Goes.node
          exact Expr.lies_of_merge rfl (p1.1.merge hValue.place) (by omega)
            (.cons (hKey.within (by omega) (by omega))
              (.single (hValue.within (by omega) (by omega)))) trivial
      · next hKind =>
          apply (Goes.advance hKind rfl rfl).bind
          rintro _ c1 h1 ⟨-, p1⟩
          apply Goes.expectBrace.bind
          intro _ c2 h2 _
          apply (parseFields_travels fuel c2).bind
          intro fields c3 h3 hFields
          apply (Goes.expectSign .rbrace rfl).bind
          rintro _ c4 h4 ⟨rfl, p4⟩
          apply Goes.node
          exact Expr.lies_of_merge rfl (p1.1.merge p4.1) (by omega)
            (hFields.mono (by omega) (by omega)).types hFields.named
      · next hKind =>
          apply (Goes.advance hKind rfl rfl).bind
          rintro _ c1 h1 ⟨-, p1⟩
          apply Goes.expectBrace.bind
          intro _ c2 h2 _
          apply (parseMethodSpecs_travels fuel c2).bind
          intro specs c3 h3 hSpecs
          apply (Goes.expectSign .rbrace rfl).bind
          rintro _ c4 h4 ⟨rfl, p4⟩
          apply Goes.node
          exact Expr.lies_of_merge rfl (p1.1.merge p4.1) (by omega)
            (hSpecs.mono (by omega) (by omega)).types hSpecs.named
      · next hKind =>
          apply (Goes.advance hKind rfl rfl).bind
          rintro _ c1 h1 ⟨-, p1⟩
          apply (parseType_travels fuel c1).bind
          intro inner c2 h2 hInner
          apply (Goes.expectSign .rparen rfl).bind
          intro _ c3 h3 _
          exact .pure (hInner.within (by omega) (by omega))
      · next fault hKind =>
          refine .fail fun hc hClear => hc.reported rfl hClear fun fault' hKind' => ?_
          cases hKind.symm.trans hKind'
          exact ⟨rfl, rfl⟩
      · next hNone =>
          exact .fail fun hc hClear => hc.reported rfl hClear fun fault hKind =>
            absurd hKind (hNone fault)

theorem parseFields_travels : (fuel : Nat) → (c : Cursor) →
    Goes tokens (AtNaming tokens) (Clear tokens) c (parseFields fuel) fun fields c' =>
      Param.AllLie (Marks tokens) c.span.start c'.previous.stop fields
  | 0, _ => .exhausted
  | fuel + 1, c => by
      rw [parseFields]
      apply Goes.skipTerminators_both.2.bind
      intro _ c1 h1 _
      apply Goes.checkSign_bind
      split
      · exact .given (.pure (List.forall_mem_nil _)) And.left
      · apply (Goes.expectIdent.given And.right).bind
        rintro ⟨name, _⟩ c2 h2 ⟨rfl, p2⟩
        apply (parseType_travels fuel c2).bind
        intro type c3 h3 hType
        apply Goes.expectTerminator_naming.bind
        intro _ c4 h4 _
        apply (parseFields_travels fuel c4).bind
        intro others c5 h5 hOthers
        exact .pure (List.forall_mem_cons.mpr ⟨⟨p2.1, hType.within (by omega) (by omega)⟩,
          hOthers.mono (by omega) (Nat.le_refl _)⟩)

theorem parseMethodSpecs_travels : (fuel : Nat) → (c : Cursor) →
    Goes tokens (AtNaming tokens) (Clear tokens) c (parseMethodSpecs fuel) fun specs c' =>
      MethodSpec.AllLie (Marks tokens) c.span.start c'.previous.stop specs
  | 0, _ => .exhausted
  | fuel + 1, c => by
      rw [parseMethodSpecs]
      apply Goes.skipTerminators_both.2.bind
      intro _ c1 h1 _
      apply Goes.checkSign_bind
      split
      · exact .given (.pure (List.forall_mem_nil _)) And.left
      · apply (Goes.expectIdent.given And.right).bind
        rintro ⟨name, _⟩ c2 h2 ⟨rfl, p2⟩
        apply (parseSignature_travels fuel c2).bind
        intro signature c3 h3 hSignature
        refine .previousSpan_bind (by omega) fun hStop => ?_
        apply Goes.expectTerminator_naming.bind
        intro _ c4 h4 _
        apply (parseMethodSpecs_travels fuel c4).bind
        intro others c5 h5 hOthers
        exact .pure (List.forall_mem_cons.mpr ⟨⟨p2.1.merge hStop,
          hSignature.mono (by omega) (by omega)⟩, hOthers.mono (by omega) (Nat.le_refl _)⟩)

theorem parseSignature_travels : (fuel : Nat) → (c : Cursor) →
    Travels tokens c (parseSignature fuel) fun signature c' =>
      Param.AllLie (Marks tokens) c.span.start c'.previous.stop
        (signature.inputs ++ signature.outputs)
  | 0, _ => .exhausted
  | fuel + 1, c => by
      rw [parseSignature]
      apply (parseParams_travels fuel true c).bind
      intro inputs c1 h1 hInputs
      apply Goes.checkSign_bind
      split
      · apply (parseParams_travels fuel false c1).bind
        intro outputs c2 h2 hOutputs
        exact .pure (.append (hInputs.mono (Nat.le_refl _) (by omega))
          (hOutputs.mono (by omega) (Nat.le_refl _)))
      · apply Goes.kind_bind
        split
        · apply (parseType_travels fuel c1).bind
          intro type c2 h2 hType
          exact .pure (.append (hInputs.mono (Nat.le_refl _) (by omega))
            (List.forall_mem_singleton.mpr ⟨hType.place, hType.within (by omega) (by omega)⟩))
        · exact .pure ((List.append_nil inputs.1).symm ▸ hInputs)

theorem parseParams_travels : (fuel : Nat) → (allowVariadic : Bool) → (c : Cursor) →
    Travels tokens c (parseParams fuel allowVariadic) fun found c' =>
      Param.AllLie (Marks tokens) c.span.start c'.previous.stop found.1
  | 0, _, _ => .exhausted
  | fuel + 1, allowVariadic, c => by
      rw [parseParams]
      apply (Goes.expectSign .lparen rfl).bind
      intro _ c1 h1 _
      apply (parseEntries_travels fuel allowVariadic false c1).bind
      intro found c2 h2 hFound
      have hSettled := Entry.settle_lies hFound
      dsimp only
      split
      · next params hParams =>
          rw [hParams] at hSettled
          exact .pure (hSettled.mono (by omega) (Nat.le_refl _))
      · next cause hCause =>
          rw [hCause] at hSettled
          exact .fail fun _ _ => hSettled

theorem parseEntries_travels : (fuel : Nat) → (allowVariadic variadic : Bool) → (c : Cursor) →
    Travels tokens c (parseEntries fuel allowVariadic variadic) fun found c' =>
      ∀ entry ∈ found.1, entry.Lies tokens c.span.start c'.previous.stop
  | 0, _, _, _ => .exhausted
  | fuel + 1, allowVariadic, variadic, c => by
      rw [parseEntries]
      apply Goes.skipNewlines.bind
      intro _ c1 h1 _
      apply (Goes.eatSign .rparen rfl).bind
      intro closed c2 h2 _
      split
      · exact .pure (List.forall_mem_nil _)
      · apply Goes.stopIf
        apply (parseEntry_travels fuel allowVariadic c2).bind
        intro entry c3 h3 hEntry
        apply Goes.skipNewlines.bind
        intro _ c4 h4 _
        apply (Goes.eatSign .comma rfl).bind
        intro more c5 h5 _
        split
        · apply (parseEntries_travels fuel allowVariadic entry.2 c5).bind
          intro others c6 h6 hOthers
          exact .pure (List.forall_mem_cons.mpr ⟨hEntry.mono (by omega) (by omega),
            fun entry hEntry => (hOthers entry hEntry).mono (by omega) (Nat.le_refl _)⟩)
        · apply Goes.skipNewlines.bind
          intro _ c6 h6 _
          apply (Goes.expectSign .rparen rfl).bind
          intro _ c7 h7 _
          exact .pure (List.forall_mem_singleton.mpr (hEntry.mono (by omega) (by omega)))

theorem parseEntry_travels : (fuel : Nat) → (allowVariadic : Bool) → (c : Cursor) →
    Travels tokens c (parseEntry fuel allowVariadic) fun found c' =>
      found.1.Lies tokens c.span.start c'.previous.stop
  | 0, _, _ => .exhausted
  | fuel + 1, allowVariadic, c => by
      rw [parseEntry]
      apply Goes.checkSign_bind
      split
      · exact (parseVariadic_travels fuel allowVariadic c).bind fun type c1 _ hType => .pure hType
      · apply (parseType_travels fuel c).bind
        intro first c1 h1 hFirst
        apply Goes.kind_bind
        split
        · exact .pure hFirst
        · have hName := Entry.asName_marks hFirst.place
          split
          · next cause hFound =>
              rw [hFound] at hName
              exact .fail fun _ _ => hName
          · next name nameSpan hFound =>
              rw [hFound] at hName
              apply Goes.checkSign_bind
              split
              · exact (parseVariadic_travels fuel allowVariadic c1).bind fun type c2 h2 hType =>
                  .pure ⟨hName, hType.within (by omega) (by omega)⟩
              · exact (parseType_travels fuel c1).bind fun type c2 h2 hType =>
                  .pure ⟨hName, hType.within (by omega) (by omega)⟩

theorem parseVariadic_travels : (fuel : Nat) → (allowVariadic : Bool) → (c : Cursor) →
    Travels tokens c (parseVariadic fuel allowVariadic) fun e c' =>
      e.Lies (Marks tokens) c.span.start c'.previous.stop
  | 0, _, _ => .exhausted
  | fuel + 1, allowVariadic, c => by
      rw [parseVariadic]
      apply (Goes.expectSign .ellipsis rfl).bind
      rintro _ c1 h1 ⟨rfl, p1⟩
      have hElem : Travels tokens c1 (do
          let elem ← parseType fuel
          node (.sliceType (c.span.merge elem.span) elem)) fun e c' =>
            e.Lies (Marks tokens) c.span.start c'.previous.stop := by
        apply (parseType_travels fuel c1).bind
        intro elem c2 h2 hElem
        apply Goes.node
        exact Expr.lies_of_merge rfl (p1.1.merge hElem.place) (by omega)
          (.single (hElem.within (by omega) (by omega))) trivial
      cases allowVariadic with
      | true => exact hElem
      | false => exact .fail_bind fun _ _ => .of_marks p1.1

end

/-! ## Expressions -/

theorem wantsName_of_binaryOp? {kind : TokenKind} {found : Nat × BinaryOp}
    (h : binaryOp? kind = some found) : kind.wantsName = false := by
  cases kind with
  | keyword word => cases h
  | punct sign => cases sign <;> first | rfl | cases h
  | _ => rfl

/-- What follows an expression that may be left out. -/
theorem optional_travels {parser : Parser Expr} {next : Option Expr → Parser β}
    {good : β → Cursor → Prop} (absent : Bool)
    (h : Travels tokens c parser fun e c' => e.Lies (Marks tokens) c.span.start c'.previous.stop)
    (hNext : ∀ found c', c.Onward c' →
      Expr.AllLie (Marks tokens) c.span.start c'.previous.stop found.toList →
        Travels tokens c' (next found) good) :
    Travels tokens c (if absent = true then pure none >>= next else some <$> parser >>= next)
      good := by
  have hNone : Travels tokens c (pure (none : Option Expr)) fun found c' =>
      Expr.AllLie (Marks tokens) c.span.start c'.previous.stop found.toList := .pure .nil
  split
  · exact hNone.bind hNext
  · exact (Goes.map (h.mono fun e c' _ he => .single he)).bind hNext

/-- A subscript that wants nothing but its span. -/
structure SubscriptLies (tokens : List Token) (lo hi : Nat) (make : Span → Expr) : Prop where
  span : ∀ whole, (make whole).span = whole
  children : ∀ whole, SourceNode.AllLie (Marks tokens) lo hi (make whole).children
  tidy : ∀ whole, (SourceNode.expr (make whole)).Tidy (Marks tokens)

mutual

theorem parseExpr_travels : (fuel : Nat) → (c : Cursor) →
    Travels tokens c (parseExpr fuel) fun e c' =>
      e.Lies (Marks tokens) c.span.start c'.previous.stop
  | 0, _ => .exhausted
  | fuel + 1, c => by
      rw [parseExpr]
      exact parseBinary_travels fuel 0 c
termination_by structural fuel => fuel

theorem parseBinary_travels : (fuel level : Nat) → (c : Cursor) →
    Travels tokens c (parseBinary fuel level) fun e c' =>
      e.Lies (Marks tokens) c.span.start c'.previous.stop
  | 0, _, _ => .exhausted
  | fuel + 1, level, c => by
      rw [parseBinary]
      exact (parseUnary_travels fuel c).bind fun left c1 _ hLeft =>
        parseOperators_travels fuel level left c1 _ hLeft
termination_by structural fuel => fuel

/-- Behind a left operand, an operator and a right operand may follow again and again. -/
theorem parseOperators_travels : (fuel level : Nat) → (left : Expr) → (c : Cursor) → (lo : Nat) →
    left.Lies (Marks tokens) lo c.previous.stop →
    Travels tokens c (parseOperators fuel level left) fun e c' =>
      e.Lies (Marks tokens) lo c'.previous.stop
  | 0, _, _, _, _, _ => .exhausted
  | fuel + 1, level, left, c, lo, hLeft => by
      rw [parseOperators]
      apply Goes.kind_bind
      split
      · exact .pure hLeft
      · next opLevel op hOp =>
          split
          · exact .pure hLeft
          · apply (Goes.advance rfl (isReadable_of_binaryOp? hOp) (wantsName_of_binaryOp? hOp)).bind
            rintro _ c1 h1 -
            apply (parseBinary_travels fuel (opLevel + 1) c1).bind
            intro right c2 h2 hRight
            apply Goes.node_bind
            apply parseOperators_travels fuel level _ c2 lo
            -- the operator stands between the operands
            have hApart : left.span.stop ≤ right.span.start := by omega
            exact Expr.lies_of_merge rfl (hLeft.place.merge hRight.place) (by omega)
              (.cons (hLeft.within (by omega) (by omega))
                (.single (hRight.within (by omega) (by omega)))) hApart
termination_by structural fuel => fuel

theorem parseUnary_travels : (fuel : Nat) → (c : Cursor) →
    Travels tokens c (parseUnary fuel) fun e c' =>
      e.Lies (Marks tokens) c.span.start c'.previous.stop
  | 0, _ => .exhausted
  | fuel + 1, c => by
      rw [parseUnary]
      apply Goes.span_bind
      apply Goes.kind_bind
      have hApplied (op : UnaryOp) {kind : TokenKind} (hKind : c.kind = kind)
          (hReadable : kind.isReadable = true) (hClear : kind.wantsName = false) :
          Travels tokens c (do
          let _ ← advance
          let operand ← parseUnary fuel
          node (.unary (c.span.merge operand.span) op operand)) fun e c' =>
            e.Lies (Marks tokens) c.span.start c'.previous.stop := by
        apply (Goes.advance hKind hReadable hClear).bind
        rintro _ c1 h1 ⟨-, p1⟩
        apply (parseUnary_travels fuel c1).bind
        intro operand c2 h2 hOperand
        apply Goes.node
        exact Expr.lies_of_merge rfl (p1.1.merge hOperand.place) (by omega)
          (.single (hOperand.within (by omega) (by omega))) trivial
      split
      · next hKind => exact hApplied .neg hKind rfl rfl
      · next hKind => exact hApplied .not hKind rfl rfl
      · exact parseCtor_travels fuel c
      · exact (parsePrimary_travels fuel c).bind fun operand c1 _ hOperand =>
          parsePostfix_travels fuel operand c1 _ hOperand
termination_by structural fuel => fuel

theorem parseCtor_travels : (fuel : Nat) → (c : Cursor) →
    Travels tokens c (parseCtor fuel) fun e c' =>
      e.Lies (Marks tokens) c.span.start c'.previous.stop
  | 0, _ => .exhausted
  | fuel + 1, c => by
      rw [parseCtor]
      apply Goes.expectAmp.bind
      rintro _ c1 h1 ⟨rfl, p1⟩
      apply Goes.expectIdent.bind
      rintro ⟨name, _⟩ c2 h2 ⟨rfl, p2⟩
      apply Goes.node_bind
      have hBase {hi : Nat} (hHi : c1.span.stop ≤ hi) :
          (Expr.ident c1.span name).Lies (Marks tokens) c1.span.start hi :=
        Expr.lies_leaf p2.1 ⟨Nat.le_refl _, Nat.le_of_lt p2.2.1, hHi⟩ rfl trivial
      have hRest (type : Expr) {c3 : Cursor} (h3 : c2.Onward c3)
          (hType : type.Lies (Marks tokens) c1.span.start c3.previous.stop) : Travels tokens c3 (do
          let _ ← expectSign .lbrace
          let fields ← parseFieldInits fuel
          skipNewlines
          let stop ← expectSign .rbrace
          node (.ctor (c.span.merge stop) type fields)) fun e c' =>
            e.Lies (Marks tokens) c.span.start c'.previous.stop := by
        apply Goes.expectBrace.bind
        intro _ c4 h4 _
        apply (parseFieldInits_travels fuel c4).bind
        intro fields c5 h5 hFields
        apply Goes.skipNewlines.bind
        intro _ c6 h6 _
        apply (Goes.expectSign .rbrace rfl).bind
        rintro _ c7 h7 ⟨rfl, p7⟩
        apply Goes.node
        exact Expr.lies_of_merge rfl (p1.1.merge p7.1) (by omega)
          (.cons (hType.within (by omega) (by omega)) (hFields.mono (by omega) (by omega))) trivial
      apply Goes.eatSign_bind
      · intro c3 h3
        apply (Goes.expectIdent.given fun h => Cursor.atName_of_behind h rfl).bind
        rintro ⟨member, _⟩ c4 h4 ⟨rfl, p4⟩
        apply Goes.node_bind
        refine hRest _ (by omega) ?_
        exact Expr.lies_of_merge rfl (p2.1.merge p4.1) (by omega)
          (.single (hBase (by omega))) trivial
      · exact hRest _ (by omega) (hBase (by omega))
termination_by structural fuel => fuel

theorem parseFieldInits_travels : (fuel : Nat) → (c : Cursor) →
    Goes tokens (AtNaming tokens) (Clear tokens) c (parseFieldInits fuel) fun fields c' =>
      SourceNode.AllLie (Marks tokens) c.span.start c'.previous.stop (fields.map .init)
  | 0, _ => .exhausted
  | fuel + 1, c => by
      rw [parseFieldInits]
      apply Goes.skipNewlines_both.2.bind
      intro _ c1 h1 _
      apply Goes.checkSign_bind
      split
      · exact .given (.pure .nil) And.left
      · apply (Goes.expectIdent.given And.right).bind
        rintro ⟨name, _⟩ c2 h2 ⟨rfl, p2⟩
        apply (Goes.eatSign .colon rfl).bind
        intro _ c3 h3 _
        apply (parseExpr_travels fuel c3).bind
        intro value c4 h4 hValue
        have hField {hi : Nat} (hHi : c4.previous.stop ≤ hi) :
            (SourceNode.init ⟨name, value, c1.span.merge value.span⟩).Lies (Marks tokens)
              c.span.start hi :=
          SourceNode.lies_of_merge rfl (p2.1.merge hValue.place) (by omega)
            (.single (hValue.within (by omega) (by omega))) trivial
        apply Goes.skipNewlines.bind
        intro _ c5 h5 _
        apply Goes.eatSign_bind
        · intro c6 h6
          apply ((parseFieldInits_travels fuel c6).given fun h =>
            ⟨Cursor.clear_of_behind h rfl, Cursor.atName_of_behind h rfl⟩).bind
          intro others c7 h7 hOthers
          exact .pure (.cons (hField (by omega)) (hOthers.mono (by omega) (Nat.le_refl _)))
        · exact .pure (.single (hField (by omega)))
termination_by structural fuel => fuel

/-- What follows an operand is read behind it and becomes part of the whole. -/
theorem parsePostfix_travels : (fuel : Nat) → (operand : Expr) → (c : Cursor) → (lo : Nat) →
    operand.Lies (Marks tokens) lo c.previous.stop →
    Travels tokens c (parsePostfix fuel operand) fun e c' =>
      e.Lies (Marks tokens) lo c'.previous.stop
  | 0, _, _, _, _ => .exhausted
  | fuel + 1, operand, c, lo, hOperand => by
      rw [parsePostfix]
      apply Goes.kind_bind
      split
      · next hKind =>
          apply (Goes.advance hKind rfl rfl).bind
          rintro _ c1 h1 -
          apply (parseArgs_travels fuel c1).bind
          intro args c2 h2 hArgs
          apply (Goes.expectSign .rparen rfl).bind
          rintro _ c3 h3 ⟨rfl, p3⟩
          apply Goes.node_bind
          apply parsePostfix_travels fuel _ c3 lo
          exact Expr.lies_of_merge rfl (hOperand.place.merge p3.1) (by omega)
            (.cons (hOperand.within (by omega) (by omega))
              (hArgs.mono (by omega) (by omega))) trivial
      · next hKind =>
          apply (Goes.advance hKind rfl rfl).bind
          rintro _ c1 h1 -
          apply (parseSubscript_travels fuel operand c1 _
            (hOperand.within (Nat.le_refl _) (by omega)) (by omega)).bind
          intro subscript c2 h2 hSubscript
          apply (Goes.expectSign .rbracket rfl).bind
          rintro _ c3 h3 ⟨rfl, p3⟩
          apply Goes.node_bind
          apply parsePostfix_travels fuel _ c3 lo
          exact Expr.lies_of_merge (hSubscript.span _) (hOperand.place.merge p3.1) (by omega)
            ((hSubscript.children _).mono (Nat.le_refl _) (by omega)) (hSubscript.tidy _)
      · next hKind =>
          apply (Goes.advance_name hKind rfl rfl).bind
          rintro _ c1 h1 -
          apply Goes.expectIdent.bind
          rintro ⟨member, _⟩ c2 h2 ⟨rfl, p2⟩
          apply Goes.node_bind
          apply parsePostfix_travels fuel _ c2 lo
          exact Expr.lies_of_merge rfl (hOperand.place.merge p2.1) (by omega)
            (.single (hOperand.within (by omega) (by omega))) trivial
      · exact .pure hOperand
termination_by structural fuel => fuel

theorem parseSubscript_travels : (fuel : Nat) → (receiver : Expr) → (c : Cursor) → (lo : Nat) →
    receiver.Lies (Marks tokens) lo c.previous.stop → lo ≤ c.span.start →
    Travels tokens c (parseSubscript fuel receiver) fun make c' =>
      SubscriptLies tokens lo c'.previous.stop make
  | 0, _, _, _, _, _ => .exhausted
  | fuel + 1, receiver, c, lo, hReceiver, hLo => by
      rw [parseSubscript]
      apply Goes.skipNewlines.bind
      intro _ c1 h1 _
      apply Goes.checkSign_bind
      apply optional_travels _ (parseExpr_travels fuel c1)
      intro low c2 h2 hLow
      apply Goes.skipNewlines.bind
      intro _ c3 h3 _
      apply (Goes.eatSign .colon rfl).bind
      intro sliced c4 h4 _
      split
      · apply Goes.skipNewlines.bind
        intro _ c5 h5 _
        apply Goes.checkSign_bind
        apply optional_travels _ (parseExpr_travels fuel c5)
        intro high c6 h6 hHigh
        apply Goes.skipNewlines.bind
        intro _ c7 h7 _
        refine .pure ⟨fun _ => rfl, fun _ => ?_, fun _ => trivial⟩
        have hBounds : Expr.AllLie (Marks tokens) lo c7.previous.stop (low.toList ++ high.toList) :=
          .append (hLow.mono (by omega) (by omega)) (hHigh.mono (by omega) (by omega))
        exact .cons (hReceiver.within (by omega) (by omega)) hBounds
      · split
        · exact .pure ⟨fun _ => rfl, fun _ => .cons (hReceiver.within (by omega) (by omega))
            (hLow.mono (by omega) (by omega)), fun _ => trivial⟩
        · exact .unexpected
termination_by structural fuel => fuel

theorem parseArgs_travels : (fuel : Nat) → (c : Cursor) →
    Travels tokens c (parseArgs fuel) fun args c' =>
      Expr.AllLie (Marks tokens) c.span.start c'.previous.stop args.1
  | 0, _ => .exhausted
  | fuel + 1, c => by
      rw [parseArgs]
      apply Goes.skipNewlines.bind
      intro _ c1 h1 _
      apply Goes.checkSign_bind
      split
      · exact .pure .nil
      · apply (parseExpr_travels fuel c1).bind
        intro arg c2 h2 hArg
        apply (Goes.eatSign .ellipsis rfl).bind
        intro spread c3 h3 _
        split
        · apply (Goes.eatSign .comma rfl).bind
          intro _ c4 h4 _
          apply Goes.skipNewlines.bind
          intro _ c5 h5 _
          exact .pure (.single (hArg.within (by omega) (by omega)))
        · apply Goes.skipNewlines.bind
          intro _ c4 h4 _
          apply (Goes.eatSign .comma rfl).bind
          intro more c5 h5 _
          split
          · apply (parseArgs_travels fuel c5).bind
            intro others c6 h6 hOthers
            exact .pure (.cons (hArg.within (by omega) (by omega))
              (hOthers.mono (by omega) (Nat.le_refl _)))
          · exact .pure (.single (hArg.within (by omega) (by omega)))
termination_by structural fuel => fuel

theorem parsePrimary_travels : (fuel : Nat) → (c : Cursor) →
    Travels tokens c (parsePrimary fuel) fun e c' =>
      e.Lies (Marks tokens) c.span.start c'.previous.stop
  | 0, _ => .exhausted
  | fuel + 1, c => by
      rw [parsePrimary]
      apply Goes.span_bind
      apply Goes.kind_bind
      have hLeaf (e : Expr) {kind : TokenKind} (hKind : c.kind = kind)
          (hReadable : kind.isReadable = true) (hClear : kind.wantsName = false)
          (hSpan : e.span = c.span) (hChildren : e.children = [])
          (hTidy : (SourceNode.expr e).Tidy (Marks tokens)) : Travels tokens c (do
          let _ ← advance
          node e) fun e c' => e.Lies (Marks tokens) c.span.start c'.previous.stop := by
        apply (Goes.advance hKind hReadable hClear).bind
        rintro _ c1 h1 ⟨-, p1⟩
        apply Goes.node
        refine Expr.lies_leaf (hSpan ▸ p1.1) ?_ hChildren hTidy
        rw [hSpan]
        omega
      split
      · next hKind => exact hLeaf _ hKind rfl rfl rfl rfl trivial
      · next hKind => exact hLeaf _ hKind rfl rfl rfl rfl trivial
      · next hKind => exact hLeaf _ hKind rfl rfl rfl rfl trivial
      · next hKind => exact hLeaf _ hKind rfl rfl rfl rfl trivial
      · next hKind =>
          apply (Goes.advance hKind rfl rfl).bind
          rintro _ c1 h1 -
          apply Goes.skipNewlines.bind
          intro _ c2 h2 _
          apply (parseExpr_travels fuel c2).bind
          intro inner c3 h3 hInner
          apply Goes.skipNewlines.bind
          intro _ c4 h4 _
          apply (Goes.expectSign .rparen rfl).bind
          intro _ c5 h5 _
          exact .pure (hInner.within (by omega) (by omega))
      · next fault hKind =>
          refine .fail fun hc hClear => hc.reported rfl hClear fun fault' hKind' => ?_
          cases hKind.symm.trans hKind'
          exact ⟨rfl, rfl⟩
      · next hNone =>
          split
          · exact parseType_travels fuel c
          · exact .fail fun hc hClear => hc.reported rfl hClear fun fault hKind =>
              absurd hKind (hNone fault)
termination_by structural fuel => fuel

end

theorem parseExprs_travels (fuel : Nat) (c : Cursor) :
    Travels tokens c (parseExprs fuel) fun es c' =>
      Expr.AllLie (Marks tokens) c.span.start c'.previous.stop es := by
  induction fuel generalizing c with
  | zero => exact .exhausted
  | succ fuel ih =>
      rw [parseExprs]
      apply (parseExpr_travels fuel c).bind
      intro first c1 h1 hFirst
      apply (Goes.eatSign .comma rfl).bind
      intro more c2 h2 _
      split
      · apply (ih c2).bind
        intro others c3 h3 hOthers
        exact .pure (.cons (hFirst.within (by omega) (by omega))
          (hOthers.mono (by omega) (Nat.le_refl _)))
      · exact .pure (.single (hFirst.within (by omega) (by omega)))

end Grammar

end GoToC
