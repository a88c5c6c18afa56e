import GoToC.Proofs.Grammar.ExprRules
import GoToC.Proofs.Grammar.WrittenTypes

/-!
# Reading written expressions

The rules for expressions read a tree back from the tokens that it is written with. What is
said of an expression is said for each place that it may stand in: as an operand of binary
operators, as one of unary operators, and as a receiver, where more follows it.
-/

namespace GoToC

variable {good : Expr → Cursor → Prop} {e type position receiver receiver' : Expr}
  {kind : TokenKind} {span : Span} {level : Nat} {fields : List (FieldInit Expr)}
  {kinds : List TokenKind} {lo hi : Option Expr}

variable {follow : Token} {later : List Token} {c : Cursor} {rest : List TokenKind} {fuel : Nat}

namespace Grammar

/-- Whether a token can begin an expression. -/
def startsExpr : TokenKind → Bool
  | .int _ | .str _ | .ident _ => true
  | .punct .minus | .punct .bang | .punct .amp | .punct .lparen => true
  | .punct .star | .punct .lbracket => true
  | .keyword .map | .keyword .struct | .keyword .interface => true
  | _ => false

/-- Whether an expression goes on with a token: as a receiver or as a left operand. -/
def continuesExpr : TokenKind → Bool
  | .punct .lparen | .punct .lbracket | .punct .dot => true
  | kind => (binaryOp? kind).isSome

/-- No receiver goes on with the token. -/
def EndsReceiver (kind : TokenKind) : Prop :=
  kind ≠ .punct .lparen ∧ kind ≠ .punct .lbracket ∧ kind ≠ .punct .dot

/-- No expression goes on with the token in a place that asks for the given level. -/
def EndsAt (level : Nat) (kind : TokenKind) : Prop :=
  EndsReceiver kind ∧ ∀ opLevel op, binaryOp? kind = some (opLevel, op) → opLevel < level

theorem EndsAt.mono {level higher : Nat} {kind : TokenKind} (h : EndsAt level kind)
    (hLevel : level ≤ higher) : EndsAt higher kind :=
  ⟨h.1, fun opLevel op hOp => Nat.lt_of_lt_of_le (h.2 opLevel op hOp) hLevel⟩

theorem endsAt_zero (h : continuesExpr kind = false) : EndsAt 0 kind := by
  refine ⟨⟨?_, ?_, ?_⟩, fun opLevel op hOp => ?_⟩
  · rintro rfl
    cases h
  · rintro rfl
    cases h
  · rintro rfl
    cases h
  · unfold continuesExpr at h
    split at h
    · cases h
    · cases h
    · cases h
    · simp [hOp] at h

theorem endsAt_sign (op : BinaryOp) : EndsAt (op.level + 1) (.punct op.sign) := by
  refine ⟨by cases op <;> simp [EndsReceiver, BinaryOp.sign], fun opLevel op' hOp => ?_⟩
  rw [binaryOp?_sign] at hOp
  cases hOp
  exact Nat.lt_succ_self _

end Grammar

open Grammar

theorem Expr.level_le (e : Expr) : e.level ≤ receiverLevel := by
  cases e with
  | binary span op left right =>
      have hLevel := op.level_lt
      simp only [Expr.level, receiverLevel, unaryLevel] at hLevel ⊢
      omega
  | _ => simp [Expr.level, receiverLevel, unaryLevel, typeLevel]

theorem enclosed_cons {needed : Bool} (hKind : startsExpr kind = true) (others : List TokenKind) :
    ∃ first tail, enclosed needed (kind :: kinds) ++ others = first :: tail ∧
      startsExpr first = true := by
  cases needed with
  | true => exact ⟨_, _, rfl, rfl⟩
  | false => exact ⟨_, _, rfl, hKind⟩

/-- An expression starts like one. -/
theorem Expr.written_cons : (e : Expr) → e.Built →
    ∃ kind kinds, e.written = kind :: kinds ∧ startsExpr kind = true
  | .int .., _ => ⟨_, _, rfl, rfl⟩
  | .str .., _ => ⟨_, _, rfl, rfl⟩
  | .ident .., _ => ⟨_, _, rfl, rfl⟩
  | .unary _ op _, _ => ⟨_, _, rfl, by cases op <;> rfl⟩
  | .ctor .., _ => ⟨_, _, rfl, rfl⟩
  | .pointerType .., _ => ⟨_, _, rfl, rfl⟩
  | .sliceType .., _ => ⟨_, _, rfl, rfl⟩
  | .mapType .., _ => ⟨_, _, rfl, rfl⟩
  | .structType .., _ => ⟨_, _, rfl, rfl⟩
  | .interfaceType .., _ => ⟨_, _, rfl, rfl⟩
  | .binary _ op left right, h => by
      rw [Expr.Built] at h
      obtain ⟨kind, kinds, hWritten, hKind⟩ := left.written_cons h.1
      rw [Expr.written, hWritten]
      exact enclosed_cons hKind _
  | .call _ callee args spread, h => by
      rw [Expr.Built] at h
      obtain ⟨kind, kinds, hWritten, hKind⟩ := callee.written_cons h.1
      rw [Expr.written, hWritten]
      exact enclosed_cons hKind _
  | .dot _ receiver member, h => by
      rw [Expr.Built] at h
      obtain ⟨kind, kinds, hWritten, hKind⟩ := receiver.written_cons h
      rw [Expr.written, hWritten]
      exact enclosed_cons hKind _
  | .index _ receiver _, h => by
      rw [Expr.Built] at h
      obtain ⟨kind, kinds, hWritten, hKind⟩ := receiver.written_cons h.1
      rw [Expr.written, hWritten]
      exact enclosed_cons hKind _
  | .slice _ receiver lo hi, h => by
      rw [Expr.Built] at h
      obtain ⟨kind, kinds, hWritten, hKind⟩ := receiver.written_cons h.1
      rw [Expr.written, hWritten]
      exact enclosed_cons hKind _

namespace Grammar

/-- An expression is read back in every place that it may stand in without parentheses. -/
structure Rereads (follow : Token) (later : List Token) (e : Expr) : Prop where
  starts : ∃ kind kinds, e.written = kind :: kinds ∧ startsExpr kind = true
  /-- As a left operand, further operators being read after it. -/
  binary : ∀ {level fuel : Nat} {c : Cursor} {rest : List TokenKind}
    {good : Expr → Cursor → Prop}, level ≤ e.level → c.Ahead follow later (e.written ++ rest) →
    EndsAt (e.level + 1) (rest.headD follow.kind) →
    (∀ {fuel c e'}, Regained follow later rest e e' c →
      Gives (· = .exhausted) c (parseOperators fuel level e') good) →
    Gives (· = .exhausted) c (parseBinary fuel level) good
  unary : unaryLevel ≤ e.level → ∀ {fuel : Nat} {c : Cursor} {rest : List TokenKind},
    c.Ahead follow later (e.written ++ rest) → EndsReceiver (rest.headD follow.kind) →
    Gives (· = .exhausted) c (parseUnary fuel) (Regained follow later rest e)
  /-- As a receiver, with what may follow it. -/
  receiver : e.level = receiverLevel → ∀ {fuel : Nat} {c : Cursor} {rest : List TokenKind}
    {good : Expr → Cursor → Prop}, c.Ahead follow later (e.written ++ rest) →
    (∀ {fuel c e'}, Regained follow later rest e e' c →
      Gives (· = .exhausted) c (parsePostfix fuel e') good) →
    Gives (· = .exhausted) c (parseUnary fuel) good

/-! ## Where nothing goes on -/

theorem parsePostfix_ends (hKind : EndsReceiver c.kind) (h : good e c) :
    Gives (· = .exhausted) c (parsePostfix fuel e) good := by
  obtain ⟨hCall, hIndex, hDot⟩ := hKind
  cases fuel with
  | zero => exact .exhausted
  | succ fuel =>
      rw [parsePostfix]
      refine .kind_bind ?_
      split
      · next hKind => exact absurd hKind hCall
      · next hKind => exact absurd hKind hIndex
      · next hKind => exact absurd hKind hDot
      · exact .pure h

theorem parseOperators_ends (hKind : EndsAt level c.kind) (h : good e c) :
    Gives (· = .exhausted) c (parseOperators fuel level e) good := by
  cases fuel with
  | zero => exact .exhausted
  | succ fuel =>
      rw [parseOperators]
      refine .kind_bind ?_
      cases hOp : binaryOp? c.kind with
      | none => exact .pure h
      | some found =>
          obtain ⟨opLevel, op⟩ := found
          dsimp only
          rw [if_pos (hKind.2 opLevel op hOp)]
          exact .pure h

/-- An operand of binary operators may be one of unary operators. -/
theorem parseBinary_of_unary
    (h : ∀ {fuel}, Gives (· = .exhausted) c (parseUnary fuel) (Regained follow later rest e))
    (hNext : ∀ {fuel c e'}, Regained follow later rest e e' c →
      Gives (· = .exhausted) c (parseOperators fuel level e') good) :
    Gives (· = .exhausted) c (parseBinary fuel level) good := by
  cases fuel with
  | zero => exact .exhausted
  | succ fuel =>
      rw [parseBinary]
      exact h.bind fun e' c' hRegained => hNext hRegained

/-- What starts with no sign of a unary operator is an operand with what follows it. -/
theorem parseUnary_of_primary
    (hKind : c.kind ≠ .punct .minus ∧ c.kind ≠ .punct .bang ∧ c.kind ≠ .punct .amp)
    (h : ∀ {fuel}, Gives (· = .exhausted) c (parsePrimary fuel) fun e' c' =>
      ∀ {fuel}, Gives (· = .exhausted) c' (parsePostfix fuel e') good) :
    Gives (· = .exhausted) c (parseUnary fuel) good := by
  cases fuel with
  | zero => exact .exhausted
  | succ fuel =>
      rw [parseUnary]
      refine .span_bind (.kind_bind ?_)
      split
      · next hMinus => exact absurd hMinus hKind.1
      · next hBang => exact absurd hBang hKind.2.1
      · next hAmp => exact absurd hAmp hKind.2.2
      · exact h.bind fun e' c' hNext => hNext

namespace Rereads

variable {e : Expr}

theorem of_binary (hStarts : ∃ kind kinds, e.written = kind :: kinds ∧ startsExpr kind = true)
    (hLevel : e.level < unaryLevel)
    (h : ∀ {level fuel : Nat} {c : Cursor} {rest : List TokenKind} {good : Expr → Cursor → Prop},
      level ≤ e.level → c.Ahead follow later (e.written ++ rest) →
      EndsAt (e.level + 1) (rest.headD follow.kind) →
      (∀ {fuel c e'}, Regained follow later rest e e' c →
        Gives (· = .exhausted) c (parseOperators fuel level e') good) →
      Gives (· = .exhausted) c (parseBinary fuel level) good) : Rereads follow later e where
  starts := hStarts
  binary := h
  unary hUnary := absurd hLevel (Nat.not_lt.mpr hUnary)
  receiver hReceiver := by
    rw [hReceiver] at hLevel
    exact absurd hLevel (by decide)

theorem of_unary (hStarts : ∃ kind kinds, e.written = kind :: kinds ∧ startsExpr kind = true)
    (hLevel : e.level ≠ receiverLevel) (h : ∀ {fuel : Nat} {c : Cursor} {rest : List TokenKind},
      c.Ahead follow later (e.written ++ rest) → EndsReceiver (rest.headD follow.kind) →
      Gives (· = .exhausted) c (parseUnary fuel) (Regained follow later rest e)) :
    Rereads follow later e where
  starts := hStarts
  binary _ hAhead hEnds hNext := parseBinary_of_unary (h hAhead hEnds.1) hNext
  unary _ _ _ _ hAhead hEnds := h hAhead hEnds
  receiver hReceiver := absurd hReceiver hLevel

theorem of_receiver (hStarts : ∃ kind kinds, e.written = kind :: kinds ∧ startsExpr kind = true)
    (h : ∀ {fuel : Nat} {c : Cursor} {rest : List TokenKind} {good : Expr → Cursor → Prop},
      c.Ahead follow later (e.written ++ rest) →
      (∀ {fuel c e'}, Regained follow later rest e e' c →
        Gives (· = .exhausted) c (parsePostfix fuel e') good) →
      Gives (· = .exhausted) c (parseUnary fuel) good) : Rereads follow later e := by
  have hUnary {fuel : Nat} {c : Cursor} {rest : List TokenKind}
      (hAhead : c.Ahead follow later (e.written ++ rest))
      (hEnds : EndsReceiver (rest.headD follow.kind)) :
      Gives (· = .exhausted) c (parseUnary fuel) (Regained follow later rest e) := by
    refine h hAhead fun hRegained => parsePostfix_ends ?_ hRegained
    rwa [hRegained.2.kind_eq]
  exact {
    starts := hStarts
    binary := fun _ hAhead hEnds hNext => parseBinary_of_unary (hUnary hAhead hEnds.1) hNext
    unary := fun _ _ _ _ hAhead hEnds => hUnary hAhead hEnds
    receiver := fun _ _ _ _ _ hAhead hNext => h hAhead hNext }

/-! ## Places -/

theorem starts_ne (h : Rereads follow later e) (hAhead : c.Ahead follow later (e.written ++ rest))
    (hKind : startsExpr kind = false) : c.kind ≠ kind := by
  obtain ⟨first, kinds, hWritten, hFirst⟩ := h.starts
  rw [hAhead.kind_eq, hWritten, List.cons_append, List.headD_cons]
  rintro rfl
  simp [hKind] at hFirst

theorem expr (h : Rereads follow later e) (hAhead : c.Ahead follow later (e.written ++ rest))
    (hEnds : EndsAt 0 (rest.headD follow.kind)) :
    Gives (· = .exhausted) c (parseExpr fuel) (Regained follow later rest e) := by
  cases fuel with
  | zero => exact .exhausted
  | succ fuel =>
      rw [parseExpr]
      refine h.binary (Nat.zero_le _) hAhead (hEnds.mono (Nat.zero_le _)) fun hRegained => ?_
      exact parseOperators_ends (by rwa [hRegained.2.kind_eq]) hRegained

/-- In parentheses an expression is a receiver. -/
theorem parens (h : Rereads follow later e)
    (hAhead : c.Ahead follow later (.punct .lparen :: (e.written ++ .punct .rparen :: rest)))
    (hNext : ∀ {fuel c e'}, Regained follow later rest e e' c →
      Gives (· = .exhausted) c (parsePostfix fuel e') good) :
    Gives (· = .exhausted) c (parseUnary fuel) good := by
  have hKind : c.kind = .punct .lparen := hAhead.kind_eq
  refine parseUnary_of_primary (by simp [hKind]) fun {fuel} => ?_
  cases fuel with
  | zero => exact .exhausted
  | succ fuel =>
      rw [parsePrimary]
      refine .span_bind (.kind_bind ?_)
      rw [hKind]
      refine .advance hAhead (by simp) fun _ c1 h1 => ?_
      refine .skipNewlines (h.starts_ne h1 rfl) ?_
      refine (h.expr h1 (endsAt_zero rfl)).bind fun e' c2 h2 => ?_
      have hClose : c2.kind = .punct .rparen := h2.2.kind_eq
      refine .skipNewlines (by simp [hClose]) ?_
      exact .expectSign h2.2 fun _ c3 h3 => .pure (hNext ⟨h2.1, h3⟩)

theorem enclosed_receiver (h : Rereads follow later e)
    (hAhead : c.Ahead follow later (enclosed (e.level < receiverLevel) e.written ++ rest))
    (hNext : ∀ {fuel c e'}, Regained follow later rest e e' c →
      Gives (· = .exhausted) c (parsePostfix fuel e') good) :
    Gives (· = .exhausted) c (parseUnary fuel) good := by
  by_cases hLevel : e.level < receiverLevel
  · rw [enclosed, if_pos (by simpa using hLevel), List.cons_append, List.append_assoc] at hAhead
    exact h.parens hAhead hNext
  · rw [enclosed, if_neg (by simpa using hLevel)] at hAhead
    exact h.receiver (Nat.le_antisymm e.level_le (Nat.not_lt.mp hLevel)) hAhead hNext

theorem enclosed_unary (h : Rereads follow later e)
    (hAhead : c.Ahead follow later (enclosed (e.level < unaryLevel) e.written ++ rest))
    (hEnds : EndsReceiver (rest.headD follow.kind)) :
    Gives (· = .exhausted) c (parseUnary fuel) (Regained follow later rest e) := by
  by_cases hLevel : e.level < unaryLevel
  · rw [enclosed, if_pos (by simpa using hLevel), List.cons_append, List.append_assoc] at hAhead
    refine h.parens hAhead fun hRegained => parsePostfix_ends ?_ hRegained
    rwa [hRegained.2.kind_eq]
  · rw [enclosed, if_neg (by simpa using hLevel)] at hAhead
    exact h.unary (Nat.not_lt.mp hLevel) hAhead hEnds

/-- An operand of a binary operator, read from a place of the same level or a lower one. -/
theorem enclosed_binary (h : Rereads follow later e) {place : Nat} (hPlace : place ≤ level)
    (hAhead : c.Ahead follow later (enclosed (e.level < level) e.written ++ rest))
    (hEnds : EndsAt (level + 1) (rest.headD follow.kind))
    (hNext : ∀ {fuel c e'}, Regained follow later rest e e' c →
      Gives (· = .exhausted) c (parseOperators fuel place e') good) :
    Gives (· = .exhausted) c (parseBinary fuel place) good := by
  by_cases hLevel : e.level < level
  · rw [enclosed, if_pos (by simpa using hLevel), List.cons_append, List.append_assoc] at hAhead
    refine parseBinary_of_unary (h.parens hAhead fun hRegained => ?_) hNext
    refine parsePostfix_ends ?_ hRegained
    rw [hRegained.2.kind_eq]
    exact hEnds.1
  · rw [enclosed, if_neg (by simpa using hLevel)] at hAhead
    rw [Nat.not_lt] at hLevel
    exact h.binary (by omega) hAhead (hEnds.mono (by omega)) hNext

end Rereads

/-! ## Arguments, bounds and field values -/

def ArgsReread (follow : Token) (later : List Token) (args : List Expr) : Prop :=
  ∀ {fuel : Nat} {c : Cursor} {rest : List TokenKind} (spread : Bool),
    (spread = true → args ≠ []) →
    c.Ahead follow later (argsWritten args
      ++ ((if spread then [.punct .ellipsis] else []) ++ .punct .rparen :: rest)) →
    Gives (· = .exhausted) c (parseArgs fuel) fun found c' =>
      bareExprs found.1 = bareExprs args ∧ found.2 = spread ∧
        c'.Ahead follow later (.punct .rparen :: rest)

theorem argsReread_nil : ArgsReread follow later [] := by
  intro fuel c rest spread hSpread h
  have hPlain : spread = false := by
    by_contra hDots
    exact hSpread (by simpa using hDots) rfl
  subst hPlain
  have hKind : c.kind = .punct .rparen := h.kind_eq
  cases fuel with
  | zero => exact .exhausted
  | succ fuel =>
      rw [parseArgs]
      refine .skipNewlines (by simp [hKind]) (.checkSign_true hKind ?_)
      exact .pure ⟨rfl, rfl, h⟩

theorem ArgsReread.cons {e : Expr} {others : List Expr} (he : Rereads follow later e)
    (hOthers : ArgsReread follow later others) : ArgsReread follow later (e :: others) := by
  intro fuel c rest spread _ h
  rw [argsWritten, List.append_assoc, List.append_assoc] at h
  cases fuel with
  | zero => exact .exhausted
  | succ fuel =>
      rw [parseArgs]
      refine .skipNewlines (he.starts_ne h rfl) (.checkSign_false (he.starts_ne h rfl) ?_)
      cases others with
      | cons next others =>
          refine (he.expr h (endsAt_zero rfl)).bind fun arg c1 h1 => ?_
          have hKind : c1.kind = .punct .comma := h1.2.kind_eq
          refine .eatSign_false (by simp [hKind]) (.skipNewlines (by simp [hKind]) ?_)
          refine .eatSign_true h1.2 fun c2 h2 => ?_
          refine (hOthers spread (by simp) h2).bind fun found c3 h3 => .pure ⟨?_, h3.2⟩
          rw [bareExprs, bareExprs, h1.1, h3.1]
      | nil =>
          rw [commaBefore, argsWritten, List.nil_append, List.nil_append] at h
          cases spread with
          | true =>
              refine (he.expr h (endsAt_zero rfl)).bind fun arg c1 h1 => ?_
              refine .eatSign_true h1.2 fun c2 h2 => ?_
              have hKind : c2.kind = .punct .rparen := h2.kind_eq
              refine .eatSign_false (by simp [hKind]) (.skipNewlines (by simp [hKind]) ?_)
              exact .pure ⟨by simp [bareExprs, h1.1], rfl, h2⟩
          | false =>
              refine (he.expr h (endsAt_zero rfl)).bind fun arg c1 h1 => ?_
              have hKind : c1.kind = .punct .rparen := h1.2.kind_eq
              refine .eatSign_false (by simp [hKind]) (.skipNewlines (by simp [hKind]) ?_)
              refine .eatSign_false (by simp [hKind]) ?_
              exact .pure ⟨by simp [bareExprs, h1.1], rfl, h1.2⟩

/-- A bound is read unless the sign stands there that may follow it. -/
theorem bound_bind {β : Type} {bound : Option Expr} {sign : Punct} {close : TokenKind}
    {next : Option Expr → Parser β} {good : β → Cursor → Prop}
    (hBound : ∀ e ∈ bound, Rereads follow later e) (hSign : startsExpr (.punct sign) = false)
    (hClose : continuesExpr close = false) (hNone : bound = none → close = .punct sign)
    (h : c.Ahead follow later (boundWritten bound ++ close :: rest))
    (hNext : ∀ found c', bareOptExpr found = bareOptExpr bound →
      c'.Ahead follow later (close :: rest) → Gives (· = .exhausted) c' (next found) good) :
    Gives (· = .exhausted) c (do
      if ← checkSign sign then pure none >>= next else some <$> parseExpr fuel >>= next) good := by
  cases bound with
  | none =>
      have hKind : c.kind = .punct sign := by rw [← hNone rfl]; exact h.kind_eq
      refine .checkSign_true hKind ?_
      exact hNext none c rfl h
  | some e =>
      have he := hBound e rfl
      refine .checkSign_false (he.starts_ne h hSign) ?_
      have hRead : Gives (· = .exhausted) c (some <$> parseExpr fuel) fun found c' =>
          bareOptExpr found = bareOptExpr (some e) ∧ c'.Ahead follow later (close :: rest) := by
        refine .map ((he.expr h (endsAt_zero hClose)).mono fun e' c' hRegained => ?_)
        exact ⟨by rw [bareOptExpr, bareOptExpr, hRegained.1], hRegained.2⟩
      exact hRead.bind fun found c' hFound => hNext found c' hFound.1 hFound.2

theorem parseSubscript_index (hPosition : Rereads follow later position)
    (hReceiver : receiver'.bare = receiver.bare)
    (h : c.Ahead follow later (position.written ++ .punct .rbracket :: rest)) :
    Gives (· = .exhausted) c (parseSubscript fuel receiver') fun subscript c' =>
      (∀ whole, (subscript whole).bare = .index .nowhere receiver.bare position.bare) ∧
        c'.Ahead follow later (.punct .rbracket :: rest) := by
  cases fuel with
  | zero => exact .exhausted
  | succ fuel =>
      rw [parseSubscript]
      refine .skipNewlines (hPosition.starts_ne h rfl) ?_
      have hBound : ∀ e ∈ some position, Rereads follow later e := by simpa using hPosition
      refine bound_bind hBound rfl rfl (by simp) h fun found c1 hFound h1 => ?_
      have hKind : c1.kind = .punct .rbracket := h1.kind_eq
      refine .skipNewlines (by simp [hKind]) (.eatSign_false (by simp [hKind]) ?_)
      cases found with
      | none => simp [bareOptExpr] at hFound
      | some position' =>
          refine .pure ⟨fun whole => ?_, h1⟩
          rw [bareOptExpr, bareOptExpr, Option.some.injEq] at hFound
          rw [Expr.bare, hReceiver, hFound]

theorem parseSubscript_slice (hLo : ∀ e ∈ lo, Rereads follow later e)
    (hHi : ∀ e ∈ hi, Rereads follow later e) (hReceiver : receiver'.bare = receiver.bare)
    (h : c.Ahead follow later
      (boundWritten lo ++ .punct .colon :: (boundWritten hi ++ .punct .rbracket :: rest))) :
    Gives (· = .exhausted) c (parseSubscript fuel receiver') fun subscript c' =>
      (∀ whole, (subscript whole).bare =
        .slice .nowhere receiver.bare (bareOptExpr lo) (bareOptExpr hi)) ∧
        c'.Ahead follow later (.punct .rbracket :: rest) := by
  have hNewline {bound : Option Expr} {sign : Punct} {c : Cursor} {rest : List TokenKind}
      (hBound : ∀ e ∈ bound, Rereads follow later e)
      (h : c.Ahead follow later (boundWritten bound ++ .punct sign :: rest)) :
      c.kind ≠ .newline := by
    cases bound with
    | none => simp [h.kind_eq, boundWritten]
    | some e => exact (hBound e rfl).starts_ne h rfl
  cases fuel with
  | zero => exact .exhausted
  | succ fuel =>
      rw [parseSubscript]
      refine .skipNewlines (hNewline hLo h) ?_
      refine bound_bind hLo rfl rfl (fun _ => rfl) h fun lo' c1 hLo' h1 => ?_
      have hKind : c1.kind = .punct .colon := h1.kind_eq
      refine .skipNewlines (by simp [hKind]) (.eatSign_true h1 fun c2 h2 => ?_)
      refine .skipNewlines (hNewline hHi h2) ?_
      refine bound_bind hHi rfl rfl (fun _ => rfl) h2 fun hi' c3 hHi' h3 => ?_
      have hKind : c3.kind = .punct .rbracket := h3.kind_eq
      refine .skipNewlines (by simp [hKind]) (.pure ⟨fun whole => ?_, h3⟩)
      rw [Expr.bare, hReceiver, hLo', hHi']

def InitsReread (follow : Token) (later : List Token) (fields : List (FieldInit Expr)) : Prop :=
  ∀ {fuel : Nat} {c : Cursor} {rest : List TokenKind},
    c.Ahead follow later (initsWritten fields ++ .punct .rbrace :: rest) →
    Gives (· = .exhausted) c (parseFieldInits fuel) fun fields' c' =>
      bareInits fields' = bareInits fields ∧ c'.Ahead follow later (.punct .rbrace :: rest)

theorem initsReread_nil : InitsReread follow later [] := by
  intro fuel c rest h
  have hKind : c.kind = .punct .rbrace := h.kind_eq
  cases fuel with
  | zero => exact .exhausted
  | succ fuel =>
      rw [parseFieldInits]
      refine .skipNewlines (by simp [hKind]) (.checkSign_true hKind ?_)
      exact .pure ⟨rfl, h⟩

theorem InitsReread.cons {name : String} {value : Expr} {span : Span}
    {others : List (FieldInit Expr)} (hValue : Rereads follow later value)
    (hOthers : InitsReread follow later others) :
    InitsReread follow later (⟨name, value, span⟩ :: others) := by
  intro fuel c rest h
  rw [initsWritten, List.cons_append, List.cons_append, List.append_assoc, List.append_assoc] at h
  have hKind : c.kind = .ident name := h.kind_eq
  cases fuel with
  | zero => exact .exhausted
  | succ fuel =>
      rw [parseFieldInits]
      refine .skipNewlines (by simp [hKind]) (.checkSign_false (by simp [hKind]) ?_)
      refine .expectIdent h fun _ c1 h1 => .eatSign_true h1 fun c2 h2 => ?_
      cases others with
      | cons next others =>
          refine (hValue.expr h2 (endsAt_zero rfl)).bind fun value' c3 h3 => ?_
          have hKind : c3.kind = .punct .comma := h3.2.kind_eq
          refine .skipNewlines (by simp [hKind]) (.eatSign_true h3.2 fun c4 h4 => ?_)
          refine (hOthers h4).bind fun others' c5 h5 => .pure ⟨?_, h5.2⟩
          rw [bareInits, bareInits, h3.1, h5.1]
      | nil =>
          refine (hValue.expr h2 (endsAt_zero rfl)).bind fun value' c3 h3 => ?_
          have hKind : c3.kind = .punct .rbrace := h3.2.kind_eq
          refine .skipNewlines (by simp [hKind]) (.eatSign_false (by simp [hKind]) ?_)
          exact .pure ⟨by simp [bareInits, h3.1], h3.2⟩

/-! ## Forms of expressions -/

/-- A token that is an operand by itself. -/
theorem rereads_token (hWritten : e.written = [kind])
    (hKind : startsExpr kind = true ∧ kind ≠ .punct .minus ∧ kind ≠ .punct .bang ∧
      kind ≠ .punct .amp)
    (h : ∀ {fuel : Nat} {c : Cursor} {rest : List TokenKind}, c.Ahead follow later (kind :: rest) →
      Gives (· = .exhausted) c (parsePrimary (fuel + 1)) (Regained follow later rest e)) :
    Rereads follow later e := by
  refine .of_receiver ⟨kind, [], hWritten, hKind.1⟩ fun {fuel c rest good} hAhead hNext => ?_
  rw [hWritten] at hAhead
  refine parseUnary_of_primary (by rw [hAhead.kind_eq]; exact hKind.2) fun {fuel} => ?_
  cases fuel with
  | zero => exact .exhausted
  | succ fuel => exact (h hAhead).mono fun e' c' hRegained => hNext hRegained

/-- A type that is no plain name. -/
theorem rereads_type (hBuilt : e.TypeBuilt) (hLevel : e.level = typeLevel)
    (hWritten : e.written = kind :: kinds) (hKind : startsTypeLiteral kind = true) :
    Rereads follow later e := by
  have hCases : kind = .punct .star ∨ kind = .punct .lbracket ∨ kind = .keyword .map ∨
      kind = .keyword .struct ∨ kind = .keyword .interface := by
    unfold startsTypeLiteral at hKind
    split at hKind <;> simp_all
  have hStarts : startsExpr kind = true := by
    rcases hCases with rfl | rfl | rfl | rfl | rfl <;> rfl
  have hNotReceiver : e.level ≠ receiverLevel := by
    rw [hLevel]
    decide
  refine .of_unary ⟨kind, kinds, hWritten, hStarts⟩ hNotReceiver fun {fuel c rest} h hEnds => ?_
  have hFirst : c.kind = kind := by rw [h.kind_eq, hWritten, List.cons_append, List.headD_cons]
  refine parseUnary_of_primary ?_ fun {fuel} => ?_
  · rw [hFirst]
    rcases hCases with rfl | rfl | rfl | rfl | rfl <;> simp
  have hPrimary : Gives (· = .exhausted) c (parsePrimary fuel) (Regained follow later rest e) := by
    cases fuel with
    | zero => exact .exhausted
    | succ fuel =>
        rw [parsePrimary]
        refine .span_bind (.kind_bind ?_)
        rw [hFirst]
        rcases hCases with rfl | rfl | rfl | rfl | rfl <;>
          exact parseType_written e hBuilt h hEnds.2.2
  refine hPrimary.mono fun e' c' hRegained => parsePostfix_ends ?_ hRegained
  rwa [hRegained.2.kind_eq]

/-- What follows the type of a struct literal. -/
theorem ctorFields_written {type' : Expr} {start : Span}
    (hFields : InitsReread follow later fields) (hType : type'.bare = type.bare)
    (h : c.Ahead follow later (.punct .lbrace :: (initsWritten fields ++ .punct .rbrace :: rest))) :
    Gives (· = .exhausted) c (do
      let _ ← expectSign .lbrace
      let fields ← parseFieldInits fuel
      skipNewlines
      let stop ← expectSign .rbrace
      node (.ctor (start.merge stop) type' fields))
      (Regained follow later rest (.ctor span type fields)) := by
  refine .expectSign h fun _ c1 h1 => (hFields h1).bind fun fields' c2 h2 => ?_
  have hClose : c2.kind = .punct .rbrace := h2.2.kind_eq
  refine .skipNewlines (by simp [hClose]) (.expectSign h2.2 fun _ c3 h3 => .node ⟨?_, h3⟩)
  rw [Expr.bare, Expr.bare, hType, h2.1]

theorem parseCtor_written (hType : type.IsTypeName) (hFields : InitsReread follow later fields)
    (h : c.Ahead follow later ((Expr.ctor span type fields).written ++ rest)) :
    Gives (· = .exhausted) c (parseCtor fuel)
      (Regained follow later rest (.ctor span type fields)) := by
  rw [Expr.written, List.cons_append, List.append_assoc, List.cons_append, List.append_assoc] at h
  cases fuel with
  | zero => exact .exhausted
  | succ fuel =>
      rw [parseCtor]
      refine .expectSign h fun _ c1 h1 => ?_
      match type with
      | .ident _ name =>
          refine .expectIdent h1 fun _ c2 h2 => .node_bind ?_
          have hKind : c2.kind = .punct .lbrace := h2.kind_eq
          refine .eatSign_false (by simp [hKind]) ?_
          exact ctorFields_written hFields rfl h2
      | .dot _ (.ident _ name) member =>
          refine .expectIdent h1 fun _ c2 h2 => .node_bind ?_
          refine .eatSign_true h2 fun c3 h3 => .expectIdent h3 fun _ c4 h4 => .node_bind ?_
          exact ctorFields_written hFields rfl h4

theorem rereads_unary {op : UnaryOp} {operand : Expr}
    (hBuilt : (Expr.unary span op operand).Built) (hOperand : Rereads follow later operand) :
    Rereads follow later (.unary span op operand) := by
  refine .of_unary (Expr.written_cons _ hBuilt)
    (Nat.ne_of_lt (by decide : unaryLevel < receiverLevel)) fun {fuel c rest} h hEnds => ?_
  rw [Expr.written, List.cons_append] at h
  have hKind : c.kind = .punct op.sign := h.kind_eq
  have hRead {fuel : Nat} {c : Cursor} {start : Span}
      (h : c.Ahead follow later (enclosed (operand.level < unaryLevel) operand.written ++ rest)) :
      Gives (· = .exhausted) c (do
        let operand ← parseUnary fuel
        node (.unary (start.merge operand.span) op operand))
        (Regained follow later rest (.unary span op operand)) := by
    refine (hOperand.enclosed_unary h hEnds).bind fun operand' c1 h1 => .node ⟨?_, h1.2⟩
    rw [Expr.bare, Expr.bare, h1.1]
  cases fuel with
  | zero => exact .exhausted
  | succ fuel =>
      rw [parseUnary]
      refine .span_bind (.kind_bind ?_)
      rw [hKind]
      cases op with
      | neg => exact .advance h (by simp) fun _ _ h1 => hRead h1
      | not => exact .advance h (by simp) fun _ _ h1 => hRead h1

theorem rereads_binary {op : BinaryOp} {left right : Expr}
    (hBuilt : (Expr.binary span op left right).Built) (hLeft : Rereads follow later left)
    (hRight : Rereads follow later right) : Rereads follow later (.binary span op left right) := by
  refine .of_binary (Expr.written_cons _ hBuilt) op.level_lt
    fun {place fuel c rest good} hPlace h hEnds hNext => ?_
  rw [Expr.written, List.append_assoc, List.cons_append] at h
  refine hLeft.enclosed_binary hPlace h (endsAt_sign op) fun {fuel c1 left'} h1 => ?_
  have hKind : c1.kind = .punct op.sign := h1.2.kind_eq
  cases fuel with
  | zero => exact .exhausted
  | succ fuel =>
      rw [parseOperators]
      refine .kind_bind ?_
      rw [hKind, binaryOp?_sign]
      dsimp only
      rw [Expr.level] at hPlace
      rw [if_neg (Nat.not_lt.mpr hPlace)]
      refine .advance h1.2 (by simp) fun _ c2 h2 => ?_
      have hRead : Gives (· = .exhausted) c2 (parseBinary fuel (op.level + 1))
          (Regained follow later rest right) := by
        refine hRight.enclosed_binary (Nat.le_refl _) h2 (hEnds.mono (Nat.le_succ _))
          fun hRegained => parseOperators_ends ?_ hRegained
        rw [hRegained.2.kind_eq]
        exact hEnds
      refine hRead.bind fun right' c3 h3 => .node_bind (hNext ⟨?_, h3.2⟩)
      rw [Expr.bare, Expr.bare, h1.1, h3.1]

theorem rereads_ctor (hBuilt : (Expr.ctor span type fields).Built)
    (hFields : InitsReread follow later fields) :
    Rereads follow later (.ctor span type fields) := by
  refine .of_unary (Expr.written_cons _ hBuilt)
    (Nat.ne_of_lt (by decide : unaryLevel < receiverLevel)) fun {fuel c rest} h _ => ?_
  rw [Expr.Built] at hBuilt
  have hKind : c.kind = .punct .amp := h.kind_eq
  cases fuel with
  | zero => exact .exhausted
  | succ fuel =>
      rw [parseUnary]
      refine .span_bind (.kind_bind ?_)
      rw [hKind]
      exact parseCtor_written hBuilt.1 hFields h

/-! What stands after an operand is read as a part of it. -/

section Postfix

variable {span : Span} {receiver : Expr} (hReceiver : Rereads follow later receiver)

include hReceiver

theorem rereads_call {args : List Expr} {spread : Bool}
    (hBuilt : (Expr.call span receiver args spread).Built) (hArgs : ArgsReread follow later args) :
    Rereads follow later (.call span receiver args spread) := by
  refine .of_receiver (Expr.written_cons _ hBuilt) fun {fuel c rest good} h hNext => ?_
  rw [Expr.Built] at hBuilt
  rw [Expr.written, List.append_assoc, List.cons_append, List.append_assoc,
    List.append_assoc] at h
  refine hReceiver.enclosed_receiver h fun {fuel c1 receiver'} h1 => ?_
  have hKind : c1.kind = .punct .lparen := h1.2.kind_eq
  cases fuel with
  | zero => exact .exhausted
  | succ fuel =>
      rw [parsePostfix]
      refine .kind_bind ?_
      rw [hKind]
      refine .advance h1.2 (by simp) fun _ c2 h2 => ?_
      refine (hArgs spread hBuilt.2.2 h2).bind fun found c3 h3 => ?_
      refine .expectSign h3.2.2 fun _ c4 h4 => .node_bind (hNext ⟨?_, h4⟩)
      rw [Expr.bare, Expr.bare, h1.1, h3.1, h3.2.1]

theorem rereads_dot {member : String} (hBuilt : (Expr.dot span receiver member).Built) :
    Rereads follow later (.dot span receiver member) := by
  refine .of_receiver (Expr.written_cons _ hBuilt) fun {fuel c rest good} h hNext => ?_
  rw [Expr.written, List.append_assoc, List.cons_append, List.cons_append] at h
  refine hReceiver.enclosed_receiver h fun {fuel c1 receiver'} h1 => ?_
  have hKind : c1.kind = .punct .dot := h1.2.kind_eq
  cases fuel with
  | zero => exact .exhausted
  | succ fuel =>
      rw [parsePostfix]
      refine .kind_bind ?_
      rw [hKind]
      refine .advance h1.2 (by simp) fun _ c2 h2 => ?_
      refine .expectIdent h2 fun _ c3 h3 => .node_bind (hNext ⟨?_, h3⟩)
      rw [Expr.bare, Expr.bare, h1.1]

/-- A part in brackets, as it is read in front of the one that closes. -/
theorem rereads_subscript (inside : List TokenKind)
    (hFirst : ∃ kind kinds, e.written = kind :: kinds ∧ startsExpr kind = true)
    (hWritten : e.written = enclosed (receiver.level < receiverLevel) receiver.written ++
      .punct .lbracket :: (inside ++ [.punct .rbracket]))
    (hInside : ∀ {fuel : Nat} {c : Cursor} {rest : List TokenKind} {receiver' : Expr},
      receiver'.bare = receiver.bare →
      c.Ahead follow later (inside ++ .punct .rbracket :: rest) →
      Gives (· = .exhausted) c (parseSubscript fuel receiver') fun subscript c' =>
        (∀ whole, (subscript whole).bare = e.bare) ∧
          c'.Ahead follow later (.punct .rbracket :: rest)) : Rereads follow later e := by
  refine .of_receiver hFirst fun {fuel c rest good} h hNext => ?_
  rw [hWritten, List.append_assoc, List.cons_append, List.append_assoc] at h
  refine hReceiver.enclosed_receiver h fun {fuel c1 receiver'} h1 => ?_
  have hKind : c1.kind = .punct .lbracket := h1.2.kind_eq
  cases fuel with
  | zero => exact .exhausted
  | succ fuel =>
      rw [parsePostfix]
      refine .kind_bind ?_
      rw [hKind]
      refine .advance h1.2 (by simp) fun _ c2 h2 => ?_
      refine (hInside h1.1 h2).bind fun subscript c3 h3 => ?_
      exact .expectSign h3.2 fun _ c4 h4 => .node_bind (hNext ⟨h3.1 _, h4⟩)

theorem rereads_index (hBuilt : (Expr.index span receiver position).Built)
    (hPosition : Rereads follow later position) :
    Rereads follow later (.index span receiver position) := by
  refine rereads_subscript hReceiver position.written (Expr.written_cons _ hBuilt)
    (by rw [Expr.written]) fun hBare h => ?_
  rw [Expr.bare]
  exact parseSubscript_index hPosition hBare h

theorem rereads_slice (hBuilt : (Expr.slice span receiver lo hi).Built)
    (hLo : ∀ e ∈ lo, Rereads follow later e) (hHi : ∀ e ∈ hi, Rereads follow later e) :
    Rereads follow later (.slice span receiver lo hi) := by
  refine rereads_subscript hReceiver (boundWritten lo ++ .punct .colon :: boundWritten hi)
    (Expr.written_cons _ hBuilt) (by simp [Expr.written]) fun hBare h => ?_
  rw [List.append_assoc, List.cons_append] at h
  rw [Expr.bare]
  exact parseSubscript_slice hLo hHi hBare h

end Postfix

mutual

theorem rereads : (e : Expr) → e.Built → Rereads follow later e
  | .int span value, _ => by
      refine rereads_token rfl ⟨rfl, by simp⟩ fun {fuel c rest} h => ?_
      rw [parsePrimary]
      refine .span_bind (.kind_bind ?_)
      rw [h.kind_eq]
      exact .advance h (by simp) fun _ c1 h1 => .node ⟨rfl, h1⟩
  | .str span text, _ => by
      refine rereads_token rfl ⟨rfl, by simp⟩ fun {fuel c rest} h => ?_
      rw [parsePrimary]
      refine .span_bind (.kind_bind ?_)
      rw [h.kind_eq]
      exact .advance h (by simp) fun _ c1 h1 => .node ⟨rfl, h1⟩
  | .ident span name, _ => by
      refine rereads_token rfl ⟨rfl, by simp⟩ fun {fuel c rest} h => ?_
      rw [parsePrimary]
      refine .span_bind (.kind_bind ?_)
      rw [h.kind_eq]
      exact .advance h (by simp) fun _ c1 h1 => .node ⟨rfl, h1⟩
  | .unary _ _ operand, hBuilt => by
      have hOperand : operand.Built := by rwa [Expr.Built] at hBuilt
      exact rereads_unary hBuilt (rereads operand hOperand)
  | .binary _ _ left right, hBuilt => by
      have hParts : left.Built ∧ right.Built := by rwa [Expr.Built] at hBuilt
      exact rereads_binary hBuilt (rereads left hParts.1) (rereads right hParts.2)
  | .call _ callee args spread, hBuilt => by
      have hParts := hBuilt
      rw [Expr.Built] at hParts
      exact rereads_call (rereads callee hParts.1) hBuilt (argsReread args hParts.2.1)
  | .dot _ receiver _, hBuilt => by
      have hReceiver : receiver.Built := by rwa [Expr.Built] at hBuilt
      exact rereads_dot (rereads receiver hReceiver) hBuilt
  | .index _ receiver position, hBuilt => by
      have hParts : receiver.Built ∧ position.Built := by rwa [Expr.Built] at hBuilt
      exact rereads_index (rereads receiver hParts.1) hBuilt (rereads position hParts.2)
  | .slice _ receiver lo hi, hBuilt => by
      have hParts := hBuilt
      rw [Expr.Built] at hParts
      exact rereads_slice (rereads receiver hParts.1) hBuilt (boundReread lo hParts.2.1)
        (boundReread hi hParts.2.2)
  | .ctor _ _ fields, hBuilt => by
      have hParts := hBuilt
      rw [Expr.Built] at hParts
      exact rereads_ctor hBuilt (initsReread fields hParts.2)
  | .pointerType .., hBuilt => by
      rw [Expr.Built] at hBuilt
      exact rereads_type (by rwa [Expr.TypeBuilt]) rfl rfl rfl
  | .sliceType .., hBuilt => by
      rw [Expr.Built] at hBuilt
      exact rereads_type (by rwa [Expr.TypeBuilt]) rfl rfl rfl
  | .mapType .., hBuilt => by
      rw [Expr.Built] at hBuilt
      exact rereads_type (by rwa [Expr.TypeBuilt]) rfl rfl rfl
  | .structType .., hBuilt => by
      rw [Expr.Built] at hBuilt
      exact rereads_type (by rwa [Expr.TypeBuilt]) rfl rfl rfl
  | .interfaceType .., hBuilt => by
      rw [Expr.Built] at hBuilt
      exact rereads_type (by rwa [Expr.TypeBuilt]) rfl rfl rfl

theorem argsReread : (args : List Expr) → ArgsBuilt args → ArgsReread follow later args
  | [], _ => argsReread_nil
  | e :: others, hBuilt => by
      rw [ArgsBuilt] at hBuilt
      exact ArgsReread.cons (rereads e hBuilt.1) (argsReread others hBuilt.2)

theorem boundReread : (bound : Option Expr) → BoundBuilt bound →
    ∀ e ∈ bound, Rereads follow later e
  | none, _, e, he => by simp at he
  | some bound, hBuilt, e, he => by
      rw [BoundBuilt] at hBuilt
      obtain rfl := Option.some.inj he
      exact rereads bound hBuilt

theorem initsReread : (fields : List (FieldInit Expr)) → InitsBuilt fields →
    InitsReread follow later fields
  | [], _ => initsReread_nil
  | ⟨name, value, span⟩ :: others, hBuilt => by
      rw [InitsBuilt] at hBuilt
      exact InitsReread.cons (rereads value hBuilt.1) (initsReread others hBuilt.2)

end

/-- A written expression is read back in front of any token that it does not go on with, and
nothing but its tokens is read. -/
theorem parseExpr_written (e : Expr) (hBuilt : e.Built) {c : Cursor} {written : List Token}
    (hTokens : c.current :: c.rest = written ++ follow :: later)
    (hWritten : written.map (·.kind) = e.written)
    (hFollow : continuesExpr follow.kind = false)
    (hEnd : ((follow :: later).getLast (List.cons_ne_nil _ _)).kind = .eof)
    {fuel : Nat} (hFuel : 16 * c.left + 5 ≤ fuel) (count : Nat) :
    ∃ e' after, parseExpr fuel ⟨c, count⟩ = .ok (e', after) ∧ e'.bare = e.bare ∧
      after.cursor.current :: after.cursor.rest = follow :: later := by
  have hSound : c.Sound fun _ => True := by
    refine ⟨fun _ _ _ _ => trivial, written ++ (follow :: later).dropLast, _, ?_, hEnd⟩
    rw [hTokens, List.append_assoc, List.dropLast_append_getLast]
  have hEnough := parseExpr_reads fuel c hSound count
  have hAhead : c.Ahead follow later (e.written ++ []) := by
    rw [List.append_nil]
    exact ⟨written, hTokens, hWritten⟩
  have hRead : Gives (· = .exhausted) c (parseExpr fuel) (Regained follow later [] e) :=
    (rereads e hBuilt).expr hAhead (endsAt_zero hFollow)
  specialize hRead count
  cases hRun : parseExpr fuel ⟨c, count⟩ with
  | error failure =>
      rw [hRun] at hEnough hRead
      subst hRead
      exact absurd hFuel hEnough
  | ok found =>
      rw [hRun] at hRead
      obtain ⟨hBare, rest, hRest, hKinds⟩ := hRead
      rw [List.map_eq_nil_iff] at hKinds
      subst hKinds
      exact ⟨found.1, found.2, rfl, hBare, hRest⟩

/-- A call of a product, one factor of which needs parentheses. -/
theorem parseExpr_written_product :
    ∃ e' after,
      parseExpr 300 ⟨⟨0, .nowhere, ⟨.ident "f", .nowhere⟩, ([.punct .lparen, .punct .lparen,
          .ident "a", .punct .minus, .ident "b", .punct .rparen, .punct .star, .punct .minus,
          .int 2, .punct .ellipsis, .punct .rparen, .newline, .eof] : List TokenKind).map
            (⟨·, .nowhere⟩)⟩, 0⟩ = .ok (e', after) ∧
      e'.bare =
        .call .nowhere (.ident .nowhere "f")
          [.binary .nowhere .mul
            (.binary .nowhere .sub (.ident .nowhere "a") (.ident .nowhere "b"))
            (.unary .nowhere .neg (.int .nowhere 2))] true ∧
      after.cursor.current :: after.cursor.rest = [⟨.newline, .nowhere⟩, ⟨.eof, .nowhere⟩] := by
  have hTokens : (⟨.ident "f", .nowhere⟩ : Token) :: ([.punct .lparen, .punct .lparen,
          .ident "a", .punct .minus, .ident "b", .punct .rparen, .punct .star, .punct .minus,
          .int 2, .punct .ellipsis, .punct .rparen, .newline, .eof] : List TokenKind).map
            (⟨·, .nowhere⟩) =
      ([.ident "f", .punct .lparen, .punct .lparen, .ident "a", .punct .minus, .ident "b",
          .punct .rparen, .punct .star, .punct .minus, .int 2, .punct .ellipsis,
          .punct .rparen] : List TokenKind).map (⟨·, .nowhere⟩) ++
        (⟨.newline, .nowhere⟩ : Token) :: [⟨.eof, .nowhere⟩] := rfl
  exact parseExpr_written
    (.call .nowhere (.ident .nowhere "f")
      [.binary .nowhere .mul
        (.binary .nowhere .sub (.ident .nowhere "a") (.ident .nowhere "b"))
        (.unary .nowhere .neg (.int .nowhere 2))] true)
    (by simp [Expr.Built, ArgsBuilt]) (c := ⟨0, .nowhere, _, _⟩) hTokens rfl rfl rfl (by decide) 0

end Grammar

end GoToC
