import GoToC.Grammar.Parser

/-!
# Outcomes where the next tokens are known

What a parser may do at a cursor, and what it does where it is known which tokens come next.
-/

/-!
## Outcomes of parsers

What a parser may do at a cursor: give a result and a later cursor of which something is
promised, or fail in one of the ways that are allowed.
-/

namespace GoToC.Grammar

variable {α β : Type} {bad : Failure → Prop} {c : Cursor}

/-- From a cursor on, a parser gives what is promised or fails as it may. -/
def Gives (bad : Failure → Prop) (c : Cursor) (parser : Parser α) (good : α → Cursor → Prop) :
    Prop :=
  ∀ count,
    match parser ⟨c, count⟩ with
    | .ok (value, after) => good value after.cursor
    | .error failure => bad failure

namespace Gives

variable {parser : Parser α} {good : α → Cursor → Prop} {good' : β → Cursor → Prop}

theorem pure {value : α} (h : good value c) : Gives bad c (pure value) good := fun _ => h

theorem throw {failure : Failure} (h : bad failure) :
    Gives bad c (throw failure : Parser α) good := fun _ => h

theorem bind {next : α → Parser β} (h : Gives bad c parser good)
    (hNext : ∀ value c', good value c' → Gives bad c' (next value) good') :
    Gives bad c (parser >>= next) good' := by
  intro count
  have hFirst := h count
  show match (parser ⟨c, count⟩ >>= fun found => next found.1 found.2) with
    | .ok (value, after) => good' value after.cursor
    | .error failure => bad failure
  cases hRun : parser ⟨c, count⟩ with
  | error failure =>
      rw [hRun] at hFirst
      exact hFirst
  | ok found =>
      rw [hRun] at hFirst
      exact hNext found.1 found.2.cursor hFirst found.2.exprCount

theorem mono {better : α → Cursor → Prop} (h : Gives bad c parser better)
    (imp : ∀ value c', better value c' → good value c') : Gives bad c parser good := by
  intro count
  have hRun := h count
  cases hResult : parser ⟨c, count⟩ with
  | error failure =>
      rw [hResult] at hRun
      exact hRun
  | ok found =>
      rw [hResult] at hRun
      exact imp _ _ hRun

theorem map {f : α → β} (h : Gives bad c parser fun value c' => good' (f value) c') :
    Gives bad c (f <$> parser) good' := by
  rw [map_eq_pure_bind]
  exact h.bind fun _ _ hValue => .pure hValue

/-! ### Looking ahead -/

theorem kind_bind {next : TokenKind → Parser β} (h : Gives bad c (next c.kind) good') :
    Gives bad c (kind >>= next) good' := h

theorem span_bind {next : Span → Parser β} (h : Gives bad c (next c.span) good') :
    Gives bad c (span >>= next) good' := h

theorem previousSpan_bind {next : Span → Parser β} (h : Gives bad c (next c.previous) good') :
    Gives bad c (previousSpan >>= next) good' := h

theorem checkSign_bind {sign : Punct} {next : Bool → Parser β}
    (h : Gives bad c (next (c.check (.punct sign))) good') :
    Gives bad c (checkSign sign >>= next) good' := h

theorem node {e : Expr} {good : Expr → Cursor → Prop} (h : good e c) :
    Gives bad c (node e) good := fun _ => h

theorem node_bind {e : Expr} {next : Expr → Parser β} (h : Gives bad c (next e) good') :
    Gives bad c (Grammar.node e >>= next) good' := fun count => h (count + 1)

/-! ### Reading tokens -/

theorem advance_bind {next : Token → Parser β} (h : Gives bad c.next (next c.current) good') :
    Gives bad c (advance >>= next) good' := h

theorem eatSign_bind {sign : Punct} {next : Bool → Parser β}
    (h : Gives bad (c.eat (.punct sign)).2 (next (c.eat (.punct sign)).1) good') :
    Gives bad c (eatSign sign >>= next) good' := h

theorem skipNewlines_bind {next : Unit → Parser β} (h : Gives bad c.skipNewlines (next ()) good') :
    Gives bad c (skipNewlines >>= next) good' := h

theorem skipTerminators_bind {next : Unit → Parser β}
    (h : Gives bad c.skipTerminators (next ()) good') :
    Gives bad c (skipTerminators >>= next) good' := h

end Gives

end GoToC.Grammar

/-!
## Tokens that lie ahead

Where it is known which kinds of tokens lie ahead of a cursor, it is known what a parser does
with the next one.
-/

namespace GoToC

variable {kind : TokenKind} {skip : TokenKind → Bool}

/-- Tokens of the given kinds lie ahead, and behind them `follow` and `later`. -/
def Cursor.Ahead (follow : Token) (later : List Token) (c : Cursor) (kinds : List TokenKind) :
    Prop :=
  ∃ written, c.current :: c.rest = written ++ follow :: later ∧ written.map (·.kind) = kinds

variable {follow : Token} {later : List Token} {c : Cursor} {kinds rest : List TokenKind}

namespace Cursor

theorem skipWhile_of_eq_false (h : skip c.kind = false) : c.skipWhile skip = c := by
  obtain ⟨position, previous, current, rest⟩ := c
  replace h : skip current.kind = false := h
  cases rest with
  | nil => rfl
  | cons token rest => simp [skipWhile, skipFrom, h]

theorem skipWhile_of_eq_true (h : skip c.kind = true) (hRest : c.rest ≠ []) (hEof : c.kind ≠ .eof) :
    c.skipWhile skip = c.next.skipWhile skip := by
  obtain ⟨position, previous, current, rest⟩ := c
  replace h : skip current.kind = true := h
  replace hEof : current.kind ≠ .eof := hEof
  cases rest with
  | nil => simp at hRest
  | cons token rest => simp [skipWhile, skipFrom, h, next, atEnd, check, kind, hEof]

namespace Ahead

theorem kind_eq (h : c.Ahead follow later kinds) : c.kind = kinds.headD follow.kind := by
  obtain ⟨written, hTokens, rfl⟩ := h
  cases written with
  | nil =>
      rw [List.nil_append, List.cons.injEq] at hTokens
      exact congrArg Token.kind hTokens.1
  | cons token written =>
      rw [List.cons_append, List.cons.injEq] at hTokens
      exact congrArg Token.kind hTokens.1

theorem rest_ne_nil (h : c.Ahead follow later (kind :: kinds)) : c.rest ≠ [] := by
  obtain ⟨written, hTokens, hKinds⟩ := h
  cases written with
  | nil => cases hKinds
  | cons token written =>
      rw [List.cons_append, List.cons.injEq] at hTokens
      simp [hTokens.2]

/-- Past the first token the others lie ahead. -/
theorem next (h : c.Ahead follow later (kind :: kinds)) (hKind : kind ≠ .eof) :
    c.next.Ahead follow later kinds := by
  have hCurrent : c.kind = kind := h.kind_eq
  obtain ⟨written, hTokens, hKinds⟩ := h
  cases written with
  | nil => cases hKinds
  | cons token written =>
      rw [List.cons_append, List.cons.injEq] at hTokens
      rw [List.map_cons, List.cons.injEq] at hKinds
      refine ⟨written, ?_, hKinds.2⟩
      rw [← hTokens.2, Cursor.next, atEnd, check, if_neg (by simpa [hCurrent] using hKind)]
      cases hRest : c.rest with
      | nil => simp [hRest] at hTokens
      | cons token others => rfl

end Ahead

end Cursor

namespace Grammar.Gives

variable {α β : Type} {bad : Failure → Prop} {good : β → Cursor → Prop} {sign : Punct}

theorem advance {next : Token → Parser β} (h : c.Ahead follow later (kind :: kinds))
    (hKind : kind ≠ .eof)
    (hNext : ∀ token c', c'.Ahead follow later kinds → Gives bad c' (next token) good) :
    Gives bad c (advance >>= next) good :=
  .advance_bind (hNext _ _ (h.next hKind))

theorem expectSign {next : Span → Parser β} (h : c.Ahead follow later (.punct sign :: kinds))
    (hNext : ∀ span c', c'.Ahead follow later kinds → Gives bad c' (next span) good) :
    Gives bad c (expectSign sign >>= next) good := by
  have hCheck : c.check (.punct sign) = true := beq_iff_eq.mpr h.kind_eq
  have hRead : Gives bad c (Grammar.expectSign sign) fun _ c' => c'.Ahead follow later kinds := by
    refine .checkSign_bind ?_
    rw [hCheck]
    exact .advance_bind (.pure (h.next (by simp)))
  exact hRead.bind fun span c' hAhead => hNext span c' hAhead

theorem expectIdent {name : String} {next : String × Span → Parser β}
    (h : c.Ahead follow later (.ident name :: kinds))
    (hNext : ∀ span c', c'.Ahead follow later kinds → Gives bad c' (next (name, span)) good) :
    Gives bad c (expectIdent >>= next) good := by
  have hRead : Gives bad c Grammar.expectIdent fun found c' =>
      found.1 = name ∧ c'.Ahead follow later kinds := by
    refine .kind_bind ?_
    rw [h.kind_eq, List.headD_cons]
    exact .advance_bind (.pure ⟨rfl, h.next (by simp)⟩)
  refine hRead.bind fun found c' hFound => ?_
  obtain ⟨_, span⟩ := found
  obtain ⟨rfl, hAhead⟩ := hFound
  exact hNext span c' hAhead

theorem eatSign_true {next : Bool → Parser β} (h : c.Ahead follow later (.punct sign :: kinds))
    (hNext : ∀ c', c'.Ahead follow later kinds → Gives bad c' (next true) good) :
    Gives bad c (eatSign sign >>= next) good := by
  have hCheck : c.check (.punct sign) = true := beq_iff_eq.mpr h.kind_eq
  refine .eatSign_bind ?_
  rw [Cursor.eat, if_pos hCheck]
  exact hNext _ (h.next (by simp))

theorem eatSign_false {next : Bool → Parser β} (h : c.kind ≠ .punct sign)
    (hNext : Gives bad c (next false) good) : Gives bad c (eatSign sign >>= next) good := by
  have hCheck : ¬ c.check (.punct sign) = true := fun hCheck => h (beq_iff_eq.mp hCheck)
  refine .eatSign_bind ?_
  rw [Cursor.eat, if_neg hCheck]
  exact hNext

theorem checkSign_true {next : Bool → Parser β} (h : c.kind = .punct sign)
    (hNext : Gives bad c (next true) good) :
    Gives bad c (Grammar.checkSign sign >>= next) good := by
  refine .checkSign_bind ?_
  rwa [show c.check (.punct sign) = true from beq_iff_eq.mpr h]

theorem checkSign_false {next : Bool → Parser β} (h : c.kind ≠ .punct sign)
    (hNext : Gives bad c (next false) good) : Gives bad c (checkSign sign >>= next) good := by
  refine .checkSign_bind ?_
  rwa [show c.check (.punct sign) = false from beq_eq_false_iff_ne.mpr h]

theorem skipNewlines {next : Unit → Parser β} (h : c.kind ≠ .newline)
    (hNext : Gives bad c (next ()) good) : Gives bad c (skipNewlines >>= next) good := by
  have hSkip : c.skipNewlines = c := Cursor.skipWhile_of_eq_false (beq_eq_false_iff_ne.mpr h)
  refine .skipNewlines_bind ?_
  rwa [hSkip]

/-- A semicolon is passed over, if there is one. -/
theorem skipTerminators {next : Unit → Parser β} {before : List TokenKind}
    (hBefore : before = [] ∨ before = [.punct .semicolon])
    (h : c.Ahead follow later (before ++ kinds))
    (hKinds : kinds.headD follow.kind ≠ .newline ∧ kinds.headD follow.kind ≠ .punct .semicolon)
    (hNext : ∀ c', c'.Ahead follow later kinds → Gives bad c' (next ()) good) :
    Gives bad c (skipTerminators >>= next) good := by
  have hStop {c : Cursor} (h : c.Ahead follow later kinds) : c.skipTerminators = c := by
    refine Cursor.skipWhile_of_eq_false ?_
    rw [h.kind_eq]
    simpa using hKinds
  refine .skipTerminators_bind ?_
  rcases hBefore with rfl | rfl
  · rw [hStop h]
    exact hNext c h
  · have hKind : c.kind = .punct .semicolon := h.kind_eq
    have hAhead : c.next.Ahead follow later kinds := h.next (by simp)
    have hSkip : c.skipTerminators = c.next.skipTerminators :=
      Cursor.skipWhile_of_eq_true (by simp [hKind]) h.rest_ne_nil (by simp [hKind])
    rw [hSkip, hStop hAhead]
    exact hNext c.next hAhead

theorem expectTerminator {next : Unit → Parser β} (h : c.kind = .punct .semicolon)
    (hNext : Gives bad c (next ()) good) : Gives bad c (expectTerminator >>= next) good := by
  have hRead : Gives bad c Grammar.expectTerminator fun _ c' => c' = c := by
    refine .kind_bind ?_
    rw [h]
    exact .pure rfl
  refine hRead.bind fun _ c' hSame => ?_
  subst hSame
  exact hNext

/-- A rule that is given no steps takes none. -/
theorem exhausted {good : α → Cursor → Prop} :
    Gives (· = .exhausted) c (exhausted : Parser α) good := .throw rfl

end Grammar.Gives

end GoToC
