import GoToC.Proofs.Grammar.Passes
import GoToC.Proofs.Grammar.Rounds

/-!
# What parsers read

A parser at a cursor either passes tokens and gives a result and a later cursor of which something
is promised, or it fails with an error; it runs out of steps only where there were not enough.
Promises tell how many tokens are left, so that the steps a rule needs can be counted out, and so
that a result that comes only after some token was passed is known by it.
-/

namespace GoToC.Grammar

variable {σ α β : Type} {enough : Prop} {word : String → Prop} {must : α → Prop} {c : Cursor}

/-- From a cursor on, a parser only passes tokens and gives what is promised, or it fails with an
error. -/
def Reads (enough : Prop) (word : String → Prop) (c : Cursor) (parser : Parser α)
    (good : α → Cursor → Prop) : Prop :=
  c.Sound word → ∀ count,
    match parser ⟨c, count⟩ with
    | .ok (value, after) => (∃ read, c.Passes read after.cursor) ∧ good value after.cursor
    | .error (.error _) => True
    | .error .exhausted => ¬ enough

/-- A parser that succeeds has only passed tokens, and for a result in `must` at least one. -/
def Advances (must : α → Prop) (c : Cursor) (parser : Parser α) : Prop :=
  c.Ends → ∀ count value after, parser ⟨c, count⟩ = .ok (value, after) →
    ∃ read, c.Passes read after.cursor ∧ (must value → read ≠ [])

/-- A parser that passes a token whenever it succeeds. -/
abbrev Consumes (c : Cursor) (parser : Parser α) : Prop := Advances (fun _ => True) c parser

/-- A parser that may succeed without passing a token. -/
abbrev Moves (c : Cursor) (parser : Parser α) : Prop := Advances (fun _ => False) c parser

/-- What a loop comes to from a start: it may have read nothing. -/
abbrev LoopRead (good : σ → α → Prop) (start : σ) (c : Cursor) (result : α) (c' : Cursor) : Prop :=
  c'.left ≤ c.left ∧ good start result

/-- What a round of a loop comes to: if it goes on, it has read some token, and what is good for the
loop from there on is good when it is completed. -/
abbrev RoundRead (good : σ → α → Prop) (start : σ) (c : Cursor) (outcome : Round σ α)
    (c' : Cursor) : Prop :=
  match outcome with
  | .leave result => c'.left ≤ c.left ∧ good start result
  | .again start' complete =>
      c'.left < c.left ∧ ∀ result, good start' result → good start (complete result)

namespace Reads

variable {parser : Parser α} {good : α → Cursor → Prop}

theorem pure {value : α} (h : good value c) : Reads enough word c (pure value) good :=
  fun _ _ => ⟨⟨[], .refl c⟩, h⟩

theorem exhausted (h : ¬ enough) : Reads enough word c (exhausted : Parser α) good := fun _ _ => h

theorem bind {next : α → Parser β} {good' : β → Cursor → Prop} (h : Reads enough word c parser good)
    (hNext : ∀ value c', good value c' → Reads enough word c' (next value) good') :
    Reads enough word c (parser >>= next) good' := by
  intro hc count
  have hFirst := h hc count
  show match (parser ⟨c, count⟩ >>= fun found => next found.1 found.2) with
    | .ok (value, after) => _
    | .error (.error _) => _
    | .error .exhausted => _
  cases hRun : parser ⟨c, count⟩ with
  | error failure =>
      rw [hRun] at hFirst
      cases failure with
      | error cause => trivial
      | exhausted => exact hFirst
  | ok found =>
      rw [hRun] at hFirst
      obtain ⟨⟨read, hRead⟩, hGood⟩ := hFirst
      have hLater := hNext found.1 found.2.cursor hGood (hRead.sound hc) found.2.exprCount
      show match next found.1 found.2 with
        | .ok (value, after) => _
        | .error (.error _) => _
        | .error .exhausted => _
      cases hResult : next found.1 found.2 with
      | error failure =>
          rw [hResult] at hLater
          cases failure with
          | error cause => trivial
          | exhausted => exact hLater
      | ok result =>
          rw [hResult] at hLater
          obtain ⟨⟨more, hMore⟩, hGood'⟩ := hLater
          exact ⟨⟨read ++ more, hRead.trans hMore⟩, hGood'⟩

/-- Where more is promised, and of fewer steps, less may be said. -/
theorem weaken {enough' : Prop} {better : α → Cursor → Prop}
    (h : Reads enough' word c parser better) (hEnough : enough → enough')
    (imp : ∀ value c', better value c' → good value c') : Reads enough word c parser good := by
  intro hc count
  have hRun := h hc count
  cases hResult : parser ⟨c, count⟩ with
  | error failure =>
      rw [hResult] at hRun
      cases failure with
      | error cause => trivial
      | exhausted => exact fun hSome => hRun (hEnough hSome)
  | ok found =>
      rw [hResult] at hRun
      exact ⟨hRun.1, imp _ _ hRun.2⟩

theorem mono {better : α → Cursor → Prop} (h : Reads enough word c parser better)
    (imp : ∀ value c', better value c' → good value c') : Reads enough word c parser good :=
  h.weaken id imp

/-- A parser that needs fewer steps than there are. -/
theorem given {enough' : Prop} (h : Reads enough' word c parser good) (hEnough : enough → enough') :
    Reads enough word c parser good :=
  h.weaken hEnough fun _ _ => id

theorem map {f : α → β} {good' : β → Cursor → Prop}
    (h : Reads enough word c parser fun value c' => good' (f value) c') :
    Reads enough word c (f <$> parser) good' := by
  rw [map_eq_pure_bind]
  exact h.bind fun _ _ hValue => .pure hValue

theorem fail {cause : ParseError} : Reads enough word c (fail cause : Parser α) good :=
  fun _ _ => trivial

theorem unexpected {wanted : ParseError.Wanted} :
    Reads enough word c (unexpected wanted : Parser α) good :=
  fun _ _ => trivial

/-- A check that ends reading or lets it go on. -/
theorem stopIf {check : Bool} {stop : Parser Unit}
    (hStop : Reads enough word c stop fun _ _ => False)
    (h : check = false → Reads enough word c parser good) :
    Reads enough word c (do
      if check then stop
      parser) good := by
  cases check with
  | true => exact hStop.bind fun _ _ hFalse => hFalse.elim
  | false => exact h rfl

theorem within (context : String) (h : Reads enough word c parser good) :
    Reads enough word c (within context parser) good := by
  intro hc count
  have hRun := h hc count
  unfold Grammar.within
  cases hResult : parser ⟨c, count⟩ with
  | ok found =>
      rw [hResult] at hRun
      exact hRun
  | error failure =>
      rw [hResult] at hRun
      cases failure with
      | error cause => trivial
      | exhausted => exact hRun

/-- A cursor that parsers come to is sound. -/
theorem of_sound (h : c.Sound word → Reads enough word c parser good) :
    Reads enough word c parser good :=
  fun hc => h hc hc

/-- A loop is one round and then, if that goes on, the loop from a later place. -/
theorem rounds {round : Parser (Round σ α)} {loop : σ → Parser α} {good : σ → α → Prop} {start : σ}
    (h : Reads enough word c round (RoundRead good start c))
    (hLoop : ∀ start' c', c'.left < c.left →
      Reads enough word c' (loop start') (LoopRead good start' c')) :
    Reads enough word c (round >>= Round.finish loop) (LoopRead good start c) := by
  refine h.bind fun outcome c1 hOutcome => ?_
  cases outcome with
  | leave result => exact .pure hOutcome
  | again start' complete =>
      refine .map ((hLoop start' c1 hOutcome.1).mono fun result c2 hResult => ?_)
      exact ⟨Nat.le_trans hResult.1 (Nat.le_of_lt hOutcome.1), hOutcome.2 result hResult.2⟩

/-! ## Passing tokens -/

/-- Results that come with fewer tokens left come only after some token was passed. -/
theorem advances (h : Reads enough (fun _ => True) c parser good)
    (imp : ∀ value c', good value c' → must value → c'.left < c.left) : Advances must c parser := by
  intro hc count value after hRun
  have hSound : c.Sound fun _ => True := ⟨by simp, hc⟩
  have hGood := h hSound count
  rw [hRun] at hGood
  obtain ⟨⟨read, hRead⟩, hValue⟩ := hGood
  refine ⟨read, hRead, fun hMust => ?_⟩
  rintro rfl
  have hLess := imp value after.cursor hValue hMust
  rw [hRead.left_eq, List.length_nil] at hLess
  omega

theorem consumes (h : Reads enough (fun _ => True) c parser good)
    (imp : ∀ value c', good value c' → c'.left < c.left) : Consumes c parser :=
  h.advances fun value c' hValue _ => imp value c' hValue

theorem moves (h : Reads enough (fun _ => True) c parser good) : Moves c parser :=
  h.advances fun _ _ _ => False.elim

/-- A round that goes on has passed a token. -/
theorem goesOn {good : σ → α → Prop} {start : σ} {round : Parser (Round σ α)}
    (h : Reads enough (fun _ => True) c round (RoundRead good start c)) :
    Advances Round.GoesOn c round := by
  refine h.advances fun outcome c' hOutcome hGoesOn => ?_
  cases outcome with
  | leave result => exact hGoesOn.elim
  | again start' complete => exact hOutcome.1

/-! ## Looking ahead -/

theorem cursor_bind {next : Cursor → Parser β} {good' : β → Cursor → Prop}
    (h : Reads enough word c (next c) good') : Reads enough word c (cursor >>= next) good' := h

theorem kind_bind {next : TokenKind → Parser β} {good' : β → Cursor → Prop}
    (h : Reads enough word c (next c.kind) good') : Reads enough word c (kind >>= next) good' := h

theorem span_bind {next : Span → Parser β} {good' : β → Cursor → Prop}
    (h : ∀ found, Reads enough word c (next found) good') :
    Reads enough word c (span >>= next) good' :=
  h c.span

theorem previousSpan_bind {next : Span → Parser β} {good' : β → Cursor → Prop}
    (h : ∀ found, Reads enough word c (next found) good') :
    Reads enough word c (previousSpan >>= next) good' :=
  h c.previous

theorem check_bind {wanted : TokenKind} {next : Bool → Parser β} {good' : β → Cursor → Prop}
    (h : Reads enough word c (next (c.check wanted)) good') :
    Reads enough word c (check wanted >>= next) good' := h

theorem checkSign_bind {sign : Punct} {next : Bool → Parser β} {good' : β → Cursor → Prop}
    (h : ∀ found, Reads enough word c (next found) good') :
    Reads enough word c (checkSign sign >>= next) good' :=
  h (c.check (.punct sign))

theorem node {e : Expr} {good : Expr → Cursor → Prop} (h : good e c) :
    Reads enough word c (node e) good :=
  fun _ _ => ⟨⟨[], .refl c⟩, h⟩

theorem node_bind {e : Expr} {next : Expr → Parser β} {good' : β → Cursor → Prop}
    (h : Reads enough word c (next e) good') :
    Reads enough word c (Grammar.node e >>= next) good' :=
  fun hc count => h hc (count + 1)

/-! ## Reading tokens -/

/-- Reading any token but the end of the file leaves fewer tokens. -/
theorem advance {kind : TokenKind} (h : c.kind = kind) (hKind : kind.isReadable = true) :
    Reads enough word c advance fun _ c' => c'.left < c.left := by
  intro hc count
  have hRead := Cursor.Passes.next hc.ends (h ▸ hKind)
  refine ⟨⟨_, hRead⟩, ?_⟩
  show c.next.left < c.left
  rw [hRead.left_eq, List.length_singleton]
  omega

theorem eatSign (sign : Punct) : Reads enough word c (eatSign sign) fun eaten c' =>
      c'.left ≤ c.left ∧ (eaten = true → c'.left < c.left) := by
  intro hc count
  show (∃ read, c.Passes read (c.eat (.punct sign)).2) ∧ (c.eat (.punct sign)).2.left ≤ c.left ∧
    ((c.eat (.punct sign)).1 = true → (c.eat (.punct sign)).2.left < c.left)
  unfold Cursor.eat
  split
  · next hCheck =>
      have hKind : c.kind = .punct sign := by simpa [Cursor.check] using hCheck
      have hRead := Cursor.Passes.next hc.ends (by rw [hKind]; rfl)
      have hLeft := hRead.left_eq
      rw [List.length_singleton] at hLeft
      have hLess : c.next.left < c.left := by omega
      exact ⟨⟨_, hRead⟩, Nat.le_of_lt hLess, fun _ => hLess⟩
  · exact ⟨⟨[], .refl c⟩, Nat.le_refl _, by simp⟩

theorem skipNewlines : Reads enough word c skipNewlines fun _ c' => c'.left ≤ c.left := by
  intro hc count
  obtain ⟨read, hRead, -⟩ := Cursor.Passes.skipNewlines hc.ends
  exact ⟨⟨read, hRead⟩, by rw [hRead.left_eq]; exact Nat.le_add_left ..⟩

theorem skipTerminators : Reads enough word c skipTerminators fun _ c' => c'.left ≤ c.left := by
  intro hc count
  obtain ⟨read, hRead, -⟩ := Cursor.Passes.skipTerminators hc.ends
  exact ⟨⟨read, hRead⟩, by rw [hRead.left_eq]; exact Nat.le_add_left ..⟩

theorem expect {wanted : TokenKind} (h : wanted.isReadable = true) :
    Reads enough word c (expect wanted) fun _ c' => c'.left < c.left := by
  refine .check_bind ?_
  split
  · next hCheck =>
      have hKind : c.kind = wanted := by simpa [Cursor.check] using hCheck
      exact (Reads.advance hKind h).bind fun _ _ hLess => .pure hLess
  · exact .unexpected

theorem expectSign (sign : Punct) :
    Reads enough word c (expectSign sign) fun _ c' => c'.left < c.left :=
  .expect rfl

theorem expectWord (keyword : Keyword) :
    Reads enough word c (expectWord keyword) fun _ c' => c'.left < c.left :=
  .expect rfl

theorem expectIdent :
    Reads enough word c expectIdent fun found c' => c'.left < c.left ∧ word found.1 := by
  refine .of_sound fun hc => .kind_bind ?_
  split
  · next name hKind =>
      exact (Reads.advance hKind rfl).bind fun _ _ hLess => .pure ⟨hLess, hc.word_of_ident hKind⟩
  · exact .span_bind fun _ => .fail

theorem expectTerminator : Reads enough word c expectTerminator fun _ c' => c'.left ≤ c.left := by
  refine .kind_bind ?_
  split
  · exact .pure (Nat.le_refl _)
  · exact .span_bind fun _ => .fail
  · split
    · exact .pure (Nat.le_refl _)
    · exact .span_bind fun _ => .fail

end Reads

namespace Advances

variable {parser : Parser α}

theorem mono {wider : α → Prop} (h : Advances wider c parser)
    (imp : ∀ value, must value → wider value) : Advances must c parser := by
  intro hc count value after hRun
  obtain ⟨read, hRead, hSome⟩ := h hc count value after hRun
  exact ⟨read, hRead, fun hMust => hSome (imp value hMust)⟩

/-- What passes a token on every success may be used wherever less is asked. -/
theorem weaken (h : Consumes c parser) : Advances must c parser :=
  mono h fun _ _ => trivial

end Advances

end GoToC.Grammar
