import GoToC.Proofs.Grammar.ReadingOrder

/-!
# Parsers that travel

A parser travels over the tokens of a text, which do not overlap, until it gives something or
reports an error. Places run from token to token, those of errors too. Where a parser fails at a
token that is itself a fault of the lexer, it reports that fault. The one rule that does not is the
rule for identifiers, which tells only that it found none. It is asked for one at certain places,
and the token before tells where.
-/

/-!
## Token boundaries

A place in a source text runs from the start of a token to the end of one. Two places make one
place together, so whatever is read from the tokens of a text has its place in that text.
-/

namespace GoToC

variable {tokens : List Token} {cause : ParseError} {token : Token} {after' : Cursor → Prop}
  {wanted : TokenKind} {sign : Punct} {e : Expr}

namespace Span

/-- A span from the start of one of the tokens to the end of one. -/
structure Joins (tokens : List Token) (span : Span) : Prop where
  ordered : span.start ≤ span.stop
  starts : ∃ token ∈ tokens, token.span.start = span.start
  stops : ∃ token ∈ tokens, token.span.stop = span.stop

/-- A span that lies in a source text, from the start of a token to the end of one. -/
structure MarksIn (source : String) (span : Span) : Prop extends span.Joins (lex source) where
  inside : span.stop ≤ source.utf8ByteSize

variable {tokens : List Token} {a b : Span}

theorem Joins.merge (ha : a.Joins tokens) (hb : b.Joins tokens) : (a.merge b).Joins tokens := by
  refine ⟨?_, ?_, ?_⟩
  · have hFirst := ha.ordered
    have hSecond := hb.ordered
    simp only [Span.merge]
    omega
  · simp only [Span.merge]
    by_cases hLe : a.start ≤ b.start
    · rw [Nat.min_eq_left hLe]
      exact ha.starts
    · rw [Nat.min_eq_right (Nat.le_of_not_le hLe)]
      exact hb.starts
  · simp only [Span.merge]
    by_cases hLe : a.stop ≤ b.stop
    · rw [Nat.max_eq_right hLe]
      exact hb.stops
    · rw [Nat.max_eq_left (Nat.le_of_not_le hLe)]
      exact ha.stops

end Span

/-- A token of a text stands in that text. -/
theorem Tokenises.span_le {offset : Nat} {text : List Char} (h : Tokenises offset text tokens)
    (hToken : token ∈ tokens) :
    token.span.start ≤ token.span.stop ∧ token.span.stop ≤ offset + byteLength text := by
  obtain ⟨before, piece, after, rfl, hSpan, -⟩ := h.pieces token hToken
  rw [hSpan]
  simp only [byteLength_append]
  omega

theorem Span.Joins.marksIn {source : String} {span : Span} (h : span.Joins (lex source)) :
    span.MarksIn source := by
  obtain ⟨token, hToken, hStop⟩ := h.stops
  have hInside := ((tokensFrom_tokenises 0 source.toList).span_le hToken).2
  rw [hStop, byteLength_toList, Nat.zero_add] at hInside
  exact ⟨h, hInside⟩

/-- A span from the start of a token to the end of one, where the first one can be passed. -/
structure Span.Marks (tokens : List Token) (span : Span) : Prop extends span.Joins tokens where
  filled : span.start < span.stop
  sound : ∃ token ∈ tokens, token.kind.isReadable = true ∧ span.start = token.span.start

theorem Span.Marks.merge {a b : Span} (ha : a.Marks tokens) (hb : b.Marks tokens) :
    (a.merge b).Marks tokens := by
  have hFirst := ha.filled
  have hSecond := hb.filled
  refine ⟨ha.toJoins.merge hb.toJoins, by simp only [Span.merge]; omega, ?_⟩
  rcases Nat.le_total a.start b.start with h | h
  · rw [Span.merge, Nat.min_eq_left h]
    exact ha.sound
  · rw [Span.merge, Nat.min_eq_right h]
    exact hb.sound

theorem Token.marks (h : token ∈ tokens) (hReadable : token.kind.isReadable = true)
    (hFilled : token.span.start < token.span.stop) : token.span.Marks tokens :=
  ⟨⟨Nat.le_of_lt hFilled, ⟨token, h, rfl⟩, ⟨token, h, rfl⟩⟩, hFilled, token, h, hReadable, rfl⟩

/-! ## Faults of the lexer -/

namespace TokenKind

/-- Behind these tokens there is a name, whatever else stands in the file. -/
def wantsName : TokenKind → Bool
  | .keyword .package | .keyword .const | .keyword .var | .keyword .type | .keyword .func
  | .punct .dot => true
  | _ => false

/-- Behind these tokens there are places for a name; only those above leave no other choice. -/
def mayWantName : TokenKind → Bool
  | .punct .lparen | .punct .rparen | .punct .lbrace | .punct .amp | .punct .comma
  | .punct .semicolon | .newline => true
  | kind => kind.wantsName

def isError : TokenKind → Bool
  | .error _ => true
  | _ => false

theorem isError_of_isReadable {kind : TokenKind} (h : kind.isReadable = true) :
    kind.isError = false := by
  cases kind <;> first | rfl | cases h

end TokenKind

/-- An error at a token: where the token is a fault of the lexer, it is that fault that is reported,
unless a name was wanted. -/
inductive ParseError.At (tokens : List Token) (cause : ParseError) : Prop where
  | sound {before token after}
      (hTokens : tokens = before ++ token :: after) (hKind : token.kind.isError = false)
      (hStart : cause.span.start = token.span.start)
  | fault {before token after fault}
      (hTokens : tokens = before ++ token :: after) (hKind : token.kind = .error fault)
      (hSpan : cause.span = token.span) (hCode : cause.code = fault.code)
      (hMessage : cause.message = fault.message)
      (hBefore : ∀ last ∈ before.getLast?, last.kind.wantsName = false)
  | name {before token after fault}
      (hTokens : tokens = before ++ token :: after) (hKind : token.kind = .error fault)
      (hSpan : cause.span = token.span) (hCode : cause.code = .expectedIdentifier)
      (hMessage : cause.message = "expected identifier, found error")
      (hBefore : ∃ last ∈ before.getLast?, last.kind.mayWantName = true)

namespace ParseError.At

variable {tokens : List Token} {cause : ParseError}

theorem of_marks (h : cause.span.Marks tokens) : cause.At tokens := by
  obtain ⟨token, hToken, hReadable, hStart⟩ := h.sound
  obtain ⟨before, after, hTokens⟩ := List.append_of_mem hToken
  exact .sound hTokens (TokenKind.isError_of_isReadable hReadable) hStart

/-- To say what was being read changes neither place, code nor message. -/
theorem within (h : cause.At tokens) (context : String) : (cause.within context).At tokens := by
  unfold ParseError.within
  split
  · exact h
  · cases h with
    | sound hTokens hKind hStart => exact .sound hTokens hKind hStart
    | fault hTokens hKind hSpan hCode hMessage hBefore =>
        exact .fault hTokens hKind hSpan hCode hMessage hBefore
    | name hTokens hKind hSpan hCode hMessage hBefore =>
        exact .name hTokens hKind hSpan hCode hMessage hBefore

end ParseError.At

/-- An error that has its place among the tokens and is reported as what stands there. -/
structure ParseError.Reported (tokens : List Token) (cause : ParseError) : Prop where
  joins : cause.span.Joins tokens
  told : cause.At tokens

theorem ParseError.Reported.of_marks (h : cause.span.Marks tokens) :
    cause.Reported tokens := ⟨h.toJoins, .of_marks h⟩

theorem ParseError.Reported.within (h : cause.Reported tokens) (context : String) :
    (cause.within context).Reported tokens := by
  have hSpan : (cause.within context).span = cause.span := by
    unfold ParseError.within
    split <;> rfl
  exact ⟨hSpan ▸ h.joins, h.told.within context⟩

/-! ## Cursors -/

namespace Cursor

variable {tokens read : List Token} {c c' : Cursor} {kind : TokenKind}

/-- The kind of the token before the current one. -/
def behind (tokens : List Token) (c : Cursor) : Option TokenKind :=
  (tokens.take c.position).getLast?.map Token.kind

/-- The token before leaves a choice. -/
def Clear (tokens : List Token) (c : Cursor) : Prop :=
  ∀ kind ∈ c.behind tokens, kind.wantsName = false

/-- If the current token is a fault of the lexer, it stands where there is a place for a name. -/
def AtName (tokens : List Token) (c : Cursor) : Prop :=
  c.kind.isError = false ∨ ∃ kind ∈ c.behind tokens, kind.mayWantName = true

theorem clear_of_behind (h : c.behind tokens = some kind) (hKind : kind.wantsName = false) :
    c.Clear tokens := by
  intro kind' hKind'
  rw [h] at hKind'
  cases hKind'
  exact hKind

theorem atName_of_behind (h : c.behind tokens = some kind) (hKind : kind.mayWantName = true) :
    c.AtName tokens := .inr ⟨kind, h, hKind⟩

/-- Behind a cursor is the token that was passed last. -/
theorem Passes.behind (h : c.Passes read c') (hc : c.Within tokens) :
    c'.behind tokens = (read.getLast?.map Token.kind).or (c.behind tokens) := by
  unfold Cursor.behind
  rw [h.position, List.take_add, hc.ahead, h.tokens, List.take_left, List.getLast?_append]
  cases read.getLast? <;> rfl

theorem Passes.clear (h : c.Passes read c') (hc : c.Within tokens) (hClear : c.Clear tokens)
    (hRead : ∀ token ∈ read, token.kind.wantsName = false) : c'.Clear tokens := by
  intro kind hKind
  rw [h.behind hc] at hKind
  cases hLast : read.getLast? with
  | none =>
      rw [hLast] at hKind
      exact hClear kind hKind
  | some last =>
      rw [hLast] at hKind
      cases hKind
      exact hRead last (List.mem_of_getLast? hLast)

/-- Tokens behind which a name may stand do not change whether one may stand here. -/
theorem Passes.atName (h : c.Passes read c') (hc : c.Within tokens) (hName : c.AtName tokens)
    (hRead : ∀ token ∈ read, token.kind.mayWantName = true) : c'.AtName tokens := by
  cases hLast : read.getLast? with
  | none =>
      have hNil : read = [] := List.getLast?_eq_none_iff.mp hLast
      subst hNil
      have hSame : c'.current = c.current := (List.cons.inj h.tokens).1.symm
      have hBehind : c'.behind tokens = c.behind tokens := h.behind hc
      unfold AtName Cursor.kind
      rwa [hSame, hBehind]
  | some last =>
      refine .inr ⟨last.kind, ?_, hRead last (List.mem_of_getLast? hLast)⟩
      rw [h.behind hc, hLast]
      rfl

/-- A cursor behind a token that leaves a choice, where a name may stand. -/
def AtNaming (tokens : List Token) (c : Cursor) : Prop := c.Clear tokens ∧ c.AtName tokens

/-- A cursor behind a token of a kind. -/
def Behind (tokens : List Token) (kind : TokenKind) (c : Cursor) : Prop :=
  c.behind tokens = some kind

/-- A cursor in a token list, in front of tokens in order, all of them behind the one that was read
last. -/
structure Stands (tokens : List Token) (c : Cursor) : Prop where
  within : c.Within tokens
  ordered : c.Ordered
  turned : ∀ token ∈ tokens, token.span.start ≤ token.span.stop
  marks : 0 < c.previous.stop → c.previous.Marks tokens
  filled : c.previous.start ≤ c.previous.stop
  passed : c.previous.stop ≤ c.span.start

/-- A cursor is not behind another one. -/
abbrev Onward (c c' : Cursor) : Prop :=
  c.previous.stop ≤ c.span.start ∧ c.span.start ≤ c'.span.start ∧
    c.previous.start ≤ c'.previous.start ∧ c.previous.stop ≤ c'.previous.stop ∧
    c'.previous.stop ≤ c'.span.start

/-- The token in front of a cursor was read on the way to another one. -/
abbrev Past (tokens : List Token) (c c' : Cursor) : Prop :=
  c.span.Marks tokens ∧ c.span.start < c.span.stop ∧ c.span.stop ≤ c'.previous.stop ∧
    c.span.start ≤ c'.previous.start

theorem Past.later {c1 c2 : Cursor} (h : c.Past tokens c1) (hOnward : c1.Onward c2) :
    c.Past tokens c2 := ⟨h.1, by omega⟩

namespace Stands

theorem split (h : c.Stands tokens) : tokens = tokens.take c.position ++ c.current :: c.rest := by
  rw [← h.within.ahead, List.take_append_drop]

theorem ahead_mem (h : c.Stands tokens) (hToken : token ∈ c.current :: c.rest) :
    token ∈ tokens := by
  rw [h.split]
  exact List.mem_append_right _ hToken

theorem onward (h : c.Stands tokens) : c.Onward c :=
  ⟨h.passed, Nat.le_refl _, Nat.le_refl _, Nat.le_refl _, h.passed⟩

theorem passes (h : c.Stands tokens) (hRead : c.Passes read c') :
    c'.Stands tokens ∧ c.Onward c' ∧ (read ≠ [] → c.Past tokens c') := by
  have hForward := hRead.forward h.ordered
  have hFilled := h.filled
  have hPassed := h.passed
  have hWithin := h.within.passes hRead
  have hOrdered := hRead.ordered h.ordered
  by_cases hSome : read = []
  · subst hSome
    have hPrevious : c'.previous = c.previous := hRead.previous
    have hStart : c'.previous.start = c.previous.start := by rw [hPrevious]
    have hStop : c'.previous.stop = c.previous.stop := by rw [hPrevious]
    exact ⟨⟨hWithin, hOrdered, h.turned, hPrevious ▸ h.marks, by omega, by omega⟩, by omega,
      fun h => absurd rfl h⟩
  · have hLast : c'.previous = (read.getLast hSome).span := by
      rw [hRead.previous, List.getLast?_eq_getLast_of_ne_nil hSome]
      rfl
    have hMarks {token : Token} (hToken : token ∈ read) : token.span.Marks tokens :=
      token.marks (h.ahead_mem (hRead.tokens ▸ List.mem_append_left _ hToken))
        (hRead.readable token hToken) (hRead.between h.ordered hToken).2.1
    have hFirst : _ ∧ c.span.start < c.span.stop ∧ c.span.stop ≤ _ :=
      hRead.between h.ordered (hRead.head_mem hSome)
    have hFinal := hRead.between h.ordered (List.getLast_mem hSome)
    have hStop : c.span.stop ≤ c'.previous.stop := by
      rw [hLast]
      by_cases hSame : read.getLast hSome = c.current
      · rw [hSame]
        exact Nat.le_refl _
      · have hMem : read.getLast hSome ∈ c.current :: c.rest :=
          hRead.tokens ▸ List.mem_append_left _ (List.getLast_mem hSome)
        have hApart : c.span.stop ≤ (read.getLast hSome).span.start :=
          (List.pairwise_cons.mp h.ordered.apart).1 _ ((List.mem_cons.mp hMem).resolve_left hSame)
        omega
    rw [← hLast] at hFinal
    exact ⟨⟨hWithin, hOrdered, h.turned, fun _ => hLast ▸ hMarks (List.getLast_mem hSome),
      by omega, by omega⟩, by omega, fun _ => ⟨hMarks (hRead.head_mem hSome), by omega⟩⟩

/-- An error at the current token, which is no fault or is reported as the fault that it is. -/
theorem reported (h : c.Stands tokens) (hSpan : cause.span = c.span) (hc : c.Clear tokens)
    (hFault : ∀ fault, c.kind = .error fault →
      cause.code = fault.code ∧ cause.message = fault.message) : cause.Reported tokens := by
  have hMem := h.ahead_mem List.mem_cons_self
  refine ⟨hSpan ▸ ⟨h.turned _ hMem, ⟨_, hMem, rfl⟩, ⟨_, hMem, rfl⟩⟩, ?_⟩
  cases hKind : c.kind with
  | error fault =>
      obtain ⟨hCode, hMessage⟩ := hFault fault hKind
      refine .fault h.split hKind hSpan hCode hMessage fun last hLast => hc last.kind ?_
      rw [Cursor.behind, hLast]
      rfl
  | _ =>
      refine .sound h.split ?_ (congrArg Span.start hSpan)
      rw [show c.current.kind = _ from hKind]
      rfl

end Stands

end Cursor

namespace Grammar

open Cursor (Clear AtName AtNaming Behind)

variable {α β : Type} {tokens : List Token} {c : Cursor}

/-- From a cursor of one kind a parser goes on to a cursor of another kind and gives what is
promised, or it reports an error. -/
def Goes (tokens : List Token) (before after : Cursor → Prop) (c : Cursor) (parser : Parser α)
    (good : α → Cursor → Prop) : Prop :=
  c.Stands tokens → before c → ∀ count,
    match parser ⟨c, count⟩ with
    | .ok (value, last) => last.cursor.Stands tokens ∧ after last.cursor ∧ c.Onward last.cursor ∧
        good value last.cursor
    | .error (.error cause) => cause.Reported tokens
    | .error .exhausted => True

/-- A rule that is used where there is a choice, and behind which there is one again. -/
abbrev Travels (tokens : List Token) (c : Cursor) (parser : Parser α) (good : α → Cursor → Prop) :
    Prop := Goes tokens (Clear tokens) (Clear tokens) c parser good

namespace Goes

variable {before after : Cursor → Prop} {parser : Parser α} {good : α → Cursor → Prop}
  {good' : β → Cursor → Prop}

theorem pure {value : α} (h : good value c) : Goes tokens before before c (pure value) good :=
  fun hc hBefore _ => ⟨hc, hBefore, hc.onward, h⟩

theorem exhausted : Goes tokens before after c (exhausted : Parser α) good := fun _ _ _ => trivial

theorem bind {middle : Cursor → Prop} {next : α → Parser β}
    (h : Goes tokens before middle c parser good)
    (hNext : ∀ value c', c.Onward c' → good value c' →
      Goes tokens middle after c' (next value) good') :
    Goes tokens before after c (parser >>= next) good' := by
  intro hc hBefore count
  have hFirst := h hc hBefore count
  show match (parser ⟨c, count⟩ >>= fun found => next found.1 found.2) with
    | .ok (value, last) => _
    | .error (.error _) => _
    | .error .exhausted => _
  cases hRun : parser ⟨c, count⟩ with
  | error failure =>
      rw [hRun] at hFirst
      cases failure with
      | error cause => exact hFirst
      | exhausted => trivial
  | ok found =>
      rw [hRun] at hFirst
      obtain ⟨hStands, hMiddle, hOnward, hGood⟩ := hFirst
      have hRest := hNext found.1 found.2.cursor hOnward hGood hStands hMiddle found.2.exprCount
      show match next found.1 found.2 with
        | .ok (value, last) => _
        | .error (.error _) => _
        | .error .exhausted => _
      cases hMore : next found.1 found.2 with
      | error failure =>
          rw [hMore] at hRest
          cases failure with
          | error cause => exact hRest
          | exhausted => trivial
      | ok result =>
          rw [hMore] at hRest
          obtain ⟨hLast, hAfter, hOnward', hGood'⟩ := hRest
          exact ⟨hLast, hAfter, by omega, hGood'⟩

/-- What holds of every outcome may be told in other words. -/
theorem imp {before' : Cursor → Prop} {better : α → Cursor → Prop}
    (h : Goes tokens before after c parser better) (hBefore : before' c → before c)
    (hImp : c.Stands tokens → ∀ count value last, parser ⟨c, count⟩ = .ok (value, last) →
      after last.cursor → c.Onward last.cursor → better value last.cursor →
      after' last.cursor ∧ good value last.cursor) : Goes tokens before' after' c parser good := by
  intro hc hGiven count
  have hRun := h hc (hBefore hGiven) count
  cases hResult : parser ⟨c, count⟩ with
  | error failure =>
      rw [hResult] at hRun
      cases failure with
      | error cause => exact hRun
      | exhausted => trivial
  | ok found =>
      rw [hResult] at hRun
      obtain ⟨hStands, hAfter, hOnward, hBetter⟩ := hRun
      obtain ⟨hAfter', hGood⟩ := hImp hc count found.1 found.2 hResult hAfter hOnward hBetter
      exact ⟨hStands, hAfter', hOnward, hGood⟩

theorem mono {better : α → Cursor → Prop} (h : Goes tokens before after c parser better)
    (imp : ∀ value c', c.Onward c' → better value c' → good value c') :
    Goes tokens before after c parser good :=
  h.imp id fun _ _ _ _ _ hAfter hOnward hBetter => ⟨hAfter, imp _ _ hOnward hBetter⟩

/-- A parser that can do with less. -/
theorem given {before' : Cursor → Prop} (h : Goes tokens before after c parser good)
    (hBefore : before' c → before c) : Goes tokens before' after c parser good :=
  h.imp hBefore fun _ _ _ _ _ hAfter _ hGood => ⟨hAfter, hGood⟩

theorem upto (h : Goes tokens before after c parser good) (hAfter : ∀ c', after c' → after' c') :
    Goes tokens before after' c parser good :=
  h.imp id fun _ _ _ _ _ hLast _ hGood => ⟨hAfter _ hLast, hGood⟩

/-- Moves that are known otherwise to pass some token. -/
theorem and_past (h : Goes tokens before after c parser good) (hAdvances : Consumes c parser) :
    Goes tokens before after c parser fun value c' => c.Past tokens c' ∧ good value c' := by
  refine h.imp id fun hc count value last hRun hAfter _ hGood => ⟨hAfter, ?_, hGood⟩
  obtain ⟨read, hRead, hSome⟩ := hAdvances hc.ordered.ends count value last hRun
  exact (hc.passes hRead).2.2 (hSome trivial)

theorem map {f : α → β} (h : Goes tokens before after c parser fun value c' => good' (f value) c') :
    Goes tokens before after c (f <$> parser) good' := by
  rw [map_eq_pure_bind]
  exact h.bind fun _ _ _ hValue => .pure hValue

theorem fail (h : c.Stands tokens → before c → cause.Reported tokens) :
    Goes tokens before after c (fail cause : Parser α) good := fun hc hBefore _ => h hc hBefore

/-- Nothing runs behind a failure. -/
theorem fail_bind {next : α → Parser β} (h : c.Stands tokens → before c → cause.Reported tokens) :
    Goes tokens before after c (Grammar.fail cause >>= next) good' :=
  fun hc hBefore _ => h hc hBefore

theorem unexpected {wanted : ParseError.Wanted} :
    Goes tokens (Clear tokens) after c (unexpected wanted : Parser α) good := by
  intro hc hClear _
  show (ParseError.unexpected wanted c.kind c.span).Reported tokens
  refine hc.reported ?_ hClear fun fault hKind => ?_
  · unfold ParseError.unexpected
    split <;> rfl
  · rw [hKind]
    exact ⟨rfl, rfl⟩

/-- A check that ends reading or lets it go on. -/
theorem stopIf {check : Bool} {stop : ParseError.Wanted}
    (h : Goes tokens (Clear tokens) after c parser good) :
    Goes tokens (Clear tokens) after c (do
      if check then Grammar.unexpected stop
      parser) good := by
  cases check with
  | true =>
      have hStop : Travels tokens c (Grammar.unexpected stop : Parser Unit) fun _ _ => False :=
        .unexpected
      exact hStop.bind fun _ _ _ hFalse => hFalse.elim
  | false => exact h

theorem within (context : String) (h : Goes tokens before after c parser good) :
    Goes tokens before after c (within context parser) good := by
  intro hc hBefore count
  have hRun := h hc hBefore count
  unfold Grammar.within
  cases hResult : parser ⟨c, count⟩ with
  | ok found =>
      rw [hResult] at hRun
      exact hRun
  | error failure =>
      rw [hResult] at hRun
      cases failure with
      | error cause => exact hRun.within context
      | exhausted => trivial

/-! ### Looking ahead -/

theorem cursor_bind {next : Cursor → Parser β} (h : Goes tokens before after c (next c) good') :
    Goes tokens before after c (cursor >>= next) good' := h

theorem kind_bind {next : TokenKind → Parser β}
    (h : Goes tokens before after c (next c.kind) good') :
    Goes tokens before after c (kind >>= next) good' := h

theorem span_bind {next : Span → Parser β} (h : Goes tokens before after c (next c.span) good') :
    Goes tokens before after c (span >>= next) good' := h

/-- The token that was read last, once there is one. -/
theorem previousSpan_bind {next : Span → Parser β} (hBegun : 0 < c.previous.stop)
    (h : c.previous.Marks tokens → Goes tokens before after c (next c.previous) good') :
    Goes tokens before after c (previousSpan >>= next) good' :=
  fun hc => h (hc.marks hBegun) hc

theorem check_bind {next : Bool → Parser β}
    (h : Goes tokens before after c (next (c.check wanted)) good') :
    Goes tokens before after c (check wanted >>= next) good' := h

theorem checkSign_bind {next : Bool → Parser β}
    (h : Goes tokens before after c (next (c.check (.punct sign))) good') :
    Goes tokens before after c (checkSign sign >>= next) good' := h

theorem node {good : Expr → Cursor → Prop} (h : good e c) :
    Goes tokens before before c (node e) good := fun hc hBefore _ => ⟨hc, hBefore, hc.onward, h⟩

theorem node_bind {next : Expr → Parser β} (h : Goes tokens before after c (next e) good') :
    Goes tokens before after c (Grammar.node e >>= next) good' :=
  fun hc hBefore count => h hc hBefore (count + 1)

/-! ### Reading tokens -/

theorem advance_behind {kind : TokenKind} (hKind : c.kind = kind) (h : kind.isReadable = true) :
    Goes tokens before (Behind tokens kind) c advance fun token c' =>
      token.span = c.span ∧ c.Past tokens c' := by
  subst hKind
  intro hc _ count
  have hRead := Cursor.Passes.next hc.ordered.ends h
  obtain ⟨hStands, hOnward, hPast⟩ := hc.passes hRead
  exact ⟨hStands, hRead.behind hc.within, hOnward, rfl, hPast (List.cons_ne_nil _ _)⟩

theorem advance {kind : TokenKind} (hKind : c.kind = kind) (h : kind.isReadable = true)
    (hClear : kind.wantsName = false) :
    Goes tokens before (Clear tokens) c advance fun token c' =>
      token.span = c.span ∧ c.Past tokens c' :=
  (advance_behind hKind h).upto fun _ hBehind => Cursor.clear_of_behind hBehind hClear

theorem advance_name {kind : TokenKind} (hKind : c.kind = kind) (h : kind.isReadable = true)
    (hName : kind.mayWantName = true) :
    Goes tokens before (AtName tokens) c Grammar.advance fun token c' =>
      token.span = c.span ∧ c.Past tokens c' :=
  (advance_behind hKind h).upto fun _ hBehind => Cursor.atName_of_behind hBehind hName

theorem expect (h : wanted.isReadable = true) :
    Goes tokens (Clear tokens) (Behind tokens wanted) c (expect wanted) fun span c' =>
      span = c.span ∧ c.Past tokens c' := by
  apply check_bind
  split
  · next hCheck => exact (advance_behind (beq_iff_eq.mp
      hCheck) h).bind fun _ _ _ hRead => pure hRead
  · exact unexpected

theorem expectSign (sign : Punct) (h : (TokenKind.punct sign).wantsName = false) :
    Travels tokens c (expectSign sign) fun span c' => span = c.span ∧ c.Past tokens c' :=
  (expect rfl).upto fun _ hBehind => Cursor.clear_of_behind hBehind h

theorem expectBrace : Goes tokens (Clear tokens) (AtNaming tokens) c (Grammar.expectSign .lbrace)
    fun span c' => span = c.span ∧ c.Past tokens c' :=
  (expect rfl).upto fun _ hBehind =>
    ⟨Cursor.clear_of_behind hBehind rfl, Cursor.atName_of_behind hBehind rfl⟩

theorem expectAmp : Goes tokens (Clear tokens) (AtName tokens) c (Grammar.expectSign .amp)
    fun span c' => span = c.span ∧ c.Past tokens c' :=
  (expect rfl).upto fun _ hBehind => Cursor.atName_of_behind hBehind rfl

theorem expectWord (word : Keyword) (h : (TokenKind.keyword word).wantsName = false) :
    Travels tokens c (expectWord word) fun span c' => span = c.span ∧ c.Past tokens c' :=
  (expect rfl).upto fun _ hBehind => Cursor.clear_of_behind hBehind h

theorem expectWord_name (word : Keyword) (h : (TokenKind.keyword word).mayWantName = true) :
    Goes tokens (Clear tokens) (AtName tokens) c (Grammar.expectWord word) fun span c' =>
      span = c.span ∧ c.Past tokens c' :=
  (expect rfl).upto fun _ hBehind => Cursor.atName_of_behind hBehind h

/-- Where there is a place for a name, a fault is reported as the lack of one. -/
theorem expectIdent : Goes tokens (AtName tokens) (Clear tokens) c expectIdent fun found c' =>
    found.2 = c.span ∧ c.Past tokens c' := by
  apply kind_bind
  split
  · next name hKind => exact (advance hKind rfl rfl).bind fun _ _ _ hRead => pure hRead
  · refine span_bind (fail fun hc hName => ?_)
    have hMem := hc.ahead_mem List.mem_cons_self
    refine ⟨⟨hc.turned _ hMem, ⟨_, hMem, rfl⟩, ⟨_, hMem, rfl⟩⟩, ?_⟩
    cases hKind : c.kind with
    | error fault =>
        obtain hSound | ⟨_, hBehind, hMay⟩ := hName
        · rw [hKind] at hSound
          cases hSound
        · obtain ⟨last, hLast, rfl⟩ := Option.map_eq_some_iff.mp hBehind
          exact .name hc.split hKind rfl rfl rfl ⟨last, hLast, hMay⟩
    | _ =>
        refine .sound hc.split ?_ rfl
        rw [show c.current.kind = _ from hKind]
        rfl

/-- A sign is behind the cursor, or the cursor did not move. -/
theorem eatSign_bind {next : Bool → Parser β} (hMore : ∀ c', c.Onward c' →
      Goes tokens (Behind tokens (.punct sign)) after c' (next true) good')
    (hNone : Goes tokens before after c (next false) good') :
    Goes tokens before after c (eatSign sign >>= next) good' := by
  have hRun (count : Nat) : (eatSign sign >>= next) ⟨c, count⟩ =
    next (c.eat (.punct sign)).1 ⟨(c.eat (.punct sign)).2, count⟩ := rfl
  unfold Cursor.eat at hRun
  unfold Goes
  by_cases hCheck : c.check (.punct sign) = true
  · simp only [hRun, if_pos hCheck]
    exact (advance_behind (beq_iff_eq.mp hCheck) rfl).bind fun _ c' hOnward _ => hMore c' hOnward
  · simp only [hRun, if_neg hCheck]
    exact hNone

theorem eatSign (sign : Punct) (h : (TokenKind.punct sign).wantsName = false) :
    Travels tokens c (Grammar.eatSign sign) fun _ _ => True := by
  rw [← bind_pure (Grammar.eatSign sign)]
  exact eatSign_bind (fun c' _ => @Goes.given _ tokens _ _ _ _ _ (Behind tokens (.punct sign))
    (.pure trivial)
    fun hBehind => Cursor.clear_of_behind hBehind h) (.pure trivial)

/-- Tokens that are skipped leave a choice, and a place for a name if there was one. -/
theorem skip {parser : Parser Unit} (h : c.Ends → ∀ count, ∃ read last, c.Passes read last.cursor ∧
      (∀ token ∈ read, token.kind.wantsName = false ∧ token.kind.mayWantName = true) ∧
        parser ⟨c, count⟩ = .ok ((), last)) :
    (Travels tokens c parser fun _ _ => True) ∧
      Goes tokens (AtNaming tokens) (AtNaming tokens) c parser fun _ _ => True := by
  constructor
  · intro hc hClear count
    obtain ⟨read, last, hRead, hKinds, hRun⟩ := h hc.ordered.ends count
    obtain ⟨hStands, hOnward, -⟩ := hc.passes hRead
    rw [hRun]
    exact ⟨hStands, hRead.clear hc.within hClear fun _ h => (hKinds _ h).1, hOnward, trivial⟩
  · rintro hc ⟨hClear, hName⟩ count
    obtain ⟨read, last, hRead, hKinds, hRun⟩ := h hc.ordered.ends count
    obtain ⟨hStands, hOnward, -⟩ := hc.passes hRead
    rw [hRun]
    exact ⟨hStands, ⟨hRead.clear hc.within hClear fun _ h => (hKinds _ h).1,
      hRead.atName hc.within hName fun _ h => (hKinds _ h).2⟩, hOnward, trivial⟩

theorem skipNewlines_both : (Travels tokens c skipNewlines fun _ _ => True) ∧
    Goes tokens (AtNaming tokens) (AtNaming tokens) c skipNewlines fun _ _ => True := by
  refine skip fun hEnds count => ?_
  obtain ⟨read, hRead, hSkipped, -⟩ := Cursor.Passes.skipNewlines hEnds
  refine ⟨read, _, hRead, fun token hToken => ?_, rfl⟩
  rw [hSkipped token hToken]
  exact ⟨rfl, rfl⟩

theorem skipTerminators_both : (Travels tokens c skipTerminators fun _ _ => True) ∧
    Goes tokens (AtNaming tokens) (AtNaming tokens) c skipTerminators fun _ _ => True := by
  refine skip fun hEnds count => ?_
  obtain ⟨read, hRead, hSkipped, -⟩ := Cursor.Passes.skipTerminators hEnds
  refine ⟨read, _, hRead, fun token hToken => ?_, rfl⟩
  rcases hSkipped token hToken with hKind | hKind <;> rw [hKind] <;> exact ⟨rfl, rfl⟩

theorem skipNewlines : Travels tokens c skipNewlines fun _ _ => True := skipNewlines_both.1

theorem skipTerminators : Travels tokens c skipTerminators fun _ _ => True :=
  skipTerminators_both.1

theorem expectTerminator_naming : Goes tokens (Clear tokens) (AtNaming tokens) c expectTerminator
    fun _ _ => True := by
  have hNone (h : c.kind.isError = false) :
      Goes tokens (Clear tokens) (AtNaming tokens) c (Pure.pure () : Parser Unit) fun _ _ => True :=
    fun hc hClear _ => ⟨hc, ⟨hClear, .inl h⟩, hc.onward, trivial⟩
  apply kind_bind
  split
  · next hKind => exact hNone (by rw [hKind]; rfl)
  · next fault hKind =>
      refine span_bind (fail fun hc hClear => hc.reported rfl hClear fun fault' hKind' => ?_)
      cases hKind.symm.trans hKind'
      exact ⟨rfl, rfl⟩
  · next hOther =>
      split
      · refine hNone ?_
        cases hKind : c.kind with
        | error fault => exact absurd hKind (hOther fault)
        | _ => rfl
      · refine span_bind (fail fun hc hClear => hc.reported rfl hClear fun fault hKind => ?_)
        exact absurd hKind (hOther fault)

theorem expectTerminator : Travels tokens c expectTerminator fun _ _ => True :=
  expectTerminator_naming.upto fun _ => And.left

end Goes

end Grammar

end GoToC
