import GoToC.Proofs.Grammar.Ahead

/-!
# Tokens that are passed

A cursor moves over tokens one by one. Here the moves are told with the list of tokens that
were passed, and no error and no end of file is ever among them.
-/

namespace GoToC

/-- A token that may be passed: neither an error nor the end of the file. -/
def TokenKind.isReadable : TokenKind → Bool
  | .error _ | .eof => false
  | _ => true

theorem TokenKind.ne_eof_of_isReadable {kind : TokenKind} (h : kind.isReadable = true) :
    kind ≠ .eof := by
  rintro rfl
  cases h

namespace Cursor

/-- The number of tokens after the current one. -/
def left (c : Cursor) : Nat := c.rest.length

/-- Before the last token, which is the end of the file, there may be any others. -/
def Ends (c : Cursor) : Prop := ∃ init last, c.current :: c.rest = init ++ [last] ∧ last.kind = .eof

/-- The tokens that lie ahead: all their identifiers are words, and the last one is the
end of the file. -/
structure Sound (word : String → Prop) (c : Cursor) : Prop where
  words : ∀ token ∈ c.current :: c.rest, ∀ name, token.kind = .ident name → word name
  ends : c.Ends

/-- The tokens `read` were passed one after another on the way from one cursor to another. -/
structure Passes (c : Cursor) (read : List Token) (c' : Cursor) : Prop where
  tokens : c.current :: c.rest = read ++ c'.current :: c'.rest
  position : c'.position = c.position + read.length
  previous : c'.previous = (read.getLast?.map Token.span).getD c.previous
  readable : ∀ token ∈ read, token.kind.isReadable = true

variable {word : String → Prop} {c c' c'' : Cursor} {read more : List Token}

theorem Sound.word_of_ident (h : c.Sound word) {name : String} (hKind : c.kind = .ident name) :
    word name :=
  h.words c.current List.mem_cons_self name hKind

/-- Before the end of the file there is a next token. -/
theorem Ends.rest_ne_nil (h : c.Ends) (hKind : c.kind.isReadable = true) : c.rest ≠ [] := by
  intro hRest
  obtain ⟨init, last, hTokens, hLast⟩ := h
  rw [hRest] at hTokens
  cases init with
  | nil =>
      simp only [List.nil_append, List.cons.injEq, and_true] at hTokens
      rw [← hTokens] at hLast
      exact TokenKind.ne_eof_of_isReadable hKind hLast
  | cons first others => simp at hTokens

/-- Before the end of the file there is a next token, and the cursor goes to it. -/
theorem next_eq_of_rest {token : Token} {rest : List Token} (hKind : c.kind.isReadable = true)
    (hRest : c.rest = token :: rest) : c.next = ⟨c.position + 1, c.current.span, token, rest⟩ := by
  have hOn : c.atEnd = false := beq_eq_false_iff_ne.mpr (TokenKind.ne_eof_of_isReadable hKind)
  simp [Cursor.next, hOn, hRest]

namespace Passes

theorem refl (c : Cursor) : c.Passes [] c where
  tokens := rfl
  position := rfl
  previous := rfl
  readable := by simp

theorem trans (h : c.Passes read c') (h' : c'.Passes more c'') : c.Passes (read ++ more) c'' where
  tokens := by rw [h.tokens, h'.tokens, List.append_assoc]
  position := by rw [h'.position, h.position, List.length_append]; omega
  previous := by
    rw [h'.previous, h.previous, List.getLast?_append]
    cases more.getLast? <;> simp
  readable := by
    intro token hToken
    rcases List.mem_append.mp hToken with hRead | hMore
    · exact h.readable token hRead
    · exact h'.readable token hMore

/-- What was passed is not the end, so the end still lies ahead. -/
theorem ends (h : c.Passes read c') (hc : c.Ends) : c'.Ends := by
  obtain ⟨init, last, hTokens, hLast⟩ := hc
  have hSome : c'.current :: c'.rest ≠ [] := List.cons_ne_nil _ _
  have hSplit := List.dropLast_concat_getLast hSome
  have hSame : (c'.current :: c'.rest).getLast hSome = last := by
    rw [h.tokens, ← hSplit, ← List.append_assoc] at hTokens
    exact List.singleton_inj.mp (List.append_inj_right' hTokens rfl)
  exact ⟨_, last, hSame ▸ hSplit.symm, hLast⟩

/-- The tokens behind those that were passed are as sound as all of them. -/
theorem sound (h : c.Passes read c') (hc : c.Sound word) : c'.Sound word :=
  ⟨fun token hToken => hc.words token (h.tokens ▸ List.mem_append_right read hToken),
    h.ends hc.ends⟩

theorem left_eq (h : c.Passes read c') : c.left = read.length + c'.left := by
  have hLength := congrArg List.length h.tokens
  simp only [List.length_append, List.length_cons] at hLength
  unfold Cursor.left
  omega

/-- One readable token is passed by going to the next one. -/
theorem next (hc : c.Ends) (hKind : c.kind.isReadable = true) : c.Passes [c.current] c.next := by
  cases hRest : c.rest with
  | nil => exact absurd hRest (hc.rest_ne_nil hKind)
  | cons token rest =>
      rw [next_eq_of_rest hKind hRest]
      exact ⟨by simp [hRest], rfl, rfl, fun read hRead => List.mem_singleton.mp hRead ▸ hKind⟩

/-- Skipping passes tokens of the skipped kinds, and stops at the first of another kind. -/
theorem skipWhile {skip : TokenKind → Bool} (hc : c.Ends)
    (hSkip : ∀ kind, skip kind = true → kind.isReadable = true) :
    ∃ read, c.Passes read (c.skipWhile skip) ∧ (∀ token ∈ read, skip token.kind = true) ∧
      skip (c.skipWhile skip).kind = false := by
  induction hRest : c.rest generalizing c with
  | nil =>
      have hKind : skip c.kind = false := by
        rw [← Bool.not_eq_true]
        exact fun hKind => hc.rest_ne_nil (hSkip _ hKind) hRest
      rw [skipWhile_of_eq_false hKind]
      exact ⟨[], .refl c, by simp, hKind⟩
  | cons token rest ih =>
      by_cases hKind : skip c.kind = true
      · have hReadable := hSkip _ hKind
        have hStep := Passes.next hc hReadable
        have hLater : c.next.rest = rest := by rw [next_eq_of_rest hReadable hRest]
        obtain ⟨read, hRead, hSkipped, hStop⟩ := ih (hStep.ends hc) hLater
        rw [skipWhile_of_eq_true hKind (hc.rest_ne_nil hReadable)
          (TokenKind.ne_eof_of_isReadable hReadable)]
        refine ⟨c.current :: read, hStep.trans hRead, ?_, hStop⟩
        exact List.forall_mem_cons.mpr ⟨hKind, hSkipped⟩
      · rw [Bool.not_eq_true] at hKind
        rw [skipWhile_of_eq_false hKind]
        exact ⟨[], .refl c, by simp, hKind⟩

theorem skipNewlines (hc : c.Ends) :
    ∃ read, c.Passes read c.skipNewlines ∧ (∀ token ∈ read, token.kind = .newline) ∧
      c.skipNewlines.kind ≠ .newline := by
  have hSkip : ∀ kind : TokenKind, (kind == .newline) = true → kind.isReadable = true := by
    intro kind hKind
    rw [beq_iff_eq.mp hKind]
    rfl
  obtain ⟨read, hRead, hSkipped, hStop⟩ := Passes.skipWhile hc hSkip
  exact ⟨read, hRead, fun token hToken => beq_iff_eq.mp (hSkipped token hToken),
    beq_eq_false_iff_ne.mp hStop⟩

theorem skipTerminators (hc : c.Ends) : ∃ read, c.Passes read c.skipTerminators ∧
      (∀ token ∈ read, token.kind = .newline ∨ token.kind = .punct .semicolon) ∧
      c.skipTerminators.kind ≠ .newline ∧ c.skipTerminators.kind ≠ .punct .semicolon := by
  have hSkip : ∀ kind : TokenKind,
      (kind == .newline || kind == .punct .semicolon) = true → kind.isReadable = true := by
    intro kind hKind
    rcases Bool.or_eq_true_iff.mp hKind with hLine | hSign
    · rw [beq_iff_eq.mp hLine]
      rfl
    · rw [beq_iff_eq.mp hSign]
      rfl
  obtain ⟨read, hRead, hSkipped, hStop⟩ := Passes.skipWhile hc hSkip
  refine ⟨read, hRead, fun token hToken => ?_, ?_⟩
  · simpa using hSkipped token hToken
  · simpa [Cursor.skipTerminators] using hStop

end Passes

end Cursor

end GoToC
