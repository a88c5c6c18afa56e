import GoToC.Proofs.Grammar.Reads
import GoToC.Proofs.Grammar.Settling
import GoToC.Proofs.Tree.Formed

/-!
# Types and signatures are well formed

The rules for types give trees that have the form of types, and the last input of a
variadic signature is written as a slice. A rule that is given sixteen steps for each
token that is left, and a few more, does not run out of them.
-/

namespace GoToC

variable {word : String → Prop}

theorem paramsFormed_iff {params : List (Param Expr)} : ParamsFormed word params ↔
      ∀ param ∈ params, OptionalWord word param.name ∧ param.type.IsType word := by
  induction params with
  | nil => simp [ParamsFormed]
  | cons param rest ih => simp [ParamsFormed, ih]

namespace Grammar

namespace Entry

def Formed (word : String → Prop) : Entry → Prop
  | .named name _ type => word name ∧ type.IsType word
  | .lone e => e.IsType word

/-- An entry that is written as a slice. -/
def IsSlice (entry : Entry) : Prop := ∃ span elem, entry.expr = .sliceType span elem

variable {entries : List Entry} {entry : Entry} {params : List (Param Expr)} {name : String}
  {span : Span}

theorem Formed.isType (h : entry.Formed word) : entry.expr.IsType word := by
  cases entry with
  | named name span type => exact h.2
  | lone e => exact h

theorem name?_word (h : entry.Formed word) (hName : entry.name? = some (name, span)) :
    word name := by
  cases entry with
  | named own place type =>
      cases hName
      exact h.1
  | lone e =>
      cases e <;> cases hName
      rwa [Formed, Expr.IsType] at h

theorem asName_word {e : Expr} (h : e.IsType word) (hName : asName e = .ok (name, span)) :
    word name := by
  rwa [asName_eq_ok.mp hName, Expr.IsType] at h

theorem settle_formed (hEntries : ∀ entry ∈ entries, entry.Formed word)
    (h : settle entries = .ok params) : ParamsFormed word params := by
  rw [paramsFormed_iff]
  intro param hParam
  obtain ⟨⟨source, hSource, hType⟩, hName⟩ := (settle_settled h).made hParam
  refine ⟨fun hNamed => ?_, hType ▸ (hEntries source hSource).isType⟩
  rcases hName with ⟨-, hEmpty⟩ | ⟨entry, hEntry, hName⟩
  · simp [GoToC.isNamed, hEmpty] at hNamed
  · exact name?_word (hEntries entry hEntry) hName

theorem settle_last {init : List Entry} (hSlice : entry.IsSlice)
    (h : settle (init ++ [entry]) = .ok params) :
    ∃ before name span elem whole, params = before ++ [⟨name, .sliceType span elem, whole⟩] := by
  obtain ⟨span, elem, hExpr⟩ := hSlice
  obtain ⟨before, name, whole, rfl⟩ := (settle_settled h).last (by simp [hExpr])
  exact ⟨before, name, span, elem, whole, by rw [hExpr]⟩

end Entry

/-- What is known of the entries that were read behind one that was variadic or not: if the last
entry is variadic, it is written as a slice, unless it came before. -/
def EntriesFormed (word : String → Prop) (variadic : Bool) (found : List Entry × Bool) : Prop :=
  (∀ entry ∈ found.1, entry.Formed word) ∧ (found.2 = true → (found.1 = [] ∧ variadic = true) ∨
      ∃ init entry, found.1 = init ++ [entry] ∧ entry.IsSlice)

/-- A type was read, and with it at least one token. -/
abbrev TypeRead (word : String → Prop) (c : Cursor) (e : Expr) (c' : Cursor) : Prop :=
  c'.left < c.left ∧ e.IsType word

abbrev SignatureRead (word : String → Prop) (c : Cursor) (signature : Signature Expr)
    (c' : Cursor) : Prop :=
  c'.left < c.left ∧ SignatureFormed word signature

/-- An entry was read, and if it is variadic it is written as a slice. -/
abbrev EntryRead (word : String → Prop) (c : Cursor) (found : Entry × Bool) (c' : Cursor) : Prop :=
  c'.left < c.left ∧ found.1.Formed word ∧ (found.2 = true → found.1.IsSlice)

/-! ## Rounds -/

section

variable {c : Cursor} {fuel : Nat}

theorem fieldsRound_reads
    (hType : ∀ c, Reads (16 * c.left + 1 ≤ fuel) word c (parseType fuel) (TypeRead word c)) :
    Reads (16 * c.left ≤ fuel) word c (fieldsRound fuel)
      (RoundRead (fun _ => ParamsFormed word) () c) := by
  refine Reads.skipTerminators.bind fun _ c1 h1 => .checkSign_bind fun closed => ?_
  split
  · exact .pure ⟨h1, by simp [ParamsFormed]⟩
  · refine Reads.expectIdent.bind fun name c2 h2 => ?_
    refine ((hType c2).given (by omega)).bind fun type c3 h3 => ?_
    refine Reads.expectTerminator.bind fun _ c4 h4 => .pure ⟨by omega, fun others hOthers => ?_⟩
    show ParamsFormed word (_ :: others)
    rw [ParamsFormed]
    exact ⟨⟨fun _ => h2.2, h3.2⟩, hOthers⟩

theorem methodSpecsRound_reads
    (hSignature : ∀ c, Reads (16 * c.left + 2 ≤ fuel) word c (parseSignature fuel)
      (SignatureRead word c)) :
    Reads (16 * c.left ≤ fuel) word c (methodSpecsRound fuel)
      (RoundRead (fun _ => SpecsFormed word) () c) := by
  refine Reads.skipTerminators.bind fun _ c1 h1 => .checkSign_bind fun closed => ?_
  split
  · exact .pure ⟨h1, by simp [SpecsFormed]⟩
  · refine Reads.expectIdent.bind fun name c2 h2 => ?_
    refine ((hSignature c2).given (by omega)).bind fun signature c3 h3 => ?_
    refine .previousSpan_bind fun stop => Reads.expectTerminator.bind fun _ c4 h4 => ?_
    refine .pure ⟨by omega, fun others hOthers => ?_⟩
    show SpecsFormed word (_ :: others)
    rw [SpecsFormed]
    exact ⟨⟨h2.2, h3.2⟩, hOthers⟩

theorem entriesRound_reads {allowVariadic variadic : Bool}
    (hEntry : ∀ c, Reads (16 * c.left + 2 ≤ fuel) word c (parseEntry fuel allowVariadic)
      (EntryRead word c)) :
    Reads (16 * c.left + 2 ≤ fuel) word c (entriesRound fuel allowVariadic variadic)
      (RoundRead (EntriesFormed word) variadic c) := by
  refine Reads.skipNewlines.bind fun _ c1 h1 => (Reads.eatSign .rparen).bind fun eaten c2 h2 => ?_
  split
  · exact .pure ⟨by omega, by simp, fun hVariadic => .inl ⟨rfl, hVariadic⟩⟩
  · refine .stopIf .unexpected fun _ => ?_
    refine ((hEntry c2).given (by omega)).bind fun found c3 h3 => ?_
    refine Reads.skipNewlines.bind fun _ c4 h4 => (Reads.eatSign .comma).bind fun eaten c5 h5 => ?_
    split
    · refine .pure ⟨by omega, fun others hOthers => ⟨?_, fun hVariadic => .inr ?_⟩⟩
      · simpa using ⟨h3.2.1, hOthers.1⟩
      · rcases hOthers.2 hVariadic with ⟨hEmpty, hFound⟩ | ⟨init, entry, hMore, hSlice⟩
        · exact ⟨[], found.1, by simp [hEmpty], h3.2.2 hFound⟩
        · exact ⟨found.1 :: init, entry, by simp [hMore], hSlice⟩
    · refine Reads.skipNewlines.bind fun _ c6 h6 => (Reads.expectSign .rparen).bind
        fun _ c7 h7 => .pure ⟨by omega, ?_, fun hVariadic => .inr ?_⟩
      · simpa using h3.2.1
      · exact ⟨[], found.1, rfl, h3.2.2 hVariadic⟩

end

/-! ## Rules -/

mutual

theorem parseType_reads : (fuel : Nat) → (c : Cursor) →
    Reads (16 * c.left + 1 ≤ fuel) word c (parseType fuel) (TypeRead word c)
  | 0, _ => .exhausted (by omega)
  | fuel + 1, c => by
      rw [parseType]
      refine .of_sound fun hc => .span_bind fun start => .kind_bind ?_
      split
      · next name hKind =>
          have hWord := hc.word_of_ident hKind
          refine (Reads.advance hKind rfl).bind fun _ c1 h1 => .node_bind ?_
          refine (Reads.eatSign .dot).bind fun eaten c2 h2 => ?_
          split
          · refine Reads.expectIdent.bind fun member c3 h3 => .node ⟨by omega, ?_⟩
            rw [Expr.IsType]
            exact ⟨hWord, h3.2⟩
          · refine .pure ⟨by omega, ?_⟩
            rw [Expr.IsType]
            exact hWord
      · next hKind =>
          refine (Reads.advance hKind rfl).bind fun _ c1 h1 => ?_
          refine ((parseType_reads fuel c1).given (by omega)).bind fun inner c2 h2 => ?_
          refine .node ⟨Nat.lt_trans h2.1 h1, ?_⟩
          rw [Expr.IsType]
          exact h2.2
      · next hKind =>
          refine (Reads.advance hKind rfl).bind fun _ c1 h1 => ?_
          refine (Reads.expectSign .rbracket).bind fun _ c2 h2 => ?_
          refine ((parseType_reads fuel c2).given (by omega)).bind fun elem c3 h3 => ?_
          refine .node ⟨by omega, ?_⟩
          rw [Expr.IsType]
          exact h3.2
      · next hKind =>
          refine (Reads.advance hKind rfl).bind fun _ c1 h1 => ?_
          refine (Reads.expectSign .lbracket).bind fun _ c2 h2 => ?_
          refine ((parseType_reads fuel c2).given (by omega)).bind fun key c3 h3 => ?_
          refine (Reads.expectSign .rbracket).bind fun _ c4 h4 => ?_
          refine ((parseType_reads fuel c4).given (by omega)).bind fun value c5 h5 => ?_
          refine .node ⟨by omega, ?_⟩
          rw [Expr.IsType]
          exact ⟨h3.2, h5.2⟩
      · next hKind =>
          refine (Reads.advance hKind rfl).bind fun _ c1 h1 => ?_
          refine (Reads.expectSign .lbrace).bind fun _ c2 h2 => ?_
          refine ((parseFields_reads fuel c2).given (by omega)).bind fun fields c3 h3 => ?_
          refine (Reads.expectSign .rbrace).bind fun stop c4 h4 => .node ⟨by omega, ?_⟩
          rw [Expr.IsType]
          exact h3.2
      · next hKind =>
          refine (Reads.advance hKind rfl).bind fun _ c1 h1 => ?_
          refine (Reads.expectSign .lbrace).bind fun _ c2 h2 => ?_
          refine ((parseMethodSpecs_reads fuel c2).given (by omega)).bind fun specs c3 h3 => ?_
          refine (Reads.expectSign .rbrace).bind fun stop c4 h4 => .node ⟨by omega, ?_⟩
          rw [Expr.IsType]
          exact h3.2
      · next hKind =>
          refine (Reads.advance hKind rfl).bind fun _ c1 h1 => ?_
          refine ((parseType_reads fuel c1).given (by omega)).bind fun inner c2 h2 => ?_
          exact (Reads.expectSign .rparen).bind fun _ c3 h3 => .pure ⟨by omega, h2.2⟩
      · exact .fail
      · exact .fail

theorem parseFields_reads : (fuel : Nat) → (c : Cursor) →
    Reads (16 * c.left + 1 ≤ fuel) word c (parseFields fuel)
      (LoopRead (fun _ => ParamsFormed word) () c)
  | 0, _ => .exhausted (by omega)
  | fuel + 1, c => by
      rw [parseFields_eq]
      exact .rounds ((fieldsRound_reads (parseType_reads fuel)).given (by omega)) fun _ c' _ =>
        (parseFields_reads fuel c').given (by omega)

theorem parseMethodSpecs_reads : (fuel : Nat) → (c : Cursor) →
    Reads (16 * c.left + 1 ≤ fuel) word c (parseMethodSpecs fuel)
      (LoopRead (fun _ => SpecsFormed word) () c)
  | 0, _ => .exhausted (by omega)
  | fuel + 1, c => by
      rw [parseMethodSpecs_eq]
      exact .rounds ((methodSpecsRound_reads (parseSignature_reads fuel)).given (by omega))
        fun _ c' _ => (parseMethodSpecs_reads fuel c').given (by omega)

theorem parseSignature_reads : (fuel : Nat) → (c : Cursor) →
    Reads (16 * c.left + 2 ≤ fuel) word c (parseSignature fuel) (SignatureRead word c)
  | 0, _ => .exhausted (by omega)
  | fuel + 1, c => by
      rw [parseSignature]
      refine ((parseParams_reads fuel true c).given (by omega)).bind fun inputs c1 h1 => ?_
      refine .checkSign_bind fun found => ?_
      split
      · refine ((parseParams_reads fuel false c1).given (by omega)).bind fun outputs c2 h2 =>
          .pure ⟨by omega, ?_⟩
        rw [SignatureFormed]
        exact ⟨h1.2.1, h2.2.1, h1.2.2⟩
      · refine .kind_bind ?_
        split
        · refine ((parseType_reads fuel c1).given (by omega)).bind fun type c2 h2 => ?_
          refine .pure ⟨by omega, ?_⟩
          rw [SignatureFormed, ParamsFormed, ParamsFormed]
          exact ⟨h1.2.1, ⟨⟨fun hNamed => by simp [isNamed] at hNamed, h2.2⟩, trivial⟩, h1.2.2⟩
        · refine .pure ⟨h1.1, ?_⟩
          rw [SignatureFormed]
          exact ⟨h1.2.1, by simp [ParamsFormed], h1.2.2⟩

theorem parseParams_reads : (fuel : Nat) → (allowVariadic : Bool) → (c : Cursor) →
    Reads (16 * c.left + 1 ≤ fuel) word c (parseParams fuel allowVariadic) fun found c' =>
      c'.left < c.left ∧ ParamsFormed word found.1 ∧ (found.2 = true → ∃ init name span elem whole,
          found.1 = init ++ [⟨name, .sliceType span elem, whole⟩])
  | 0, _, _ => .exhausted (by omega)
  | fuel + 1, allowVariadic, c => by
      rw [parseParams]
      refine (Reads.expectSign .lparen).bind fun _ c1 h1 => ?_
      refine ((parseEntries_reads fuel allowVariadic false c1).given (by omega)).bind
        fun found c2 h2 => ?_
      obtain ⟨entries, variadic⟩ := found
      dsimp only
      split
      · next params hSettle =>
          refine .pure ⟨by omega, Entry.settle_formed h2.2.1 hSettle, fun hVariadic => ?_⟩
          rcases h2.2.2 hVariadic with ⟨-, hFalse⟩ | ⟨init, entry, rfl, hSlice⟩
          · cases hFalse
          · exact Entry.settle_last hSlice hSettle
      · exact .fail

theorem parseEntries_reads : (fuel : Nat) → (allowVariadic variadic : Bool) → (c : Cursor) →
    Reads (16 * c.left + 3 ≤ fuel) word c (parseEntries fuel allowVariadic variadic)
      (LoopRead (EntriesFormed word) variadic c)
  | 0, _, _, _ => .exhausted (by omega)
  | fuel + 1, allowVariadic, variadic, c => by
      rw [parseEntries_eq]
      exact .rounds ((entriesRound_reads (parseEntry_reads fuel allowVariadic)).given (by omega))
        fun variadic c' _ => (parseEntries_reads fuel allowVariadic variadic c').given (by omega)

theorem parseEntry_reads : (fuel : Nat) → (allowVariadic : Bool) → (c : Cursor) →
    Reads (16 * c.left + 2 ≤ fuel) word c (parseEntry fuel allowVariadic) (EntryRead word c)
  | 0, _, _ => .exhausted (by omega)
  | fuel + 1, allowVariadic, c => by
      rw [parseEntry]
      refine .checkSign_bind fun found => ?_
      split
      · exact ((parseVariadic_reads fuel allowVariadic c).given (by omega)).bind
          fun type c1 h1 => .pure ⟨h1.1, h1.2.1, fun _ => h1.2.2⟩
      · refine ((parseType_reads fuel c).given (by omega)).bind fun first c1 h1 => .kind_bind ?_
        split
        · exact .pure ⟨h1.1, h1.2, by simp⟩
        · split
          · exact .fail
          · next name nameSpan hName =>
              have hWord := Entry.asName_word h1.2 hName
              refine .checkSign_bind fun found => ?_
              split
              · refine ((parseVariadic_reads fuel allowVariadic c1).given (by omega)).bind
                  fun type c2 h2 => ?_
                exact .pure ⟨by omega, ⟨hWord, h2.2.1⟩, fun _ => h2.2.2⟩
              · refine ((parseType_reads fuel c1).given (by omega)).bind fun type c2 h2 => ?_
                exact .pure ⟨by omega, ⟨hWord, h2.2⟩, by simp⟩

theorem parseVariadic_reads : (fuel : Nat) → (allowVariadic : Bool) → (c : Cursor) →
    Reads (16 * c.left + 1 ≤ fuel) word c (parseVariadic fuel allowVariadic) fun type c' =>
      c'.left < c.left ∧ type.IsType word ∧ ∃ span elem, type = .sliceType span elem
  | 0, _, _ => .exhausted (by omega)
  | fuel + 1, allowVariadic, c => by
      rw [parseVariadic]
      refine (Reads.expectSign .ellipsis).bind fun start c1 h1 => .stopIf .fail fun _ => ?_
      refine ((parseType_reads fuel c1).given (by omega)).bind fun elem c2 h2 => ?_
      refine .node ⟨by omega, ?_, _, elem, rfl⟩
      rw [Expr.IsType]
      exact h2.2

end

end Grammar

end GoToC
