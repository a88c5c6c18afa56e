import GoToC.Proofs.Grammar.Bounds

/-!
# Entries of parameter lists

A parameter list is read entry by entry. An entry is a type or a name in front of one, and three
dots may stand before the type of the last one, which is then stored as a slice. Where some entry
has a name, an entry that stands alone is a name as well, and it takes the type of the next entry
that has one, dots and all.
-/

namespace GoToC.Grammar

/-- An entry of a parameter list as it is written. What stands alone is taken for its type. -/
structure WrittenEntry where
  name : Option (String × Span)
  /-- Where three dots stand in front of the type. -/
  dots : Option Span
  type : Expr

namespace WrittenEntry

/-- The type that is stored for an entry; dots make it a slice. -/
def stored (written : WrittenEntry) : Expr :=
  match written.dots with
  | some start => .sliceType (start.merge written.type.span) written.type
  | none => written.type

/-- What is read of an entry. -/
def entry (written : WrittenEntry) : Entry :=
  match written.name with
  | some (name, span) => .named name span written.stored
  | none => .lone written.stored

end WrittenEntry

/-- Tokens that are taken for a type where it is read. -/
def ReadAsType (tokens : List Token) (type : Expr) : Prop :=
  ∃ fuel c count c' count', parseType fuel ⟨c, count⟩ = .ok (type, ⟨c', count'⟩) ∧
    c.Passes tokens c'

/-- The tokens of a name in front of a type. -/
def SpellsName (tokens : List Token) : Option (String × Span) → Prop
  | some (name, span) => ReadAsType tokens (.ident span name)
  | none => tokens = []

def SpellsDots (tokens : List Token) : Option Span → Prop
  | some span => ∃ token, tokens = [token] ∧ token.kind = .punct .ellipsis ∧ token.span = span
  | none => tokens = []

/-- The tokens of an entry: its name, its dots and its type one after another. -/
def WrittenEntry.Spelled (written : WrittenEntry) (tokens : List Token) : Prop :=
  ∃ front dots behind, tokens = front ++ (dots ++ behind) ∧ SpellsName front written.name ∧
    SpellsDots dots written.dots ∧ ReadAsType behind written.type

/-- The tokens of a parameter list behind its opening parenthesis, up to and with the closing one.
Line ends may stand around each entry, and a comma may stand behind the last one. -/
inductive ListSpelled : List Token → List WrittenEntry → Prop where
  | close {skipped stop}
      (hSkipped : ∀ token ∈ skipped, token.kind = .newline)
      (hStop : stop.kind = .punct .rparen) : ListSpelled (skipped ++ [stop]) []
  | last {skipped tokens behind stop written}
      (hSkipped : ∀ token ∈ skipped, token.kind = .newline) (hWritten : written.Spelled tokens)
      (hBehind : ∀ token ∈ behind, token.kind = .newline)
      (hStop : stop.kind = .punct .rparen) :
      ListSpelled (skipped ++ (tokens ++ (behind ++ [stop]))) [written]
  | more {skipped tokens behind later comma written others}
      (hSkipped : ∀ token ∈ skipped, token.kind = .newline)
      (hWritten : written.Spelled tokens) (hBehind : ∀ token ∈ behind, token.kind = .newline)
      (hComma : comma.kind = .punct .comma) (hLater : ListSpelled later others) :
      ListSpelled (skipped ++ (tokens ++ (behind ++ comma :: later))) (written :: others)

/-! ## Reading entries -/

variable {c : Cursor}

theorem parseType_takes (fuel : Nat) :
    Takes c (parseType fuel) fun type read _ => ReadAsType read type := by
  intro hc count type after hRun
  obtain ⟨read, hRead, -⟩ := parseType_advances fuel c hc count type after hRun
  exact ⟨read, hRead, fuel, c, count, after.cursor, after.exprCount, hRun, hRead⟩

/-- Dots are read together with the type behind them. -/
theorem parseVariadic_takes (fuel : Nat) (allowVariadic : Bool) :
    Takes c (parseVariadic fuel allowVariadic) fun type read _ =>
      ∃ start elem dots behind, type = .sliceType (start.merge elem.span) elem ∧
        read = dots ++ behind ∧ SpellsDots dots (some start) ∧ ReadAsType behind elem := by
  cases fuel with
  | zero => exact .exhausted
  | succ fuel =>
      rw [parseVariadic]
      apply (Takes.expectSign .ellipsis).bind
      rintro _ _ c1 ⟨hKind, rfl, rfl⟩
      cases allowVariadic with
      | false => exact .throw
      | true =>
          apply (parseType_takes fuel).bind
          intro elem behind c2 hElem
          apply Takes.node.mono
          rintro type read c3 - ⟨rfl, rfl⟩
          exact ⟨c.span, elem, [c.current], behind, rfl, by simp, ⟨_, rfl, hKind, rfl⟩, hElem⟩

theorem parseEntry_takes (fuel : Nat) (allowVariadic : Bool) :
    Takes c (parseEntry fuel allowVariadic) fun found read _ =>
      ∃ written : WrittenEntry, written.Spelled read ∧ found.1 = written.entry ∧
        found.2 = written.dots.isSome := by
  cases fuel with
  | zero => exact .exhausted
  | succ fuel =>
      rw [parseEntry]
      apply Takes.checkSign_bind
      split
      · apply (parseVariadic_takes fuel allowVariadic).bind
        rintro _ _ c1 ⟨start, elem, dots, behind, rfl, rfl, hDots, hElem⟩
        exact .pure ⟨⟨none, some start, elem⟩, ⟨[], dots, behind, by simp, rfl, hDots, hElem⟩,
          rfl, rfl⟩
      · apply (parseType_takes fuel).bind
        intro first front c1 hFirst
        apply Takes.kind_bind
        split
        · exact .pure ⟨⟨none, none, first⟩, ⟨[], [], front, by simp, rfl, rfl, hFirst⟩, rfl, rfl⟩
        · split
          · exact .throw
          · next name span hName =>
              have hIdent : first = .ident span name := by
                cases first <;> cases hName
                rfl
              subst hIdent
              apply Takes.checkSign_bind
              split
              · apply (parseVariadic_takes fuel allowVariadic).bind
                rintro _ _ c2 ⟨start, elem, dots, behind, rfl, rfl, hDots, hElem⟩
                exact .pure ⟨⟨some (name, span), some start, elem⟩,
                  ⟨front, dots, behind, by simp, hFirst, hDots, hElem⟩, rfl, rfl⟩
              · apply (parseType_takes fuel).bind
                intro type behind c2 hType
                exact .pure ⟨⟨some (name, span), none, type⟩,
                  ⟨front, [], behind, by simp, hFirst, rfl, hType⟩, rfl, rfl⟩

/-- Only the last entry may have dots; `variadic` tells whether it has. -/
structure DotsLast (entries : List WrittenEntry) (variadic : Bool) : Prop where
  others : ∀ written ∈ entries.dropLast, written.dots = none
  last : ∀ written ∈ entries.getLast?, variadic = written.dots.isSome

/-- Behind an entry with dots there are no others. -/
theorem parseEntries_takes (fuel : Nat) (allowVariadic variadic : Bool) (c : Cursor) :
    Takes c (parseEntries fuel allowVariadic variadic) fun found read _ =>
      ∃ entries : List WrittenEntry, ListSpelled read entries ∧
        found.1 = entries.map WrittenEntry.entry ∧ DotsLast entries found.2 ∧
        (entries = [] → found.2 = variadic) ∧ (variadic = true → entries = []) := by
  induction fuel generalizing c variadic with
  | zero => exact .exhausted
  | succ fuel ih =>
      rw [parseEntries]
      apply Takes.skipNewlines.bind
      intro _ skipped c1 hSkipped
      apply (Takes.eatSign_exact .rparen).bind
      rintro closed _ c2 (⟨rfl, hStop, rfl⟩ | ⟨rfl, rfl⟩)
      · refine .pure ⟨[], ?_, rfl, ⟨by simp, by simp⟩, fun _ => rfl, fun _ => rfl⟩
        rw [List.append_nil]
        exact .close hSkipped hStop
      · rw [if_neg (by simp)]
        apply Takes.stopIf
        rintro rfl
        apply (parseEntry_takes fuel allowVariadic).bind
        rintro ⟨entry, isVariadic⟩ tokens c3 ⟨written, hWritten, rfl, rfl⟩
        apply Takes.skipNewlines.bind
        intro _ behind c4 hBehind
        apply (Takes.eatSign_exact .comma).bind
        rintro more _ c5 (⟨rfl, hComma, rfl⟩ | ⟨rfl, rfl⟩)
        · rw [if_pos rfl]
          apply (ih written.dots.isSome c5).bind
          rintro ⟨others, variadic⟩ later c6 ⟨entries, hLater, rfl, hDots, hNone, hEnd⟩
          refine .pure ⟨written :: entries, ?_, rfl, ?_, by simp, by simp⟩
          · simpa using ListSpelled.more hSkipped hWritten hBehind hComma hLater
          · cases entries with
            | nil => exact ⟨by simp, by simpa using hNone rfl⟩
            | cons next rest =>
                have hPlain : written.dots = none := by
                  cases hWrittenDots : written.dots with
                  | none => rfl
                  | some start => cases hEnd (by rw [hWrittenDots]; rfl)
                refine ⟨?_, ?_⟩
                · rw [List.dropLast_cons_cons]
                  exact List.forall_mem_cons.mpr ⟨hPlain, hDots.others⟩
                · rw [List.getLast?_cons_cons]
                  exact hDots.last
        · rw [if_neg (by simp)]
          apply Takes.skipNewlines.bind
          intro _ behind' c6 hBehind'
          apply (Takes.expectSign .rparen).bind
          rintro _ _ c7 ⟨hStop, rfl, -⟩
          refine .pure ⟨[written], ?_, rfl, ⟨by simp, by simp⟩, by simp, by simp⟩
          have hAll : ∀ token ∈ behind ++ behind', token.kind = .newline :=
            List.forall_mem_append.mpr ⟨hBehind, hBehind'⟩
          simpa using ListSpelled.last hSkipped hWritten hAll hStop

/-! ## The types of parameters -/

namespace WrittenEntry

def isNamed (written : WrittenEntry) : Bool := written.name.isSome

/-- The entry that the parameter at a place has its type from: the next one with a name, from the
entry at that place on, and that entry itself where there are no names. -/
def source? (entries : List WrittenEntry) (place : Nat) : Option WrittenEntry :=
  if entries.any isNamed then (entries.drop place).find? isNamed else entries[place]?

@[simp] theorem entry_isNamed (written : WrittenEntry) :
    written.entry.isNamed = written.isNamed := by
  unfold entry isNamed
  cases written.name <;> rfl

theorem findSome_entry (entries : List WrittenEntry) :
    (entries.map entry).findSome? Entry.named? = (entries.find? isNamed).map stored := by
  induction entries with
  | nil => rfl
  | cons written rest ih =>
      rw [List.map_cons, List.findSome?_cons, List.find?_cons, ih]
      unfold entry isNamed
      cases written.name <;> rfl

/-- Whether the parameter at a place has its type from the last entry: it stands there itself, or it
waits for a type while only the last entry is left to have one. -/
def FromLast (init : List WrittenEntry) (last : WrittenEntry) (place : Nat) : Prop :=
  place = init.length ∨ last.isNamed = true ∧ ∀ written ∈ init.drop place, written.isNamed = false

theorem source?_append_last {init : List WrittenEntry} {last written : WrittenEntry} {place : Nat}
    (h : source? (init ++ [last]) place = some written) :
    (FromLast init last place ∧ written = last) ∨ (¬FromLast init last place ∧ written ∈ init) := by
  unfold source? at h
  split at h
  · rw [List.drop_append, List.find?_append] at h
    cases hFound : (init.drop place).find? isNamed with
    | some found =>
        rw [hFound, Option.some_or] at h
        cases h
        have hMem := List.mem_of_find?_eq_some hFound
        refine .inr ⟨?_, List.mem_of_mem_drop hMem⟩
        rintro (rfl | ⟨-, hLone⟩)
        · simp at hMem
        · simpa [hLone written hMem] using List.find?_some hFound
    | none =>
        rw [hFound, Option.none_or] at h
        have hLast : written = last :=
          List.mem_singleton.mp (List.mem_of_mem_drop (List.mem_of_find?_eq_some h))
        subst hLast
        refine .inl ⟨.inr ⟨List.find?_some h, fun other hOther => ?_⟩, rfl⟩
        simpa using List.find?_eq_none.mp hFound other hOther
  · next hAny =>
      have hLone : last.isNamed = false := by
        simpa using List.any_eq_false.mp (Bool.eq_false_iff.mpr hAny) last (by simp)
      rcases Nat.lt_or_ge place init.length with hPlace | hPlace
      · rw [List.getElem?_append_left hPlace] at h
        refine .inr ⟨?_, List.mem_of_getElem? h⟩
        rintro (rfl | ⟨hNamed, -⟩)
        · exact absurd hPlace (Nat.lt_irrefl _)
        · simp [hLone] at hNamed
      · rw [List.getElem?_append_right hPlace] at h
        obtain ⟨hLess, rfl⟩ := List.getElem?_eq_some_iff.mp h
        refine .inl ⟨.inl ?_, by simp⟩
        rw [List.length_singleton] at hLess
        omega

end WrittenEntry

/-- The parameters come one for each entry, and each has the type of its source. -/
theorem settle_source {entries : List WrittenEntry} {params : List (Param Expr)}
    (h : Entry.settle (entries.map WrittenEntry.entry) = .ok params) :
    params.map (fun param => some param.type) = entries.mapIdx
      fun place _ => (WrittenEntry.source? entries place).map WrittenEntry.stored := by
  have hNamed : (entries.map WrittenEntry.entry).any Entry.isNamed =
      entries.any WrittenEntry.isNamed := by
    simp [List.any_map, Function.comp_def]
  unfold Entry.settle at h
  rw [hNamed] at h
  unfold WrittenEntry.source?
  apply List.ext_getElem?
  intro place
  rw [List.getElem?_mapIdx]
  split at h
  · next hAny =>
      have hTypes : params.map (fun param => some param.type) =
          (Entry.given (entries.map WrittenEntry.entry)).map Prod.snd := by
        simpa [Function.comp_def] using congrArg (List.map Prod.snd) (Entry.settleNamed_given h)
      rw [hTypes, List.getElem?_map, Entry.given_getElem?, List.getElem?_map, ← List.map_drop,
        WrittenEntry.findSome_entry, if_pos hAny]
      cases entries[place]? <;> rfl
  · next hAny =>
      cases h
      rw [if_neg hAny]
      by_cases hPlace : place < entries.length
      · have hLone : entries[place].name = none := by
          simpa [WrittenEntry.isNamed] using
            List.any_eq_false.mp (Bool.eq_false_iff.mpr hAny) _ (List.getElem_mem hPlace)
        simp [hPlace, WrittenEntry.entry, hLone, Entry.unnamedParam]
      · simp [hPlace]

/-- Each parameter has a source. -/
theorem exists_source {entries : List WrittenEntry} {params : List (Param Expr)}
    (h : Entry.settle (entries.map WrittenEntry.entry) = .ok params) {place : Nat}
    {param : Param Expr} (hParam : params[place]? = some param) :
    ∃ written, WrittenEntry.source? entries place = some written ∧
      param.type = written.stored := by
  have hType := congrArg (·[place]?) (settle_source h)
  simp only [List.getElem?_map, List.getElem?_mapIdx, hParam, Option.map_some] at hType
  obtain ⟨_, -, hType⟩ := Option.map_eq_some_iff.mp hType.symm
  obtain ⟨written, hWritten, hType⟩ := Option.map_eq_some_iff.mp hType
  exact ⟨written, hWritten, hType.symm⟩

/-! ## Parameter lists -/

/-- A parameter list is read to its end, its entries are made of the words that lie ahead, and its
parameters are settled. -/
theorem parseParams_takes (fuel : Nat) (allowVariadic : Bool) :
    Takes c (parseParams fuel allowVariadic) fun found read _ =>
      ∃ (opening : Token) (tokens : List Token) (entries : List WrittenEntry),
        read = opening :: tokens ∧ opening.kind = .punct .lparen ∧ ListSpelled tokens entries ∧
          (∀ word, c.Sound word → ∀ written ∈ entries, written.entry.Formed word) ∧
          Entry.settle (entries.map WrittenEntry.entry) = .ok found.1 ∧ DotsLast entries found.2 ∧
          (entries = [] → found.2 = false) := by
  cases fuel with
  | zero => exact .exhausted
  | succ fuel =>
      rw [parseParams]
      have hOpen := (Takes.expectSign (c := c) .lparen).mono
        fun _ _ _ hRead hOpening => And.intro hRead hOpening
      apply hOpen.bind
      rintro _ _ c1 ⟨hRead, hOpening, rfl, -⟩
      apply ((parseEntries_takes fuel allowVariadic false c1).and_reads
        fun word => parseEntries_reads fuel allowVariadic false c1).bind
      rintro ⟨_, variadic⟩ tokens c2 ⟨⟨entries, hTokens, rfl, hDots, hNone, -⟩, hFormed⟩
      dsimp only
      split
      · next params hSettle =>
          refine .pure ⟨c.current, tokens, entries, by simp, hOpening, hTokens, ?_, hSettle, hDots,
            hNone⟩
          intro word hSound written hWritten
          exact (hFormed word (hRead.sound hSound)).2.1 _ (List.mem_map_of_mem hWritten)
      · exact .throw

/-- The words that lie ahead in the tokens of a text are identifiers. -/
theorem sound_of_within {source : String} (hc : c.Within (lex source)) :
    c.Sound fun name => isIdentifier name = true := by
  obtain ⟨init, last, hTokens, hEof, -⟩ := lex_ends source
  refine ⟨fun token hToken name hKind => ?_, hc.ends hTokens hEof⟩
  rw [← hc.ahead] at hToken
  exact isIdentifier_of_tokensFrom (List.mem_of_mem_drop hToken) hKind

/-- A parameter list that is read gives one parameter for each of its entries, in their order. If
no entry has a name, the parameters have none and the entries are their types. Otherwise all have
names, an entry with a name keeps its type, and a lone name has that of the next entry with one.
Settling fails just where some entry has a name while a lone one is something else than a name or
has no entry with a name behind it. -/
theorem parameters_settled (source : String) : (∀ {c : Cursor}, c.Within (lex source) →
      ∀ (fuel count : Nat) (allowVariadic : Bool) (params : List (Param Expr)) (variadic : Bool)
        (after : State),
        parseParams fuel allowVariadic ⟨c, count⟩ = .ok ((params, variadic), after) →
          ∃ (opening : Token) (tokens : List Token) (written : List WrittenEntry),
            c.Passes (opening :: tokens) after.cursor ∧ opening.kind = .punct .lparen ∧
              ListSpelled tokens written ∧
              Entry.Settled (written.map WrittenEntry.entry) params ∧
              ((∃ entry ∈ written, entry.isNamed = true) → ∀ param ∈ params, param.name ≠ "")) ∧
    ∀ entries : List Entry, (∃ cause, Entry.settle entries = .error cause) ↔
        (∃ entry ∈ entries, entry.isNamed = true) ∧ Entry.Unsettled entries := by
  refine ⟨fun {c} hc fuel count allowVariadic params variadic after hRun => ?_,
    fun entries => Entry.settle_error_iff⟩
  have hSound := sound_of_within hc
  obtain ⟨_, hRead, opening, tokens, written, rfl, hOpening, hTokens, hFormed, hSettle, -⟩ :=
    parseParams_takes fuel allowVariadic hSound.ends count (params, variadic) after hRun
  have hSettled := Entry.settle_settled hSettle
  refine ⟨opening, tokens, written, hRead, hOpening, hTokens, hSettled, ?_⟩
  rintro ⟨entry, hEntry, hNamed⟩ param hParam hEmpty
  rcases (hSettled.made hParam).2 with ⟨hNone, -⟩ | ⟨other, hOther, hName⟩
  · simpa [hNamed] using hNone entry.entry (List.mem_map_of_mem hEntry)
  · obtain ⟨source, hSource, rfl⟩ := List.mem_map.mp hOther
    have hWord := Entry.name?_word (hFormed _ hSound source hSource) hName
    rw [hEmpty] at hWord
    cases hWord

/-- The name that a type is written with. -/
def typeName? : Expr → Option String
  | .ident _ name => some name
  | _ => none

/-- The parameters of the list `(a, b int, c string)`. -/
theorem parameters_settled_grouped : ∃ params after,
      parseParams 8 true ⟨.ofTokens (lex "(a, b int, c string)"), 0⟩ =
          .ok ((params, false), after) ∧
        (params.map fun param => (param.name, typeName? param.type)) =
          [("a", some "int"), ("b", some "int"), ("c", some "string")] ∧
        ∃ (opening : Token) (tokens : List Token) (written : List WrittenEntry),
          (Cursor.ofTokens (lex "(a, b int, c string)")).Passes (opening :: tokens) after.cursor ∧
            opening.kind = .punct .lparen ∧ ListSpelled tokens written ∧
            Entry.Settled (written.map WrittenEntry.entry) params ∧
            ((∃ entry ∈ written, entry.isNamed = true) → ∀ param ∈ params, param.name ≠ "") := by
  have hFound : (parseParams 8 true ⟨.ofTokens (lex "(a, b int, c string)"), 0⟩).toOption.map
      (fun found => (found.1.2, found.1.1.map fun param => (param.name, typeName? param.type))) =
      some (false, [("a", some "int"), ("b", some "int"), ("c", some "string")]) := by
    decide +kernel
  cases hRun : parseParams 8 true ⟨.ofTokens (lex "(a, b int, c string)"), 0⟩ with
  | error failure =>
      rw [hRun] at hFound
      cases hFound
  | ok found =>
      obtain ⟨⟨params, variadic⟩, after⟩ := found
      rw [hRun] at hFound
      obtain ⟨rfl, hParams⟩ := Prod.mk.inj (Option.some.inj hFound)
      exact ⟨params, after, rfl, hParams, (parameters_settled "(a, b int, c string)").1
        (Cursor.ofTokens_within (lex_ne_nil _)) 8 0 true params false after hRun⟩

/-! ## Signatures -/

/-- The inputs of a signature are the parameters of the list it begins with. -/
theorem parseSignature_takes (fuel : Nat) : Takes c (parseSignature fuel) fun signature read _ =>
      ∃ (opening : Token) (tokens behind : List Token) (entries : List WrittenEntry),
        read = opening :: (tokens ++ behind) ∧ opening.kind = .punct .lparen ∧
          ListSpelled tokens entries ∧
          Entry.settle (entries.map WrittenEntry.entry) = .ok signature.inputs ∧
          DotsLast entries signature.variadic ∧ (entries = [] → signature.variadic = false) := by
  cases fuel with
  | zero => exact .exhausted
  | succ fuel =>
      rw [parseSignature]
      apply (parseParams_takes fuel true).bind
      rintro ⟨inputs, variadic⟩ _ c1 ⟨opening, tokens, entries, rfl, hOpening, hTokens, -, hList⟩
      apply Takes.checkSign_bind
      split
      · apply (parseParams_takes fuel false).bind
        rintro outputs behind c2 -
        exact .pure ⟨opening, tokens, behind, entries, by simp, hOpening, hTokens, hList⟩
      · apply Takes.kind_bind
        split
        · apply (parseType_takes fuel).bind
          rintro type behind c2 -
          exact .pure ⟨opening, tokens, behind, entries, by simp, hOpening, hTokens, hList⟩
        · exact .pure ⟨opening, tokens, [], entries, by simp, hOpening, hTokens, hList⟩

/-- How the inputs of a variadic signature come from the entries that it is written with. -/
structure SettledVariadic (inputs : List (Param Expr)) (init : List WrittenEntry)
    (last : WrittenEntry) (start : Span) : Prop where
  plain : ∀ written ∈ init, written.dots = none
  dots : last.dots = some start
  length_eq : inputs.length = init.length + 1
  slice : ∀ place (input : Param Expr), inputs[place]? = some input →
    WrittenEntry.FromLast init last place →
      input.type = .sliceType (start.merge last.type.span) last.type
  own : ∀ place (input : Param Expr), inputs[place]? = some input →
    ¬WrittenEntry.FromLast init last place →
      ∃ written ∈ init, WrittenEntry.source? (init ++ [last]) place = some written ∧
        input.type = written.type

/-- Only the last entry of a variadic signature has dots, and its parameter is a slice of the type
behind them. So are those that wait for that type; all others have the type that is written for
them. -/
theorem variadic_inputs {fuel count : Nat} {c : Cursor} {signature : Signature Expr} {after : State}
    (hc : c.Ends) (hRun : parseSignature fuel ⟨c, count⟩ = .ok (signature, after))
    (hVariadic : signature.variadic = true) :
    ∃ opening tokens behind init last start,
      c.Passes (opening :: (tokens ++ behind)) after.cursor ∧ opening.kind = .punct .lparen ∧
        ListSpelled tokens (init ++ [last]) ∧
        SettledVariadic signature.inputs init last start := by
  obtain ⟨_, hRead, opening, tokens, behind, entries, rfl, hOpening, hTokens, hSettle, hDots,
    hNone⟩ := parseSignature_takes fuel hc count signature after hRun
  rcases List.eq_nil_or_concat entries with rfl | ⟨init, last, rfl⟩
  · simp [hNone rfl] at hVariadic
  rw [List.concat_eq_append] at *
  have hPlain : ∀ written ∈ init, written.dots = none := by simpa using hDots.others
  obtain ⟨start, hStart⟩ : ∃ start, last.dots = some start :=
    Option.isSome_iff_exists.mp ((hDots.last last (by simp)).symm.trans hVariadic)
  have hStored : last.stored = .sliceType (start.merge last.type.span) last.type := by
    simp [WrittenEntry.stored, hStart]
  refine ⟨opening, tokens, behind, init, last, start, hRead, hOpening, hTokens, hPlain, hStart, ?_,
    fun place input hInput hLast => ?_, fun place input hInput hOwn => ?_⟩
  · simpa using congrArg List.length (settle_source hSettle)
  · obtain ⟨written, hWritten, hType⟩ := exists_source hSettle hInput
    rcases WrittenEntry.source?_append_last hWritten with ⟨-, rfl⟩ | ⟨hOwn, -⟩
    · exact hType.trans hStored
    · exact absurd hLast hOwn
  · obtain ⟨written, hWritten, hType⟩ := exists_source hSettle hInput
    rcases WrittenEntry.source?_append_last hWritten with ⟨hLast, -⟩ | ⟨-, hMem⟩
    · exact absurd hLast hOwn
    · refine ⟨written, hMem, hWritten, hType.trans ?_⟩
      simp [WrittenEntry.stored, hPlain written hMem]

/-- The parameters of the list `(a int, rest ...string)`. -/
theorem variadic_inputs_rest : ∃ signature after,
      parseSignature 8 ⟨.ofTokens (lex "(a int, rest ...string)"), 0⟩ = .ok (signature, after) ∧
        signature.variadic = true ∧
        ∃ opening tokens behind init last start,
          (Cursor.ofTokens (lex "(a int, rest ...string)")).Passes
              (opening :: (tokens ++ behind)) after.cursor ∧
            opening.kind = .punct .lparen ∧ ListSpelled tokens (init ++ [last]) ∧
            SettledVariadic signature.inputs init last start := by
  obtain ⟨init, last, hTokens, hEof, -⟩ := lex_ends "(a int, rest ...string)"
  have hEnds : (Cursor.ofTokens (lex "(a int, rest ...string)")).Ends :=
    ⟨init, last, (Cursor.ofTokens_tokens (lex_ne_nil _)).trans hTokens, hEof⟩
  have hFound : (parseSignature 8 ⟨.ofTokens (lex "(a int, rest ...string)"), 0⟩).toOption.map
      (·.1.variadic) = some true := by decide +kernel
  cases hRun : parseSignature 8 ⟨.ofTokens (lex "(a int, rest ...string)"), 0⟩ with
  | error failure =>
      rw [hRun] at hFound
      cases hFound
  | ok found =>
      rw [hRun] at hFound
      have hVariadic : found.1.variadic = true := Option.some.inj hFound
      exact ⟨found.1, found.2, rfl, hVariadic, variadic_inputs hEnds hRun hVariadic⟩

/-- The name of the type that a type is a slice of. -/
def sliceOf? : Expr → Option String
  | .sliceType _ (.ident _ name) => some name
  | _ => none

/-- A name that is grouped with a variadic one is stored as a slice as well. -/
theorem variadic_grouped :
    (parse "func f(a, b ...int)\n").toOption.map (fun file => file.funcs.map fun func =>
      (func.signature.variadic,
        func.signature.inputs.map fun input => (input.name, sliceOf? input.type))) =
      some [(true, [("a", some "int"), ("b", some "int")])] := by
  decide +kernel

end GoToC.Grammar
