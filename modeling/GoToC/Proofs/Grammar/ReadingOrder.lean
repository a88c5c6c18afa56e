import GoToC.Proofs.Grammar.Bounds

/-!
# The order of declarations

Declarations are read one after another, and each takes up the text from its first token to its
last one, so no two of them overlap. A file keeps them by kind, and within a kind in the order of
the text. The names of a file are entered kind after kind, so of two names the one that is entered
first may stand after the other one in the text, but then it is of a kind that is entered before.
-/

namespace GoToC

variable {file file' : SourceFile} {token : Token} {bound index : Nat} {source : String}
  {wanted : ParseError.Wanted} {decl : Declaration}

/-! ## Declarations by kind -/

/-- The kinds of globals, in the order in which their names are entered. -/
def GlobalKind.all : List GlobalKind := [.import, .type, .const, .var, .func]

/-- The place of a kind in that order. -/
def GlobalKind.turn (kind : GlobalKind) : Nat := GlobalKind.all.idxOf kind

/-- What a file declares as one kind of global, and where. -/
def SourceFile.entries (file : SourceFile) : GlobalKind → List (String × Span)
  | .import => file.imports.map fun decl => (decl.name, decl.span)
  | .type => file.types.map fun decl => (decl.name, decl.span)
  | .const => file.consts.map fun decl => (decl.name, decl.span)
  | .var => file.vars.map fun decl => (decl.name, decl.span)
  | .func => file.funcs.map fun decl => (decl.name, decl.span)

theorem Declaration.ofFile_eq (file : SourceFile) : Declaration.ofFile file =
    GlobalKind.all.flatMap fun kind => numbered kind 0 (file.entries kind) := by
  simp [GlobalKind.all, Declaration.ofFile, SourceFile.entries]

/-- One span ends where or before the other one starts. -/
def Span.Precedes (a b : Span) : Prop := a.stop ≤ b.start

/-- Declarations do not overlap, are not empty and end before a place in the text. Those of one
kind are in the order of the text. -/
structure SourceFile.Spread (file : SourceFile) (bound : Nat) : Prop where
  listed : ∀ kind, (file.entries kind).Pairwise fun a b => a.2.Precedes b.2
  apart : ∀ kind kind', kind ≠ kind' → ∀ a ∈ file.entries kind, ∀ b ∈ file.entries kind',
    a.2.Precedes b.2 ∨ b.2.Precedes a.2
  inside : ∀ kind, ∀ entry ∈ file.entries kind, entry.2.start < entry.2.stop ∧ entry.2.stop ≤ bound

/-! ## Tokens in order -/

namespace Cursor

/-- The tokens to come do not overlap, and those that may be passed are not empty. -/
structure Ordered (c : Cursor) : Prop where
  ends : c.Ends
  apart : (c.current :: c.rest).Pairwise fun a b => a.span.Precedes b.span
  filled : ∀ token ∈ c.current :: c.rest, token.kind.isReadable = true →
    token.span.start < token.span.stop

/-- Entries one after another between two cursors. -/
structure Lays (c : Cursor) (entries : List (String × Span)) (c' : Cursor) : Prop where
  forward : c.span.start ≤ c'.span.start
  apart : entries.Pairwise fun a b => a.2.Precedes b.2
  inside : ∀ entry ∈ entries, c.span.start ≤ entry.2.start ∧ entry.2.start < entry.2.stop ∧
    entry.2.stop ≤ c'.span.start

variable {c c' c'' : Cursor} {read : List Token} {entries more : List (String × Span)}

namespace Passes

theorem ordered (h : c.Passes read c') (hc : c.Ordered) : c'.Ordered where
  ends := h.ends hc.ends
  apart := by
    have hApart := hc.apart
    rw [h.tokens] at hApart
    exact (List.pairwise_append.mp hApart).2.1
  filled token hToken := hc.filled token (h.tokens ▸ List.mem_append_right _ hToken)

/-- The first token that was passed is the one where the passing began. -/
theorem head_mem (h : c.Passes read c') (hSome : read ≠ []) : c.current ∈ read := by
  cases read with
  | nil => exact absurd rfl hSome
  | cons first rest =>
      rw [(List.cons.inj h.tokens).1]
      exact List.mem_cons_self

/-- Tokens that were passed stand between the cursors. -/
theorem between (h : c.Passes read c') (hc : c.Ordered) (hToken : token ∈ read) :
    c.span.start ≤ token.span.start ∧ token.span.start < token.span.stop ∧
      token.span.stop ≤ c'.span.start := by
  have hFilled {passed : Token} (hPassed : passed ∈ read) : passed.span.start < passed.span.stop :=
    hc.filled passed (h.tokens ▸ List.mem_append_left _ hPassed) (h.readable passed hPassed)
  have hApart := hc.apart
  rw [h.tokens] at hApart
  refine ⟨?_, hFilled hToken, (List.pairwise_append.mp hApart).2.2 token hToken _
    List.mem_cons_self⟩
  have hFirst := h.head_mem (List.ne_nil_of_mem hToken)
  by_cases hSame : token = c.current
  · rw [hSame]
    exact Nat.le_refl _
  · have hLater : token ∈ c.rest := by
      have hAll : token ∈ c.current :: c.rest := h.tokens ▸ List.mem_append_left _ hToken
      exact (List.mem_cons.mp hAll).resolve_left hSame
    have hPrecedes : c.span.stop ≤ token.span.start :=
      (List.pairwise_cons.mp hc.apart).1 token hLater
    have hStart : c.span.start < c.span.stop := hFilled hFirst
    omega

theorem forward (h : c.Passes read c') (hc : c.Ordered) : c.span.start ≤ c'.span.start := by
  by_cases hSome : read = []
  · subst hSome
    have hSame : c.current = c'.current := (List.cons.inj h.tokens).1
    rw [span, span, hSame]
  · obtain ⟨hStart, hFilled, hStop⟩ := h.between hc (h.head_mem hSome)
    omega

/-- From the first to the last of the tokens that were passed. -/
theorem lays (h : c.Passes read c') (hc : c.Ordered) (hSome : read ≠ []) (name : String) :
    c.Lays [(name, c.span.merge c'.previous)] c' := by
  have hLast : c'.previous = (read.getLast hSome).span := by
    rw [h.previous, List.getLast?_eq_getLast_of_ne_nil hSome]
    rfl
  have hFirst : _ ∧ c.span.start < c.span.stop ∧ c.span.stop ≤ _ :=
    h.between hc (h.head_mem hSome)
  have hFinal := h.between hc (List.getLast_mem hSome)
  refine ⟨h.forward hc, List.pairwise_singleton _ _, fun entry hEntry => ?_⟩
  rw [List.mem_singleton.mp hEntry, hLast]
  simp only [Span.merge]
  omega

end Passes

namespace Lays

theorem nil (h : c.span.start ≤ c'.span.start) : c.Lays [] c' :=
  ⟨h, .nil, List.forall_mem_nil _⟩

theorem append (h : c.Lays entries c') (h' : c'.Lays more c'') : c.Lays (entries ++ more) c'' where
  forward := h.forward.trans h'.forward
  apart := by
    refine List.pairwise_append.mpr ⟨h.apart, h'.apart, fun a ha b hb => ?_⟩
    exact (h.inside a ha).2.2.trans (h'.inside b hb).1
  inside entry hEntry := by
    have hForth := h.forward
    have hOn := h'.forward
    rcases List.mem_append.mp hEntry with hEntry | hEntry
    · have := h.inside entry hEntry
      omega
    · have := h'.inside entry hEntry
      omega

end Lays

end Cursor

/-- What was laid after the declarations of a file can be added as one kind of them. -/
theorem SourceFile.Spread.add {c c' : Cursor} {more : List (String × Span)}
    (h : file.Spread c.span.start) (kind : GlobalKind) (hMore : c.Lays more c')
    (hEntries : file'.entries = Function.update file.entries kind (file.entries kind ++ more)) :
    file'.Spread c'.span.start := by
  have hBefore (other : GlobalKind) (a : String × Span) (ha : a ∈ file.entries other)
      (b : String × Span) (hb : b ∈ more) : a.2.Precedes b.2 :=
    (h.inside other a ha).2.trans (hMore.inside b hb).1
  have hMem (other : GlobalKind) (entry : String × Span) (hEntry : entry ∈ file'.entries other) :
      entry ∈ file.entries other ∨ other = kind ∧ entry ∈ more := by
    rw [hEntries] at hEntry
    by_cases hKind : other = kind
    · subst hKind
      rw [Function.update_self] at hEntry
      exact (List.mem_append.mp hEntry).imp_right fun hMore => ⟨rfl, hMore⟩
    · rw [Function.update_of_ne hKind] at hEntry
      exact .inl hEntry
  refine ⟨fun other => ?_, fun first second hNe a ha b hb => ?_, fun other entry hEntry => ?_⟩
  · rw [hEntries]
    by_cases hKind : other = kind
    · subst hKind
      rw [Function.update_self]
      exact List.pairwise_append.mpr ⟨h.listed other, hMore.apart, hBefore other⟩
    · rw [Function.update_of_ne hKind]
      exact h.listed other
  · rcases hMem first a ha with ha | ⟨rfl, ha⟩ <;> rcases hMem second b hb with hb | ⟨rfl, hb⟩
    · exact h.apart first second hNe a ha b hb
    · exact .inl (hBefore first a ha b hb)
    · exact .inr (hBefore second b hb a ha)
    · exact absurd rfl hNe
  · have hForward := hMore.forward
    rcases hMem other entry hEntry with hEntry | ⟨-, hEntry⟩
    · have := h.inside other entry hEntry
      omega
    · have := hMore.inside entry hEntry
      omega

theorem SourceFile.Spread.congr (h : file.Spread bound) (hEntries : file'.entries = file.entries) :
    file'.Spread bound := by
  obtain ⟨hListed, hApart, hInside⟩ := h
  rw [← hEntries] at hListed hApart hInside
  exact ⟨hListed, hApart, hInside⟩

theorem SourceFile.Spread.later {file : SourceFile} {bound later : Nat} (h : file.Spread bound)
    (hLater : bound ≤ later) : file.Spread later where
  listed := h.listed
  apart := h.apart
  inside kind entry hEntry :=
    ⟨(h.inside kind entry hEntry).1, (h.inside kind entry hEntry).2.trans hLater⟩

namespace Grammar

variable {α β : Type} {c : Cursor}

/-- From a cursor with its tokens in order on, a parser that succeeds passes tokens and gives what
is promised. -/
def Leads (c : Cursor) (parser : Parser α) (good : α → Cursor → Prop) : Prop :=
  c.Ordered → ∀ count value after, parser ⟨c, count⟩ = .ok (value, after) →
    (∃ read, c.Passes read after.cursor) ∧ good value after.cursor

namespace Leads

variable {parser : Parser α} {good : α → Cursor → Prop} {good' : β → Cursor → Prop}

theorem pure {value : α} (h : c.Ordered → good value c) : Leads c (pure value) good := by
  intro hc count found after hRun
  cases hRun
  exact ⟨⟨[], .refl c⟩, h hc⟩

theorem unexpected : Leads c (unexpected wanted : Parser α) good := by
  intro _ count found after hRun
  cases hRun

theorem exhausted : Leads c (exhausted : Parser α) good := by
  intro _ count found after hRun
  cases hRun

theorem bind {next : α → Parser β} (h : Leads c parser good)
    (hNext : ∀ value c', good value c' → Leads c' (next value) good') :
    Leads c (parser >>= next) good' := by
  intro hc count result after hRun
  replace hRun : (parser ⟨c, count⟩ >>= fun found => next found.1 found.2) =
    .ok (result, after) := hRun
  cases hFirst : parser ⟨c, count⟩ with
  | error failure =>
      rw [hFirst] at hRun
      cases hRun
  | ok found =>
      rw [hFirst] at hRun
      obtain ⟨⟨read, hRead⟩, hGood⟩ := h hc count found.1 found.2 hFirst
      obtain ⟨⟨more, hMore⟩, hGood'⟩ := hNext found.1 found.2.cursor hGood (hRead.ordered hc)
        found.2.exprCount result after hRun
      exact ⟨⟨read ++ more, hRead.trans hMore⟩, hGood'⟩

theorem mono {better : α → Cursor → Prop} (h : Leads c parser better)
    (imp : ∀ value c', better value c' → good value c') : Leads c parser good := by
  intro hc count value after hRun
  obtain ⟨hRead, hBetter⟩ := h hc count value after hRun
  exact ⟨hRead, imp _ _ hBetter⟩

theorem of_advances {must : α → Prop} (h : Advances must c parser) :
    Leads c parser fun _ c' => c.span.start ≤ c'.span.start := by
  intro hc count value after hRun
  obtain ⟨read, hRead, -⟩ := h hc.ends count value after hRun
  exact ⟨⟨read, hRead⟩, hRead.forward hc⟩

/-- What runs from the first to the last of the tokens that are passed is laid there. -/
theorem of_consumes {span : α → Span} (h : Consumes c parser)
    (hSpan : Gives (fun _ => True) c parser fun value c' => span value = c.span.merge c'.previous)
    (name : α → String) : Leads c parser fun value c' => c.Lays [(name value, span value)] c' := by
  intro hc count value after hRun
  obtain ⟨read, hRead, hSome⟩ := h hc.ends count value after hRun
  have hMerged : span value = c.span.merge after.cursor.previous := by
    have hGives := hSpan count
    rwa [hRun] at hGives
  refine ⟨⟨read, hRead⟩, ?_⟩
  show c.Lays [(name value, span value)] after.cursor
  rw [hMerged]
  exact hRead.lays hc (hSome trivial) (name value)

theorem kind_bind {next : TokenKind → Parser β} (h : Leads c (next c.kind) good') :
    Leads c (kind >>= next) good' := h

theorem cursor_bind {next : Cursor → Parser β} (h : Leads c (next c) good') :
    Leads c (cursor >>= next) good' := h

theorem checkSign_bind {sign : Punct} {next : Bool → Parser β}
    (h : Leads c (next (c.check (.punct sign))) good') :
    Leads c (checkSign sign >>= next) good' := h

theorem advance (h : c.kind.isReadable = true) (name : String) :
    Leads c advance fun token c' => c.Lays [(name, token.span)] c' := by
  intro hc count value after hRun
  cases hRun
  have hRead := Cursor.Passes.next hc.ends h
  have hPrevious : c.next.previous = c.span := hRead.previous
  have hLays := hRead.lays hc (List.cons_ne_nil _ _) name
  rw [hPrevious, Span.merge_self] at hLays
  exact ⟨⟨_, hRead⟩, hLays⟩

theorem within (context : String) (h : Leads c parser good) :
    Leads c (within context parser) good := by
  intro hc count value after hRun
  apply h hc count value after
  unfold Grammar.within at hRun
  split at hRun
  · cases hRun
  · exact hRun

/-- A check that ends reading or lets it go on. -/
theorem stopIf {check : Bool} {stop : ParseError.Wanted} (h : Leads c parser good) :
    Leads c (do
      if check then Grammar.unexpected stop
      parser) good := by
  cases check with
  | true =>
      intro _ count found after hRun
      cases hRun
  | false => exact h

end Leads

/-! ## Declarations -/

theorem unexpected_gives {good : α → Cursor → Prop} :
    Gives (fun _ => True) c (unexpected wanted : Parser α) good :=
  Gives.kind_bind (Gives.span_bind (Gives.throw trivial))

theorem Gives.check_bind {bad : Failure → Prop} {wanted : TokenKind} {next : Bool → Parser α}
    {good : α → Cursor → Prop} (h : Gives bad c (next (c.check wanted)) good) :
    Gives bad c (check wanted >>= next) good := h

theorem expectWord_gives (word : Keyword) :
    Gives (fun _ => True) c (expectWord word) fun span _ => span = c.span := by
  apply Gives.check_bind
  split
  · exact Gives.advance_bind (.pure rfl)
  · exact unexpected_gives

theorem parseConst_gives (fuel : Nat) : Gives (fun _ => True) c (parseConst fuel) fun decl c' =>
    decl.span = c.span.merge c'.previous := by
  apply (expectWord_gives .const).bind
  rintro _ c1 rfl
  exact Gives.any.bind fun _ _ _ => Gives.any.bind fun _ _ _ => Gives.any.bind fun _ _ _ =>
    Gives.any.bind fun _ _ _ => .previousSpan_bind (.pure rfl)

theorem parseTypeDecl_gives (fuel : Nat) : Gives (fun _ => True) c (parseTypeDecl fuel)
    fun decl c' => decl.span = c.span.merge c'.previous := by
  apply (expectWord_gives .type).bind
  rintro _ c1 rfl
  exact Gives.any.bind fun _ _ _ => Gives.any.bind fun _ _ _ => .previousSpan_bind (.pure rfl)

theorem parseVar_gives (fuel : Nat) : Gives (fun _ => True) c (parseVar fuel) fun decl c' =>
    decl.span = c.span.merge c'.previous := by
  have hRest {c1 : Cursor} {name : String × Span} {type init : Option Expr} :
      Gives (fun _ => True) c1 (do
        if type.isNone && init.isNone then unexpected (.thing "type or `=`")
        return (⟨name.1, type, init, c.span.merge (← previousSpan)⟩ : VarDecl))
        fun decl c' => decl.span = c.span.merge c'.previous := by
    split
    · exact unexpected_gives.bind fun _ _ h => False.elim h
    · exact .previousSpan_bind (.pure rfl)
  apply (expectWord_gives .var).bind
  rintro _ c1 rfl
  apply Gives.any.bind
  intro name c2 _
  apply Gives.any.bind
  intro type c3 _
  apply Gives.eatSign_bind
  split
  · exact Gives.any.bind fun _ _ _ => hRest
  · exact hRest

theorem parseFunc_gives (fuel : Nat) : Gives (fun _ => True) c (parseFunc fuel) fun decl c' =>
    decl.span = c.span.merge c'.previous := by
  apply (expectWord_gives .func).bind
  rintro _ c1 rfl
  refine Gives.any.bind fun receiver c2 _ => Gives.any.bind fun name c3 _ => ?_
  refine Gives.any.bind fun signature c4 _ => .checkSign_bind ?_
  split
  · exact Gives.any.bind fun _ _ _ => .previousSpan_bind (.pure rfl)
  · exact Gives.any.bind fun _ _ _ => .previousSpan_bind (.pure rfl)

theorem parseImportPath_lays : Leads c parseImportPath fun decl c' =>
    c.Lays [(decl.name, decl.span)] c' := by
  apply Leads.kind_bind
  split
  · next name hKind =>
      exact (Leads.advance (by rw [hKind]; rfl) name).bind fun _ _ h => .pure fun _ => h
  · exact .unexpected

theorem parseImportPaths_lays (fuel : Nat) (c : Cursor) :
    Leads c (parseImportPaths fuel) fun decls c' =>
      c.Lays (decls.map fun decl => (decl.name, decl.span)) c' := by
  induction fuel generalizing c with
  | zero => exact .exhausted
  | succ fuel ih =>
      rw [parseImportPaths]
      apply (Leads.of_advances Advances.skipTerminators).bind
      intro _ c1 hFirst
      apply (Leads.of_advances (Advances.eatSign .rparen)).bind
      intro closed c2 hSecond
      split
      · exact .pure fun _ => .nil (hFirst.trans hSecond)
      · apply parseImportPath_lays.bind
        intro first c3 hPath
        apply (ih c3).bind
        intro others c4 hOthers
        exact .pure fun _ => (Cursor.Lays.nil (hFirst.trans hSecond)).append (hPath.append hOthers)

theorem parseImports_lays (fuel : Nat) : Leads c (parseImports fuel) fun decls c' =>
    c.Lays (decls.map fun decl => (decl.name, decl.span)) c' := by
  apply (Leads.of_advances (Advances.expectWord .import)).bind
  intro _ c1 hFirst
  apply (Leads.of_advances (Advances.eatSign .lparen)).bind
  intro grouped c2 hSecond
  split
  · apply (parseImportPaths_lays fuel c2).mono
    intro decls c' hDecls
    exact (Cursor.Lays.nil (hFirst.trans hSecond)).append hDecls
  · apply parseImportPath_lays.bind
    intro decl c3 hPath
    exact .pure fun _ => (Cursor.Lays.nil (hFirst.trans hSecond)).append hPath

theorem entries_addFunc (file : SourceFile) (decl : FuncDecl) :
    (addFunc file decl).entries = Function.update file.entries .func (file.entries .func ++
      if decl.receiver.isSome then [] else [(decl.name, decl.span)]) := by
  funext kind
  unfold addFunc
  split <;> cases kind <;> simp [SourceFile.entries, Function.update, *]

/-- A declaration is laid after those that were read before. -/
theorem parseDecl_spread (fuel : Nat) (hFile : file.Spread c.span.start) :
    Leads c (parseDecl fuel file) fun file' c' => file'.Spread c'.span.start := by
  apply Leads.kind_bind
  split
  · apply (Leads.of_advances parsePackage_advances).bind
    intro name c1 hForward
    exact .pure fun _ => (hFile.later hForward).congr rfl
  · apply (Leads.within _ (parseImports_lays fuel)).bind
    intro decls c1 hDecls
    refine .pure fun _ => hFile.add .import hDecls (funext fun kind => ?_)
    cases kind <;> simp [SourceFile.entries, Function.update]
  · apply (Leads.within _ (.of_consumes (parseConst_advances fuel c)
      (parseConst_gives fuel) ConstDecl.name)).bind
    intro decl c1 hDecl
    refine .pure fun _ => hFile.add .const hDecl (funext fun kind => ?_)
    cases kind <;> simp [SourceFile.entries, Function.update]
  · apply (Leads.within _ (.of_consumes (parseVar_advances fuel c)
      (parseVar_gives fuel) VarDecl.name)).bind
    intro decl c1 hDecl
    refine .pure fun _ => hFile.add .var hDecl (funext fun kind => ?_)
    cases kind <;> simp [SourceFile.entries, Function.update]
  · apply (Leads.within _ (.of_consumes (parseTypeDecl_advances fuel c)
      (parseTypeDecl_gives fuel) TypeDecl.name)).bind
    intro decl c1 hDecl
    refine .pure fun _ => hFile.add .type hDecl (funext fun kind => ?_)
    cases kind <;> simp [SourceFile.entries, Function.update]
  · apply (Leads.within _ (.of_consumes (parseFunc_advances fuel c)
      (parseFunc_gives fuel) FuncDecl.name)).bind
    intro decl c1 hDecl
    refine .pure fun _ => hFile.add .func ?_ (entries_addFunc file decl)
    split
    · exact .nil hDecl.forward
    · exact hDecl
  · exact .unexpected

theorem parseDecls_spread (fuel : Nat) (hFile : file.Spread c.span.start) :
    Leads c (parseDecls fuel file) fun file' c' => file'.Spread c'.span.start := by
  induction fuel generalizing file c with
  | zero => exact .exhausted
  | succ fuel ih =>
      rw [parseDecls]
      apply (Leads.of_advances Advances.skipTerminators).bind
      intro _ c1 hForward
      apply Leads.cursor_bind
      split
      · exact .pure fun _ => hFile.later hForward
      · apply (parseDecl_spread fuel (hFile.later hForward)).bind
        intro file' c2 hFile'
        apply (Leads.of_advances Advances.expectTerminator).bind
        intro _ c3 hForward'
        exact .checkSign_bind (.stopIf (ih (hFile'.later hForward')))

end Grammar

/-- Tokens other than the end of the file are not empty. -/
theorem filled_of_mem_lex (h : token ∈ lex source) (hKind : token.kind ≠ .eof) :
    token.span.start < token.span.stop := by
  obtain ⟨before, piece, after, -, hSpan, hReads⟩ := (lex_tokenisation source).pieces token h
  have hPiece : piece ≠ [] := by
    unfold TokenKind.Reads at hReads
    split at hReads
    · next hEnd => exact absurd hEnd hKind
    · exact hReads.1
    · obtain ⟨pattern, hTakes, -⟩ := hReads
      exact Pattern.ne_nil hTakes.matched
  obtain ⟨c, rest, rfl⟩ := List.exists_cons_of_ne_nil hPiece
  have hSize := c.utf8Size_pos
  rw [hSpan]
  simp only [byteLength_append, byteLength_cons]
  omega

/-- A token that may be passed is made of some text. -/
theorem span_lt_of_mem_lex (h : token ∈ lex source) (hReadable : token.kind.isReadable = true) :
    token.span.start < token.span.stop :=
  filled_of_mem_lex h (TokenKind.ne_eof_of_isReadable hReadable)

theorem ofTokens_ordered (source : String) : (Cursor.ofTokens (lex source)).Ordered where
  ends := by
    obtain ⟨init, last, hTokens, hLast, -⟩ := lex_ends source
    exact (Cursor.ofTokens_within (lex_ne_nil source)).ends hTokens hLast
  apart := by
    rw [Cursor.ofTokens_tokens (lex_ne_nil source)]
    exact (lex_tokenisation source).ordered
  filled := by
    rw [Cursor.ofTokens_tokens (lex_ne_nil source)]
    exact fun _ => span_lt_of_mem_lex

/-- The declarations of a text do not overlap, and those of one kind are kept in its order. -/
theorem parse_spread (h : parse source = .ok file) : ∃ bound, file.Spread bound := by
  obtain ⟨decls, after, read, hRun, rfl, -⟩ := parse_reads_all h
  have hEmpty : SourceFile.empty.Spread (Cursor.ofTokens (lex source)).span.start := by
    refine ⟨fun kind => ?_, fun kind kind' _ => ?_, fun kind => ?_⟩
    · cases kind <;> exact .nil
    · cases kind <;> exact List.forall_mem_nil _
    · cases kind <;> exact List.forall_mem_nil _
  have hSpread := (Grammar.parseDecls_spread _ hEmpty (ofTokens_ordered source) 0 decls
    after hRun).2
  exact ⟨_, hSpread.congr rfl⟩

/-! ## The order in which names are entered -/

namespace Declaration

/-- A declaration that is entered before another one: it stands before it in the text, or it
stands behind it and is of a kind that is entered before. -/
def EnteredFirst (a b : Declaration) : Prop :=
  a.span.Precedes b.span ∨ a.kind.turn < b.kind.turn ∧ b.span.Precedes a.span

theorem mem_numbered {kind : GlobalKind} {entries : List (String × Span)}
    (h : decl ∈ numbered kind index entries) :
    decl.kind = kind ∧ (decl.name, decl.span) ∈ entries := by
  induction entries generalizing index with
  | nil => cases h
  | cons entry rest ih =>
      rcases List.mem_cons.mp h with rfl | h
      · exact ⟨rfl, List.mem_cons_self⟩
      · exact (ih h).imp_right (List.mem_cons_of_mem _)

theorem mem_entries (h : decl ∈ ofFile file) : (decl.name, decl.span) ∈ file.entries decl.kind := by
  rw [ofFile_eq] at h
  obtain ⟨kind, -, hDecl⟩ := List.mem_flatMap.mp h
  obtain ⟨hKind, hEntry⟩ := mem_numbered hDecl
  rwa [hKind]

theorem pairwise_numbered {kind : GlobalKind} {entries : List (String × Span)}
    (h : entries.Pairwise fun a b => a.2.Precedes b.2) :
    (numbered kind index entries).Pairwise fun a b => a.span.Precedes b.span := by
  induction h generalizing index with
  | nil => exact .nil
  | cons hHead _ ih => exact .cons (fun decl hDecl => hHead _ (mem_numbered hDecl).2) ih

/-- Names are entered kind after kind, and within a kind in the order of the text. -/
theorem pairwise_ofFile (h : file.Spread bound) : (ofFile file).Pairwise EnteredFirst := by
  rw [ofFile_eq, List.pairwise_flatMap]
  refine ⟨fun kind _ => (pairwise_numbered (h.listed kind)).imp .inl, ?_⟩
  have hTurns : GlobalKind.all.Pairwise fun kind kind' => kind.turn < kind'.turn := by decide
  refine hTurns.imp fun {kind kind'} hTurn a ha b hb => ?_
  obtain ⟨rfl, hA⟩ := mem_numbered ha
  obtain ⟨rfl, hB⟩ := mem_numbered hb
  have hKinds : a.kind ≠ b.kind := fun hSame => Nat.lt_irrefl _ (hSame ▸ hTurn)
  exact (h.apart _ _ hKinds _ hA _ hB).imp_right fun hAfter => ⟨hTurn, hAfter⟩

/-- Which of two declarations is entered first, told by where they start. -/
theorem EnteredFirst.starts {a b : Declaration} (h : EnteredFirst a b)
    (hSpread : file.Spread bound) (ha : a ∈ ofFile file) (hb : b ∈ ofFile file) :
    a.span.start < b.span.start ∨ a.kind.turn < b.kind.turn ∧ b.span.start < a.span.start := by
  have hA : a.span.start < a.span.stop := (hSpread.inside _ _ (mem_entries ha)).1
  have hB : b.span.start < b.span.stop := (hSpread.inside _ _ (mem_entries hb)).1
  unfold EnteredFirst Span.Precedes at h
  omega

end Declaration

end GoToC
