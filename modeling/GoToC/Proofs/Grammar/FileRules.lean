import GoToC.Proofs.C.Identifier
import GoToC.Proofs.Grammar.StmtRules

/-!
# Source files are well formed

Every text is either refused with an error or read as a well-formed file, all words of
which are identifiers of the text.
-/

namespace GoToC

variable {α : Type} {text : List Char} {name : String}

/-! ## Identifiers of a text -/

namespace Lexeme

/-- The characters of a word make an identifier. -/
theorem isIdentifier_of_scan {c : Char} {rest : List Char} (h : scan (c :: rest) = (.word, text)) :
    isIdentifier (String.ofList text) = true := by
  have hQuoted (quote : Char) (closed : Lexeme) (hClosed : closed ≠ .word) :
      (scanQuoted quote closed rest).1 ≠ .word := by
    unfold scanQuoted
    dsimp only
    split
    · exact hClosed
    · simp
  rw [scan] at h
  split at h
  · cases h
  · split at h
    · cases h
    · split at h
      · cases h
      · split at h
        · next hStart =>
            obtain ⟨-, rfl⟩ := Prod.mk.inj h
            have hPart := isWordPart_of_isWordStart hStart
            refine isIdentifier_eq_true.mpr ⟨c, rest.takeWhile isWordPart, ?_, hStart, ?_⟩
            · rw [String.toList_ofList, List.takeWhile_cons, if_pos hPart]
            · exact List.all_takeWhile
        · split at h
          · exact absurd (congrArg Prod.fst h) (hQuoted c .str (by simp))
          · split at h
            · exact absurd (congrArg Prod.fst h) (hQuoted c .char (by simp))
            · split at h
              · cases h
              · split at h
                · cases h
                · cases h

theorem literalKind_ne_ident {kind : α → TokenKind} (hKind : ∀ value, kind value ≠ .ident name)
    (result : Except LexError α) : literalKind kind result ≠ .ident name := by
  cases result with
  | ok value => exact hKind value
  | error cause => simp [literalKind]

/-- Only a word becomes an identifier token. -/
theorem kind_eq_ident {lexeme : Lexeme} (h : lexeme.kind? text = some (.ident name)) :
    lexeme = .word ∧ name = String.ofList text := by
  cases lexeme with
  | word =>
      simp only [kind?, wordKind, Option.some.injEq] at h
      split at h
      · cases h
      · cases h
        exact ⟨rfl, rfl⟩
  | int => exact absurd (Option.some.inj h) (literalKind_ne_ident (by simp) _)
  | str => exact absurd (Option.some.inj h) (literalKind_ne_ident (by simp) _)
  | char => exact absurd (Option.some.inj h) (literalKind_ne_ident (by simp) _)
  | _ => cases h

end Lexeme

/-- The words of a text are identifiers. -/
theorem isIdentifier_of_tokensFrom {offset taken : Nat} {token : Token}
    (h : token ∈ tokensFrom offset taken text) (hKind : token.kind = .ident name) :
    isIdentifier name = true := by
  fun_induction tokensFrom offset taken text with
  | case1 offset taken =>
      rw [List.mem_singleton] at h
      subst h
      cases hKind
  | case2 offset taken c rest ih => exact ih h
  | case3 offset c rest lexeme text hScan others hNone ih => exact ih h
  | case4 offset c rest lexeme text hScan others kind hSome ih =>
      rw [List.mem_cons] at h
      rcases h with rfl | h
      · obtain ⟨rfl, rfl⟩ := Lexeme.kind_eq_ident (hSome.trans (congrArg some hKind))
        exact Lexeme.isIdentifier_of_scan hScan
      · exact ih h

/-- The last token of a text is the end of the file. -/
theorem tokensFrom_ends (offset taken : Nat) (text : List Char) :
    ∃ init last, tokensFrom offset taken text = init ++ [last] ∧ last.kind = .eof := by
  fun_induction tokensFrom offset taken text with
  | case1 offset taken => exact ⟨[], ⟨.eof, Span.point offset⟩, rfl, rfl⟩
  | case2 offset taken c rest ih => exact ih
  | case3 offset c rest lexeme text hScan others hNone ih => exact ih
  | case4 offset c rest lexeme text hScan others kind hSome ih =>
      obtain ⟨init, last, hTokens, hLast⟩ := ih
      exact ⟨_ :: init, last, congrArg _ hTokens, hLast⟩

/-! ## Declarations -/

namespace Grammar

variable {enough : Prop} {word : String → Prop} {c : Cursor}

theorem parsePackage_reads : Reads enough word c parsePackage fun _ c' => c'.left < c.left :=
  (Reads.expectWord .package).bind fun _ c1 h1 => Reads.expectIdent.bind fun name c2 h2 =>
    .pure (by omega)

theorem parseImportPath_reads :
    Reads enough word c parseImportPath fun _ c' => c'.left < c.left := by
  refine .kind_bind ?_
  split
  · next hKind => exact (Reads.advance hKind rfl).bind fun _ _ h => .pure h
  · exact .unexpected

theorem importPathsRound_reads :
    Reads enough word c importPathsRound (RoundRead (fun _ _ => True) () c) := by
  refine Reads.skipTerminators.bind fun _ c1 h1 =>
    (Reads.eatSign .rparen).bind fun eaten c2 h2 => ?_
  split
  · exact .pure ⟨by omega, trivial⟩
  · exact parseImportPath_reads.bind fun first c3 h3 => .pure ⟨by omega, fun _ => id⟩

theorem parseImportPaths_reads (fuel : Nat) (c : Cursor) :
    Reads (16 * c.left + 1 ≤ fuel) word c (parseImportPaths fuel)
      (LoopRead (fun _ _ => True) () c) := by
  induction fuel generalizing c with
  | zero => exact .exhausted (by omega)
  | succ fuel ih =>
      rw [parseImportPaths_eq]
      exact .rounds importPathsRound_reads fun _ c' _ => (ih c').given (by omega)

theorem parseImports_reads (fuel : Nat) (c : Cursor) :
    Reads (16 * c.left ≤ fuel) word c (parseImports fuel) fun _ c' => c'.left < c.left := by
  refine (Reads.expectWord .import).bind fun _ c1 h1 => (Reads.eatSign .lparen).bind
    fun eaten c2 h2 => ?_
  split
  · exact ((parseImportPaths_reads fuel c2).given (by omega)).mono fun _ c3 h3 => by omega
  · exact parseImportPath_reads.bind fun decl c3 h3 => .pure (by omega)

theorem parseDeclaredType_reads (fuel : Nat) (c : Cursor) :
    Reads (16 * c.left + 1 ≤ fuel) word c (parseDeclaredType fuel) fun found c' =>
      c'.left ≤ c.left ∧ ∀ type ∈ found, type.IsType word := by
  refine .checkSign_bind fun bare => ?_
  split
  · exact .pure ⟨Nat.le_refl _, by simp⟩
  · refine .map ((parseType_reads fuel c).mono fun type c1 h1 => ⟨Nat.le_of_lt h1.1, ?_⟩)
    intro found hFound
    rw [Option.mem_some_iff] at hFound
    exact hFound ▸ h1.2

theorem parseConst_reads (fuel : Nat) (c : Cursor) :
    Reads (16 * c.left ≤ fuel) word c (parseConst fuel) fun decl c' =>
      c'.left < c.left ∧ word decl.name ∧ decl.value.Formed word := by
  refine (Reads.expectWord .const).bind fun start c1 h1 => Reads.expectIdent.bind
    fun name c2 h2 => ?_
  refine ((parseDeclaredType_reads fuel c2).given (by omega)).bind fun type c3 h3 => ?_
  refine (Reads.expectSign .eq).bind fun _ c4 h4 => ?_
  refine ((parseExpr_reads fuel c4).given (by omega)).bind fun value c5 h5 => ?_
  exact .previousSpan_bind fun stop => .pure ⟨by omega, h2.2, h5.2⟩

theorem parseVar_reads (fuel : Nat) (c : Cursor) :
    Reads (16 * c.left ≤ fuel) word c (parseVar fuel) fun decl c' => c'.left < c.left ∧
      word decl.name ∧
      (∀ type ∈ decl.type, type.IsType word) ∧ ∀ init ∈ decl.init, init.Formed word := by
  refine (Reads.expectWord .var).bind fun start c1 h1 => Reads.expectIdent.bind fun name c2 h2 => ?_
  refine ((parseDeclaredType_reads fuel c2).given (by omega)).bind fun type c3 h3 => ?_
  refine (Reads.eatSign .eq).bind fun eaten c4 h4 => ?_
  have hRest (init : Option Expr) (c5 : Cursor) (h5 : c5.left ≤ c4.left)
      (hInit : ∀ value ∈ init, value.Formed word) :
      Reads (16 * c.left ≤ fuel) word c5 (do
        if type.isNone && init.isNone then unexpected (.thing "type or `=`")
        return (⟨name.1, type, init, start.merge (← previousSpan)⟩ : VarDecl))
        fun decl c' => c'.left < c.left ∧ word decl.name ∧
          (∀ type ∈ decl.type, type.IsType word) ∧ ∀ init ∈ decl.init, init.Formed word :=
    .stopIf .unexpected fun _ => .previousSpan_bind fun stop =>
      .pure ⟨by omega, h2.2, h3.2, hInit⟩
  split
  · have hInit : Reads (16 * c.left ≤ fuel) word c4 (some <$> parseExpr fuel) fun init c' =>
        c'.left ≤ c4.left ∧ ∀ value ∈ init, value.Formed word := by
      refine .map (((parseExpr_reads fuel c4).given (by omega)).mono fun e c5 h5 =>
        ⟨Nat.le_of_lt h5.1, ?_⟩)
      intro value hValue
      rw [Option.mem_some_iff] at hValue
      exact hValue ▸ h5.2
    exact hInit.bind fun init c5 h5 => hRest init c5 h5.1 h5.2
  · exact hRest none c4 (Nat.le_refl _) (by simp)

theorem parseTypeDecl_reads (fuel : Nat) (c : Cursor) :
    Reads (16 * c.left ≤ fuel) word c (parseTypeDecl fuel) fun decl c' =>
      c'.left < c.left ∧ word decl.name ∧ decl.type.IsType word := by
  refine (Reads.expectWord .type).bind fun start c1 h1 => Reads.expectIdent.bind
    fun name c2 h2 => ?_
  refine ((parseType_reads fuel c2).given (by omega)).bind fun type c3 h3 => ?_
  exact .previousSpan_bind fun stop => .pure ⟨by omega, h2.2, h3.2⟩

theorem parseReceiver_reads (fuel : Nat) (c : Cursor) :
    Reads (16 * c.left + 1 ≤ fuel) word c (parseReceiver fuel) fun receiver c' => c'.left ≤ c.left ∧
      ∀ param ∈ receiver, OptionalWord word param.name ∧ param.type.IsType word := by
  refine (Reads.eatSign .lparen).bind fun eaten c1 h1 => ?_
  split
  · refine Reads.expectIdent.bind fun name c2 h2 => ?_
    refine ((parseType_reads fuel c2).given (by omega)).bind fun type c3 h3 => ?_
    refine (Reads.expectSign .rparen).bind fun _ c4 h4 => .pure ⟨by omega, ?_⟩
    intro param hParam
    rw [Option.mem_some_iff] at hParam
    subst hParam
    exact ⟨fun _ => h2.2, h3.2⟩
  · exact .pure ⟨h1.1, by simp⟩

theorem parseFunc_reads (fuel : Nat) (c : Cursor) :
    Reads (16 * c.left ≤ fuel) word c (parseFunc fuel) fun decl c' => c'.left < c.left ∧
      decl.Formed word := by
  refine (Reads.expectWord .func).bind fun start c1 h1 => ?_
  refine ((parseReceiver_reads fuel c1).given (by omega)).bind fun receiver c2 h2 => ?_
  refine Reads.expectIdent.bind fun name c3 h3 => ?_
  refine (Reads.within _ ((parseSignature_reads fuel c3).given (by omega))).bind
    fun signature c4 h4 => ?_
  refine .checkSign_bind fun braced => ?_
  split
  · have hBody : Reads (16 * c.left ≤ fuel) word c4 (some <$> parseBlock fuel) fun body c' =>
        c'.left ≤ c4.left ∧ ∀ stmts ∈ body, StmtsFormed word stmts := by
      refine .map (((parseBlock_reads fuel c4).given (by omega)).mono fun body c5 h5 =>
        ⟨Nat.le_of_lt h5.1, ?_⟩)
      intro stmts hStmts
      rw [Option.mem_some_iff] at hStmts
      exact hStmts ▸ h5.2
    exact hBody.bind fun body c5 h5 => .previousSpan_bind fun stop =>
      .pure ⟨by omega, h2.2, h3.2, h4.2, h5.2⟩
  · rw [pure_bind]
    exact .previousSpan_bind fun stop =>
      .pure ⟨by omega, h2.2, h3.2, h4.2, fun body hBody => by cases hBody⟩

/-- What holds of the declarations read before and of one more holds of all. -/
theorem forall_mem_concat {p : α → Prop} {xs : List α} {x : α} (hxs : ∀ y ∈ xs, p y) (hx : p x) :
    ∀ y ∈ xs ++ [x], p y := by
  intro y hy
  rw [List.mem_append, List.mem_singleton] at hy
  rcases hy with hy | rfl
  · exact hxs y hy
  · exact hx

theorem addFunc_formed {file : SourceFile} {decl : FuncDecl} (hFile : file.Formed word)
    (hDecl : decl.Formed word) : (addFunc file decl).Formed word := by
  unfold addFunc
  split
  · next hReceiver =>
      exact { hFile with methods := forall_mem_concat hFile.methods ⟨hDecl, hReceiver⟩ }
  · next hReceiver =>
      have hNone : decl.receiver = none := by simpa using hReceiver
      exact { hFile with funcs := forall_mem_concat hFile.funcs ⟨hDecl, hNone⟩ }

/-- What holds of a file that declarations are added to. -/
abbrev FileFormed (word : String → Prop) (file file' : SourceFile) : Prop :=
  file.Formed word → file'.Formed word

theorem parseDecl_reads (fuel : Nat) (file : SourceFile) (c : Cursor) :
    Reads (16 * c.left ≤ fuel) word c (parseDecl fuel file) fun file' c' =>
      c'.left < c.left ∧ FileFormed word file file' := by
  refine .kind_bind ?_
  split
  · exact parsePackage_reads.bind fun name c1 h1 => .pure ⟨h1, fun hFile => { hFile with }⟩
  · exact (Reads.within _ (parseImports_reads fuel c)).bind fun decls c1 h1 =>
      .pure ⟨h1, fun hFile => { hFile with }⟩
  · exact (Reads.within _ (parseConst_reads fuel c)).bind fun decl c1 h1 =>
      .pure ⟨h1.1, fun hFile => { hFile with consts := forall_mem_concat hFile.consts h1.2 }⟩
  · exact (Reads.within _ (parseVar_reads fuel c)).bind fun decl c1 h1 =>
      .pure ⟨h1.1, fun hFile => { hFile with vars := forall_mem_concat hFile.vars h1.2 }⟩
  · exact (Reads.within _ (parseTypeDecl_reads fuel c)).bind fun decl c1 h1 =>
      .pure ⟨h1.1, fun hFile => { hFile with types := forall_mem_concat hFile.types h1.2 }⟩
  · exact (Reads.within _ (parseFunc_reads fuel c)).bind fun decl c1 h1 =>
      .pure ⟨h1.1, fun hFile => addFunc_formed hFile h1.2⟩
  · exact .unexpected

theorem declsRound_reads (fuel : Nat) (file : SourceFile) (c : Cursor) :
    Reads (16 * c.left ≤ fuel) word c (declsRound fuel file)
      (RoundRead (FileFormed word) file c) := by
  refine Reads.skipTerminators.bind fun _ c1 h1 => .cursor_bind ?_
  split
  · exact .pure ⟨h1, id⟩
  · refine ((parseDecl_reads fuel file c1).given (by omega)).bind fun file' c2 h2 => ?_
    refine Reads.expectTerminator.bind fun _ c3 h3 => .checkSign_bind fun closed => ?_
    exact .stopIf .unexpected fun _ => .pure ⟨by omega, fun others hOthers hFile =>
      hOthers (h2.2 hFile)⟩

theorem parseDecls_reads (fuel : Nat) (file : SourceFile) (c : Cursor) :
    Reads (16 * c.left + 1 ≤ fuel) word c (parseDecls fuel file)
      (LoopRead (FileFormed word) file c) := by
  induction fuel generalizing file c with
  | zero => exact .exhausted (by omega)
  | succ fuel ih =>
      rw [parseDecls_eq]
      exact .rounds ((declsRound_reads fuel file c).given (by omega)) fun file' c' _ =>
        (ih file' c').given (by omega)

end Grammar

/-- What reading a text comes to, given what is known of its words. -/
def ParseOutcome (word : String → Prop) : Except Grammar.Failure SourceFile → Prop
  | .ok file => file.Formed word
  | .error (.error _) => True
  | .error .exhausted => False

theorem parse_outcome {word : String → Prop} {text : String}
    (hWords : ∀ token ∈ lex text, ∀ name, token.kind = .ident name → word name) :
    ParseOutcome word (parse text) := by
  obtain ⟨init, last, hTokens, hLast⟩ := tokensFrom_ends 0 0 text.toList
  have hSound : (Cursor.ofTokens (lex text)).Sound word ∧
      (Cursor.ofTokens (lex text)).left ≤ (lex text).length := by
    unfold lex at hWords ⊢
    cases hLex : tokensFrom 0 0 text.toList with
    | nil => simp [hLex] at hTokens
    | cons token rest =>
        rw [hLex] at hWords hTokens
        exact ⟨⟨hWords, init, last, hTokens, hLast⟩, by simp [Cursor.ofTokens, Cursor.left]⟩
  have hEmpty : SourceFile.empty.Formed word := by
    constructor <;> simp [SourceFile.empty]
  have hFuel : 16 * (Cursor.ofTokens (lex text)).left + 1 ≤ Grammar.fuelFor (lex text) := by
    have hLeft := hSound.2
    unfold Grammar.fuelFor
    omega
  have hRun := Grammar.parseDecls_reads (Grammar.fuelFor (lex text)) SourceFile.empty _ hSound.1 0
  unfold parse parseTokens StateT.run
  cases hResult : Grammar.parseDecls (Grammar.fuelFor (lex text)) SourceFile.empty
      ⟨Cursor.ofTokens (lex text), 0⟩ with
  | ok found =>
      rw [hResult] at hRun
      exact { hRun.2.2 hEmpty with }
  | error failure =>
      rw [hResult] at hRun
      cases failure with
      | error cause => trivial
      | exhausted => exact hRun hFuel

end GoToC
