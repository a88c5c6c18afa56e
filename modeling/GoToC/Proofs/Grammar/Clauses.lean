import GoToC.Proofs.Grammar.ReadingOrder

/-!
# Clauses of a source file

A source file is read clause by clause: the package clause, an import, or a declaration. Between
clauses stand line ends and semicolons, and each clause is followed by one of them or by the end
of the file. Package clauses are read like the others, in any place and any number; the last one
gives the package.
-/

namespace GoToC

variable {α : Type} {file : SourceFile} {good : α → Cursor → Prop} {fuel : Nat}

/-- What stands at the top level of a source file. -/
inductive Clause where
  | package (name : String)
  | imports (decls : List ImportDecl)
  | const (decl : ConstDecl)
  | var (decl : VarDecl)
  | type (decl : TypeDecl)
  | func (decl : FuncDecl)

/-- What a token brings into an import. -/
def Token.importDecl? (token : Token) : Option ImportDecl :=
  match token.kind with
  | .str name => some ⟨name, token.span⟩
  | _ => none

/-- From the first of some tokens to the last. -/
def Span.Covers (span : Span) (tokens : List Token) : Prop :=
  ∃ first last, tokens.head? = some first ∧ tokens.getLast? = some last ∧
    span = first.span.merge last.span

namespace Clause

/-- The word that a clause begins with. -/
def word : Clause → Keyword
  | package _ => .package
  | imports _ => .import
  | const _ => .const
  | var _ => .var
  | type _ => .type
  | func _ => .func

def package? : Clause → Option String
  | package name => some name
  | _ => none

/-- Adds what a clause says to a file. -/
def addTo (clause : Clause) (file : SourceFile) : SourceFile :=
  match clause with
  | package name => { file with package := some name }
  | imports decls => { file with imports := file.imports ++ decls }
  | const decl => { file with consts := file.consts ++ [decl] }
  | var decl => { file with vars := file.vars ++ [decl] }
  | type decl => { file with types := file.types ++ [decl] }
  | func decl => Grammar.addFunc file decl

/-- What a clause says is held by some tokens: the name of a package stands behind the word, the
paths of an import are all its strings, and a declaration runs from the first token to the last. -/
def Held (tokens : List Token) : Clause → Prop
  | package name => tokens.map Token.kind = [.keyword .package, .ident name]
  | imports decls => tokens.filterMap Token.importDecl? = decls
  | const decl => decl.span.Covers tokens
  | var decl => decl.span.Covers tokens
  | type decl => decl.span.Covers tokens
  | func decl => decl.span.Covers tokens

/-- The tokens of a clause begin with its word and hold what it says. -/
structure Written (clause : Clause) (tokens : List Token) : Prop where
  opens : ∃ first, tokens.head? = some first ∧ first.kind = .keyword clause.word
  readable : ∀ token ∈ tokens, token.kind.isReadable = true
  held : clause.Held tokens

end Clause

/-- The file that clauses make, one after another. -/
def SourceFile.ofClauses (clauses : List Clause) : SourceFile :=
  clauses.foldl (fun file clause => clause.addTo file) SourceFile.empty

/-- Tokens up to an end of the file are clauses, each behind any number of line ends and semicolons
and in front of a line end, a semicolon or the end of the file. -/
inductive TopLevel : List Token → List Clause → Prop where
  | done {skipped last later}
      (hSkipped : ∀ token ∈ skipped, token.kind.isSeparator = true) (hLast : last.kind = .eof) :
      TopLevel (skipped ++ last :: later) []
  | clause {skipped written stop later clause clauses}
      (hSkipped : ∀ token ∈ skipped, token.kind.isSeparator = true)
      (hWritten : clause.Written written) (hStop : stop.kind.isTerminator = true)
      (hLater : TopLevel (stop :: later) clauses) :
      TopLevel (skipped ++ (written ++ stop :: later)) (clause :: clauses)

namespace Grammar

variable {c : Cursor}

/-! ## One clause -/

/-- A rule that reads from its word on all that its result covers. -/
theorem Takes.of_covers {parser : Parser α} {span : α → Span} (hReads : Consumes c parser)
    (hSpan : Gives (fun _ => True) c parser fun value c' => span value = c.span.merge c'.previous) :
    Takes c parser fun value read _ => read.head? = some c.current ∧ (span value).Covers read := by
  apply ((Takes.of_advances hReads).and_gives hSpan).mono
  rintro value read c' hRead ⟨hSome, hMerged⟩
  have hFirst : read.head? = some c.current := by
    cases read with
    | nil => exact absurd rfl (hSome trivial)
    | cons first rest => rw [List.head?_cons, (List.cons.inj hRead.tokens).1]
  have hLast := List.getLast?_eq_getLast_of_ne_nil (hSome trivial)
  refine ⟨hFirst, c.current, _, hFirst, hLast, ?_⟩
  rw [hMerged, hRead.previous, hLast]
  rfl

theorem parsePackage_takes : Takes c parsePackage fun name read _ =>
    read.head? = some c.current ∧ read.map Token.kind = [.keyword .package, .ident name] := by
  apply (Takes.expectWord .package).bind
  rintro _ _ c1 ⟨hWord, rfl, -⟩
  apply Takes.expectIdent.bind
  rintro found _ c2 ⟨hName, rfl⟩
  exact .pure ⟨rfl, congrArg₂ (fun word name => [word, name]) hWord hName⟩

theorem parseImportPath_takes : Takes c parseImportPath fun decl read _ =>
    read.filterMap Token.importDecl? = [decl] := by
  apply Takes.kind_bind
  split
  · next name hKind =>
      apply (Takes.advance (by rw [hKind]; rfl)).bind
      rintro _ _ c1 ⟨rfl, rfl⟩
      refine .pure ?_
      replace hKind : c.current.kind = .str name := hKind
      simp [Token.importDecl?, hKind]
  · exact .unexpected

/-- A token that is no string brings nothing into an import. -/
theorem filterMap_importDecl?_eq_nil {read : List Token}
    (h : ∀ token ∈ read, ∀ text, token.kind ≠ .str text) :
    read.filterMap Token.importDecl? = [] := by
  refine List.filterMap_eq_nil_iff.mpr fun token hToken => ?_
  unfold Token.importDecl?
  split
  · next name hKind => exact absurd hKind (h token hToken name)
  · rfl

theorem ne_str_of_isSeparator {kind : TokenKind} (h : kind.isSeparator = true) (text : String) :
    kind ≠ .str text := by
  rintro rfl
  cases h

theorem parseImportPaths_takes (fuel : Nat) (c : Cursor) :
    Takes c (parseImportPaths fuel) fun decls read _ =>
      read.filterMap Token.importDecl? = decls := by
  induction fuel generalizing c with
  | zero => exact .exhausted
  | succ fuel ih =>
      rw [parseImportPaths]
      apply Takes.skipTerminators.bind
      intro _ skipped c1 hSkipped
      have hNone := filterMap_importDecl?_eq_nil fun token hToken =>
        ne_str_of_isSeparator (hSkipped token hToken)
      apply (Takes.eatSign .rparen).bind
      intro closed sign c2 hSign
      have hNoPath := filterMap_importDecl?_eq_nil fun token hToken text hKind =>
        TokenKind.noConfusion ((hSign token hToken).symm.trans hKind)
      split
      · exact .pure (by simp [hNone, hNoPath])
      · apply parseImportPath_takes.bind
        intro first path c3 hFirst
        apply (ih c3).bind
        intro others rest c4 hOthers
        exact .pure (by simp [hNone, hNoPath, hFirst, hOthers])

theorem parseImports_takes (fuel : Nat) : Takes c (parseImports fuel) fun decls read _ =>
    read.head? = some c.current ∧ read.filterMap Token.importDecl? = decls := by
  apply (Takes.expectWord .import).bind
  rintro _ _ c1 ⟨hWord, rfl, -⟩
  replace hWord : c.current.kind = .keyword .import := hWord
  have hNone : c.current.importDecl? = none := by simp [Token.importDecl?, hWord]
  apply (Takes.eatSign .lparen).bind
  intro grouped sign c2 hSign
  have hNoPath := filterMap_importDecl?_eq_nil fun token hToken text hKind =>
    TokenKind.noConfusion ((hSign token hToken).symm.trans hKind)
  split
  · apply (parseImportPaths_takes fuel c2).mono
    intro decls read c' _ hDecls
    exact ⟨rfl, by simp [hNone, hNoPath, hDecls]⟩
  · apply parseImportPath_takes.bind
    intro decl path c3 hPath
    exact .pure ⟨rfl, by simp [hNone, hNoPath, hPath]⟩

/-- What a rule reads from the word of a clause on, and what is made of it, is the clause. -/
theorem Takes.of_clause {rule : Parser α} (make : α → Clause)
    (hKind : ∀ value, c.kind = .keyword (make value).word)
    (h : Takes c rule fun value read _ => read.head? = some c.current ∧ (make value).Held read) :
    Takes c (do
      let value ← rule
      return (make value).addTo file) fun file' read _ =>
      ∃ clause : Clause, file' = clause.addTo file ∧ clause.Written read := by
  have hWritten : Takes c rule fun value read _ => (make value).Written read :=
    h.mono fun value read _ hRead hHeld =>
      ⟨⟨c.current, hHeld.1, hKind value⟩, hRead.readable, hHeld.2⟩
  apply hWritten.bind
  intro value read c1 hClause
  exact .pure ⟨make value, rfl, (List.append_nil read).symm ▸ hClause⟩

theorem parseDecl_takes (fuel : Nat) (file : SourceFile) :
    Takes c (parseDecl fuel file) fun file' read _ =>
      ∃ clause : Clause, file' = clause.addTo file ∧ clause.Written read := by
  apply Takes.kind_bind
  split
  · next hKind => exact .of_clause .package (fun _ => hKind) parsePackage_takes
  · next hKind => exact .of_clause .imports (fun _ => hKind) ((parseImports_takes fuel).within _)
  · next hKind =>
      exact .of_clause .const (fun _ => hKind)
        (.within _ (.of_covers (parseConst_advances fuel c) (parseConst_gives fuel)))
  · next hKind =>
      exact .of_clause .var (fun _ => hKind)
        (.within _ (.of_covers (parseVar_advances fuel c) (parseVar_gives fuel)))
  · next hKind =>
      exact .of_clause .type (fun _ => hKind)
        (.within _ (.of_covers (parseTypeDecl_advances fuel c) (parseTypeDecl_gives fuel)))
  · next hKind =>
      exact .of_clause .func (fun _ => hKind)
        (.within _ (.of_covers (parseFunc_advances fuel c) (parseFunc_gives fuel)))
  · exact .unexpected

/-! ## All clauses -/

/-- What is read up to the end of the file is laid out in clauses, and these make the file. -/
theorem parseDecls_takes (fuel : Nat) (file : SourceFile) (c : Cursor) :
    Takes c (parseDecls fuel file) fun file' _ _ => ∃ clauses,
      file' = clauses.foldl (fun file clause => clause.addTo file) file ∧
        TopLevel (c.current :: c.rest) clauses := by
  induction fuel generalizing file c with
  | zero => exact .exhausted
  | succ fuel ih =>
      rw [parseDecls]
      apply (Takes.skipTerminators.mono fun _ skipped c1 hRead hSkipped =>
        And.intro hRead hSkipped).bind
      rintro _ skipped c1 ⟨hSkip, hSkipped⟩
      apply Takes.cursor_bind
      split
      · next hEnd =>
          refine .pure ⟨[], rfl, ?_⟩
          rw [hSkip.tokens]
          exact .done hSkipped (beq_iff_eq.mp hEnd)
      · apply ((parseDecl_takes fuel file).mono fun _ _ c2 hRead hClause =>
          And.intro hRead hClause).bind
        rintro file' written c2 ⟨hRead, clause, rfl, hWritten⟩
        apply Takes.expectTerminator.bind
        rintro _ _ c2 ⟨-, rfl, hStop⟩
        apply Takes.checkSign_bind
        refine .stopIf fun hBrace => ?_
        apply (ih (clause.addTo file) c2).mono
        rintro file' _ _ _ ⟨clauses, rfl, hLaid⟩
        refine ⟨clause :: clauses, rfl, ?_⟩
        rw [hSkip.tokens, hRead.tokens]
        exact .clause hSkipped hWritten (hStop.resolve_left (beq_eq_false_iff_ne.mp hBrace)) hLaid

end Grammar

/-! ## Packages -/

theorem Clause.package_addTo (clause : Clause) (file : SourceFile) :
    (clause.addTo file).package = clause.package?.or file.package := by
  cases clause with
  | func decl =>
      simp only [addTo, Grammar.addFunc]
      split <;> rfl
  | _ => rfl

/-- The last package clause gives the package. -/
theorem SourceFile.package_foldl (clauses : List Clause) (file : SourceFile) :
    (clauses.foldl (fun file clause => clause.addTo file) file).package =
      (clauses.filterMap Clause.package?).getLast?.or file.package := by
  induction clauses generalizing file with
  | nil => rfl
  | cons clause clauses ih =>
      rw [List.foldl_cons, ih, clause.package_addTo, List.filterMap_cons]
      cases clause.package? with
      | none => rfl
      | some name =>
          simp [List.getLast?_cons]

/-! ## Clauses in any order -/

/-- A clause that names the package or imports one module. -/
inductive Header where
  | package (name : String)
  | path (name : String)

namespace Header

def package? : Header → Option String
  | package name => some name
  | path _ => none

def path? : Header → Option String
  | package _ => none
  | path name => some name

/-- The kinds of its tokens, a semicolon behind them. -/
def kinds : Header → List TokenKind
  | package name => [.keyword .package, .ident name, .punct .semicolon]
  | path name => [.keyword .import, .str name, .punct .semicolon]

theorem length_kinds (header : Header) : header.kinds.length = 3 := by
  cases header <;> rfl

end Header

namespace Grammar

variable {follow : Token} {later : List Token} {c : Cursor} {rest : List TokenKind}

theorem Gives.expectWord {bad : Failure → Prop} {word : Keyword} {next : Span → Parser α}
    (h : c.Ahead follow later (.keyword word :: rest))
    (hNext : ∀ span c', c'.Ahead follow later rest → Gives bad c' (next span) good) :
    Gives bad c (expectWord word >>= next) good := by
  have hCheck : c.check (.keyword word) = true := beq_iff_eq.mpr h.kind_eq
  have hRead : Gives bad c (Grammar.expectWord word) fun _ c' => c'.Ahead follow later rest := by
    refine .check_bind ?_
    rw [hCheck]
    exact .advance_bind (.pure (h.next (by simp)))
  exact hRead.bind fun span c' hAhead => hNext span c' hAhead

theorem Gives.within {parser : Parser α} (context : String)
    (h : Gives (fun _ => False) c parser good) :
    Gives (fun _ => False) c (within context parser) good := by
  intro count
  have hRun := h count
  unfold Grammar.within
  cases hResult : parser ⟨c, count⟩ with
  | ok found =>
      rw [hResult] at hRun
      exact hRun
  | error failure =>
      rw [hResult] at hRun
      exact hRun.elim

/-- A header is read wherever a clause may begin. -/
theorem parseDecl_header (header : Header) (h : c.Ahead follow later (header.kinds ++ rest)) :
    Gives (fun _ => False) c (parseDecl fuel file) fun file' c' =>
      file'.package = header.package?.or file.package ∧
        file'.imports.map (·.name) = file.imports.map (·.name) ++ header.path?.toList ∧
        c'.Ahead follow later (.punct .semicolon :: rest) := by
  apply Gives.kind_bind
  rw [h.kind_eq]
  cases header with
  | package name =>
      have hPackage : Gives (fun _ => False) c parsePackage fun found c' =>
          found = name ∧ c'.Ahead follow later (.punct .semicolon :: rest) :=
        Gives.expectWord h fun _ c1 h1 => Gives.expectIdent h1 fun _ c2 h2 => .pure ⟨rfl, h2⟩
      apply hPackage.bind
      rintro _ c1 ⟨rfl, h1⟩
      exact .pure ⟨rfl, by simp [Header.path?], h1⟩
  | path name =>
      have hPath {c1 : Cursor} (h1 : c1.Ahead follow later
          (.str name :: .punct .semicolon :: rest)) :
          Gives (fun _ => False) c1 parseImportPath fun decl c' =>
            decl.name = name ∧ c'.Ahead follow later (.punct .semicolon :: rest) := by
        apply Gives.kind_bind
        rw [h1.kind_eq]
        exact Gives.advance h1 (by simp) fun _ c2 h2 => .pure ⟨rfl, h2⟩
      have hImports : Gives (fun _ => False) c (parseImports fuel) fun decls c' =>
          decls.map (·.name) = [name] ∧ c'.Ahead follow later (.punct .semicolon :: rest) := by
        apply Gives.expectWord h
        intro _ c1 h1
        apply Gives.eatSign_false (by rw [h1.kind_eq]; simp)
        apply (hPath h1).bind
        rintro decl c2 ⟨rfl, h2⟩
        exact .pure ⟨rfl, h2⟩
      apply (hImports.within "import").bind
      rintro decls c1 ⟨hDecls, h1⟩
      exact .pure ⟨rfl, by simp [Header.path?, hDecls], h1⟩

/-- Headers are read in any order and number. -/
theorem parseDecls_headers {before : List TokenKind} (headers : List Header)
    (hEnd : follow.kind = .eof) (hBefore : before = [] ∨ before = [.punct .semicolon])
    (hFuel : headers.length < fuel)
    (h : c.Ahead follow later (before ++ headers.flatMap Header.kinds)) :
    Gives (fun _ => False) c (parseDecls fuel file) fun file' _ =>
      file'.package = (headers.filterMap Header.package?).getLast?.or file.package ∧
        file'.imports.map (·.name) =
          file.imports.map (·.name) ++ headers.filterMap Header.path? := by
  induction headers generalizing c before fuel file with
  | nil =>
      obtain ⟨fuel, rfl⟩ := Nat.exists_eq_add_one.mpr hFuel
      rw [parseDecls]
      apply Gives.skipTerminators hBefore h (by simp [hEnd])
      intro c1 h1
      apply Gives.cursor_bind
      have hAtEnd : c1.atEnd = true := beq_iff_eq.mpr (h1.kind_eq.trans hEnd)
      rw [if_pos hAtEnd]
      exact .pure ⟨rfl, by simp⟩
  | cons header headers ih =>
      obtain ⟨fuel, rfl⟩ := Nat.exists_eq_add_one.mpr (Nat.zero_lt_of_lt hFuel)
      rw [List.flatMap_cons] at h
      have hFirst : ∃ word, (header.kinds ++ headers.flatMap Header.kinds).headD follow.kind =
          .keyword word := by
        cases header with
        | package name => exact ⟨_, rfl⟩
        | path name => exact ⟨_, rfl⟩
      obtain ⟨word, hWord⟩ := hFirst
      rw [parseDecls]
      apply Gives.skipTerminators hBefore h (by rw [hWord]; simp)
      intro c1 h1
      apply Gives.cursor_bind
      have hOn : c1.atEnd = false := by
        rw [Cursor.atEnd, Cursor.check, h1.kind_eq, hWord]
        rfl
      rw [hOn]
      apply (parseDecl_header header h1).bind
      rintro file' c2 ⟨hPackage, hImports, h2⟩
      apply Gives.expectTerminator h2.kind_eq
      apply Gives.checkSign_false (by rw [h2.kind_eq]; simp)
      apply (ih (.inr rfl) (Nat.lt_of_succ_lt_succ hFuel) h2).mono
      rintro file'' _ ⟨hLast, hPaths⟩
      refine ⟨?_, ?_⟩
      · rw [hLast, hPackage, List.filterMap_cons]
        cases header.package? with
        | none => rfl
        | some name => simp [List.getLast?_cons]
      · rw [hPaths, hImports, List.filterMap_cons]
        cases header.path? <;> simp

end Grammar

/-- Any number of headers in any order makes a source file. -/
theorem parseTokens_headers {tokens : List Token} (headers : List Header)
    (hTokens : tokens.map Token.kind = headers.flatMap Header.kinds ++ [.eof]) :
    ∃ file, parseTokens tokens = .ok file ∧
      file.package = (headers.filterMap Header.package?).getLast? ∧
      file.imports.map (·.name) = headers.filterMap Header.path? := by
  obtain ⟨written, lasts, rfl, hWritten, hLasts⟩ := List.map_eq_append_iff.mp hTokens
  obtain ⟨last, rfl, hLast⟩ := List.map_eq_singleton_iff.mp hLasts
  have hAhead : (Cursor.ofTokens (written ++ [last])).Ahead last []
      ([] ++ headers.flatMap Header.kinds) :=
    ⟨written, Cursor.ofTokens_tokens (by simp), hWritten⟩
  have hLength : headers.length ≤ written.length := by
    have hKinds := congrArg List.length hWritten
    simp only [List.length_map, List.length_flatMap, Header.length_kinds, List.map_const',
      List.sum_replicate_nat] at hKinds
    omega
  have hFuel : headers.length < Grammar.fuelFor (written ++ [last]) := by
    simp only [Grammar.fuelFor, List.length_append, List.length_singleton]
    omega
  have hReads : Grammar.Gives (fun _ => False) (Cursor.ofTokens (written ++ [last]))
      (Grammar.parseDecls (Grammar.fuelFor (written ++ [last])) SourceFile.empty) fun file _ =>
        file.package = (headers.filterMap Header.package?).getLast?.or none ∧
          file.imports.map (·.name) = [] ++ headers.filterMap Header.path? :=
    Grammar.parseDecls_headers headers hLast (.inl rfl) hFuel hAhead
  have hRun := hReads 0
  unfold parseTokens StateT.run
  cases hResult : Grammar.parseDecls (Grammar.fuelFor (written ++ [last])) SourceFile.empty
      ⟨Cursor.ofTokens (written ++ [last]), 0⟩ with
  | error failure =>
      rw [hResult] at hRun
      exact hRun.elim
  | ok found =>
      rw [hResult] at hRun
      rw [Option.or_none, List.nil_append] at hRun
      exact ⟨_, rfl, hRun⟩

/-! ## The top level -/

/-- A package clause stands before all other clauses, if there is one. -/
def Clause.PackageFirst (clauses : List Clause) : Prop :=
  ∀ clause ∈ clauses.tail, clause.package? = none

/-- A token list that is read is laid out in clauses, each ended by a line end, a semicolon or the
end of the file, and the file holds what they say, by kind and in their order. The package is that
of the last package clause. Where it stands and how many there are is not asked: package clauses and
imports in any order and number are a source file. -/
theorem top_level_clauses {tokens init : List Token} {last : Token}
    (hTokens : tokens = init ++ [last]) (hLast : last.kind = .eof) :
    (∀ file, parseTokens tokens = .ok file → ∃ clauses, TopLevel tokens clauses ∧
        file = { SourceFile.ofClauses clauses with exprCount := file.exprCount } ∧
        file.package = (clauses.filterMap Clause.package?).getLast?) ∧
    ∀ headers : List Header, tokens.map Token.kind = headers.flatMap Header.kinds ++ [.eof] →
      ∃ file, parseTokens tokens = .ok file ∧
        file.package = (headers.filterMap Header.package?).getLast? ∧
        file.imports.map (·.name) = headers.filterMap Header.path? := by
  refine ⟨fun file hFile => ?_, fun headers hHeaders => parseTokens_headers headers hHeaders⟩
  have hSome : tokens ≠ [] := by simp [hTokens]
  have hEnds := (Cursor.ofTokens_within hSome).ends hTokens hLast
  unfold parseTokens at hFile
  split at hFile
  · next decls after hRun =>
      cases hFile
      obtain ⟨read, -, clauses, hDecls, hLaid⟩ :=
        Grammar.parseDecls_takes _ _ _ hEnds 0 decls after hRun
      rw [Cursor.ofTokens_tokens hSome] at hLaid
      refine ⟨clauses, hLaid, by rw [SourceFile.ofClauses, ← hDecls], ?_⟩
      have hPackage := SourceFile.package_foldl clauses SourceFile.empty
      rwa [← hDecls, SourceFile.empty, Option.or_none] at hPackage
  · cases hFile

/-- Two package clauses, the second one behind an import. -/
def latePackageSource : String := "package a\nimport \"m\"\npackage b\n"

theorem top_level_clauses_late : (∃ clauses, TopLevel (lex latePackageSource) clauses ∧
      (clauses.filterMap Clause.package?).getLast? = some "b") := by
  have hTokens :
      lex latePackageSource = (lex latePackageSource).dropLast ++ [⟨.eof, ⟨31, 31⟩⟩] := by
    decide +kernel
  have hPackage : (parse latePackageSource).toOption.map (·.package) = some (some "b") := by
    decide +kernel
  cases hFile : parse latePackageSource with
  | error failure =>
      rw [hFile] at hPackage
      cases hPackage
  | ok file =>
      rw [hFile] at hPackage
      obtain ⟨clauses, hLaid, -, hLast⟩ := (top_level_clauses hTokens rfl).1 file hFile
      exact ⟨clauses, hLaid, hLast.symm.trans (Option.some.inj hPackage)⟩

/-- A file with a package clause behind another clause is read. -/
theorem top_level_package_behind : (parse latePackageSource).toOption.isSome = true ∧
      TopLevel (lex latePackageSource) [.package "a", .imports [⟨"m", ⟨17, 20⟩⟩], .package "b"] ∧
      ¬ Clause.PackageFirst [.package "a", .imports [⟨"m", ⟨17, 20⟩⟩], .package "b"] := by
  have hLex : lex latePackageSource =
      [⟨.keyword .package, ⟨0, 7⟩⟩, ⟨.ident "a", ⟨8, 9⟩⟩] ++ ⟨.newline, ⟨9, 10⟩⟩ ::
      [⟨.keyword .import, ⟨10, 16⟩⟩, ⟨.str "m", ⟨17, 20⟩⟩] ++ ⟨.newline, ⟨20, 21⟩⟩ ::
      [⟨.keyword .package, ⟨21, 28⟩⟩, ⟨.ident "b", ⟨29, 30⟩⟩] ++ ⟨.newline, ⟨30, 31⟩⟩ ::
      [⟨.eof, ⟨31, 31⟩⟩] := by decide +kernel
  have hEnd : TopLevel ([⟨.newline, ⟨30, 31⟩⟩] ++ [⟨.eof, ⟨31, 31⟩⟩]) [] := .done (by decide) rfl
  have hSecond : TopLevel ([⟨.newline, ⟨20, 21⟩⟩] ++
      ([⟨.keyword .package, ⟨21, 28⟩⟩, ⟨.ident "b", ⟨29, 30⟩⟩] ++ _)) [.package "b"] :=
    .clause (by decide) ⟨⟨_, rfl, rfl⟩, by decide, rfl⟩ rfl hEnd
  have hImport : TopLevel ([⟨.newline, ⟨9, 10⟩⟩] ++
      ([⟨.keyword .import, ⟨10, 16⟩⟩, ⟨.str "m", ⟨17, 20⟩⟩] ++ _))
        [.imports [⟨"m", ⟨17, 20⟩⟩], _] :=
    .clause (by decide) ⟨⟨_, rfl, rfl⟩, by decide, rfl⟩ rfl hSecond
  have hFirst : TopLevel ([] ++ ([⟨.keyword .package, ⟨0, 7⟩⟩, ⟨.ident "a", ⟨8, 9⟩⟩] ++ _))
      [.package "a", _, _] :=
    .clause (by decide) ⟨⟨_, rfl, rfl⟩, by decide, rfl⟩ rfl hImport
  refine ⟨by decide +kernel, ?_, by simp [Clause.PackageFirst, Clause.package?]⟩
  rw [hLex]
  exact hFirst

end GoToC
