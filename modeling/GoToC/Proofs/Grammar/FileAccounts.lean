import GoToC.Proofs.Grammar.Accounts

/-!
# Statements of whole files

All statements that are read in the bodies of functions and methods are accounted for in the file:
they are found in it, once and in their places, but for those of a default that is not the last one
of its switch.
-/

namespace GoToC

variable {file : SourceFile}

open Grammar

/-- Statements stand one after another in the body of each function and method. -/
def SourceFile.InOrder (file : SourceFile) : Prop :=
  ∀ decl ∈ file.funcs ++ file.methods, ∀ body ∈ decl.body,
    body.Pairwise fun a b => a.span.Precedes b.span

theorem SourceFile.statements_addFunc (file : SourceFile) (decl : FuncDecl) :
    (addFunc file decl).statements.Perm (file.statements ++ decl.statements) := by
  unfold addFunc statements
  split
  · rw [← List.append_assoc, List.flatMap_append, List.flatMap_singleton]
  · simp only [List.flatMap_append, List.flatMap_singleton]
    exact Accounts.perm_swap _ _ _

theorem SourceFile.InOrder.addFunc {decl : FuncDecl} (h : file.InOrder)
    (hDecl : ∀ body ∈ decl.body, body.Pairwise fun a b => a.span.Precedes b.span) :
    (addFunc file decl).InOrder := by
  intro other hOther body hBody
  have hMem : other ∈ file.funcs ++ file.methods ∨ other = decl := by
    unfold Grammar.addFunc at hOther
    split at hOther <;> simp at hOther ⊢ <;> tauto
  rcases hMem with hMem | rfl
  · exact h other hMem body hBody
  · exact hDecl body hBody

namespace Grammar

variable {c : Cursor}

theorem noteFunc_accounts (fuel : Nat) : Leads c (noteFunc fuel) fun decl c' =>
    Accounts c c' [] decl.1.statements decl.2 ∧
      (∀ body ∈ decl.1.body, body.Pairwise fun a b => a.span.Precedes b.span) ∧
        decl.2.defaults + c'.defaults ≤ c.defaults := by
  apply (Leads.onto (Advances.expectWord .func)).bind
  intro start c1 hWord
  apply (Leads.onto (parseReceiver_advances fuel c1)).bind
  intro receiver c2 hReceiver
  apply (Leads.onto Advances.expectIdent).bind
  intro name c3 hName
  apply (Leads.onto (Advances.within _ (parseSignature_advances fuel c3))).bind
  intro signature c4 hSignature
  apply Leads.checkSign_bind
  split
  · apply (noteBlock_yields fuel c4).bind
    rintro body c5 ⟨c0, hInner, hBody⟩
    rw [pure_bind]
    have hCounts := hBody.counts
    refine .previousSpan_bind (.pure fun _ => ⟨?_, ?_, ?_⟩)
    · exact hBody.accounts.widen (by omega) (Nat.le_refl _)
    · rintro _ ⟨⟩
      exact hBody.laid.pairwise
    · dsimp only
      omega
  · simp only [pure_bind]
    refine .previousSpan_bind (.pure fun _ => ⟨.none [] (by omega), by simp, ?_⟩)
    have hNone : Notes.none.defaults = 0 := rfl
    dsimp only
    omega

/-- Declarations of other kinds leave functions and methods as they are. -/
theorem parseDecl_funcs (fuel : Nat) (file : SourceFile) (h : c.kind ≠ .keyword .func) :
    Gives (fun _ => True) c (parseDecl fuel file) fun file' _ =>
      file'.funcs = file.funcs ∧ file'.methods = file.methods := by
  apply Gives.kind_bind
  split
  · exact Gives.any.bind fun _ _ _ => .pure ⟨rfl, rfl⟩
  · exact Gives.any.bind fun _ _ _ => .pure ⟨rfl, rfl⟩
  · exact Gives.any.bind fun _ _ _ => .pure ⟨rfl, rfl⟩
  · exact Gives.any.bind fun _ _ _ => .pure ⟨rfl, rfl⟩
  · exact Gives.any.bind fun _ _ _ => .pure ⟨rfl, rfl⟩
  · next hKind => exact absurd hKind h
  · exact unexpected_gives

theorem noteDecl_accounts (fuel : Nat) (hFile : file.InOrder) :
    Leads c (noteDecl fuel file) fun found c' =>
      Accounts c c' file.statements found.1.statements found.2 ∧ found.1.InOrder ∧
        found.2.defaults + c'.defaults ≤ c.defaults := by
  apply Leads.kind_bind
  split
  · apply (Leads.within _ (noteFunc_accounts fuel)).bind
    rintro decl c1 ⟨hAccounts, hBody, hCounts⟩
    refine .pure fun _ => ⟨?_, hFile.addFunc hBody, hCounts⟩
    exact (hAccounts.beside file.statements).perm (.refl _)
      ((file.statements_addFunc decl.1).trans List.perm_append_comm)
  · next hKind =>
      apply ((Leads.onto (parseDecl_advances fuel file c)).and_gives
        (parseDecl_funcs fuel file hKind)).bind
      rintro file' c1 ⟨hOnto, hFuncs, hMethods⟩
      have hSame : file'.funcs ++ file'.methods = file.funcs ++ file.methods := by
        rw [hFuncs, hMethods]
      refine .pure fun _ => ⟨?_, fun decl hDecl => hFile decl (hSame ▸ hDecl), ?_⟩
      · have hStatements : file'.statements = file.statements := by
          rw [SourceFile.statements, hSame, SourceFile.statements]
        exact hStatements ▸ .none file.statements hOnto.1
      · have hNone : Notes.none.defaults = 0 := rfl
        dsimp only
        omega

theorem noteDecls_accounts (fuel : Nat) (hFile : file.InOrder) :
    Leads c (noteDecls fuel file) fun found c' =>
      Accounts c c' file.statements found.1.statements found.2 ∧ found.1.InOrder ∧
        found.2.defaults + c'.defaults ≤ c.defaults := by
  induction fuel generalizing file c with
  | zero => exact .exhausted
  | succ fuel ih =>
      rw [noteDecls]
      apply (Leads.onto Advances.skipTerminators).bind
      intro _ c1 hSkip
      apply Leads.cursor_bind
      split
      · refine .pure fun _ => ⟨.none _ hSkip.1, hFile, ?_⟩
        have hNone : Notes.none.defaults = 0 := rfl
        dsimp only
        omega
      · apply (noteDecl_accounts fuel hFile).bind
        rintro first c2 ⟨hFirst, hOrder, hCounts⟩
        apply (Leads.onto Advances.expectTerminator).bind
        intro _ c3 hEnd
        apply Leads.checkSign_bind
        apply Leads.stopIf
        apply (ih hOrder).bind
        rintro others c4 ⟨hOthers, hLast, hMore⟩
        refine .pure fun _ => ⟨(hFirst.widen hSkip.1 hEnd.1).trans hOthers, hLast, ?_⟩
        rw [Notes.defaults_append]
        omega

end Grammar

/-- No switch of a file has more than one default: the text has no more words for a default than
the file has switches with one. -/
def SourceFile.KeepsDefaults (source : String) (file : SourceFile) : Prop :=
  (lex source).countP Token.isDefault ≤ file.statements.countP (·.hasDefault)

/-- Whatever is read, the notes on it are those of a file that accounts for them. -/
theorem noteSource_accounts {source : String} {notes : Notes}
    (h : noteSource source = .ok (file, notes)) :
    (∃ c c', Accounts c c' [] file.statements notes) ∧ file.InOrder ∧
      notes.defaults ≤ (lex source).countP Token.isDefault := by
  have hOrdered := ofTokens_ordered source
  unfold noteSource at h
  split at h
  · next found count hRun =>
      cases h
      have hEmpty : SourceFile.empty.InOrder := fun decl hDecl => absurd hDecl List.not_mem_nil
      obtain ⟨-, hAccounts, hOrder, hCounts⟩ := noteDecls_accounts _ hEmpty hOrdered 0 _ _ hRun
      have hNone : SourceFile.empty.statements = [] := rfl
      rw [hNone] at hAccounts
      rw [Cursor.defaults, Cursor.defaults, Cursor.ofTokens_tokens (lex_ne_nil source)] at hCounts
      exact ⟨⟨_, _, hAccounts⟩, hOrder, (Nat.le_add_right _ _).trans hCounts⟩
  · cases h

/-- Of a text that is accepted, every statement that was read in a body is found in the file as
often as it was read, which is once, for no two statements start at one place, and in its place
among those of its list. Only those that were read in a default are not found when the switch has
another default behind it: of these none is left if the switches have a default each. -/
theorem statements_accounted {source : String} {file : SourceFile} (h : parse source = .ok file) :
    ∃ notes, noteSource source = .ok (file, notes) ∧
      (file.statements ++ notes.replaced.flatMap allOf).Perm notes.made ∧
      (notes.made.map (·.span.start)).Nodup ∧
      (∀ stmt ∈ file.statements, stmt.InOrder) ∧ file.InOrder ∧
      (file.KeepsDefaults source → notes.replaced = [] ∧ file.statements.Perm notes.made) := by
  rw [← noteSource_fst] at h
  cases hNotes : noteSource source with
  | error failure =>
      rw [hNotes] at h
      cases h
  | ok found =>
      rw [hNotes] at h
      cases h
      obtain ⟨⟨c, c', hAccounts⟩, hOrder, hDefaults⟩ := noteSource_accounts hNotes
      have hKept := hAccounts.kept
      rw [List.nil_append] at hKept
      have hFound : ∀ stmt ∈ found.1.statements, stmt ∈ found.2.made := fun stmt hStmt =>
        hKept.mem_iff.mp (List.mem_append_left _ hStmt)
      refine ⟨found.2, rfl, hKept, hAccounts.distinct,
        fun stmt hStmt => hAccounts.inOrder stmt (hFound stmt hStmt), hOrder, fun hKeeps => ?_⟩
      have hMade := hKept.countP_eq (·.hasDefault)
      rw [List.countP_append] at hMade
      have hNone : found.2.replaced = [] := by
        unfold SourceFile.KeepsDefaults at hKeeps
        unfold Notes.defaults at hDefaults
        exact List.length_eq_zero_iff.mp (by omega)
      rw [hNone, List.flatMap_nil, List.append_nil] at hKept
      exact ⟨hNone, hKept⟩

/-- A loop over a switch whose only default stands before a case. -/
def oneDefaultSource : String :=
  "func f() \x7b\n for \x7b\n  switch \x7b\n  default: a()\n  case b: c()\n  \x7d\n \x7d\n\x7d\n"

theorem statements_accounted_loop :
    ∃ file notes, parse oneDefaultSource = .ok file ∧ file.KeepsDefaults oneDefaultSource ∧
      noteSource oneDefaultSource = .ok (file, notes) ∧ file.statements.Perm notes.made ∧
      file.statements.map (·.span.start) = [12, 20, 54, 40] := by
  have hFile : (parse oneDefaultSource).toOption.map (fun file =>
      (file.statements.countP (·.hasDefault), file.statements.map (·.span.start))) =
        some (1, [12, 20, 54, 40]) := by decide +kernel
  have hTokens : (lex oneDefaultSource).countP Token.isDefault = 1 := by decide +kernel
  cases hParse : parse oneDefaultSource with
  | error failure =>
      rw [hParse] at hFile
      cases hFile
  | ok file =>
      rw [hParse] at hFile
      obtain ⟨hCount, hStarts⟩ := Prod.mk.inj (Option.some.inj hFile)
      obtain ⟨notes, hNotes, -, -, -, -, hKept⟩ := statements_accounted hParse
      have hKeeps : file.KeepsDefaults oneDefaultSource := by
        unfold SourceFile.KeepsDefaults
        rw [hTokens, hCount]
      exact ⟨file, notes, rfl, hKeeps, hNotes, (hKept hKeeps).2, hStarts⟩

/-- A switch with two defaults. -/
def twoDefaultsSource : String :=
  "func f() \x7b\n switch \x7b\n default: a()\n default: b()\n \x7d\n\x7d\n"

/-- A statement of the first of two defaults is read and is not found in the file. -/
theorem statements_lost_default : ∃ file notes, parse twoDefaultsSource = .ok file ∧
      noteSource twoDefaultsSource = .ok (file, notes) ∧
      ∃ stmt ∈ notes.made, stmt.span = ⟨31, 34⟩ ∧ stmt ∉ file.statements := by
  have hFound : (noteSource twoDefaultsSource).toOption.map (fun found =>
      (found.1.statements.map (·.span), found.2.made.map (·.span))) =
        some ([⟨12, 51⟩, ⟨45, 48⟩], [⟨31, 34⟩, ⟨45, 48⟩, ⟨12, 51⟩]) := by decide +kernel
  have hParse := noteSource_fst twoDefaultsSource
  cases hNotes : noteSource twoDefaultsSource with
  | error failure =>
      rw [hNotes] at hFound
      cases hFound
  | ok found =>
      rw [hNotes] at hFound hParse
      obtain ⟨hKept, hMade⟩ := Prod.mk.inj (Option.some.inj hFound)
      have hSpan : (⟨31, 34⟩ : Span) ∈ found.2.made.map (·.span) := by
        rw [hMade]
        decide
      obtain ⟨stmt, hStmt, hAt⟩ := List.mem_map.mp hSpan
      refine ⟨found.1, found.2, hParse.symm, rfl, stmt, hStmt, hAt, fun hMem => ?_⟩
      have hLost : (⟨31, 34⟩ : Span) ∈ found.1.statements.map (·.span) :=
        hAt ▸ List.mem_map_of_mem hMem
      rw [hKept] at hLost
      revert hLost
      decide

end GoToC
