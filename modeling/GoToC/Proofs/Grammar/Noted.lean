import GoToC.Grammar.File
import GoToC.Proofs.Tree.Inside

/-!
# Reading with notes

The rules for statements once more, with notes beside what they give: every statement is noted as
soon as it is read to its end, so those inside of it are noted before, and the statements of a
default are noted as replaced when the same switch has another default. Without the notes, what is
read is what the rules of the grammar read.
-/

namespace GoToC

variable {α : Type}

namespace Grammar

/-- What is noted while statements are read. -/
structure Notes where
  /-- The statements that were read, in the order in which they ended. -/
  made : List Stmt
  /-- The statements of defaults in whose place others were put. -/
  replaced : List (List Stmt)

namespace Notes

def none : Notes := ⟨[], []⟩

/-- The notes of what was read first and then. -/
def append (notes more : Notes) : Notes :=
  ⟨notes.made ++ more.made, notes.replaced ++ more.replaced⟩

instance : Append Notes := ⟨append⟩

/-- A statement was read to its end. -/
def add (notes : Notes) (stmt : Stmt) : Notes := { notes with made := notes.made ++ [stmt] }

/-- Another default takes the place of that of the switch, if there was one. -/
def replace (notes : Notes) (fallback : Option (List Stmt)) : Notes :=
  { notes with replaced := notes.replaced ++ fallback.toList }

end Notes

mutual

def noteBlock : Nat → Parser (List Stmt × Notes)
  | 0 => exhausted
  | fuel + 1 => do
      let _ ← expectSign .lbrace
      let body ← noteStmts fuel [.punct .rbrace]
      let _ ← expectSign .rbrace
      return body

def noteStmts : Nat → List TokenKind → Parser (List Stmt × Notes)
  | 0, _ => exhausted
  | fuel + 1, ends => do
      skipTerminators
      let found ← kind
      if ends.contains found then return ([], .none)
      if found == .eof then unexpected (.token "`\x7d`")
      let first ← noteStmt fuel
      expectTerminator
      let others ← noteStmts fuel ends
      return (first.1 :: others.1, first.2 ++ others.2)

/-- All but conditionals, loops, switches and blocks are read as they are: nothing is inside. -/
def noteStmt : Nat → Parser (Stmt × Notes)
  | 0 => exhausted
  | fuel + 1 => do
      let start ← span
      match ← kind with
      | .keyword .if => noteIf fuel
      | .keyword .for =>
          let loop ← noteFor fuel
          let stmt := loop.1 (start.merge (← previousSpan))
          return (stmt, loop.2.add stmt)
      | .keyword .switch =>
          let choice ← noteSwitch fuel
          let stmt := choice.1 (start.merge (← previousSpan))
          return (stmt, choice.2.add stmt)
      | .punct .lbrace =>
          let body ← noteBlock fuel
          let stmt := Stmt.block (start.merge (← previousSpan)) body.1
          return (stmt, body.2.add stmt)
      | _ =>
          let stmt ← parseStmt (fuel + 1)
          return (stmt, Notes.none.add stmt)

def noteIf : Nat → Parser (Stmt × Notes)
  | 0 => exhausted
  | fuel + 1 => do
      let start ← expectWord .if
      let cond ← parseExpr fuel
      let thenBody ← noteBlock fuel
      let elseBody ← noteElse fuel
      let stmt := Stmt.ifElse (start.merge (← previousSpan)) cond thenBody.1 elseBody.1
      return (stmt, (thenBody.2 ++ elseBody.2).add stmt)

def noteElse : Nat → Parser (Option (List Stmt) × Notes)
  | 0 => exhausted
  | fuel + 1 => do
      if ← check (.keyword .else) then
        let _ ← advance
        if ← check (.keyword .if) then
          let nested ← noteIf fuel
          return (some [nested.1], nested.2)
        else
          let body ← noteBlock fuel
          return (some body.1, body.2)
      else return (none, .none)

def noteFor : Nat → Parser ((Span → Stmt) × Notes)
  | 0 => exhausted
  | fuel + 1 => do
      let _ ← expectWord .for
      if atRange (← cursor) then
        let names ← parseRangeNames
        let _ ← expectWord .range
        let collection ← parseExpr fuel
        let body ← noteBlock fuel
        return (fun whole => .rangeLoop whole names.1 names.2 collection body.1, body.2)
      if ← checkSign .lbrace then
        let body ← noteBlock fuel
        return (fun whole => .whileLoop whole none body.1, body.2)
      if ← checkSign .semicolon then
        noteForClauses fuel none
      else
        let start ← span
        let simple ← parseSimple fuel
        if ← checkSign .lbrace then
          match simple.condition? with
          | none => unexpected (.token "`;`")
          | some cond =>
              let body ← noteBlock fuel
              return (fun whole => .whileLoop whole (some cond) body.1, body.2)
        else
          let stop ← previousSpan
          noteForClauses fuel (some (simple.toStmt (start.merge stop)))

/-- The first clause was read before and is noted here. -/
def noteForClauses : Nat → Option Stmt → Parser ((Span → Stmt) × Notes)
  | 0, _ => exhausted
  | fuel + 1, init => do
      let _ ← expectSign .semicolon
      let cond ← if ← checkSign .semicolon then pure none else some <$> parseExpr fuel
      let _ ← expectSign .semicolon
      let post ← if ← checkSign .lbrace then pure none else
          let start ← span
          let simple ← parseSimple fuel
          let stop ← previousSpan
          pure (some (simple.toStmt (start.merge stop)))
      let body ← noteBlock fuel
      return (fun whole => .forLoop whole init cond post body.1,
        ⟨init.toList ++ post.toList, []⟩ ++ body.2)

def noteSwitch : Nat → Parser ((Span → Stmt) × Notes)
  | 0 => exhausted
  | fuel + 1 => do
      let _ ← expectWord .switch
      let subject ← if ← checkSign .lbrace then pure none else some <$> parseExpr fuel
      let _ ← expectSign .lbrace
      let arms ← noteArms fuel none
      let _ ← expectSign .rbrace
      return (fun whole => .switch whole subject arms.1.cases arms.1.fallback, arms.2)

def noteArms : Nat → Option (List Stmt) → Parser (Arms × Notes)
  | 0, _ => exhausted
  | fuel + 1, fallback => do
      skipTerminators
      match ← kind with
      | .punct .rbrace => return (⟨[], fallback⟩, .none)
      | .keyword .case =>
          let start ← expectWord .case
          let tests ← parseExprs fuel
          let _ ← expectSign .colon
          let body ← noteStmts fuel armEnds
          let stop ← previousSpan
          let others ← noteArms fuel fallback
          return (⟨⟨tests, body.1, start.merge stop⟩ :: others.1.cases, others.1.fallback⟩,
            body.2 ++ others.2)
      | .keyword .default =>
          let _ ← advance
          let _ ← expectSign .colon
          let body ← noteStmts fuel armEnds
          let others ← noteArms fuel (some body.1)
          return (others.1, body.2.replace fallback ++ others.2)
      | _ => unexpected (.token "`case`, `default` or `\x7d`")

end

def noteFunc (fuel : Nat) : Parser (FuncDecl × Notes) := do
  let start ← expectWord .func
  let receiver ← parseReceiver fuel
  let name ← expectIdent
  let signature ← within "function signature" (parseSignature fuel)
  let body ← if ← checkSign .lbrace then
      let body ← noteBlock fuel
      pure (some body.1, body.2)
    else pure (none, .none)
  return (⟨receiver, name.1, signature, body.1, start.merge (← previousSpan)⟩, body.2)

/-- Only functions and methods hold statements. -/
def noteDecl (fuel : Nat) (file : SourceFile) : Parser (SourceFile × Notes) := do
  match ← kind with
  | .keyword .func =>
      let decl ← within "function declaration" (noteFunc fuel)
      return (addFunc file decl.1, decl.2)
  | _ =>
      let file ← parseDecl fuel file
      return (file, .none)

def noteDecls : Nat → SourceFile → Parser (SourceFile × Notes)
  | 0, _ => exhausted
  | fuel + 1, file => do
      skipTerminators
      if (← cursor).atEnd then return (file, .none)
      let first ← noteDecl fuel file
      expectTerminator
      if ← checkSign .rbrace then unexpected (.thing "declaration")
      let others ← noteDecls fuel first.1
      return (others.1, first.2 ++ others.2)

end Grammar

/-- Reads a source text as a source file, with notes on its statements. -/
def noteSource (source : String) : Except Grammar.Failure (SourceFile × Grammar.Notes) :=
  match (Grammar.noteDecls (Grammar.fuelFor (lex source)) SourceFile.empty).run
      ⟨Cursor.ofTokens (lex source), 0⟩ with
  | .ok ((file, notes), state) => .ok ({ file with exprCount := state.exprCount }, notes)
  | .error failure => .error failure

namespace Grammar

/-! ## Without the notes -/

theorem span_bind_apply (next : Span → Parser α) (state : State) :
    (span >>= next) state = next state.cursor.span state := rfl

theorem kind_bind_apply (next : TokenKind → Parser α) (state : State) :
    (kind >>= next) state = next state.cursor.kind state := rfl

mutual

theorem noteBlock_fst : (fuel : Nat) → Prod.fst <$> noteBlock fuel = parseBlock fuel
  | 0 => rfl
  | fuel + 1 => by
      simp only [noteBlock, parseBlock, ← noteStmts_fst fuel, map_bind, bind_map_left, map_pure]

theorem noteStmts_fst : (fuel : Nat) → (ends : List TokenKind) →
    Prod.fst <$> noteStmts fuel ends = parseStmts fuel ends
  | 0, _ => rfl
  | fuel + 1, ends => by
      simp only [noteStmts, parseStmts, ← noteStmts_fst fuel, ← noteStmt_fst fuel, map_bind,
        bind_map_left, map_pure, apply_ite (Prod.fst <$> ·)]

theorem noteStmt_fst : (fuel : Nat) → Prod.fst <$> noteStmt fuel = parseStmt fuel
  | 0 => rfl
  | fuel + 1 => by
      funext state
      rw [noteStmt, map_bind, span_bind_apply, map_bind, kind_bind_apply]
      split
      · next hKind =>
          rw [noteIf_fst fuel, parseStmt, span_bind_apply, kind_bind_apply, hKind]
      · next hKind =>
          rw [parseStmt, span_bind_apply, kind_bind_apply, hKind, ← noteFor_fst fuel]
          simp only [map_bind, bind_map_left, map_pure, bind_assoc, pure_bind]
      · next hKind =>
          rw [parseStmt, span_bind_apply, kind_bind_apply, hKind, ← noteSwitch_fst fuel]
          simp only [map_bind, bind_map_left, map_pure, bind_assoc, pure_bind]
      · next hKind =>
          rw [parseStmt, span_bind_apply, kind_bind_apply, hKind, ← noteBlock_fst fuel]
          simp only [map_bind, bind_map_left, map_pure, bind_assoc, pure_bind]
      · simp only [map_bind, map_pure, bind_pure]

theorem noteIf_fst : (fuel : Nat) → Prod.fst <$> noteIf fuel = parseIf fuel
  | 0 => rfl
  | fuel + 1 => by
      simp only [noteIf, parseIf, ← noteBlock_fst fuel, ← noteElse_fst fuel, map_bind,
        bind_map_left, map_pure]

theorem noteElse_fst : (fuel : Nat) → Prod.fst <$> noteElse fuel = parseElse fuel
  | 0 => rfl
  | fuel + 1 => by
      simp only [noteElse, parseElse, ← noteBlock_fst fuel, ← noteIf_fst fuel, map_bind,
        bind_map_left, map_pure, apply_ite (Prod.fst <$> ·)]

theorem noteFor_fst : (fuel : Nat) → Prod.fst <$> noteFor fuel = parseFor fuel
  | 0 => rfl
  | fuel + 1 => by
      simp only [noteFor, parseFor, ← noteBlock_fst fuel, ← noteForClauses_fst fuel, map_bind,
        bind_map_left, map_pure, apply_ite (Prod.fst <$> ·)]
      refine bind_congr fun _ => bind_congr fun _ => ite_congr rfl (fun _ => rfl) fun _ => ?_
      refine bind_congr fun _ => ite_congr rfl (fun _ => rfl) fun _ => ?_
      refine bind_congr fun _ => ite_congr rfl (fun _ => rfl) fun _ => ?_
      refine bind_congr fun _ => bind_congr fun simple => bind_congr fun _ => ?_
      refine ite_congr rfl (fun _ => ?_) fun _ => rfl
      cases simple.condition? with
      | none => rfl
      | some cond => simp only [map_bind, map_pure]

theorem noteForClauses_fst : (fuel : Nat) → (init : Option Stmt) →
    Prod.fst <$> noteForClauses fuel init = parseForClauses fuel init
  | 0, _ => rfl
  | fuel + 1, init => by
      simp only [noteForClauses, parseForClauses, ← noteBlock_fst fuel, map_bind,
        bind_map_left, map_pure, apply_ite (Prod.fst <$> ·)]

theorem noteSwitch_fst : (fuel : Nat) → Prod.fst <$> noteSwitch fuel = parseSwitch fuel
  | 0 => rfl
  | fuel + 1 => by
      simp only [noteSwitch, parseSwitch, ← noteArms_fst fuel, map_bind, bind_map_left, map_pure,
        apply_ite (Prod.fst <$> ·)]

theorem noteArms_fst : (fuel : Nat) → (fallback : Option (List Stmt)) →
    Prod.fst <$> noteArms fuel fallback = parseArms fuel fallback
  | 0, _ => rfl
  | fuel + 1, fallback => by
      simp only [noteArms, parseArms, ← noteArms_fst fuel, ← noteStmts_fst fuel, map_bind,
        bind_map_left]
      refine bind_congr fun _ => bind_congr fun found => ?_
      cases found with
      | punct sign => cases sign <;> rfl
      | keyword word =>
          cases word with
          | case => simp only [map_bind, map_pure]
          | default =>
              simp only [map_bind, map_pure]
              rfl
          | _ => rfl
      | _ => rfl

end

theorem map_apply {β : Type} (f : α → β) (parser : Parser α) (state : State) :
    (f <$> parser) state = (parser state).map fun found => (f found.1, found.2) := by
  rw [map_eq_pure_bind]
  show (parser state >>= fun found => .ok (f found.1, found.2)) = _
  cases parser state with
  | ok found => rfl
  | error failure => rfl

theorem within_fst (context : String) (parser : Parser (α × Notes)) :
    Prod.fst <$> within context parser = within context (Prod.fst <$> parser) := by
  funext state
  rw [map_apply]
  unfold within
  rw [map_apply]
  cases parser state with
  | ok found => rfl
  | error failure => cases failure <;> rfl

theorem noteFunc_fst (fuel : Nat) : Prod.fst <$> noteFunc fuel = parseFunc fuel := by
  simp only [noteFunc, parseFunc, ← noteBlock_fst fuel, map_bind, bind_map_left, map_pure,
    pure_bind, apply_ite (Prod.fst <$> ·)]

theorem noteDecl_fst (fuel : Nat) (file : SourceFile) :
    Prod.fst <$> noteDecl fuel file = parseDecl fuel file := by
  funext state
  rw [noteDecl, map_bind, kind_bind_apply]
  split
  · next hKind =>
      rw [parseDecl, kind_bind_apply, hKind, ← noteFunc_fst fuel]
      simp only [← within_fst, map_bind, bind_map_left, map_pure]
  · simp only [map_bind, map_pure, bind_pure]

theorem noteDecls_fst (fuel : Nat) (file : SourceFile) :
    Prod.fst <$> noteDecls fuel file = parseDecls fuel file := by
  induction fuel generalizing file with
  | zero => rfl
  | succ fuel ih =>
      simp only [noteDecls, parseDecls, ← ih, ← noteDecl_fst fuel, map_bind, bind_map_left,
        bind_pure_comp, Functor.map_map, map_pure, apply_ite (Prod.fst <$> ·)]

end Grammar

/-- Without the notes, a text is read as ever. -/
theorem noteSource_fst (source : String) : (noteSource source).map Prod.fst = parse source := by
  unfold noteSource parse parseTokens
  rw [← Grammar.noteDecls_fst, StateT.run, StateT.run, Grammar.map_apply]
  cases Grammar.noteDecls (Grammar.fuelFor (lex source)) SourceFile.empty
      ⟨Cursor.ofTokens (lex source), 0⟩ with
  | ok found => rfl
  | error failure => rfl

end GoToC
