import GoToC.Proofs.Session.Faults

/-!
# The variables of written routines

Every variable of a routine that was written has an origin of its own. Two of them have the
same C name only where a source variable of the function is spelled like the name that another
one was given because its plain name was taken.
-/

namespace GoToC

variable {vars : String → Prop} {routine : Routine}

/-- The names of the variables of a function or method. -/
def CItem.funcLocals? : CItem → Option (List String)
  | .routine (.func _) locals _ => some (locals.map (·.name))
  | _ => none

/-- The variables of a routine are named by origins that are all different. -/
structure LocalName.Names (vars : String → Prop) (origins : List LocalName) (names : List String) :
    Prop where
  texts : names = origins.map text
  distinct : origins.Nodup
  declared : ∀ origin ∈ origins, ∀ x ∈ origin.variableOf?, vars x

/-- Names are different if no source variable is spelled like the new name of another. -/
theorem LocalName.Names.nodup {origins : List LocalName} {names : List String}
    (h : Names vars origins names) (hVars : ∀ x serial, vars x → ¬ vars (imitation x serial)) :
    names.Nodup := by
  rw [h.texts, nodup_text_iff h.distinct]
  rintro (x | ⟨x, serial⟩ | serial | ⟨serial, index⟩) ha (y | ⟨y, _⟩ | _ | ⟨_, _⟩) hb hImitates
  case renamed.source =>
    refine hVars x serial (h.declared _ ha x rfl) ?_
    rw [← hImitates]
    exact h.declared _ hb y rfl
  all_goals exact hImitates.elim

theorem Routine.Named.exists_names (h : routine.Named vars) :
    ∃ origins, LocalName.Names vars origins (routine.locals.toList.map (·.name)) := by
  obtain ⟨origins, hNamed⟩ := h
  exact ⟨origins, hNamed.names, hNamed.distinct, hNamed.declared⟩

/-- Initializers declare no source variables. -/
theorem InitRun.advances {sources : Sources} {file : SourceFile} {decls : List VarDecl}
    {after : Routine} (h : InitRun sources file decls routine after) :
    routine.Advances (fun _ => False) after := by
  induction h with
  | done => exact .refl _ _
  | skip _ _ ih => exact ih
  | set _ _ hValue _ _ _ ih =>
      refine (((value_composed .nested _).advances hValue).trans ?_).trans ih
      exact .of_same rfl (Nat.le_refl _) (Nat.le_refl _)

/-- The output of a declared function is the one that its type names. -/
theorem FuncType.NamedLike.output {func : FuncType Ty} {decl : FuncDecl} (h : func.NamedLike decl)
    {output : Member Ty} (hOutput : func.outputs = [output]) : output.name ∈ decl.variables := by
  have hNames := h.outputs
  rw [hOutput] at hNames
  unfold FuncDecl.variables
  split
  · next declared hDeclared =>
      have hName : output.name = declared.name := by simpa [hDeclared] using hNames
      rw [hName]
      exact List.mem_append_left _ List.mem_cons_self
  · next hOther =>
      obtain ⟨declared, hDeclared, -⟩ := List.map_eq_singleton_iff.mp hNames.symm
      exact absurd hDeclared (hOther declared)

/-- A declaration is written as a function of a prototype: its body is compiled for the type that
the prototype is written for, with variables of the given names. -/
def FuncDecl.WrittenAs (decl : FuncDecl) (func : FuncType Ty) (stmts : List Stmt)
    (prototype : Prototype) (names : List String) (body : List CStmt) : Prop :=
  ∃ cName env supply after, env.program.types.prototype func cName = .ok prototype ∧
    (compileBody func stmts decl.span).exec env (.start supply) = (.ok (), after) ∧
    names = after.locals.toList.map (·.name) ∧ body = after.body.toList

/-- What is known of the names of the variables under a heading. -/
def Heading.TellsApart (modules : List (String × String)) (text : String) (names : List String) :
    Heading → Prop
  | .init _ => names.Nodup
  | .func prototype => ∃ package source file decl func stmts body origins,
      (package, source) ∈ (SessionM.mainName, text) :: modules ∧ parse source = .ok file ∧
      (decl ∈ file.funcs ∨ decl ∈ file.methods) ∧ decl.body = some stmts ∧
      func.NamedLike decl ∧ decl.WrittenAs func stmts prototype names body ∧
      LocalName.Names (· ∈ decl.variables) origins names ∧
      (names.Nodup ↔ ∀ a ∈ origins, ∀ b ∈ origins, ¬ a.Imitates b) ∧
      ((∀ x serial, x ∈ decl.variables → LocalName.imitation x serial ∉ decl.variables) →
        names.Nodup)

/-- In the output of a program, the variables of the initializers of a module have different
names. Those of a function or method have different origins, and their names are different too
exactly if none of its source variables imitates the new name of another; they are if no two of
the variables that it declares are spelled that way. -/
theorem localNames_distinct {modules : List (String × String)} {withBuiltin : Bool} {text : String}
    {session : Session}
    (hRun : (SessionM.compileProgram (.ofList modules) withBuiltin text).exec Session.empty =
      (.ok (), session))
    {heading : Heading} {locals : List CLocal} {body : List CStmt}
    (hItem : .routine heading locals body ∈ session.output.toList) :
    heading.TellsApart modules text (locals.map (·.name)) := by
  have hAccounts := compileProgram_accounts hRun hItem
  cases heading with
  | func prototype =>
      obtain ⟨package, file, decl, stmts, func, cName, env, supply, after,
        ⟨source, hSource, hParse⟩,
        hDecl, hBody, hLike, -, hPrototype, hCompiled, rfl, rfl⟩ := hAccounts
      have hAdvances : (Routine.start supply).Advances (· ∈ decl.variables) after := by
        refine compileBody_advances (fun output hOutput => hLike.output hOutput) ?_ hCompiled
        intro x hx
        refine List.mem_append_right _ ?_
        rw [hBody]
        exact hx
      obtain ⟨origins, hNames⟩ := (hAdvances.named (.start _ supply)).exists_names
      refine ⟨package, source, file, decl, func, stmts, _, origins, hSource, hParse, hDecl, hBody,
        hLike, ⟨cName, env, supply, after, hPrototype, hCompiled, rfl, rfl⟩, hNames, ?_,
          hNames.nodup⟩
      rw [hNames.texts]
      exact LocalName.nodup_text_iff hNames.distinct
  | init package =>
      obtain ⟨file, supply, after, -, hInit, rfl, rfl⟩ := hAccounts
      obtain ⟨origins, hNames⟩ := (hInit.advances.named (.start _ supply)).exists_names
      exact hNames.nodup fun _ _ hFalse => hFalse.elim

/-- The session that the program of one source is compiled in, and whether it is complete. -/
def runOf (source : String) : Bool × Session :=
  match (SessionM.compileProgram (.ofList []) false source).exec Session.empty with
  | (.ok (), session) => (true, session)
  | (.error _, session) => (false, session)

theorem runOf_complete {source : String} (h : (runOf source).1 = true) :
    (SessionM.compileProgram (.ofList []) false source).exec Session.empty =
      (.ok (), (runOf source).2) := by
  unfold runOf at h ⊢
  split
  · next session hRun => exact hRun
  · next failure session hRun =>
      rw [hRun] at h
      cases h

/-- The same for the characters of a source. -/
def runOfChars (chars : List Char) : Bool × Session :=
  match (SessionM.compileProgramChars (.ofList []) false chars).exec Session.empty with
  | (.ok (), session) => (true, session)
  | (.error _, session) => (false, session)

theorem runOf_of_toList {source : String} {chars : List Char} (h : source.toList = chars) :
    runOf source = runOfChars chars := by
  unfold runOf runOfChars
  rw [SessionM.compileProgram_of_toList h]

/-- A function in which nothing imitates a new name. -/
def shadowedSource : String := "func f() \x7b\n x := 1\n \x7b\n  x := 2\n \x7d\n\x7d\n"

theorem localNames_distinct_shadowed :
    ∃ heading locals body, .routine heading locals body ∈ (runOf shadowedSource).2.output.toList ∧
      locals.map (·.name) = ["v_x", "v_x_1"] ∧
      heading.TellsApart [] shadowedSource (locals.map (·.name)) := by
  have hRan : (runOf shadowedSource).1 = true ∧ ["v_x", "v_x_1"] ∈
      (runOf shadowedSource).2.output.toList.filterMap CItem.funcLocals? := by
    rw [@runOf_of_toList shadowedSource _ String.toList_ofList]
    decide +kernel
  obtain ⟨hDone, hNames⟩ := hRan
  have hRun := runOf_complete hDone
  obtain ⟨item, hItem, hLocals⟩ := List.mem_filterMap.mp hNames
  unfold CItem.funcLocals? at hLocals
  split at hLocals
  · next prototype locals body =>
      exact ⟨.func prototype, locals, body, hItem, Option.some.inj hLocals,
        localNames_distinct hRun hItem⟩
  · cases hLocals

/-- The same with one more variable, which is spelled like the new name of the inner one. -/
def imitatedSource : String :=
  "func f() \x7b\n x := 1\n x_1 := 2\n \x7b\n  x := 3\n \x7d\n\x7d\n"

theorem localNames_imitated : (runOf imitatedSource).1 = true ∧
      (runOf imitatedSource).2.output.toList.filterMap CItem.funcLocals? =
        [["v_x", "v_x_1", "v_x_1"]] := by
  rw [@runOf_of_toList imitatedSource _ String.toList_ofList]
  decide +kernel

end GoToC
