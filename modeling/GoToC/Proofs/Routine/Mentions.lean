import GoToC.Proofs.Routine.SpelledStmt

/-!
# Globals that a routine mentions

A fragment mentions variables and functions of the program by their C names. It gets them from
the values of globals and from the methods of structs, and from nowhere else: whatever holds of
all names that are found there holds of all names in the statements of a routine.
-/

namespace GoToC

variable {routine : Routine}

variable {names : String → Prop}

/-- A program whose values mention given names only and whose methods go by such names. -/
structure Program.Speaks (names : String → Prop) (program : Program) : Prop where
  values : ∀ id module, program.module? id = some module → ∀ global ∈ module.globals, ∀ e,
    global.value = some (.expr e) → e.c.Speaks names
  methods : ∀ entry ∈ program.types.methods, names (entry.1.cName ++ "__" ++ entry.2.name)

/-- A routine that mentions given names only, in what it binds and in what it has written. -/
structure Routine.Speaks (names : String → Prop) (routine : Routine) : Prop where
  scopes : ∀ scope ∈ routine.scopes, ∀ entry ∈ scope, entry.2.c.Speaks names
  body : ∀ stmt ∈ routine.body.toList, stmt.Speaks names

/-- Any name of a routine will do. -/
theorem CExpr.worded_speaking {e : CExpr} : e.Worded (.speaking names) ↔ e.Speaks names :=
  e.spelled_speaking.trans (and_iff_right fun _ _ => False.elim)

theorem CStmt.worded_speaking {stmt : CStmt} : stmt.Worded (.speaking names) ↔ stmt.Speaks names :=
  stmt.spelled_speaking.trans (and_iff_right fun _ _ => False.elim)

theorem Program.Speaks.spelled {program : Program} (h : program.Speaks names) :
    program.Spelled (.speaking names) (Diction.speaking names).words where
  values id name global hGlobal value hValue := by
    obtain ⟨module, hModule, hGet⟩ := Option.bind_eq_some_iff.mp hGlobal
    have hMem := List.mem_of_find?_eq_some hGet
    cases value with
    | expr e =>
        exact ⟨CExpr.worded_speaking.mpr (h.values id module hModule global hMem e hValue),
          False.elim⟩
    | type denoted => exact False.elim
    | module id => trivial
  methods := h.methods
  types := False.elim

theorem Routine.spelled_speaking :
    routine.Spelled (.speaking names) (Diction.speaking names).words ↔ routine.Speaks names where
  mp h := by
    refine ⟨fun scope hScope entry hEntry => ?_, fun stmt hStmt => ?_⟩
    · exact (entry.2.c.spelled_speaking.mp (h.scopes scope hScope entry hEntry).c).2
    · exact CStmt.worded_speaking.mp (CStmt.spelledAll_iff.mp h.worded_body stmt hStmt)
  mpr h := by
    refine ⟨fun scope hScope entry hEntry => ⟨?_, False.elim⟩, False.elim, False.elim, ?_⟩
    · exact (CExpr.worded_speaking.mpr (h.scopes scope hScope entry hEntry)).mono
        Set.subset_union_left
    · exact CStmt.spelledAll_iff.mpr fun stmt hStmt =>
        (CStmt.worded_speaking.mpr (h.body stmt hStmt)).mono Set.subset_union_left

namespace Spells

theorem speaking (e : Expr) : OfOperand (.wording (.speaking names)) (operand e) :=
  compileExpr_spells (fun _ h => h) e False.elim

/-- A run mentions no other names than the program and the blocks around it. -/
theorem speaks {α : Type} {action : RoutineM α} {good : Set OwnName → α → Prop} {env : Env}
    {after : Routine} {value : α}
    (h : Spells (.wording (.speaking names)) (Diction.speaking names).words action good)
    (hProgram : env.program.Speaks names) (hRoutine : routine.Speaks names)
    (hRun : action.exec env routine = (.ok value, after)) :
    good (Diction.speaking names).words value ∧ after.Speaks names := by
  have hEnv : env.Spelled (.speaking names) (Diction.speaking names).words :=
    ⟨hProgram.spelled, False.elim, fun _ _ => False.elim, fun _ _ => False.elim,
      fun _ _ _ _ _ => False.elim⟩
  obtain ⟨hGood, hAfter⟩ := h.words hEnv (Routine.spelled_speaking.mpr hRoutine) hRun
  exact ⟨hGood, Routine.spelled_speaking.mp hAfter⟩

end Spells

end GoToC
