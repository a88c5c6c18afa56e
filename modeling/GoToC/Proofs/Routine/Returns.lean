import GoToC.Proofs.C.Evaluation
import GoToC.Proofs.Routine.ScopedStmt
import GoToC.Proofs.Session.Faults

/-!
# Returns of several values

A return in a function with several outputs sets them one after another through their pointers,
and an output with a name is read through the same pointer. The outputs come to hold what the
returned fragments stood for before the first of them was set, just if no fragment reads an
output that was set to something else before it; values that come from one call never do.
-/

namespace GoToC

variable {values : List Typed} {sources : List Expr} {source : Expr}

variable {env : Env} {routine after : Routine} {func : FuncType Ty} {span : Span}

theorem CExpr.reads_converted (e : CExpr) (conversion : Conversion) :
    (conversion.apply e).reads = e.reads := by
  cases conversion <;> simp [Conversion.apply, CExpr.reads]

theorem TypeStore.Converts.reads_eq {store : TypeStore} {dest : Ty} {value : Typed} {c : CExpr}
    (h : store.Converts dest value c) : c.reads = value.c.reads := by
  unfold TypeStore.Converts at h
  split at h
  · rw [h.1]
  · obtain ⟨conversion, -, rfl⟩ := h
    exact CExpr.reads_converted value.c conversion
  · exact h.elim

/-- Values that are handed back through output pointers, from the output of an index on: each is
converted to the type of its output. -/
structure HandsBack (store : TypeStore) (func : FuncType Ty) (index : Nat)
    (outputs : List (Member Ty)) (values : List Typed) (results : List (String × CExpr)) :
    Prop where
  names : results.map (·.1) = (List.range' index outputs.length).map func.outputName
  converts : List.Forall₂ (fun (pair : Member Ty × Typed) result =>
    store.Converts pair.1.type pair.2 result.2) (outputs.zip values) results

namespace StmtRule

theorem setResults_ok {index : Nat} {outputs : List (Member Ty)}
    (hLength : values.length = outputs.length)
    (hRun : (setResults func span index outputs values).exec env routine = (.ok (), after)) :
    ∃ results, HandsBack env.program.types func index outputs values results ∧
      after.body.toList = routine.body.toList ++ resultStmts results := by
  induction outputs generalizing index values routine with
  | nil =>
      rw [setResults] at hRun
      · cases hRun
        exact ⟨[], ⟨rfl, .nil⟩, by simp [resultStmts]⟩
      · simp
  | cons output outputs ih =>
      cases values with
      | nil => cases hLength
      | cons value values =>
          rw [setResults] at hRun
          obtain ⟨c, converted, hConvert, hEmitted⟩ := RoutineM.bind_eq_ok.mp hRun
          obtain ⟨hConverts, hSame⟩ := convert_ok hConvert
          subst hSame
          obtain ⟨_, emitted, hEmit, hRest⟩ := RoutineM.bind_eq_ok.mp hEmitted
          cases hEmit
          obtain ⟨results, hBack, hBody⟩ := ih (Nat.succ.inj hLength) hRest
          refine ⟨(func.outputName index, c) :: results, ⟨?_, .cons hConverts hBack.converts⟩, ?_⟩
          · rw [List.map_cons, hBack.names, List.length_cons, List.range'_succ, List.map_cons]
          · rw [hBody]
            simp [resultStmts]

/-- What a return through output pointers writes. -/
theorem returnThrough_ok (hLength : values.length = func.outputs.length)
    (hRun : (returnThrough func values span).exec env routine = (.ok (), after)) :
    ∃ results, HandsBack env.program.types func 0 func.outputs values results ∧
      after.body.toList = routine.body.toList ++ resultStmts results ++ [.ret none] := by
  obtain ⟨_, middle, hSet, hRun⟩ := RoutineM.bind_eq_ok.mp hRun
  obtain ⟨results, hBack, hBody⟩ := setResults_ok hLength hSet
  cases hRun
  exact ⟨results, hBack, by simp [hBody]⟩

end StmtRule

namespace HandsBack

variable {store : TypeStore} {index : Nat} {outputs : List (Member Ty)} {values : List Typed}
  {results : List (String × CExpr)}

theorem length_eq (h : HandsBack store func index outputs values results) :
    results.length = outputs.length := by
  simpa using congrArg List.length h.names

/-- Handing back a value reads the outputs that the value does. -/
theorem reads_eq (h : HandsBack store func index outputs values results)
    (hLength : values.length = outputs.length) :
    results.map (·.2.reads) = values.map (·.c.reads) := by
  have hConverted : List.Forall₂ (fun (pair : Member Ty × Typed) result =>
      result.2.reads = pair.2.c.reads) (outputs.zip values) results :=
    h.converts.imp fun _ _ hConverts => hConverts.reads_eq
  have hReads : List.Forall₂ Eq (results.map (·.2.reads))
      ((outputs.zip values).map (·.2.c.reads)) := by
    rw [List.forall₂_map_left_iff, List.forall₂_map_right_iff]
    exact hConverted.flip
  rw [List.forall₂_eq_eq_eq] at hReads
  calc results.map (·.2.reads)
    _ = ((outputs.zip values).map Prod.snd).map (·.c.reads) := by
        rw [hReads, List.map_map]
        rfl
    _ = values.map (·.c.reads) := by rw [List.map_snd_zip hLength.le]

/-- Values that read no output do not read one that was overwritten. -/
theorem noneOverwritten (h : HandsBack store func index outputs values results)
    (hLength : values.length = outputs.length) (hReads : ∀ value ∈ values, value.c.reads = []) :
    NoneOverwritten results := by
  have hNone : ∀ result ∈ results, result.2.reads = [] := by
    intro result hMem
    have hRead : result.2.reads ∈ values.map (·.c.reads) := by
      rw [← h.reads_eq hLength]
      exact List.mem_map_of_mem hMem
    obtain ⟨value, hValue, hSame⟩ := List.mem_map.mp hRead
    rw [← hSame, hReads value hValue]
  apply List.pairwise_of_forall_mem_list
  intro earlier _ later hLater
  left
  rw [hNone later hLater]
  exact List.not_mem_nil

end HandsBack

/-! ## Return statements -/

/-- The values that a return in a function with several outputs hands back, and the routine once
they are compiled: one value for each output, or the variables that one call was to fill. -/
inductive ReturnValues (env : Env) (func : FuncType Ty) (span : Span) (routine : Routine) :
    List Expr → List Typed → Routine → Prop
  | several {sources values middle} :
      sources.length ≠ 1 → values.length = func.outputs.length →
      (Operand.values (operands sources)).exec env routine = (.ok values, middle) →
      ReturnValues env func span routine sources values middle
  | call {source value call members first middle} :
      (compileExpr source).exec env routine = (.ok value, first) →
      (RoutineM.toExpr span value).exec env first = (.ok call, middle) →
      env.program.types.multi? call.type = .ok (some members) →
      members.length = func.outputs.length →
      ReturnValues env func span routine [source]
        (members.map fun m => ⟨.localVar m.name, m.type⟩) (middle.emitted (.eval call.c))

theorem ReturnValues.length_eq {middle : Routine}
    (h : ReturnValues env func span routine sources values middle) :
    values.length = func.outputs.length := by
  cases h with
  | several _ hLength _ => exact hLength
  | call _ _ _ hLength => rw [List.length_map, hLength]

namespace StmtRule

theorem returnOne_eq (value : Operand) (hSeveral : func.outputs.length ≠ 1) :
    returnOne func value span = returnSeveral func value span := by
  unfold returnOne
  split
  · next output hOutputs =>
      rw [hOutputs] at hSeveral
      exact absurd rfl hSeveral
  · rfl

theorem returnSeveral_ok
    (hRun : (returnSeveral func (operand source) span).exec env routine = (.ok (), after)) :
    ∃ values middle, ReturnValues env func span routine [source] values middle ∧
      (returnThrough func values span).exec env middle = (.ok (), after) := by
  unfold returnSeveral at hRun
  simp only [RoutineM.bind_eq_ok] at hRun
  obtain ⟨value, first, hCompile, call, middle, hCall, found, _, hAsked, hFound⟩ := hRun
  obtain ⟨hMulti, rfl⟩ := RoutineM.types_eq_ok.mp hAsked
  cases found with
  | none => cases hFound
  | some members =>
      by_cases hLength : members.length = func.outputs.length
      · simp only [hLength, ne_eq, not_true_eq_false, if_false] at hFound
        obtain ⟨_, emitted, hEmit, hReturn⟩ := RoutineM.bind_eq_ok.mp hFound
        cases hEmit
        exact ⟨_, _, .call hCompile hCall hMulti hLength, hReturn⟩
      · simp only [hLength, ne_eq, not_false_eq_true, if_true] at hFound
        cases hFound

theorem retMany_ok {first second : Expr} {rest : List Expr} (hFunc : env.func = some func)
    (hRun : (ret (operands (first :: second :: rest)) span).exec env routine = (.ok (), after)) :
    ∃ values middle, ReturnValues env func span routine (first :: second :: rest) values middle ∧
      (returnThrough func values span).exec env middle = (.ok (), after) := by
  obtain ⟨env', middle, hRead, hRun⟩ := RoutineM.bind_eq_ok.mp hRun
  cases hRead
  rw [hFunc] at hRun
  dsimp only [operands] at hRun
  split at hRun
  · cases hRun
  · next hCount =>
      obtain ⟨values, compiled, hValues, hReturn⟩ := RoutineM.bind_eq_ok.mp hRun
      have hLength : values.length = func.outputs.length := by
        rw [Operand.length_of_gives ⟨_, _, _, hValues⟩]
        exact not_not.mp hCount
      exact ⟨values, compiled, .several (by simp) hLength hValues, hReturn⟩

theorem retOne_ok (hFunc : env.func = some func)
    (hRun : (ret (operands [source]) span).exec env routine = (.ok (), after)) :
    (returnOne func (operand source) span).exec env routine = (.ok (), after) := by
  obtain ⟨env', middle, hRead, hRun⟩ := RoutineM.bind_eq_ok.mp hRun
  cases hRead
  rw [hFunc] at hRun
  exact hRun

theorem ret_ok (hFunc : env.func = some func) (hSeveral : 2 ≤ func.outputs.length)
    (hSome : sources ≠ [])
    (hRun : (ret (operands sources) span).exec env routine = (.ok (), after)) :
    ∃ values middle, ReturnValues env func span routine sources values middle ∧
      (returnThrough func values span).exec env middle = (.ok (), after) := by
  match sources with
  | [] => exact absurd rfl hSome
  | [source] =>
      apply returnSeveral_ok
      rw [← returnOne_eq _ (by omega)]
      exact retOne_ok hFunc hRun
  | _ :: _ :: _ => exact retMany_ok hFunc hRun

end StmtRule

/-- A return in a function with several outputs sets each of them once. The outputs come to hold
what the fragments stand for before the first of them is set, just if no fragment reads an output
that was set to something else before it; the results of one call never do. -/
theorem return_sets_results {sources : List Expr} (hFunc : env.func = some func)
    (hSeveral : 2 ≤ func.outputs.length) (hSome : sources ≠ [])
    (hRun : (compileStmt (.ret span sources)).exec env routine = (.ok (), after)) :
    ∃ values middle results, ReturnValues env func span routine sources values middle ∧
      HandsBack env.program.types func 0 func.outputs values results ∧
      after.body.toList = middle.body.toList ++ resultStmts results ++ [.ret none] ∧
      (sources.length = 1 → NoneOverwritten results) ∧
      (NoneOverwritten results → SetsFromStart results) ∧
      ((results.map (·.1)).Nodup → SetsFromStart results → NoneOverwritten results) ∧
      ((results.map (·.1)).Nodup → NoneOverwritten results →
        ∀ {V W : Type} (m : Meaning V W) (outs : String → V) (w : W), m.Quiet →
          ∀ result ∈ results, (setInOrder m results outs w).1 result.1 =
            (result.2.eval m outs w).1) := by
  rw [compileStmt] at hRun
  obtain ⟨values, middle, hValues, hReturn⟩ := StmtRule.ret_ok hFunc hSeveral hSome hRun
  obtain ⟨results, hBack, hBody⟩ := StmtRule.returnThrough_ok hValues.length_eq hReturn
  refine ⟨values, middle, results, hValues, hBack, hBody, fun hOne => ?_,
    NoneOverwritten.setsFromStart, fun hNames => (setsFromStart_iff hNames).mp,
    fun hNames hNone V W m outs w hQuiet result hMem => ?_⟩
  · apply hBack.noneOverwritten hValues.length_eq
    cases hValues with
    | several hMany _ _ => exact absurd hOne hMany
    | call _ _ _ _ =>
        intro value hMem
        obtain ⟨member, -, rfl⟩ := List.mem_map.mp hMem
        rfl
  · exact SetsFromStart.quiet hNone.setsFromStart hQuiet hNames hMem

/-- A function with the outputs `a` and `b`. -/
def pairFunc : FuncType Ty := ⟨[], [⟨"a", .prim .int⟩, ⟨"b", .prim .int⟩], false, false, 0⟩

def pairEnv : Env := ⟨⟨[], none, .empty⟩, 0, "main", some pairFunc, none, none⟩

/-- The routine when both outputs are in scope. -/
def pairStart : Routine :=
  ((enterFunc pairFunc .nowhere).exec pairEnv (Routine.start Supply.empty)).2

/-- In `return b, 7` the output `b` is read before it is set. -/
theorem return_sets_results_pair :
    let sources := [Expr.ident .nowhere "b", .int .nowhere 7]
    let results := [("out_a", CExpr.result "out_b"), ("out_b", .cast .int (.int 7))]
    let run := (compileStmt (.ret .nowhere sources)).exec pairEnv pairStart
    run.1 = .ok () ∧ run.2.body.toList = resultStmts results ++ [.ret none] ∧
      SetsFromStart results := by
  intro sources results run
  have hFunc : pairEnv.func = some pairFunc := rfl
  have hRun : (compileStmt (.ret .nowhere sources)).exec pairEnv pairStart = (.ok (), run.2) := rfl
  refine ⟨rfl, rfl, ?_⟩
  obtain ⟨values, middle, found, -, hBack, hBody, -, hSets, -⟩ :=
    return_sets_results hFunc (by decide) (by simp [sources]) hRun
  have hStmts : [] ++ resultStmts results = middle.body.toList ++ resultStmts found :=
    List.append_cancel_right hBody
  obtain ⟨-, hFound⟩ := append_resultStmts_inj hBack.length_eq.symm hStmts
  rw [hFound]
  apply hSets
  rw [← hFound]
  simp [NoneOverwritten, results, CExpr.reads]

/-- It is not so that the order never matters: `return b, a` gives both outputs the value of `b`. -/
theorem return_sets_results_swapped :
    compile (.ofList []) false "func f() (a int, b int) \x7b\n return b, a\n\x7d\n" =
      .ok ("#include <stdio.h>\n#include \"runt.h\"\n" ++
        "extern void main__f(P_int *out_a, P_int *out_b);\n" ++
        "void main__f(P_int *out_a, P_int *out_b) \x7b\n" ++
        "*out_a = (*out_b);\n*out_b = (*out_a);\nreturn;\n\x7d\n") ∧
    ¬ ∀ (env : Env) (routine after : Routine) (func : FuncType Ty) (span : Span)
        (sources : List Expr) (stmts : List CStmt) (results : List (String × CExpr)),
      env.func = some func → 2 ≤ func.outputs.length → sources ≠ [] →
      (compileStmt (.ret span sources)).exec env routine = (.ok (), after) →
      after.body.toList = stmts ++ resultStmts results ++ [.ret none] →
      results.length = func.outputs.length →
      ∀ {V W : Type} (m : Meaning V W) (outs : String → V) (w : W), m.Quiet →
        ∀ result ∈ results, (setInOrder m results outs w).1 result.1 =
          (result.2.eval m outs w).1 := by
  constructor
  · rw [compile_of_toList String.toList_ofList]
    decide +kernel
  · intro h
    have hSame := h pairEnv pairStart _ pairFunc .nowhere
      [.ident .nowhere "b", .ident .nowhere "a"] []
      [("out_a", .result "out_b"), ("out_b", .result "out_a")] rfl (by decide) (by simp) rfl rfl rfl
      .itself .result () (fun _ _ _ => rfl) ("out_b", .result "out_a") (by simp)
    have hNames : CExpr.result "out_b" = .result "out_a" := hSame
    simp at hNames

end GoToC
