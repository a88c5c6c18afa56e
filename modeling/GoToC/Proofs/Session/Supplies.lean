import GoToC.Proofs.Routine.Returns
import GoToC.Proofs.Session.Visited

/-!
# Values of returns

A return hands back a value for each output of its function: one value each, or one call that has as
many results as there are outputs. All of them can be converted to the types of the outputs. A
return without values is fine in any function but one with a single output that has no name; what
is then handed back through pointers is whatever is there.
-/

namespace GoToC

variable {sources : Sources} {file : SourceFile} {env : Env} {func : FuncType Ty} {span : Span}
  {routine after : Routine}

/-- A value can be converted to the type of an output. -/
def TypeStore.Takes (store : TypeStore) (output : Member Ty) (value : Typed) : Prop :=
  ∃ c, store.Converts output.type value c

/-- What a return hands back, compiled at some point, is a value for each output of the function. No
values do for some functions. -/
inductive Supplies (env : Env) (routine : Routine) (func : FuncType Ty) (bare : Prop) :
    List Expr → Prop
  | each {given values after} :
      given ≠ [] → given.length = func.outputs.length →
      (Operand.values (operands given)).exec env routine = (.ok values, after) →
      List.Forall₂ env.program.types.Takes func.outputs values →
      Supplies env routine func bare given
  | call {given span value call members first middle} :
      given.isCall = true → (compileExpr given).exec env routine = (.ok value, first) →
      (RoutineM.toExpr span value).exec env first = (.ok call, middle) →
      env.program.types.multi? call.type = .ok (some members) →
      members.length = func.outputs.length →
      List.Forall₂ (fun output (member : Member Ty) =>
        env.program.types.Takes output ⟨.localVar member.name, member.type⟩) func.outputs members →
      Supplies env routine func bare [given]
  | nothing : bare → Supplies env routine func bare []

theorem HandsBack.takes {store : TypeStore} {index : Nat} {outputs : List (Member Ty)}
    {values : List Typed} {results : List (String × CExpr)}
    (h : HandsBack store func index outputs values results)
    (hLength : values.length = outputs.length) :
    List.Forall₂ store.Takes outputs values := by
  refine List.forall₂_iff_zip.mpr ⟨hLength.symm, fun {output value} hPair => ?_⟩
  obtain ⟨i, hi, hAt⟩ := List.mem_iff_getElem.mp hPair
  have hConverts := h.converts.get hi (h.converts.length_eq ▸ hi)
  rw [List.get_eq_getElem, hAt] at hConverts
  exact ⟨_, hConverts⟩

/-- Only a call gives several values. -/
theorem Env.Reaches.isCall (h : env.Reaches sources file routine) {e : Expr}
    (hFormed : e.Formed (sources.known (fun _ => False) False).Word) {value : Value} {call : Typed}
    {members : List (Member Ty)} {first middle : Routine}
    (hValue : (compileExpr e).exec env routine = (.ok value, first))
    (hCall : (RoutineM.toExpr span value).exec env first = (.ok call, middle))
    (hMulti : env.program.types.multi? call.type = .ok (some members)) : e.isCall = true := by
  obtain ⟨s, hWhole, ⟨handle, function, hKnown⟩, hEnv, hRoutine⟩ := h.sound
  have hWords : s.types.Word = (sources.known (fun _ => False) False).Word :=
    Known.word_eq (by rw [hWhole, hKnown]; rfl)
  by_contra hNot
  have hSafe : Safe s (do RoutineM.toExpr span (← compileExpr e)) (Typed.Sound s.values) :=
    (compileExpr_alone hWhole (hWords ▸ hFormed) (Bool.eq_false_iff.mpr hNot)).bind
      fun _ hAlone => .toExpr_alone span hAlone
  have hSound := hSafe env routine hEnv hRoutine
  rw [RoutineM.bind_eq_ok.mpr ⟨value, first, hValue, hCall⟩] at hSound
  have hOne := s.settled.multi?_usable hSound.1.usable
  rw [← hEnv.types, hMulti] at hOne
  cases hOne

/-- A function can be returned from without values, unless it has a single output without a name. -/
def FuncType.Bare (func : FuncType Ty) : Prop :=
  ∀ output, func.outputs = [output] → isNamed output.name = true

namespace StmtRule

theorem returnNothing_ok (hResult : env.namedResult.isSome = true ↔
      ∃ output, func.outputs = [output] ∧ isNamed output.name = true)
    (hRun : (returnNothing func span).exec env routine = (.ok (), after)) : func.Bare := by
  intro output hOutput
  obtain ⟨env', middle, hRead, hRun⟩ := RoutineM.bind_eq_ok.mp hRun
  cases hRead
  split at hRun
  · next result hNamed =>
      obtain ⟨other, hOther, hOtherNamed⟩ := hResult.mp (by rw [hNamed]; rfl)
      obtain rfl : output = other := List.singleton_inj.mp (hOutput.symm.trans hOther)
      exact hOtherNamed
  · rw [hOutput, List.length_singleton, if_pos rfl] at hRun
    cases hRun

theorem returnOne_supplies {bare : Prop} {source : Expr} (hCall : ∀ value call members first middle,
      (compileExpr source).exec env routine = (.ok value, first) →
      (RoutineM.toExpr span value).exec env first = (.ok call, middle) →
      env.program.types.multi? call.type = .ok (some members) → source.isCall = true)
    (hRun : (returnOne func (operand source) span).exec env routine = (.ok (), after)) :
    Supplies env routine func bare [source] := by
  by_cases hOne : func.outputs.length = 1
  · obtain ⟨output, hOutput⟩ := List.length_eq_one_iff.mp hOne
    unfold returnOne at hRun
    rw [hOutput] at hRun
    obtain ⟨value, middle, hValue, hRun⟩ := RoutineM.bind_eq_ok.mp hRun
    obtain ⟨c, converted, hConvert, -⟩ := RoutineM.bind_eq_ok.mp hRun
    have hTakes : env.program.types.Takes output value := ⟨c, (convert_ok hConvert).1⟩
    have hValues : (Operand.values (operands [source])).exec env routine = (.ok [value], middle) :=
      RoutineM.bind_eq_ok.mpr ⟨value, middle, hValue, rfl⟩
    exact .each (by simp) (by simp [hOutput]) hValues (hOutput ▸ .cons hTakes .nil)
  · rw [returnOne_eq _ hOne] at hRun
    obtain ⟨values, middle, hValues, hReturn⟩ := returnSeveral_ok hRun
    obtain ⟨results, hBack, -⟩ := returnThrough_ok hValues.length_eq hReturn
    have hTakes := hBack.takes hValues.length_eq
    cases hValues with
    | several hMany => exact absurd rfl hMany
    | call hValue hFound hMulti hLength =>
        rw [List.forall₂_map_right_iff] at hTakes
        exact .call (hCall _ _ _ _ _ hValue hFound hMulti) hValue hFound hMulti hLength hTakes

/-- A return that is compiled supplies the outputs of its function. -/
theorem ret_supplies {given : List Expr} (hFunc : env.func = some func)
    (hResult : env.namedResult.isSome = true ↔
      ∃ output, func.outputs = [output] ∧ isNamed output.name = true)
    (hCall : ∀ source ∈ given, ∀ value call members first middle,
      (compileExpr source).exec env routine = (.ok value, first) →
      (RoutineM.toExpr span value).exec env first = (.ok call, middle) →
      env.program.types.multi? call.type = .ok (some members) → source.isCall = true)
    (hRun : (ret (operands given) span).exec env routine = (.ok (), after)) :
    Supplies env routine func func.Bare given := by
  match given with
  | [] =>
      obtain ⟨env', middle, hRead, hRun⟩ := RoutineM.bind_eq_ok.mp hRun
      cases hRead
      rw [hFunc] at hRun
      exact .nothing (returnNothing_ok hResult hRun)
  | [source] =>
      exact returnOne_supplies (hCall source List.mem_cons_self) (retOne_ok hFunc hRun)
  | first :: second :: rest =>
      obtain ⟨values, middle, hValues, hReturn⟩ := retMany_ok hFunc hRun
      obtain ⟨results, hBack, -⟩ := returnThrough_ok hValues.length_eq hReturn
      have hTakes := hBack.takes hValues.length_eq
      cases hValues with
      | several _ hLength hRan =>
          have hCount := Operand.length_of_gives ⟨_, _, _, hRan⟩
          refine .each (by simp) ?_ hRan hTakes
          rw [← hLength, hCount, operands_eq_map, List.length_map]

end StmtRule

/-- Each return of a compiled program supplies all outputs of its function, at the point where it is
compiled. -/
theorem returns_supply_outputs {modules : List (String × String)} {withBuiltin : Bool}
    {text : String} {session : Session}
    (hRun : (SessionM.compileProgram (.ofList modules) withBuiltin text).exec .empty =
      (.ok (), session))
    {id : ModuleId} {module : Module} (hModule : session.program.module? id = some module)
    {decl : FuncDecl} (hDecl : decl ∈ module.file.funcs ∨ decl ∈ module.file.methods)
    {body : List Stmt} (hBody : decl.body = some body) {span : Span} {given : List Expr}
    {seen : List String} {path : List StmtPart} {host : RoutineM Unit → RoutineM Unit}
    (hAt : (Stmt.ret span given).At seen path host (blockNames decl.declaredNames) body) :
    ∃ func env supply after env' routine between,
      decl.CompilesTo (.ofProgram modules text) session module body func env supply after ∧
      decl.Passes (.ofProgram modules text) module.file func host seen env supply env' routine ∧
      (compileStmt (.ret span given)).exec env' routine = (.ok (), between) ∧
      Supplies env' routine func func.Bare given := by
  obtain ⟨func, env, supply, after, env', routine, between, hCompiled, hPasses, hStmt⟩ :=
    SessionM.compileProgram_passes hRun hModule hDecl hBody hAt
  have hFormed := hAt.formed (hCompiled.formed (fun _ => False) False)
  rw [Stmt.Formed, exprsFormed_iff] at hFormed
  refine ⟨func, env, supply, after, env', routine, between, hCompiled, hPasses, hStmt, ?_⟩
  obtain ⟨result, loop, hEnv, hResult⟩ := hPasses.inside
  rw [compileStmt] at hStmt
  refine StmtRule.ret_supplies (by rw [hEnv]; rfl) (by rw [hEnv]; exact hResult)
    (fun source hSource => ?_) hStmt
  intro value call members first middle hValue hCall hMulti
  exact hPasses.reaches.isCall (hFormed source hSource) hValue hCall hMulti

/-- A function that hands back two values. -/
def pairSource : String := "func f(a int) (int, bool) \x7b\n return a, true\n\x7d\n"

theorem returns_supply_outputs_pair :
    ∃ (module : Module) (decl : FuncDecl) (span : Span) (given : List Expr) (func : FuncType Ty)
      (host : RoutineM Unit → RoutineM Unit) (start : Env) (supply : Supply) (env : Env)
      (routine between : Routine), (runOf pairSource).2.program.module? 0 = some module ∧
      decl.Passes (.ofProgram [] pairSource) module.file func host (blockNames decl.declaredNames)
        start supply env routine ∧
      (compileStmt (.ret span given)).exec env routine = (.ok (), between) ∧
      given.length = 2 ∧ Supplies env routine func func.Bare given := by
  have hRan : (runOf pairSource).1 = true ∧ ((runOf pairSource).2.program.module? 0).any
      (fun module => module.file.funcs.any fun decl => decl.sole?.any fun stmt =>
        match stmt with
        | .ret _ given => decide (given.length = 2)
        | _ => false) = true := by
    rw [@runOf_of_toList pairSource _ String.toList_ofList]
    decide +kernel
  obtain ⟨hDone, hFound⟩ := hRan
  obtain ⟨module, decl, stmt, hModule, hDecl, hBody, hCheck⟩ := Program.exists_sole hFound
  split at hCheck
  · next span given =>
      obtain ⟨func, start, supply, after, env, routine, between, -, hPasses, hStmt, hSupplies⟩ :=
        returns_supply_outputs (runOf_complete hDone) hModule (.inl hDecl) hBody .first
      exact ⟨module, decl, span, given, func, _, start, supply, env, routine, between,
        hModule, hPasses, hStmt, of_decide_eq_true hCheck, hSupplies⟩
  · cases hCheck

/-- Whether a statement returns without values. -/
def Stmt.isBareReturn : Stmt → Bool
  | .ret _ [] => true
  | _ => false

/-- A function with two outputs that have no names. -/
def bareSource : String := "func f() (int, int) \x7b\n return\n\x7d\n"

/-- It is not so that a return without values needs names: two outputs without names are left as
they are. -/
theorem returns_supply_outputs_bare : compile (.ofList []) false bareSource =
      .ok ("#include <stdio.h>\n#include \"runt.h\"\n" ++
        "extern void main__f(P_int *out__0, P_int *out__1);\n" ++
        "void main__f(P_int *out__0, P_int *out__1) \x7b\nreturn;\n\x7d\n") ∧
    ¬ ∀ (modules : List (String × String)) (withBuiltin : Bool) (text : String) (session : Session),
      (SessionM.compileProgram (.ofList modules) withBuiltin text).exec .empty = (.ok (), session) →
      ∀ id module, session.program.module? id = some module →
      ∀ decl, decl ∈ module.file.funcs ∨ decl ∈ module.file.methods →
      ∀ body, decl.body = some body → ∀ span given seen path host,
      (Stmt.ret span given).At seen path host (blockNames decl.declaredNames) body →
      ∃ func env supply after env' routine between,
        decl.CompilesTo (.ofProgram modules text) session module body func env supply after ∧
        decl.Passes (.ofProgram modules text) module.file func host seen env supply env' routine ∧
        (compileStmt (.ret span given)).exec env' routine = (.ok (), between) ∧
        Supplies env' routine func (∀ output ∈ func.outputs, isNamed output.name = true) given := by
  constructor
  · rw [@compile_of_toList _ _ bareSource _ String.toList_ofList]
    decide +kernel
  · intro h
    have hRan : (runOf bareSource).1 = true ∧ ((runOf bareSource).2.program.module? 0).any
        (fun module => module.file.funcs.any fun decl => decl.sole?.any fun stmt =>
          stmt.isBareReturn && decide (decl.signature.outputs.map (·.name) = ["", ""])) = true := by
      rw [@runOf_of_toList bareSource _ String.toList_ofList]
      decide +kernel
    obtain ⟨hDone, hFound⟩ := hRan
    obtain ⟨module, decl, stmt, hModule, hDecl, hBody, hCheck⟩ := Program.exists_sole hFound
    obtain ⟨hBare, hUnnamed⟩ := Bool.and_eq_true_iff.mp hCheck
    unfold Stmt.isBareReturn at hBare
    split at hBare
    · next span =>
        obtain ⟨func, env, supply, after, env', routine, between, hCompiled, -, -, hSupplies⟩ :=
          h [] false bareSource _ (runOf_complete hDone) 0 module hModule decl (.inl hDecl) _ hBody
            span [] _ _ _ .first
        have hOutputs : func.outputs.map (·.name) = ["", ""] :=
          hCompiled.like.outputs.trans (of_decide_eq_true hUnnamed)
        obtain ⟨output, rest, hFirst, hEmpty, -⟩ := List.map_eq_cons_iff.mp hOutputs
        cases hSupplies with
        | each hSome => exact hSome rfl
        | nothing hNamed =>
            have hOutputNamed := hNamed output (by simp [hFirst])
            rw [hEmpty] at hOutputNamed
            cases hOutputNamed
    · cases hBare

end GoToC
