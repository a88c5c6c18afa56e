import GoToC.Proofs.Routine.SpelledStmt
import GoToC.Proofs.Session.Locals

/-!
# Names that routines declare

A routine of the output names no other variables and parameters than it declares: its
variables are declared at its head once its body is known, and its parameters are those of
the prototype of its function. The fragment that a constant was given names none at all, so
any routine may take it over.
-/

namespace GoToC

variable {func : FuncType Ty} {routine after : Routine}

/-! ## Parameters of prototypes -/

namespace TypeStore

variable {store : TypeStore}

/-- Parameters go by the names of their positions. -/
theorem params_name {nameAt : Nat → String} {isPointer : Bool} {index : Nat}
    {members : List (Member Ty)} {found : List CParam}
    (h : store.params nameAt isPointer index members = .ok found) {i : Nat}
    (hi : i < members.length) : ∃ param ∈ found, param.name = nameAt (index + i) := by
  induction members generalizing index found i with
  | nil => simp at hi
  | cons member rest ih =>
      obtain ⟨type, -, h⟩ := Faulty.bind_eq_ok.mp h
      obtain ⟨others, hOthers, h⟩ := Faulty.bind_eq_ok.mp h
      cases h
      cases i with
      | zero => exact ⟨_, List.mem_cons_self, rfl⟩
      | succ i =>
          obtain ⟨param, hParam, hName⟩ := ih hOthers (Nat.lt_of_succ_lt_succ hi)
          exact ⟨param, List.mem_cons_of_mem _ hParam, hName.trans (congrArg nameAt (by omega))⟩

/-- A prototype declares all parameters of its function. -/
theorem prototype_ownNames {name : String} {prototype : Prototype}
    (h : store.prototype func name = .ok prototype) :
    func.ownNames ⊆ {n | n ∈ prototype.ownNames} := by
  have hDeclared {found : List CParam} (hFound : found ⊆ prototype.params) {text : String}
      (hText : ∃ param ∈ found, param.name = text) : .parameter text ∈ prototype.ownNames := by
    obtain ⟨param, hParam, rfl⟩ := hText
    exact List.mem_map.mpr ⟨param, hFound hParam, rfl⟩
  cases prototype_eq_ok h with
  | @returned output result inputs hOutputs _ hInputs =>
      rintro _ (⟨index, hIndex, rfl⟩ | ⟨hSeveral, -⟩)
      · exact hDeclared (List.Subset.refl inputs) (Nat.zero_add index ▸ params_name hInputs hIndex)
      · exact absurd (by simp [hOutputs]) hSeveral
  | @passed inputs results _ hInputs hResults =>
      rintro _ (⟨index, hIndex, rfl⟩ | ⟨-, index, hIndex, rfl⟩)
      · exact hDeclared (List.subset_append_left inputs results)
          (Nat.zero_add index ▸ params_name hInputs hIndex)
      · exact hDeclared (List.subset_append_right inputs results)
          (Nat.zero_add index ▸ params_name hResults hIndex)

end TypeStore

/-! ## Routines of the output -/

variable {sources : Sources} {file : SourceFile}

/-- The initializers of a module keep their routine spelled, one after another. -/
theorem InitRun.spelled {decls : List VarDecl} (h : InitRun sources file decls routine after)
    (hRoutine : routine.Spelled .free ∅) : after.Spelled .free ∅ := by
  induction h with
  | done => exact hRoutine
  | skip _ _ ih => exact ih hRoutine
  | @set decl _ init env env' type value converted cName cType routine middle _ _ hEnv hRun hEnv'
      hConvert _ ih =>
      have hValue : Spells (.closing none ∅) ∅ (operand init).value (Typed.Spelled .free) :=
        .value (compileExpr_closes init)
      obtain ⟨⟨known, -, hKnown, hFound⟩, -, hMiddle, -⟩ := hValue env routine value middle
        (fun _ => nofun) (Set.empty_subset _) hEnv.closed.spelled hRoutine hRun
      have hConverts : Spells (.closing none ∅) known
          (RoutineM.convert type value decl.span "in variable initializer") (CExpr.Spelled .free) :=
        .convert type hFound.c decl.span _
      obtain ⟨⟨known', -, hKnown', hConverted⟩, -⟩ := hConverts env' middle converted middle
        (fun _ => nofun) hKnown (hEnv'.closed.spelled.mono (Set.empty_subset _)) hMiddle hConvert
      exact ih (hMiddle.push ⟨trivial, False.elim, hConverted.mono hKnown'⟩)

/-- A function spells the routine that it is compiled to with its parameters. -/
theorem Env.Hosts.spelled_after {env : Env} (h : env.Hosts sources file func) {body : List Stmt}
    (hFormed : ∀ handle function, StmtsFormed (sources.known handle function).Word body)
    {span : Span} {supply : Supply}
    (hRun : (compileBody func body span).exec env (.start supply) = (.ok (), after)) :
    after.Spelled .free func.ownNames := by
  obtain ⟨s, whole, ⟨handle, function, hKnown⟩, hEnv, hFunc⟩ := h.plain
  have hStmts : StmtsFormed s.types.Word body := by
    rw [whole, hKnown]
    exact hFormed handle function
  have hSounds : Sounds (some s) env (.start supply) := by
    rintro _ ⟨⟩
    exact ⟨hEnv, .start _ supply⟩
  have hSafe : ∀ s' ∈ some s, (Ty.func func).PlainFunc s'.values := by
    rintro _ ⟨⟩
    exact hFunc
  have hBody : Spells (.closing (some s) func.ownNames) func.ownNames (compileBody func body span)
      fun _ _ => True :=
    compileBody_spells (.closing whole _) hSafe False.elim subset_rfl (fun _ => hStmts) span
  obtain ⟨-, -, hSpelled, -⟩ := hBody env (.start supply) () after hSounds Set.subset_union_left
    (h.closed.mono (Set.empty_subset _)).spelled (.start _ supply) hRun
  exact hSpelled

/-- What a routine declares under a heading with all its parameters. -/
theorem Routine.Spelled.declared {params : Set OwnName} (h : routine.Spelled .free params)
    {heading : Heading} (hHeading : params ⊆ {n | n ∈ heading.ownNames}) {n : OwnName}
    (hn : n ∈ CStmt.ownNamesAll routine.body.toList) :
    n ∈ heading.declares routine.locals.toList := by
  rcases CStmt.spelledAll_free.mp h.body n hn with hParam | ⟨var, hVar, rfl⟩
  · exact List.mem_append_left _ (hHeading hParam)
  · exact List.mem_append_right _ (List.mem_map.mpr ⟨var, hVar, rfl⟩)

/-- In the output of a program each routine declares all variables and parameters of its own
that its body names, and the value of a global names none. -/
theorem ownNames_declared {modules : List (String × String)} {withBuiltin : Bool} {text : String}
    {session : Session}
    (hRun : (SessionM.compileProgram (.ofList modules) withBuiltin text).exec Session.empty =
      (.ok (), session)) :
    (∀ heading locals body, .routine heading locals body ∈ session.output.toList →
      ∀ n ∈ CStmt.ownNamesAll body, n ∈ heading.declares locals) ∧
    ∀ id global value, session.program.Has id global → global.value = some (.expr value) →
      value.c.ownNames = [] := by
  constructor
  · intro heading locals body hItem n hn
    have hAccounts := compileProgram_accounts hRun hItem
    cases heading with
    | func prototype =>
        obtain ⟨package, file, decl, stmts, func, cName, env, supply, after, hFile, hDecl, hBody, -,
          hHosts, hPrototype, hCompiled, rfl, rfl⟩ := hAccounts
        have hSpelled := hHosts.spelled_after
          (fun handle function => (Sources.formed hFile handle function).body hDecl hBody) hCompiled
        have hParams : func.ownNames ⊆ {n | n ∈ (Heading.func prototype).ownNames} :=
          TypeStore.prototype_ownNames hPrototype
        exact hSpelled.declared hParams hn
    | init package =>
        obtain ⟨file, supply, after, -, hInit, rfl, rfl⟩ := hAccounts
        exact (hInit.spelled (.start ∅ supply)).declared (Set.empty_subset _) hn
  · rintro id global value ⟨module, hModule, hGlobal⟩ hValue
    have hIdle := compileProgram_ofList modules withBuiltin text
    rw [Runs, hRun] at hIdle
    obtain ⟨handle, function, hSound⟩ := hIdle
    have hClosed := (hSound.program.globals id module hModule global hGlobal).closed value hValue
    exact List.eq_nil_iff_forall_not_mem.mpr hClosed

/-- A function with two outputs, a call of it, and a constant that both functions take over. -/
def halvedSource : String :=
  "const two = 1 + 1\nfunc divide(a int) (half int, rest int) \x7b\n half = a / two\n" ++
    " rest = a % two\n\x7d\nfunc sum(a int) int \x7b\n half, rest := divide(a)\n" ++
    " return half + rest + two\n\x7d\n"

/-- What a routine declares. -/
def CItem.declares? : CItem → Option (List OwnName)
  | .routine heading locals _ => some (heading.declares locals)
  | _ => none

theorem ownNames_declared_halved :
    (∃ heading locals body, .routine heading locals body ∈ (runOf halvedSource).2.output.toList ∧
      heading.declares locals = [.parameter "in_a", .variable "_multi_1_0", .variable "_multi_1_1",
        .variable "v_half", .variable "v_rest"] ∧
      ∀ n ∈ CStmt.ownNamesAll body, n ∈ heading.declares locals) ∧
    ∀ id global value, (runOf halvedSource).2.program.Has id global →
      global.value = some (.expr value) → value.c.ownNames = [] := by
  have hRan : (runOf halvedSource).1 = true ∧
      [.parameter "in_a", .variable "_multi_1_0", .variable "_multi_1_1", .variable "v_half",
        .variable "v_rest"] ∈ (runOf halvedSource).2.output.toList.filterMap CItem.declares? := by
    rw [@runOf_of_toList halvedSource _ (toList_append_of (toList_append_of
      String.toList_ofList String.toList_ofList) String.toList_ofList)]
    decide +kernel
  obtain ⟨hDone, hNames⟩ := hRan
  obtain ⟨hDeclared, hValues⟩ := ownNames_declared (runOf_complete hDone)
  obtain ⟨item, hItem, hLocals⟩ := List.mem_filterMap.mp hNames
  refine ⟨?_, hValues⟩
  unfold CItem.declares? at hLocals
  split at hLocals
  · next heading locals body =>
      exact ⟨heading, locals, body, hItem, Option.some.inj hLocals,
        hDeclared heading locals body hItem⟩
  · cases hLocals

end GoToC
