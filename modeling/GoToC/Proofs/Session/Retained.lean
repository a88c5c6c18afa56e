import GoToC.Proofs.Session.Folds
import GoToC.Proofs.Session.Finished

/-!
# Values of constants while a module is built

A constant gets its value once, before any variable or function of its module has one. What it
stands for by then it stands for in all that is compiled later.
-/

namespace GoToC

variable {id : ModuleId} {file : SourceFile} {before after : Program} {name : String}
  {decl : VarDecl}

/-- Whatever stood for a C value still does, but for the variables and functions of a module. -/
def Program.RetainsConsts (id : ModuleId) (file : SourceFile) (before after : Program) : Prop :=
  ∀ owner name e, (owner = id → name ∈ file.names .const) →
    before.globalValue? owner name = some (.expr e) → after.globalValue? owner name = some (.expr e)

namespace Program.RetainsConsts

variable {id : ModuleId} {file : SourceFile} {first second third : Program}

theorem of_modules (h : second.modules = first.modules) : RetainsConsts id file first second := by
  intro owner name e _ hValue
  rw [globalValue?, global?, module?, h]
  exact hValue

theorem refl (program : Program) : RetainsConsts id file program program := of_modules rfl

theorem trans (h : RetainsConsts id file first second) (h' : RetainsConsts id file second third) :
    RetainsConsts id file first third :=
  fun owner name e hHeld hValue => h' owner name e hHeld (h owner name e hHeld hValue)

end Program.RetainsConsts

theorem Program.RetainsValues.consts (h : before.RetainsValues after) :
    before.RetainsConsts id file after :=
  fun owner name e _ hValue => h owner name e hValue

/-- An expression that was compiled for a module outside of all functions. What constants stood for
by then they still stand for. -/
def Expr.ComesTo (id : ModuleId) (file : SourceFile) (program : Program) (e : Expr)
    (value : Typed) : Prop :=
  ∃ env routine after, env.module = id ∧ env.program.RetainsConsts id file program ∧
    routine.scopes = [[]] ∧ (operand e).value.exec env routine = (.ok value, after)

theorem Expr.ComesTo.retain {e : Expr} {value : Typed} (h : e.ComesTo id file before value)
    (hRetains : before.RetainsConsts id file after) : e.ComesTo id file after value := by
  obtain ⟨env, routine, last, hOwn, hBefore, hScopes, hRun⟩ := h
  exact ⟨env, routine, last, hOwn, hBefore.trans hRetains, hScopes, hRun⟩

namespace Job

variable {job : Job} {session : Session}

/-- What constants stood for before a step of a module they stand for after it. -/
abbrev RetainsConsts (job : Job) (before after : Session) : Prop :=
  before.program.RetainsConsts job.id job.file after.program

theorem globalValue?_withValue (name other : String) (value : GlobalValue) (owner : ModuleId) :
    (job.withValue session name value).program.globalValue? owner other =
      if owner = job.id ∧ other = name
      then (session.program.global? owner other).map fun _ => value.toValue
      else session.program.globalValue? owner other := by
  show (Program.updateModule _ job.id _).globalValue? owner other = _
  rw [Program.globalValue?, Program.globalValue?, Program.global?_setValue]
  by_cases hOwner : owner = job.id
  · subst hOwner
    rw [if_pos rfl]
    cases hGlobal : session.program.global? job.id other with
    | none => simp
    | some global =>
        have hName := (Program.Has.of_global? hGlobal).2
        by_cases hSame : other = name <;> simp [Global.given, hName, hSame]
  · rw [if_neg (Ne.symm hOwner), if_neg (fun hSame => hOwner hSame.1)]

/-- A global that gets a value is no constant, or has had none. -/
theorem retainsConsts_withValue (value : GlobalValue) (h : name ∈ job.file.names .const → ∀ e,
    session.program.globalValue? job.id name ≠ some (.expr e)) :
    job.RetainsConsts session (job.withValue session name value) := by
  intro owner other e hHeld hValue
  rw [globalValue?_withValue]
  split
  · next hSame =>
      obtain ⟨rfl, rfl⟩ := hSame
      exact absurd hValue (h (hHeld rfl) e)
  · exact hValue

theorem retainsConsts_withMethod (record : StructType Ty) (member : Member Ty) (method : Method) :
    job.RetainsConsts session (job.withMethod session record member method) := by
  intro owner name e _ hValue
  show (Program.updateModule _ job.id _).globalValue? owner name = _
  rw [Program.globalValue?, Program.global?, Program.module?_updateModule]
  rw [Program.globalValue?, Program.global?] at hValue
  split
  · cases hModule : session.program.module? owner with
    | none =>
        rw [hModule] at hValue
        cases hValue
    | some module =>
        rw [hModule] at hValue
        show Option.map _ (((session.program.module? owner).map _).bind _) = _
        rw [hModule]
        exact hValue
  · exact hValue

/-! ## Variables, functions and methods -/

variable (hDistinct : ((Declaration.ofFile job.file).map (·.name)).Nodup)

include hDistinct

theorem not_mem_consts {kind : GlobalKind} (h : name ∈ job.file.names kind)
    (hKind : kind ≠ .const) : name ∉ job.file.names .const :=
  fun hConst => hKind ((SourceFile.declaresAs hDistinct hConst).2 kind h)

theorem retainsConsts_buildVar (hDecl : decl ∈ job.file.vars) :
    Does job session (SessionM.buildVar job decl) fun _ after =>
      job.RetainsConsts session after := by
  have hName : decl.name ∈ job.file.names .var := List.mem_map_of_mem hDecl
  refine (does_buildVar decl).mono fun _ after hAfter => ?_
  rcases hAfter with ⟨-, -, rfl⟩ | ⟨written, type, routine, global, -, -, -, -, rfl⟩
  · exact .refl _
  · exact retainsConsts_withValue _ fun hConst =>
      absurd hConst (not_mem_consts hDistinct hName (by decide))

theorem retainsConsts_buildVars :
    Does job session (job.file.vars.forM (SessionM.buildVar job)) fun _ after =>
      job.RetainsConsts session after :=
  Does.forM_mem (job.RetainsConsts session) (.refl _) fun _ hDecl _ hBefore =>
    (retainsConsts_buildVar hDistinct hDecl).mono fun _ _ hAfter => hBefore.trans hAfter

theorem retainsConsts_buildFunc {decl : FuncDecl} (hDecl : decl ∈ job.file.funcs) :
    Does job session (SessionM.buildFunc job decl) fun _ after =>
      job.RetainsConsts session after := by
  have hName : decl.name ∈ job.file.names .func := List.mem_map_of_mem hDecl
  refine (does_buildFunc decl).mono fun _ after hAfter => ?_
  obtain ⟨routine, func, -, rfl⟩ := hAfter
  exact retainsConsts_withValue _ fun hConst =>
    absurd hConst (not_mem_consts hDistinct hName (by decide))

theorem retainsConsts_buildFuncs :
    Does job session (job.file.funcs.forM (SessionM.buildFunc job)) fun _ after =>
      job.RetainsConsts session after :=
  Does.forM_mem (job.RetainsConsts session) (.refl _) fun _ hDecl _ hBefore =>
    (retainsConsts_buildFunc hDistinct hDecl).mono fun _ _ hAfter => hBefore.trans hAfter

omit hDistinct in
theorem retainsConsts_buildMethods (index : Nat) (decls : List FuncDecl) :
    Does job session (SessionM.buildMethods job index decls) fun _ after =>
      job.RetainsConsts session after := by
  induction decls generalizing session index with
  | nil => exact .pure (.refl _)
  | cons decl rest ih =>
      refine (does_buildMethod index decl).bind fun _ middle hMiddle => ?_
      obtain ⟨routine, record, func, -, -, -, -, rfl⟩ := hMiddle
      exact (ih (index + 1)).mono fun _ _ hAfter => (retainsConsts_withMethod _ _ _).trans hAfter

/-! ## Initializers of variables -/

/-- An initializer is compiled where no block is open, and so are those that follow. -/
theorem buildInit_comesTo {routine : Routine} (hScopes : routine.scopes = [[]])
    (hDecl : decl ∈ job.file.vars) (declared : Option Ty) :
    Does job session (SessionM.buildInit job routine decl declared) fun last after =>
      job.RetainsConsts session after ∧ last.scopes = [[]] ∧
        ∀ init ∈ decl.init, ∃ value, init.ComesTo job.id job.file after.program value := by
  have hName : decl.name ∈ job.file.names .var := List.mem_map_of_mem hDecl
  unfold SessionM.buildInit
  split
  · next hNone => exact .pure ⟨.refl _, hScopes, by simp [hNone]⟩
  · next init hInit =>
      refine (does_resume routine (operand init).value).bind fun found middle hFound => ?_
      obtain ⟨value, next⟩ := found
      obtain ⟨hRun, rfl⟩ := hFound
      have hValue : Composed .expr .any (operand init).value := value_composed .expr init
      have hNext : next.scopes = [[]] :=
        (hValue.yields (job.env session) [[]] { routine with supply := session.supply } value next
          hScopes hRun).2.1
      have hStore (type : Ty) : Does job { session with supply := next.supply } (do
          let cName ← SessionM.setType job.id decl.name type
          return (← SessionM.resume job next (store decl type value cName)).2) fun last after =>
          job.RetainsConsts session after ∧ last.scopes = [[]] ∧
            ∀ init ∈ decl.init, ∃ value, init.ComesTo job.id job.file after.program value := by
        refine (does_setType decl.name type).bind fun cName set hSet => ?_
        obtain ⟨global, -, rfl, rfl⟩ := hSet
        refine (does_resume next _).bind fun found after hFound => .pure ?_
        obtain ⟨⟨⟩, last⟩ := found
        obtain ⟨hLast, rfl⟩ := hFound
        have hRetains : job.RetainsConsts session (job.withValue session decl.name
            (.expr ⟨.global global.cName, type⟩)) := retainsConsts_withValue _ fun hConst =>
          absurd hConst (not_mem_consts hDistinct hName (by decide))
        obtain ⟨converted, cType, -, rfl⟩ := exists_of_store hLast
        refine ⟨hRetains, hNext, fun other hOther => ⟨value, job.env session,
          { routine with supply := session.supply }, next, rfl, hRetains, hScopes, ?_⟩⟩
        obtain rfl : init = other := Option.some.inj (hInit.symm.trans hOther)
        exact hRun
      cases declared with
      | some type => exact hStore type
      | none =>
          refine (does_inferType decl value.type).bind fun type last hLast => ?_
          rw [hLast.2]
          exact hStore type

theorem buildInits_comesTo :
    Does job session (SessionM.buildInits job) fun _ after => job.RetainsConsts session after ∧
      ∀ decl ∈ job.file.vars, ∀ init ∈ decl.init,
        ∃ value, init.ComesTo job.id job.file after.program value := by
  unfold SessionM.buildInits
  split
  · next hNone =>
      refine .pure ⟨.refl _, fun decl hDecl init hInit => ?_⟩
      have hIsNone := List.all_eq_true.mp hNone decl hDecl
      rw [hInit] at hIsNone
      cases hIsNone
  · refine (does_declaredTypes).bind fun vars last hVars => ?_
    obtain ⟨⟨hVars, -⟩, rfl⟩ := hVars
    refine Does.get.bind fun now same hNow => ?_
    rw [hNow.1, hNow.2]
    refine Does.bind (Does.foldlM (fun left routine before => ∃ done, vars = done ++ left ∧
      job.RetainsConsts last before ∧ routine.scopes = [[]] ∧ ∀ entry ∈ done,
        ∀ init ∈ entry.1.init, ∃ value, init.ComesTo job.id job.file before.program value)
      ⟨[], rfl, .refl _, rfl, by simp⟩ ?_) fun routine built hBuilt => ?_
    · rintro ⟨decl, declared⟩ left routine before ⟨done, hDone, hBefore, hScopes, hInits⟩
      have hDecl : decl ∈ job.file.vars := by
        rw [← hVars, hDone]
        simp
      refine (buildInit_comesTo hDistinct hScopes hDecl declared).mono fun last after hAfter => ?_
      obtain ⟨hRetains, hLast, hInit⟩ := hAfter
      refine ⟨done ++ [(decl, declared)], by rw [hDone]; simp, hBefore.trans hRetains, hLast, ?_⟩
      intro entry hEntry init hMem
      rcases List.mem_append.mp hEntry with hEntry | hEntry
      · exact (hInits entry hEntry init hMem).imp fun _ hComes => hComes.retain hRetains
      · obtain rfl := List.mem_singleton.mp hEntry
        exact hInit init hMem
    · obtain ⟨done, hDone, hRetains, -, hInits⟩ := hBuilt
      rw [List.append_nil] at hDone
      refine (does_forM_write _ _).bind fun _ after hAfter => .pure ?_
      rw [hAfter]
      refine ⟨hRetains, fun decl hDecl => ?_⟩
      rw [← hVars, hDone] at hDecl
      obtain ⟨entry, hEntry, rfl⟩ := List.mem_map.mp hDecl
      exact hInits entry hEntry

end Job

end GoToC
