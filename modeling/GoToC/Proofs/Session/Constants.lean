import GoToC.Proofs.Session.Retained
import GoToC.Proofs.Session.Targets

/-!
# Constants of a compiled program

The initializer of a constant may read what has a value by the time it is compiled: constants of its
module that are declared before it, and whatever a module has that is built already. So a constant
may be a variable of another module; where it is, its value depends on when it is used. A constant
whose fragment reads nothing is the same wherever it is used.
-/

namespace GoToC

variable {sources : Sources} {start session after : Session} {job : Job} {handle : Nat → Prop}
  {function : Prop} {module : Module}

/-! ## Building the constants of a module -/

/-- A step of a module that gives values which fold. -/
theorem Program.Early.touches {files : String → SourceFile → Prop} {package : String}
    (h : session.program.Early files package) (hTouches : job.Touches session after)
    (hValues : ∀ id module name e, session.program.module? id = some module →
      after.program.globalValue? id name = some (.expr e) →
      session.program.globalValue? id name = some (.expr e) ∨
        GlobalFolds files True package module.name module.file name e.c) :
    after.program.Early files package := by
  intro id module' name e hModule' hValue
  have hSame : ∃ module, session.program.module? id = some module ∧ module.name = module'.name ∧
      module.file = module'.file := by
    by_cases hId : id = job.id
    · have hOwn := hTouches.own
      rw [← hId, hModule'] at hOwn
      obtain ⟨module, hModule, hSame⟩ := Option.map_eq_some_iff.mp hOwn.symm
      exact ⟨module, hModule, congrArg Prod.fst hSame, congrArg Prod.snd hSame⟩
    · exact ⟨module', (hTouches.others id hId) ▸ hModule', rfl, rfl⟩
  obtain ⟨module, hModule, hName, hFile⟩ := hSame
  rw [← hName, ← hFile]
  rcases hValues id module name e hModule hValue with hOld | hNew
  · exact h id module name e hModule hOld
  · exact hNew

namespace Job

/-- Building types gives no C values. -/
theorem does_buildTypes : Does job session (SessionM.buildTypes job) fun _ after => ∀ id name e,
      after.program.globalValue? id name = some (.expr e) →
        session.program.globalValue? id name = some (.expr e) := by
  refine Does.bind (Does.mapM (fun _ before => ∀ id name e,
    before.program.globalValue? id name = some (.expr e) →
      session.program.globalValue? id name = some (.expr e)) (fun _ _ _ hValue => hValue) ?_)
    fun built middle hMiddle => ?_
  · intro decl rest before hBefore
    refine (does_buildType decl).mono fun entry after hAfter id name e hValue => ?_
    obtain ⟨routine, store, -, -, rfl⟩ := hAfter
    rw [globalValue?_withValue] at hValue
    split at hValue
    · obtain ⟨_, _, hType⟩ := Option.map_eq_some_iff.mp hValue
      cases hType
    · exact hBefore id name e hValue
  · refine Does.forM_mem (fun after => ∀ id name e,
      after.program.globalValue? id name = some (.expr e) →
        session.program.globalValue? id name = some (.expr e)) hMiddle
          fun entry _ before hBefore => ?_
    exact (does_checkType entry.1 entry.2).mono fun _ after hAfter => hAfter ▸ hBefore

/-- A session in which the types of a module are built and its constants up to some of them. -/
structure Folding (sources : Sources) (start : Session) (job : Job) (handle : Nat → Prop)
    (function : Prop) (rest : List ConstDecl) (session : Session) : Prop where
  ready : job.Ready sources start handle function (fun global => global.kind ≠ .type) session
  early : session.program.Early sources.files job.package
  built : ∃ done, job.file.consts = done ++ rest ∧ ∀ decl ∈ done, ∃ e,
    session.program.globalValue? job.id decl.name = some (.expr e) ∧
      decl.value.ComesTo job.id job.file session.program e
  waiting : ∀ decl ∈ rest, ∀ e, session.program.globalValue? job.id decl.name ≠ some (.expr e)

/-- A name that is declared stands for the value that it gets. -/
theorem Ready.globalValue?_withValue {left : Global → Prop}
    (h : job.Ready sources start handle function left session) {kind : GlobalKind} {name : String}
    (hName : name ∈ job.file.names kind) (value : GlobalValue) :
    (job.withValue session name value).program.globalValue? job.id name = some value.toValue := by
  obtain ⟨found, hFound, -, hSame⟩ := Declaration.exists_ofFile_iff.mpr hName
  obtain ⟨global, hGlobal, -⟩ := h.exists_global hFound
  rw [Job.globalValue?_withValue, if_pos ⟨rfl, rfl⟩, ← hSame, hGlobal]
  rfl

namespace Folding

variable {decl : ConstDecl} {rest : List ConstDecl}

theorem decl_mem (h : job.Folding sources start handle function (decl :: rest) session) :
    decl ∈ job.file.consts := by
  obtain ⟨done, hDone, -⟩ := h.built
  simp [hDone]

theorem name_ne (h : job.Folding sources start handle function (decl :: rest) session)
    {other : ConstDecl} (hOther : other ∈ rest) : other.name ≠ decl.name := by
  obtain ⟨done, hDone, -⟩ := h.built
  have hNodup := h.ready.nodup_names .const
  rw [SourceFile.names, hDone, List.map_append, List.map_cons] at hNodup
  have hNew := (List.nodup_cons.mp (List.nodup_append.mp hNodup).2.1).1
  exact fun hSame => hNew (hSame ▸ List.mem_map_of_mem hOther)

/-- The fragment that the initializer of the next constant comes to folds. -/
theorem folds (h : job.Folding sources start handle function (decl :: rest) session) {value : Typed}
    {routine : Routine}
    (hRun : (operand decl.value).value.exec (job.env session) (Routine.start session.supply) =
      (.ok value, routine)) (hPristine : routine.isPristine = true) :
    Folds sources.files True (.outside job.package job.file) decl.value value.c :=
  ((compileExpr_folded ⟨h.ready.env_faithful, h.early⟩ decl.value).value _ value routine rfl hRun).1
    (h.ready.closed_value hRun hPristine)

/-- With a value that folds all that stands for a C value still does. -/
theorem early_withValue (h : job.Folding sources start handle function (decl :: rest) session)
    {value : Typed}
    (hFolds : Folds sources.files True (.outside job.package job.file) decl.value value.c) :
    (job.withValue session decl.name (.expr value)).program.Early sources.files job.package := by
  refine h.early.touches (touches_withValue _ _ _) fun id found name e hFound hExpr => ?_
  rw [Job.globalValue?_withValue] at hExpr
  split at hExpr
  · next hOwn =>
      obtain ⟨rfl, rfl⟩ := hOwn
      obtain ⟨_, _, hGiven⟩ := Option.map_eq_some_iff.mp hExpr
      cases hGiven
      obtain ⟨module, hModule, hPackage, hFile, -⟩ := h.ready.entered
      obtain rfl : module = found := Option.some.inj (hModule.symm.trans hFound)
      rw [hPackage, hFile]
      exact .inr (.const h.decl_mem hFolds)
  · exact .inl hExpr

/-- The next constant gets its value, and those before it keep theirs. -/
theorem buildConst (h : job.Folding sources start handle function (decl :: rest) session) :
    Runs sources.Excuses session (SessionM.buildConst job decl) fun _ after =>
      job.Folding sources start handle function rest after := by
  obtain ⟨done, hDone, hBuilt⟩ := h.built
  have hName : decl.name ∈ job.file.names .const := List.mem_map_of_mem h.decl_mem
  refine ((h.ready.buildConst h.decl_mem).both (does_buildConst decl)).mono fun _ after hAfter => ?_
  obtain ⟨hReady, -, value, routine, hRun, hPristine, rfl⟩ := hAfter
  have hRetains : job.RetainsConsts session (job.withValue session decl.name (.expr value)) :=
    retainsConsts_withValue _ fun _ => h.waiting decl List.mem_cons_self
  refine ⟨hReady, h.early_withValue (h.folds hRun hPristine), ⟨done ++ [decl], by simp [hDone], ?_⟩,
    fun other hOther e hExpr => ?_⟩
  · intro other hOther
    rcases List.mem_append.mp hOther with hOther | hOther
    · obtain ⟨e, hExpr, hComes⟩ := hBuilt other hOther
      have hHeld : other ∈ job.file.consts := hDone ▸ List.mem_append_left _ hOther
      exact ⟨e, hRetains job.id other.name e (fun _ => List.mem_map_of_mem hHeld) hExpr,
        hComes.retain hRetains⟩
    · obtain rfl := List.mem_singleton.mp hOther
      exact ⟨value, h.ready.globalValue?_withValue hName (.expr value), job.env session,
        .start session.supply, routine, rfl, hRetains, rfl, hRun⟩
  · have hOld :
      (job.withValue session decl.name (.expr value)).program.globalValue? job.id other.name =
        _ := Job.globalValue?_withValue _ _ _ _
    rw [if_neg fun hSame => h.name_ne hOther hSame.2] at hOld
    exact h.waiting other (List.mem_cons_of_mem _ hOther) e (hOld.symm.trans hExpr)

theorem buildConsts (h : job.Folding sources start handle function job.file.consts session) :
    Runs sources.Excuses session (job.file.consts.forM (SessionM.buildConst job)) fun _ after =>
      job.Folding sources start handle function [] after :=
  Runs.forM _ h fun _ _ _ hBefore => hBefore.buildConst

/-- When none is left, every constant has a value that its initializer folds to. -/
theorem folded (h : job.Folding sources start handle function [] session)
    (hDecl : decl ∈ job.file.consts) :
    ∃ e, session.program.globalValue? job.id decl.name = some (.expr e) ∧
      Folds sources.files True (.outside job.package job.file) decl.value e.c ∧
      decl.value.ComesTo job.id job.file session.program e := by
  obtain ⟨done, hDone, hBuilt⟩ := h.built
  rw [List.append_nil] at hDone
  obtain ⟨e, hValue, hComes⟩ := hBuilt decl (hDone ▸ hDecl)
  obtain ⟨module, hModule, hPackage, hFile, -⟩ := h.ready.entered
  have hGlobal := h.early job.id module decl.name e hModule hValue
  rw [hPackage, hFile] at hGlobal
  obtain ⟨other, hOther, hNames, hFolds⟩ := hGlobal.own
  obtain rfl : other = decl :=
    List.inj_on_of_nodup_map (h.ready.nodup_names .const) hOther hDecl hNames
  exact ⟨e, hValue, hFolds, hComes⟩

end Folding

end Job

/-! ## Constants of a module that is finished -/

/-- A module whose constants fold. What they and the variables are set to was compiled where
constants stood for what they still stand for. -/
structure Module.Folded (sources : Sources) (id : ModuleId) (module : Module) (session : Session) :
    Prop where
  consts : ∀ decl ∈ module.file.consts, ∃ e,
    session.program.globalValue? id decl.name = some (.expr e) ∧
      Folds sources.files True (.outside module.name module.file) decl.value e.c ∧
      decl.value.ComesTo id module.file session.program e
  inits : ∀ decl ∈ module.file.vars, ∀ init ∈ decl.init,
    ∃ value, init.ComesTo id module.file session.program value

/-- When a module is built, whatever stands for a C value in another one is one of its constants, or
it is named. -/
theorem Session.Told.early
    (h : session.Told fun id module session => module.Folded sources id session)
    (hFaithful : session.program.Faithful sources.files) {id : ModuleId}
    (hModule : session.program.module? id = some module) (hUnvalued : module.Unvalued) :
    session.program.Early sources.files module.name := by
  intro other found name e hFound hValue
  by_cases hId : other = id
  · exact absurd hValue (hUnvalued.globalValue?_ne (hId ▸ hModule) name e)
  · have hNames : found.name ≠ module.name := fun hSame =>
      hId (Program.id_unique h.distinct hModule hFound hSame)
    rcases h.modules other found hFound with hFolded | hNone
    · obtain ⟨same, hSame, -, hHolds⟩ := hFaithful.holds hValue
      obtain rfl : found = same := Option.some.inj (hFound.symm.trans hSame)
      cases hHolds with
      | expr hMirrors =>
          generalize hTree : e.c.tree = tree at hMirrors
          cases hMirrors with
          | const hDecl =>
              obtain ⟨e', hExpr, hFolds, -⟩ := hFolded.consts _ hDecl
              obtain rfl : e = e' := Value.expr.inj (Option.some.inj (hValue.symm.trans hExpr))
              exact .const hDecl hFolds
          | var hDecl => exact .other trivial hNames (.inl (List.mem_map_of_mem hDecl)) hTree
          | func hDecl => exact .other trivial hNames (.inr (List.mem_map_of_mem hDecl)) hTree
    · exact absurd hValue (hNone.globalValue?_ne hFound name e)

/-- No global of a module has a C value when its types are built, and those of other modules
fold. -/
theorem Job.Begun.folding (h : job.Begun sources start session)
    (hTold : session.Told fun id module session => module.Folded sources id session)
    (hModule : session.program.module? job.id = some module) (hAwaits : module.Awaits job)
    (hTypes : (SessionM.buildTypes job).exec session = (.ok (), after)) :
    ∃ handle function, job.Folding sources start handle function job.file.consts after := by
  obtain ⟨handle, function, hReady⟩ := h.buildTypes.success hTypes
  obtain ⟨hTouches, hNone⟩ := does_buildTypes.success hTypes
  obtain ⟨_, _, hSound⟩ := h.idle
  have hEarly := hTold.early hSound.faithful hModule hAwaits.values
  rw [hAwaits.opened.name] at hEarly
  refine ⟨handle, function, hReady, hEarly.touches hTouches ?_, ⟨[], rfl, by simp⟩, ?_⟩
  · exact fun id _ name e _ hValue => .inl (hNone id name e hValue)
  · exact fun decl _ e hValue =>
      Module.Unvalued.globalValue?_ne hAwaits.values hModule decl.name e (hNone _ _ _ hValue)

/-- Compiling a module whose imports are built folds its constants. -/
theorem Job.Begun.folded (h : job.Begun sources start session)
    (hTold : session.Told fun id module session => module.Folded sources id session)
    (hModule : session.program.module? job.id = some module) (hAwaits : module.Awaits job)
    (hRun : (SessionM.compileOwn job).exec session = (.ok (), after)) {last : Module}
    (hLast : after.program.module? job.id = some last) : last.Folded sources job.id after := by
  rw [SessionM.compileOwn_eq] at hRun
  obtain ⟨init, built, hBuild, hWrite⟩ := SessionM.bind_eq_ok.mp hRun
  obtain ⟨⟨handle, function, hReady⟩, hInit⟩ := h.buildOwn.success hBuild
  have hProgram : after.program = built.program := ((hReady.writeAll hInit).success hWrite).2
  obtain ⟨found, hFound, hName, hFile, hEntered⟩ := hReady.entered
  rw [hProgram, hFound] at hLast
  obtain rfl := Option.some.inj hLast
  have hDistinct := hFile ▸ hEntered.distinct
  obtain ⟨_, typed, hTypes, hRest⟩ := SessionM.bind_eq_ok.mp hBuild
  obtain ⟨_, folded, hConsts, hRest⟩ := SessionM.bind_eq_ok.mp hRest
  obtain ⟨_, declared, hVars, hRest⟩ := SessionM.bind_eq_ok.mp hRest
  obtain ⟨_, signed, hFuncs, hRest⟩ := SessionM.bind_eq_ok.mp hRest
  obtain ⟨_, complete, hMethods, hInits⟩ := SessionM.bind_eq_ok.mp hRest
  obtain ⟨handle, function, hFolding⟩ := h.folding hTold hModule hAwaits hTypes
  have hFolded := hFolding.buildConsts.success hConsts
  -- What follows gives values to variables and functions only.
  have hVars := ((retainsConsts_buildVars hDistinct).success hVars).2
  have hFuncs := ((retainsConsts_buildFuncs hDistinct).success hFuncs).2
  have hMethods := ((retainsConsts_buildMethods 0 job.file.methods).success hMethods).2
  obtain ⟨-, hLast, hSet⟩ := (buildInits_comesTo hDistinct).success hInits
  have hRetains := ((hVars.trans hFuncs).trans hMethods).trans hLast
  refine ⟨fun decl hDecl => ?_, ?_⟩
  · rw [hFile] at hDecl
    obtain ⟨e, hValue, hFolds, hComes⟩ := hFolded.folded hDecl
    rw [hName, hFile, hProgram]
    exact ⟨e, hRetains job.id decl.name e (fun _ => List.mem_map_of_mem hDecl) hValue, hFolds,
      hComes.retain hRetains⟩
  · rw [hFile, hProgram]
    exact hSet

theorem Module.folded_lasts (sources : Sources) :
    Remark.Lasts sources fun id module session => module.Folded sources id session where
  later id module session session' hRetains h := by
    refine ⟨fun decl hDecl => ?_, fun decl hDecl init hInit => ?_⟩
    · obtain ⟨e, hValue, hFolds, hComes⟩ := h.consts decl hDecl
      exact ⟨e, hRetains.values id decl.name e hValue, hFolds, hComes.retain hRetains.values.consts⟩
    · exact (h.inits decl hDecl init hInit).imp fun _ hComes => hComes.retain hRetains.values.consts
  own _ _ _ _ _ _ hBegun hTold hFound hAwaits hRun hModule :=
    hBegun.folded hTold hFound hAwaits hRun hModule

/-! ## Uses of constants -/

/-- An expression that names a global of a module where given blocks are open. -/
inductive Env.Names (env : Env) (scopes : List Scope) : Expr → ModuleId → String → Prop
  | own {span name value} : scopes.findSome? (·.lookup name) = none →
      env.program.globalValue? env.module name = some value →
        Names env scopes (.ident span name) env.module name
  | shared {span name builtin value} :
      scopes.findSome? (·.lookup name) = none → env.program.globalValue? env.module name = none →
      env.program.builtin = some builtin → env.program.globalValue? builtin name = some value →
        Names env scopes (.ident span name) builtin name
  | member {span receiver owner id imported name} :
      Names env scopes receiver owner imported →
      env.program.globalValue? owner imported = some (.module id) →
        Names env scopes (.dot span receiver name) id name

/-- Whatever names a global is the given fragment, and nothing is written for it. -/
def Env.Keeps (env : Env) (id : ModuleId) (name : String) (e : Typed) : Prop :=
  ∀ scopes use, env.Names scopes use id name → Yields env scopes True (operand use).value (· = e)

/-- What only asks writes nothing. -/
theorem Yields.quietly {α : Type} {env : Env} {scopes : List Scope} {action : RoutineM α}
    {good : α → Prop} (hAsks : action.Asks) (h : Yields env scopes False action good) :
    Yields env scopes True action good :=
  .asks hAsks fun routine value after hScopes hRun => (h routine value after hScopes hRun).1

namespace Env

variable {env : Env} {scopes : List Scope} {use : Expr} {id : ModuleId} {name : String}

/-- An expression that names a global stands for what the global stands for. -/
theorem Names.yields (h : env.Names scopes use id name) :
    Yields env scopes True (compileExpr use) fun value =>
      env.program.globalValue? id name = some value := by
  induction h with
  | own hFree hValue =>
      rw [compileExpr]
      refine .bind .read fun found hFound => .bind .get fun routine hScopes => ?_
      rw [hFound, Routine.binding?, hScopes, hFree, hValue]
      exact .pure rfl
  | @shared _ name builtin value hFree hNone hBuiltin hValue =>
      have hOther : builtin ≠ env.module := by
        rintro rfl
        rw [hNone] at hValue
        cases hValue
      rw [compileExpr]
      refine .bind .read fun found hFound => .bind .get fun routine hScopes => ?_
      rw [hFound, Routine.binding?, hScopes, hFree, hNone, hBuiltin, Option.bind_some,
        if_neg hOther, hValue]
      exact .pure rfl
  | @member span receiver owner id imported name _ hModule ih =>
      rw [compileExpr]
      refine ih.bind fun value hValue => ?_
      obtain rfl := Option.some.inj (hModule.symm.trans hValue)
      exact .quietly (RoutineM.Idle.moduleMember id name span).asks (.moduleMember id name span)

theorem Keeps.of_value {e : Typed}
    (h : ∀ e', env.program.globalValue? id name = some (.expr e') → e' = e) : env.Keeps id name e :=
  fun _ _ hNames => hNames.yields.bind fun _ hValue =>
    .bind (.quietly (RoutineM.Idle.toExpr _ _).asks (.globalValue hValue _)) fun found hFound =>
      (Yields.single found _).mono fun _ hSame => hSame.trans (h found (hFound ▸ hValue))

end Env

/-- Wherever something of a module was compiled, whatever names a global is the given fragment: in
the bodies of its functions and methods, and in what its constants and variables are set to. -/
structure Module.Uses (sources : Sources) (user : ModuleId) (module : Module) (session : Session)
    (id : ModuleId) (name : String) (e : Typed) : Prop where
  bodies : ∃ program, module.Hosted sources user session program ∧
    ∀ env : Env, env.program = program → env.Keeps id name e
  inits : ∀ init, (∃ decl ∈ module.file.consts, init = decl.value) ∨
      (∃ decl ∈ module.file.vars, decl.init = some init) →
    ∃ (env : Env) (routine : Routine) (value : Typed) (after : Routine), env.module = user ∧
      env.program.RetainsConsts user module.file session.program ∧ routine.scopes = [[]] ∧
      (operand init).value.exec env routine = (.ok value, after) ∧ env.Keeps id name e

/-- Each constant of a compiled program is the fragment of its initializer. That is made of
literals, constants, operators and conversions; besides, it may read variables and functions of
other modules. It reads nothing just if it is made of the former alone, and then it comes to the
same value wherever it is evaluated and changes nothing. All uses of the constant, in whatever
module, are that fragment. -/
theorem constants_fold {modules : List (String × String)} {withBuiltin : Bool} {text : String}
    {session : Session}
    (hRun : (SessionM.compileProgram (.ofList modules) withBuiltin text).exec .empty =
      (.ok (), session))
    {id : ModuleId} {module : Module} (hModule : session.program.module? id = some module)
    {decl : ConstDecl} (hDecl : decl ∈ module.file.consts) :
    ∃ e, session.program.globalValue? id decl.name = some (.expr e) ∧
      Folds (Sources.ofProgram modules text).files True (.outside module.name module.file)
        decl.value e.c ∧
      (e.c.Fixed ↔ Folds (Sources.ofProgram modules text).files False
        (.outside module.name module.file) decl.value e.c) ∧
      (e.c.Fixed → ∀ {V W : Type} (m : Meaning V W), m.Literal → ∀ outs outs' w w',
        e.c.eval m outs w = ((e.c.eval m outs' w').1, w)) ∧
      ∀ user other, session.program.module? user = some other →
        other.Uses (.ofProgram modules text) user session id decl.name e := by
  have hFolded {user : ModuleId} {other : Module}
      (hOther : session.program.module? user = some other) :=
    SessionM.compileProgram_remark hRun (Module.folded_lasts _) hOther
  obtain ⟨e, hValue, hFolds, -⟩ := (hFolded hModule).consts decl hDecl
  refine ⟨e, hValue, hFolds, hFolds.fixed_iff, fun hFixed {V W} m hLiteral outs outs' w w' =>
    hFixed.eval hLiteral outs outs' w w' e.c, fun user other hOther => ⟨?_, fun init hInit => ?_⟩⟩
  · obtain ⟨program, hHosted⟩ := SessionM.compileProgram_hosts hRun hOther
    refine ⟨program, hHosted, ?_⟩
    rintro env rfl
    refine .of_value fun e' hExpr => ?_
    have hLast := hHosted.values id decl.name e' hExpr
    exact Value.expr.inj (Option.some.inj (hLast.symm.trans hValue))
  · have hComes : ∃ value, init.ComesTo user other.file session.program value := by
      rcases hInit with ⟨found, hFound, rfl⟩ | ⟨found, hFound, hInit⟩
      · obtain ⟨value, -, -, hComes⟩ := (hFolded hOther).consts found hFound
        exact ⟨value, hComes⟩
      · exact (hFolded hOther).inits found hFound init hInit
    obtain ⟨value, env, routine, after, hOwn, hRetains, hScopes, hRan⟩ := hComes
    refine ⟨env, routine, value, after, hOwn, hRetains, hScopes, hRan, .of_value fun e' hExpr => ?_⟩
    have hHeld : id = user → decl.name ∈ other.file.names .const := by
      rintro rfl
      obtain rfl : module = other := Option.some.inj (hModule.symm.trans hOther)
      exact List.mem_map_of_mem hDecl
    have hLast := hRetains id decl.name e' hHeld hExpr
    exact Value.expr.inj (Option.some.inj (hLast.symm.trans hValue))

/-- Whether a value is the sum of two numbers. -/
def Value.isSum (left right : Nat) : Value → Bool
  | .expr ⟨.binary .add (.int l) (.int r), _⟩ => decide (l = left ∧ r = right)
  | _ => false

/-- A constant that is made of a constant of another module. -/
def foldingSource : String :=
  "import \"m\"\nconst d = m.c + 1\nfunc f() int \x7b\n return d\n\x7d\n"

theorem constants_fold_sum : ∃ (session : Session) (module : Module) (decl : ConstDecl) (e : Typed),
      (SessionM.compileProgram (.ofList constantModules) false foldingSource).exec .empty =
        (.ok (), session) ∧
      session.program.module? 0 = some module ∧ decl ∈ module.file.consts ∧
      e.c = .binary .add (.int 5) (.int 1) ∧
      Folds (Sources.ofProgram constantModules foldingSource).files False
        (.outside module.name module.file) decl.value e.c ∧
      module.Uses (.ofProgram constantModules foldingSource) 0 session 0 decl.name e := by
  have hRan : (SessionM.compileProgram (.ofList constantModules) false foldingSource).meets
      (fun session => (session.program.module? 0).any fun module =>
        module.file.consts.any fun decl =>
        (session.program.globalValue? 0 decl.name).any (·.isSum 5 1)) = true := by
    rw [@SessionM.compileProgram_of_toList _ _ foldingSource _ String.toList_ofList]
    decide +kernel
  obtain ⟨session, hRun, hFound⟩ := SessionM.exists_of_meets hRan
  obtain ⟨module, hModule, hAny⟩ := (Option.any_eq_true _ _).mp hFound
  obtain ⟨decl, hDecl, hCheck⟩ := List.any_eq_true.mp hAny
  obtain ⟨value, hGlobal, hSum⟩ := (Option.any_eq_true _ _).mp hCheck
  unfold Value.isSum at hSum
  split at hSum
  · next left right type =>
      obtain ⟨rfl, rfl⟩ := of_decide_eq_true hSum
      obtain ⟨e, hValue, -, hFixed, -, hUses⟩ := constants_fold hRun hModule hDecl
      obtain rfl : _ = e := Value.expr.inj (Option.some.inj (hGlobal.symm.trans hValue))
      exact ⟨session, module, decl, _, hRun, hModule, hDecl, rfl, hFixed.mp ⟨trivial, trivial⟩,
        hUses 0 module hModule⟩
  · cases hSum

/-- Whether a value is a variable or function of the C program. -/
def Value.isNamed : Value → Bool
  | .expr ⟨.global _, _⟩ => true
  | _ => false

/-- A module with a variable, and one that takes it for a constant. -/
def variableModules : List (String × String) := [("m", "var x int\n")]

def readingSource : String :=
  "import \"m\"\nconst c = m.x\nfunc f() int \x7b\n return c\n\x7d\n"

/-- It is not so that constants are made of literals, constants, operators and conversions alone. -/
theorem constants_fold_variable : compile (.ofList variableModules) false readingSource =
      .ok ("#include <stdio.h>\n#include \"runt.h\"\nP_int m__x;\nextern P_int main__f();\n" ++
        "P_int main__f() \x7b\nreturn m__x;\n\x7d\n") ∧
    ¬ ∀ (modules : List (String × String)) (withBuiltin : Bool) (text : String) (session : Session),
      (SessionM.compileProgram (.ofList modules) withBuiltin text).exec .empty = (.ok (), session) →
      ∀ id module, session.program.module? id = some module → ∀ decl ∈ module.file.consts,
      ∃ e, session.program.globalValue? id decl.name = some (.expr e) ∧
        Folds (Sources.ofProgram modules text).files False (.outside module.name module.file)
          decl.value e.c := by
  constructor
  · rw [@compile_of_toList _ _ readingSource _ String.toList_ofList]
    decide +kernel
  · intro h
    have hRan : (SessionM.compileProgram (.ofList variableModules) false readingSource).meets
        (fun session => (session.program.module? 0).any fun module =>
          module.file.consts.any fun decl =>
            (session.program.globalValue? 0 decl.name).any (·.isNamed)) = true := by
      rw [@SessionM.compileProgram_of_toList _ _ readingSource _ String.toList_ofList]
      decide +kernel
    obtain ⟨session, hRun, hFound⟩ := SessionM.exists_of_meets hRan
    obtain ⟨module, hModule, hAny⟩ := (Option.any_eq_true _ _).mp hFound
    obtain ⟨decl, hDecl, hCheck⟩ := List.any_eq_true.mp hAny
    obtain ⟨e, hValue, hFolds⟩ := h _ _ _ session hRun 0 module hModule decl hDecl
    obtain ⟨value, hGlobal, hNamed⟩ := (Option.any_eq_true _ _).mp hCheck
    unfold Value.isNamed at hNamed
    split at hNamed
    · next name type =>
        obtain rfl : _ = e := Value.expr.inj (Option.some.inj (hGlobal.symm.trans hValue))
        exact hFolds.fixed
    · cases hNamed

end GoToC
