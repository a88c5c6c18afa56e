import GoToC.Proofs.Session.Visited

/-!
# What can be assigned to

What an assignment stores to is a variable of the function, a variable of a module, a field or an
element. A name that is not qualified is looked at before it is assigned to, and so it is no
constant and no function. A name that is qualified is not looked at: it may be any global that has a
value.
-/

namespace GoToC

variable {name : String} {targets : List Expr}

/-- An expression that something can be stored to where given blocks are open: a name that they
bind, a global that is a variable, a field of a value, or an element. A global of a given module may
be of some more kinds. -/
inductive Stores (files : String → SourceFile → Prop) (file : SourceFile) (env : Env)
    (scopes : List Scope) (qualified : List GlobalKind) : Expr → Prop
  | bound {span name} : (scopes.findSome? (·.lookup name)).isSome = true →
      Stores files file env scopes qualified (.ident span name)
  | global {span name owner source} :
      (env.point file scopes).Sees files name owner source → source.DeclaresAs name .var →
      Stores files file env scopes qualified (.ident span name)
  | imported {span receiver name owner source kind} :
      (env.point file scopes).NamesModule files receiver owner → files owner source →
      source.DeclaresAs name kind → kind ∈ qualified →
      Stores files file env scopes qualified (.dot span receiver name)
  | field {span place receiver name value found record field routine first after} :
      routine.scopes = scopes → (compileExpr receiver).exec env routine = (.ok value, first) →
      (RoutineM.toSingle place value).exec env first = (.ok found, after) →
      env.program.types.pointeeStruct? found.type = .ok (some record) →
      record.field? name = some field →
      Stores files file env scopes qualified (.dot span receiver name)
  | element {span receiver position} :
      Stores files file env scopes qualified (.index span receiver position)

/-- Whether a form of assignment stores to what is on its left side. -/
def AssignOp.stores : AssignOp → Bool
  | .set | .compound _ | .inc | .dec => true
  | .define | .lone => false

variable {files : String → SourceFile → Prop} {file : SourceFile} {env : Env} {scopes : List Scope}

/-- The name of a module does not stand for a value. -/
theorem Mirrors.not_import {point : Point} {span : Span} {tree : CTree}
    (h : Mirrors files point (.ident span name) tree) (hFree : point.locals name = none) :
    ¬ point.file.DeclaresAs name .import := by
  intro hImport
  have hDeclared : point.file.Declares name := by
    obtain ⟨decl, hDecl, -, hName⟩ := Declaration.exists_ofFile_iff.mpr hImport.1
    exact ⟨decl, hDecl, hName⟩
  cases h with
  | bound hBound => simp [hFree] at hBound
  | known _ hNot => exact hNot hDeclared
  | global hSees hGlobal =>
      cases hSees with
      | own =>
          obtain ⟨kind, hKind, hName⟩ := hGlobal.exists_kind
          rw [hImport.2 kind hName] at hKind
          simp [GlobalKind.valued] at hKind
      | shared _ hNot => exact hNot hDeclared

namespace Yields

/-- A name that can be assigned to is bound in a block, or it is that of a variable. -/
theorem isAssignable (hEnv : env.Faithful files file) (hTells : env.program.Tells)
    (qualified : List GlobalKind) (span : Span) (name : String) :
    Yields env scopes False (RoutineM.isAssignable name) fun assignable =>
      assignable = true → Stores files file env scopes qualified (.ident span name) := by
  obtain ⟨own, hOwn, hPackage, hFile⟩ := hEnv.own
  refine .bind .read fun found hFound => .bind .get fun routine hScopes => ?_
  rw [hFound, Routine.isBound, Routine.binding?, hScopes]
  dsimp only
  split
  · next hBound => exact .pure fun _ => .bound hBound
  · next hFree =>
      have hLocals : (env.point file scopes).locals name = none := by
        show (scopes.findSome? (·.lookup name)).map (·.c) = none
        rw [Option.not_isSome_iff_eq_none.mp hFree]
        rfl
      have hDeclares (id : ModuleId) (module : Module)
          (hModule : env.program.module? id = some module) (global : Global)
          (hGlobal : env.program.global? id name = some global) (hKind : global.kind = .var) :
          module.file.DeclaresAs name .var := by
        obtain ⟨hDistinct, hNames⟩ := hTells id module hModule
        rw [Program.global?, hModule] at hGlobal
        exact SourceFile.declaresAs hDistinct (hKind ▸ hNames name global hGlobal)
      split
      · next global hGlobal =>
          refine .pure fun hVar => ?_
          have hOwns := hDeclares env.module own hOwn global hGlobal (by simpa using hVar)
          rw [hFile] at hOwns
          have hDeclared : file.Declares name := by
            obtain ⟨decl, hDecl, -, hName⟩ := Declaration.exists_ofFile_iff.mpr hOwns.1
            exact ⟨decl, hDecl, hName⟩
          exact .global (.own hLocals hDeclared) hOwns
      · next hNone =>
          have hUndeclared : ¬ file.Declares name := by
            intro hDeclared
            have hEntered := hEnv.entered name hDeclared
            rw [hNone] at hEntered
            cases hEntered
          refine .pure fun hVar => ?_
          obtain ⟨builtin, hBuiltin⟩ : ∃ builtin, env.program.builtin = some builtin := by
            cases hBuiltin : env.program.builtin with
            | none => simp [hBuiltin] at hVar
            | some builtin => exact ⟨builtin, rfl⟩
          obtain ⟨shared, hShared, hName⟩ := hEnv.program.builtin builtin hBuiltin
          cases hGlobal : env.program.global? builtin name with
          | none => simp [hBuiltin, hGlobal] at hVar
          | some global =>
              have hShares := hEnv.program.file builtin shared hShared
              rw [hName] at hShares
              exact .global (.shared hLocals hUndeclared hShares)
                (hDeclares builtin shared hShared global hGlobal
                  (by simpa [hBuiltin, hGlobal] using hVar))

/-- What a global stands for is a value only if it has one. -/
theorem globalValue {id : ModuleId} {value : Value}
    (h : env.program.globalValue? id name = some value) (span : Span) :
    Yields env scopes False (RoutineM.toExpr span value) fun found => value = .expr found := by
  obtain ⟨global, hGlobal, hValue⟩ := Option.map_eq_some_iff.mp h
  split at hValue
  · next built hBuilt =>
      subst hValue
      cases built with
      | expr found => exact .pure rfl
      | type | module => exact .error _ _
  · subst hValue
    exact .error _ _
  · next hNone _ =>
      subst hValue
      rw [RoutineM.toExpr]
      refine .bind .read fun found hFound => ?_
      rw [hFound, hGlobal, Option.bind_some, hNone]
      exact .error _ _

/-- A global of a given module stands for a value only if it is a variable, a constant or a
function. -/
theorem valuedMember (hEnv : env.Faithful files file) (hTells : env.program.Tells) (id : ModuleId)
    (member : String) (span place : Span) :
    Yields env scopes False (do RoutineM.toSingle place (← ExprRule.moduleMember id member span))
      fun _ => ∃ module kind, env.program.module? id = some module ∧
        module.file.DeclaresAs member kind ∧ kind ∈ GlobalKind.valued := by
  refine (Yields.moduleMember id member span).bind fun value hValue =>
    .bind (.globalValue hValue place) fun e he => ?_
  subst he
  exact (Yields.single e place).mono fun _ _ => hTells.valued hEnv.program hValue

/-- A member of a value is a field of it or a method. -/
theorem valueMember (receiver : Typed) (member : String) (span : Span) :
    Yields env scopes False (ExprRule.valueMember receiver member span) fun value =>
      (∃ record field, env.program.types.pointeeStruct? receiver.type = .ok (some record) ∧
        record.field? member = some field) ∨ ∃ bound, value = .method bound := by
  have hMethod (callee c : CExpr) (method : Option (Member Ty)) :
      Yields env scopes False (do
        ExprRule.foundMethod receiver member span (← ExprRule.boundMethod? callee c method))
        fun value => ∃ bound, value = .method bound := by
    have hBound : Yields env scopes False (ExprRule.boundMethod? callee c method) fun found =>
        ∀ value ∈ found, ∃ bound, value = .method bound := by
      cases method with
      | none => exact .pure (by simp)
      | some method =>
          refine .bind (.types _) fun func _ => .pure ?_
          rintro _ hValue
          obtain ⟨func, -, rfl⟩ := Option.map_eq_some_iff.mp hValue
          exact ⟨_, rfl⟩
    refine hBound.bind fun found hFound => ?_
    cases found with
    | none => exact .error _ _
    | some value => exact .pure (hFound value rfl)
  refine .bind (.types _) fun pointee hPointee => ?_
  split
  · next record =>
      split
      · next field hField => exact .pure (.inl ⟨record, field, hPointee, hField⟩)
      · exact .bind (.asked .read) fun _ _ => (hMethod _ _ _).mono fun _ => .inr
  · refine .bind (.types _) fun found _ => ?_
    split
    · exact (hMethod _ _ _).mono fun _ => .inr
    · exact .error _ _

/-- A member is stored to if it stands for a value. -/
theorem dot (hEnv : env.Faithful files file) (hTells : env.program.Tells) (span : Span)
    (receiver : Expr) (member : String) :
    Yields env scopes False (operand (.dot span receiver member)).value fun _ =>
      Stores files file env scopes GlobalKind.valued (.dot span receiver member) := by
  intro routine found after hScopes hRun
  have hValue : Composed .expr .any (operand (.dot span receiver member)).value :=
    value_composed .expr _
  refine ⟨?_, (hValue.yields env scopes routine found after hScopes hRun).2⟩
  obtain ⟨dotted, middle, hDot, hSingle⟩ := RoutineM.bind_eq_ok.mp hRun
  rw [operand, compileExpr] at hDot
  obtain ⟨value, first, hReceiver, hMember⟩ := RoutineM.bind_eq_ok.mp hDot
  obtain ⟨hMirrors, hFirst, -⟩ :=
    compileExpr_mirrored hEnv scopes receiver routine value first hScopes hReceiver
  split at hMember
  · next id =>
      obtain ⟨module, hModule, hNames⟩ := hMirrors
      obtain ⟨⟨same, kind, hSame, hDeclares, hKind⟩, -⟩ :=
        valuedMember hEnv hTells id member span _ first found after hFirst
          (RoutineM.bind_eq_ok.mpr ⟨dotted, middle, hMember, hSingle⟩)
      obtain rfl : module = same := Option.some.inj (hModule.symm.trans hSame)
      exact .imported hNames (hEnv.program.file id module hModule) hDeclares hKind
  · obtain ⟨receiver, next, hOne, hLast⟩ := RoutineM.bind_eq_ok.mp hMember
    have hSame := (RoutineM.Idle.toSingle span value).asks env first
    rw [hOne] at hSame
    obtain rfl : next = first := hSame
    obtain ⟨hFound, -⟩ := valueMember receiver member span next dotted middle hFirst hLast
    rcases hFound with ⟨record, field, hRecord, hField⟩ | ⟨bound, rfl⟩
    · exact .field hScopes hReceiver hOne hRecord hField
    · cases hSingle

/-- What is compiled as a target is something that can be stored to. -/
theorem place (hEnv : env.Faithful files file) (hTells : env.program.Tells) (target : Expr) :
    Yields env scopes False (StmtRule.place (operand target)) fun _ =>
      Stores files file env scopes GlobalKind.valued target := by
  have hRest (assignable : Bool) (h : assignable = true →
      Yields env scopes False (operand target).value fun _ =>
        Stores files file env scopes GlobalKind.valued target) : Yields env scopes False (do
      if !assignable then RoutineM.error (operand target).span (.invalidTarget .notAssignable)
      (operand target).value) fun _ => Stores files file env scopes GlobalKind.valued target := by
    cases assignable with
    | true => exact h rfl
    | false =>
        intro routine found after _ hRun
        cases hRun
  have hValue {good : Prop} (h : good) :
      Yields env scopes False (operand target).value fun _ => good := by
    have hComposed : Composed .expr .any (operand target).value := value_composed .expr target
    exact (hComposed.yields env scopes).mono fun _ _ => h
  unfold StmtRule.place
  cases target with
  | ident span name =>
      exact (isAssignable hEnv hTells _ span name).bind fun assignable hAssignable =>
        hRest assignable fun hTrue => hValue (hAssignable hTrue)
  | dot span receiver member =>
      exact hRest true fun _ => dot hEnv hTells span receiver member
  | index span receiver position =>
      exact hRest true fun _ => hValue .element
  | _ => exact hRest false nofun

/-- A target that is blank takes any value. -/
theorem assignTo (hEnv : env.Faithful files file) (hTells : env.program.Tells) (target : Expr)
    (value : Typed) (span : Span) :
    Yields env scopes False (StmtRule.assignTo (operand target) value span) fun _ =>
      target.ident? ≠ some "_" → Stores files file env scopes GlobalKind.valued target := by
  unfold StmtRule.assignTo
  split
  · next hBlank => exact (emit _ id).mono fun _ _ hNamed => absurd hBlank hNamed
  · exact (place hEnv hTells target).bind fun found hStores =>
      .bind (.asked (RoutineM.Idle.convert _ _ _ _).asks)
      fun c _ => .bind (.types _) fun cType _ => (emit _ id).mono fun _ _ _ => hStores

end Yields

/-- All of the targets that are not blank can be stored to. -/
def StoresAll (files : String → SourceFile → Prop) (file : SourceFile) (env : Env)
    (scopes : List Scope) (qualified : List GlobalKind) (targets : List Expr) : Prop :=
  ∀ target ∈ targets, target.ident? ≠ some "_" → Stores files file env scopes qualified target

theorem StoresAll.cons {qualified : List GlobalKind} {target : Expr} {targets : List Expr}
    (h : target.ident? ≠ some "_" → Stores files file env scopes qualified target)
    (hRest : StoresAll files file env scopes qualified targets) :
    StoresAll files file env scopes qualified (target :: targets) :=
  List.forall_mem_cons.mpr ⟨h, hRest⟩

theorem StoresAll.single {qualified : List GlobalKind} {target : Expr}
    (h : Stores files file env scopes qualified target) :
    StoresAll files file env scopes qualified [target] :=
  .cons (fun _ => h) (by simp [StoresAll])

namespace Yields

theorem compiled (e : Expr) : Yields env scopes False (operand e).value fun _ => True := by
  have hComposed : Composed .expr .any (operand e).value := value_composed .expr e
  exact hComposed.yields env scopes

theorem assignAll (hEnv : env.Faithful files file) (hTells : env.program.Tells) (span : Span)
    {values : List Expr} (hLength : targets.length = values.length) :
    Yields env scopes False
      (StmtRule.assignAll span (targets.map operand) (values.map operand)) fun _ =>
        StoresAll files file env scopes GlobalKind.valued targets := by
  induction targets generalizing values with
  | nil =>
      rw [List.length_nil, eq_comm, List.length_eq_zero_iff] at hLength
      subst hLength
      exact .pure (by simp [StoresAll])
  | cons target rest ih =>
      cases values with
      | nil => cases hLength
      | cons first others =>
          exact .bind (compiled first) fun value _ => (assignTo hEnv hTells target value span).bind
            fun _ hStores => (ih (Nat.succ.inj hLength)).mono fun _ hRest => .cons hStores hRest

theorem assignEach (hEnv : env.Faithful files file) (hTells : env.program.Tells) (span : Span)
    {results : List Typed} (hLength : results.length = targets.length) :
    Yields env scopes False
      (StmtRule.assignResults.assignEach span (targets.map operand) results) fun _ =>
        StoresAll files file env scopes GlobalKind.valued targets := by
  induction targets generalizing results with
  | nil =>
      cases results with
      | nil => exact .pure (by simp [StoresAll])
      | cons => cases hLength
  | cons target rest ih =>
      cases results with
      | nil => cases hLength
      | cons result others =>
          exact (assignTo hEnv hTells target result span).bind fun _ hStores =>
            (ih (Nat.succ.inj hLength)).mono fun _ hRest => .cons hStores hRest

theorem assignFromCall (hEnv : env.Faithful files file) (hTells : env.program.Tells)
    (targets : List Expr) (call : Expr) (span : Span) :
    Yields env scopes False
      (StmtRule.assignFromCall (targets.map operand) (operand call) false span) fun _ =>
        StoresAll files file env scopes GlobalKind.valued targets := by
  have hCall : Composed .expr .any (operand call).compile :=
    compileExpr_composed .expr call
  show Yields env scopes False
    (StmtRule.assignCalled (targets.map operand) (operand call) none span) _
  refine .bind (hCall.yields env scopes) fun value _ =>
    .bind (.asked (RoutineM.Idle.toExpr span value).asks)
    fun found _ => .bind (.types _) fun several _ => ?_
  split
  · next members =>
      dsimp only
      split
      · intro routine _ after _ hRun
        cases hRun
      · next hLength =>
          refine .bind (.emit _ id) fun _ _ => assignEach hEnv hTells span ?_
          simpa using hLength
  · dsimp only
    split
    · exact .bind (.types _) fun _ _ => .error _ _
    · exact .error _ _

theorem setTargets (hEnv : env.Faithful files file) (hTells : env.program.Tells)
    (targets values : List Expr) (span : Span) :
    Yields env scopes False
      (StmtRule.setOrDefine false (targets.map operand) (values.map operand) span) fun _ =>
        StoresAll files file env scopes GlobalKind.valued targets := by
  have hEqual : Yields env scopes False (do
      if (targets.map operand).length ≠ (values.map operand).length then
        RoutineM.error span (.resultCount
          (.assignCount (targets.map operand).length (values.map operand).length))
      StmtRule.assignAll span (targets.map operand) (values.map operand)) fun _ =>
        StoresAll files file env scopes GlobalKind.valued targets := by
    dsimp only
    split
    · intro routine _ after _ hRun
      cases hRun
    · next hLength => exact assignAll hEnv hTells span (by simpa using hLength)
  match targets, values with
  | _ :: _ :: _, [call] => exact assignFromCall hEnv hTells _ call span
  | _ :: _ :: _, [] | _ :: _ :: _, _ :: _ :: _ | [_], _ | [], _ => exact hEqual

/-- An assignment stores to all of its targets. -/
theorem assign (hEnv : env.Faithful files file) (hTells : env.program.Tells) {op : AssignOp}
    (hOp : op.stores = true) (targets values : List Expr) (span : Span) :
    Yields env scopes False (StmtRule.assign op (operands targets) (operands values) span) fun _ =>
      StoresAll files file env scopes GlobalKind.valued targets := by
  rw [operands_eq_map, operands_eq_map]
  have hStep : Yields env scopes False (StmtRule.stepTarget (targets.map operand) span) fun _ =>
      StoresAll files file env scopes GlobalKind.valued targets := by
    match targets with
    | [target] => exact (place hEnv hTells target).bind fun _ hStores => .pure (.single hStores)
    | [] | _ :: _ :: _ => exact .error _ _
  cases op with
  | inc => exact hStep.bind fun _ hStores => (emit _ id).mono fun _ _ => hStores
  | dec => exact hStep.bind fun _ hStores => (emit _ id).mono fun _ _ => hStores
  | compound bin =>
      match targets, values with
      | [target], [value] =>
          exact (place hEnv hTells target).bind fun _ hStores =>
            .bind (compiled value) fun _ _ => (emit _ id).mono fun _ _ => .single hStores
      | [], _ | _ :: _ :: _, _ | [_], [] | [_], _ :: _ :: _ => exact .error _ _
  | set => exact setTargets hEnv hTells targets values span
  | define | lone => cases hOp

end Yields

/-- Each assignment of a compiled program stores to variables, fields and elements only, but for
constants and functions that are named with their module, at the point where it is compiled. -/
theorem assignments_store {modules : List (String × String)} {withBuiltin : Bool} {text : String}
    {session : Session}
    (hRun : (SessionM.compileProgram (.ofList modules) withBuiltin text).exec .empty =
      (.ok (), session))
    {id : ModuleId} {module : Module} (hModule : session.program.module? id = some module)
    {decl : FuncDecl} (hDecl : decl ∈ module.file.funcs ∨ decl ∈ module.file.methods)
    {body : List Stmt} (hBody : decl.body = some body) {span : Span} {op : AssignOp}
    {targets values : List Expr} {seen : List String} {path : List StmtPart}
    {host : RoutineM Unit → RoutineM Unit} (hOp : op.stores = true)
    (hAt : (Stmt.assign span op targets values).At seen path host (blockNames decl.declaredNames)
      body) :
    ∃ func env supply after env' routine between,
      decl.CompilesTo (.ofProgram modules text) session module body func env supply after ∧
      decl.Passes (.ofProgram modules text) module.file func host seen env supply env' routine ∧
      (compileStmt (.assign span op targets values)).exec env' routine = (.ok (), between) ∧
      StoresAll (Sources.ofProgram modules text).files module.file env' routine.scopes
        GlobalKind.valued targets := by
  obtain ⟨func, env, supply, after, env', routine, between, hCompiled, hPasses, hStmt⟩ :=
    SessionM.compileProgram_passes hRun hModule hDecl hBody hAt
  refine ⟨func, env, supply, after, env', routine, between, hCompiled, hPasses, hStmt, ?_⟩
  obtain ⟨result, loop, hEnv, -⟩ := hPasses.inside
  have hTells : env'.program.Tells := by
    rw [hEnv]
    exact SessionM.compileProgram_tells hRun hCompiled.modules
  rw [compileStmt] at hStmt
  exact (Yields.assign hPasses.reaches.faithful hTells hOp targets values span routine ()
    between rfl hStmt).1

/-- A function that sets a variable of the module and an element of its input. -/
def settingSource : String := "var x int\nfunc f(a []int) \x7b\n x, a[0] = 1, 2\n\x7d\n"

theorem assignments_store_two :
    ∃ (module : Module) (decl : FuncDecl) (span : Span) (targets values : List Expr)
      (func : FuncType Ty) (host : RoutineM Unit → RoutineM Unit) (start : Env) (supply : Supply)
      (env : Env) (routine between : Routine),
      (runOf settingSource).2.program.module? 0 = some module ∧
      decl.Passes (.ofProgram [] settingSource) module.file func host
        (blockNames decl.declaredNames) start supply env routine ∧
      (compileStmt (.assign span .set targets values)).exec env routine = (.ok (), between) ∧
      targets.map (·.ident?) = [some "x", none] ∧
      StoresAll (Sources.ofProgram [] settingSource).files module.file env routine.scopes
        GlobalKind.valued targets := by
  have hRan : (runOf settingSource).1 = true ∧ ((runOf settingSource).2.program.module? 0).any
      (fun module => module.file.funcs.any fun decl => decl.sole?.any fun stmt =>
        match stmt with
        | .assign _ .set targets _ => decide (targets.map (·.ident?) = [some "x", none])
        | _ => false) = true := by
    rw [@runOf_of_toList settingSource _ String.toList_ofList]
    decide +kernel
  obtain ⟨hDone, hFound⟩ := hRan
  obtain ⟨module, decl, stmt, hModule, hDecl, hBody, hCheck⟩ := Program.exists_sole hFound
  split at hCheck
  · next span targets values =>
      obtain ⟨func, start, supply, after, env, routine, between, -, hPasses, hStmt, hStores⟩ :=
        assignments_store (runOf_complete hDone) hModule (.inl hDecl) hBody rfl .first
      exact ⟨module, decl, span, targets, values, func, _, start, supply, env, routine, between,
        hModule, hPasses, hStmt, of_decide_eq_true hCheck, hStores⟩
  · cases hCheck

/-- Whether a statement changes a member of what is named. -/
def Stmt.changesMember (receiver name : String) : Stmt → Bool
  | .assign _ (.compound _) [.dot _ (.ident _ r) n] _ => decide (r = receiver ∧ n = name)
  | _ => false

/-- A module with a constant, and one that changes it. -/
def constantModules : List (String × String) := [("m", "const c = 5\n")]

def changingSource : String := "import \"m\"\nfunc f() \x7b\n m.c += 1\n\x7d\n"

/-- It is not so that only variables of other modules are assigned to. -/
theorem assignments_store_constant : compile (.ofList constantModules) false changingSource =
      .ok ("#include <stdio.h>\n#include \"runt.h\"\nextern void main__f();\n" ++
        "void main__f() \x7b\n(5) += (1);\n\x7d\n") ∧
    ¬ ∀ (modules : List (String × String)) (withBuiltin : Bool) (text : String) (session : Session),
      (SessionM.compileProgram (.ofList modules) withBuiltin text).exec .empty = (.ok (), session) →
      ∀ id module, session.program.module? id = some module →
      ∀ decl, decl ∈ module.file.funcs ∨ decl ∈ module.file.methods →
      ∀ body, decl.body = some body → ∀ span op targets values seen path host, op.stores = true →
      (Stmt.assign span op targets values).At seen path host (blockNames decl.declaredNames) body →
      ∃ func env supply after env' routine between,
        decl.CompilesTo (.ofProgram modules text) session module body func env supply after ∧
        decl.Passes (.ofProgram modules text) module.file func host seen env supply env' routine ∧
        (compileStmt (.assign span op targets values)).exec env' routine = (.ok (), between) ∧
        StoresAll (Sources.ofProgram modules text).files module.file env' routine.scopes [.var]
          targets := by
  constructor
  · rw [@compile_of_toList _ _ changingSource _ String.toList_ofList]
    decide +kernel
  · intro h
    have hRan : (SessionM.compileProgram (.ofList constantModules) false changingSource).meets
        (fun session => (session.program.module? 0).any
          (fun module => module.file.funcs.any fun decl => decl.sole?.any fun stmt =>
            stmt.changesMember "m" "c" &&
              decide (decl.declaredNames = [] ∧ "m" ∈ module.file.names .import))) = true := by
      rw [@SessionM.compileProgram_of_toList _ _ changingSource _ String.toList_ofList]
      decide +kernel
    obtain ⟨session, hRun, hFound⟩ := SessionM.exists_of_meets hRan
    obtain ⟨module, decl, stmt, hModule, hDecl, hBody, hCheck⟩ := Program.exists_sole hFound
    obtain ⟨hStmt, hRest⟩ := Bool.and_eq_true_iff.mp hCheck
    obtain ⟨hNames, hImport⟩ := of_decide_eq_true hRest
    unfold Stmt.changesMember at hStmt
    split at hStmt
    · next span op place inner receiver name values =>
        obtain ⟨rfl, rfl⟩ := of_decide_eq_true hStmt
        obtain ⟨func, start, supply, after, env, routine, between, -, hPasses, -, hStores⟩ :=
          h constantModules false changingSource session hRun 0 module hModule decl
            (.inl hDecl) _ hBody span _ _ values _ _ _ rfl .first
        have hFree : (env.point module.file routine.scopes).locals "m" = none := by
          have hUnbound := (hPasses.names "m").not.mpr (by simp [hNames, blockNames])
          rw [Routine.isBound, Option.not_isSome_iff_eq_none] at hUnbound
          exact congrArg (Option.map (·.c)) hUnbound
        have hStored := hStores _ List.mem_cons_self (by simp [Expr.ident?])
        cases hStored with
        | @imported _ _ _ _ source kind hNamed hSource hDeclares hKind =>
            obtain rfl : kind = .var := by simpa using hKind
            cases hNamed
            obtain ⟨text, hText, hParse⟩ := hSource
            obtain rfl : text = "const c = 5\n" := by
              simpa [Sources.ofProgram, constantModules, SessionM.mainName] using hText
            have hNone : (parse "const c = 5\n").toOption.map (·.names .var) = some [] := by
              rw [parse_of_toList String.toList_ofList]
              decide +kernel
            have hVars : source.names .var = [] := by simpa [hParse, Except.toOption] using hNone
            have hName := hDeclares.1
            rw [hVars] at hName
            cases hName
        | @field _ place _ _ value _ _ _ _ _ _ hScopes hValue hSingle =>
            obtain ⟨hMirrors, hFirst, -⟩ := compileExpr_mirrored hPasses.reaches.faithful
              routine.scopes (.ident inner "m") _ _ _ hScopes hValue
            have hSingles :
              Yields env routine.scopes False (RoutineM.toSingle place value) fun found =>
                Mirrors _ (env.point module.file routine.scopes) (.ident inner "m") found.c.tree :=
              .toSingle _ hMirrors
            obtain ⟨hTree, -⟩ := hSingles _ _ _ hFirst hSingle
            have hDistinct := (SessionM.compileProgram_entered hRun hModule).distinct
            exact hTree.not_import hFree (SourceFile.declaresAs hDistinct hImport)
    · cases hStmt

end GoToC
