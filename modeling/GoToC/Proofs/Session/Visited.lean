import GoToC.Proofs.Routine.VisitsStmt
import GoToC.Proofs.Session.Finished

/-!
# Statements of a compiled program

Bodies and statements of a compiled program, and what is written for them.
-/

/-!
## Fragments are read as the expressions they come from

Wherever an expression is compiled in a program whose modules have names that C takes for
names, its fragment is read by the rules of C as a tree that mirrors the expression. A module
of another name is compiled all the same, and then the names of its globals fall apart.
-/

namespace GoToC

/-- An environment that is as those in which a module is compiled, and a routine that is as those
which are compiled in it: the program is faithful to the sources, and what the blocks bind is
sound. -/
structure Env.Reaches (sources : Sources) (file : SourceFile) (env : Env) (routine : Routine) :
    Prop where
  faithful : env.Faithful sources.files file
  sound : ∃ s : Setting, s.types = s.values ∧
    (∃ handle function, s.values = sources.known handle function) ∧
    env.Sound s ∧ routine.Sound s.values

variable {sources : Sources} {file : SourceFile} {env : Env} {routine after : Routine}

theorem Env.Occurs.reaches (h : env.Occurs sources file) (supply : Supply) :
    env.Reaches sources file (Routine.start supply) := by
  obtain ⟨s, hWhole, hKnown, hSound⟩ := h.sound
  exact ⟨h.faithful, s, hWhole, hKnown, hSound, .start _ _⟩

/-- The words of a program whose types of types are known to be mentioned or not. -/
theorem Known.word_eq {k k' : Known} (h : k.metatype = k'.metatype) : k.Word = k'.Word := by
  unfold Known.Word
  rw [h]

/-- The fragment of an expression, read by the rules of C, mirrors the expression. -/
theorem read_fragment (h : env.Reaches sources file routine) (hStrict : sources.strict)
    {e : Expr} (hFormed : e.Formed (sources.known (fun _ => False) False).Word) {span : Span}
    {found : Typed}
    (hRun : (do RoutineM.toExpr span (← compileExpr e)).exec env routine = (.ok found, after)) :
    ∃ tree, CReader.read found.c.render = some tree ∧
      Mirrors sources.files (env.point file routine.scopes) e tree := by
  obtain ⟨s, hWhole, ⟨handle, function, hKnown⟩, hEnv, hRoutine⟩ := h.sound
  have hWords : s.types.Word = (sources.known (fun _ => False) False).Word :=
    Known.word_eq (by rw [hWhole, hKnown]; rfl)
  have hSafe : Safe s (do RoutineM.toExpr span (← compileExpr e)) (Typed.Result s.values) :=
    (compileExpr_safe hWhole e (hWords ▸ hFormed)).bind fun _ hValue => .toExpr span hValue
  have hMirrored : Yields env routine.scopes False (do RoutineM.toExpr span (← compileExpr e)) _ :=
    .bind (compileExpr_mirrored h.faithful routine.scopes e) fun _ hValue => .toExpr span hValue
  have hResult := hSafe env routine hEnv hRoutine
  rw [hRun] at hResult
  have hFits : found.c.Fits True := by
    have hAny : found.c.Fits s.values.strict := hResult.1.elim (·.fits) (·.1)
    exact hAny.mono fun _ => by rw [hKnown]; exact hStrict
  exact ⟨found.c.tree, CReader.read_render hFits, (hMirrored routine found after rfl hRun).1⟩

/-- A function that is compiled in an environment that occurs. -/
def productSource : String := "func f() int \x7b return (1 - 2) * 3 \x7d\n"

theorem read_fragment_product : ∃ (file : SourceFile) (env : Env) (routine : Routine),
      env.Reaches (.ofProgram [] productSource) file routine ∧
      ∃ tree, CReader.read "((1 - 2) * 3)" = some tree ∧
        Mirrors (Sources.ofProgram [] productSource).files (env.point file routine.scopes)
          (.binary .nowhere .mul
            (.binary .nowhere .sub (.int .nowhere 1) (.int .nowhere 2)) (.int .nowhere 3))
              tree := by
  have hRan : (runOf productSource).1 = true ∧
      [] ∈ (runOf productSource).2.output.toList.filterMap CItem.funcLocals? := by
    rw [@runOf_of_toList productSource _ String.toList_ofList]
    decide +kernel
  obtain ⟨hDone, hNames⟩ := hRan
  have hRun := runOf_complete hDone
  obtain ⟨item, hItem, hLocals⟩ := List.mem_filterMap.mp hNames
  have hAccounts := compileProgram_accounts hRun hItem
  unfold CItem.funcLocals? at hLocals
  split at hLocals
  · obtain ⟨-, file, -, -, func, -, env, supply, -, -, -, -, -, hOccurs, -⟩ := hAccounts
    have hReaches := hOccurs.reaches supply
    have hStrict : (Sources.ofProgram [] productSource).strict := by
      intro entry hEntry
      rw [List.mem_singleton.mp hEntry]
      exact ⟨by decide +kernel, by decide +kernel⟩
    refine ⟨file, env, Routine.start supply, hReaches, ?_⟩
    obtain ⟨tree, hTree, hMirrors⟩ := @read_fragment _ file env (.start supply) (.start supply)
      hReaches hStrict (.binary .nowhere .mul
        (.binary .nowhere .sub (.int .nowhere 1) (.int .nowhere 2)) (.int .nowhere 3))
      (by simp [Expr.Formed]) .nowhere _ rfl
    exact ⟨tree, hTree, hMirrors⟩
  · cases hLocals

/-- The outermost operator of a tree. -/
def CTree.sign? : CTree → Option String
  | .unary sign _ => some sign
  | .binary sign _ _ => some sign
  | _ => none

/-- In a module whose name has a hyphen, a product is read as a difference. -/
theorem read_fragment_hyphen :
    compile (.ofList [("a-b", "var x int\nfunc f() int \x7b return x * 2 \x7d\n")]) false
        "import \"a-b\"\n" =
      .ok ("#include <stdio.h>\n#include \"runt.h\"\nP_int a-b__x;\nextern P_int a-b__f();\n" ++
        "P_int a-b__f() \x7b\nreturn (a-b__x * 2);\n\x7d\n") ∧
    (CReader.read "(a-b__x * 2)").bind CTree.sign? = some "-" := by
  decide +kernel

end GoToC

/-!
## Bodies of a compiled program

Each function or method of a compiled program that has a body was compiled where routines are
sound, and its routine is part of the output.
-/

namespace GoToC

variable {id : ModuleId} {session : Session}

variable {sources : Sources}

theorem FuncDecl.Hosted.grow {file : SourceFile} {program : Program} {output output' : List CItem}
    {decl : FuncDecl} (h : decl.Hosted sources id file program output)
    (hOutput : output ⊆ output') : decl.Hosted sources id file program output' := by
  intro body hBody
  obtain ⟨func, prototype, cName, env, supply, after, hAssigns, hLike, hHosts, hModule, hProgram,
    hPrototype, hRun, hItem⟩ := h body hBody
  exact ⟨func, prototype, cName, env, supply, after, hAssigns, hLike, hHosts, hModule, hProgram,
    hPrototype, hRun, hOutput hItem⟩

theorem Job.Touches.output_subset {job : Job} {before after : Session}
    (h : job.Touches before after) : before.output.toList ⊆ after.output.toList := by
  obtain ⟨items, hItems⟩ := h.output
  simp [hItems]

/-- A loop that makes something of each item, which later rounds keep. -/
theorem Runs.forM_each {α : Type} {bad : Session → Failure → Prop} {items : List α}
    {f : α → SessionM PUnit} (inv : Session → Prop) (made : α → Session → Prop) (h : inv session)
    (hStep : ∀ item ∈ items, ∀ before, inv before → Runs bad before (f item) fun _ after =>
      inv after ∧ made item after ∧ ∀ other, made other before → made other after) :
    Runs bad session (items.forM f) fun _ after => inv after ∧ ∀ item ∈ items, made item after := by
  let todo (rest : List α) (after : Session) : Prop :=
    inv after ∧ rest ⊆ items ∧ ∀ item ∈ items, item ∈ rest ∨ made item after
  have hStart : todo items session := ⟨h, List.Subset.refl items, fun _ => .inl⟩
  refine (Runs.forM todo hStart fun item rest before hBefore => ?_).mono fun _ after hAfter => ?_
  · obtain ⟨hInv, hRest, hMade⟩ := hBefore
    refine (hStep item (hRest List.mem_cons_self) before hInv).mono fun _ after hAfter => ?_
    obtain ⟨hInv', hItem, hKept⟩ := hAfter
    refine ⟨hInv', fun _ hOther => hRest (List.mem_cons_of_mem item hOther), fun other hOther => ?_⟩
    rcases hMade other hOther with hLeft | hDone
    · rcases List.mem_cons.mp hLeft with rfl | hLeft
      · exact .inr hItem
      · exact .inl hLeft
    · exact .inr (hKept other hDone)
  · simpa [todo] using And.intro hAfter.1 hAfter.2.2

namespace Job

variable {start session : Session} {job : Job} {handle : Nat → Prop} {function : Prop}
  {program : Program}

/-- Writing a declared function touches its own module only. -/
theorem touches_writeDeclaredFunc (decl : FuncDecl) :
    Does job session (SessionM.writeDeclaredFunc job decl) fun _ _ => True := by
  refine Does.global?.bind fun found last hFound => ?_
  cases found with
  | none => exact .fail _
  | some global =>
      exact (does_writeFunc global.cName global.type? decl).mono fun _ _ _ => trivial

/-- Every function of a module is written, and so is every method that it lists. -/
theorem Writes.hostsFuncs (h : job.Writes sources start handle function program session) :
    Runs sources.Excuses session (SessionM.writeFuncs job) fun _ after =>
      after.program = program ∧
      (∀ decl ∈ job.file.funcs, decl.Hosted sources job.id job.file program after.output.toList) ∧
      ∀ module ∈ program.module? job.id, ∀ method ∈ module.methods,
        ∀ decl ∈ job.file.methods[method.decl]?,
          decl.Hosted sources job.id job.file program after.output.toList := by
  have hFuncs : Runs sources.Excuses session (job.file.funcs.forM (SessionM.writeDeclaredFunc job))
      fun _ after => job.Writes sources start handle function program after ∧
        ∀ decl ∈ job.file.funcs,
          decl.Hosted sources job.id job.file program after.output.toList := by
    let made (decl : FuncDecl) (after : Session) : Prop :=
      decl.Hosted sources job.id job.file program after.output.toList
    refine Runs.forM_each _ made h fun decl hDecl before hBefore => ?_
    refine ((hBefore.writeDeclaredFunc hDecl).both (touches_writeDeclaredFunc decl)).mono
      fun _ after hAfter => ?_
    exact ⟨hAfter.1.1, hAfter.1.2, fun _ hOther => hOther.grow hAfter.2.1.output_subset⟩
  refine hFuncs.bind fun _ middle hMiddle => ?_
  obtain ⟨hWrites, hMade⟩ := hMiddle
  refine hWrites.methods.bind fun methods last hMethods => ?_
  obtain ⟨⟨module, hModule, rfl⟩, hSound, rfl⟩ := hMethods
  let inv (after : Session) : Prop := job.Writes sources start handle function program after ∧
    ∀ decl ∈ job.file.funcs, decl.Hosted sources job.id job.file program after.output.toList
  let made (method : Method) (after : Session) : Prop :=
    ∀ decl ∈ job.file.methods[method.decl]?,
      decl.Hosted sources job.id job.file program after.output.toList
  have hStart : inv last := ⟨hWrites, hMade⟩
  refine (Runs.forM_each inv made hStart fun method hMethod before hBefore => ?_).mono
    fun _ after hAfter => ?_
  · refine ((hBefore.1.writeMethod hModule hMethod (hSound method hMethod)).both
      (does_writeMethod method)).mono fun _ after hAfter => ?_
    have hOutput := hAfter.2.1.output_subset
    exact ⟨⟨hAfter.1.1, fun decl hDecl => (hBefore.2 decl hDecl).grow hOutput⟩, hAfter.1.2,
      fun other hOther decl hDecl => (hOther decl hDecl).grow hOutput⟩
  · obtain ⟨⟨hWrites, hFuncs⟩, hMethods⟩ := hAfter
    refine ⟨hWrites.2, hFuncs, fun found hFound => ?_⟩
    obtain rfl := Option.some.inj (hModule.symm.trans hFound)
    exact hMethods

/-- Compiling a module whose imports are built hosts all its bodies, against the program that it
comes to. -/
theorem Begun.hostsOwn (h : job.Begun sources start session) :
    Runs sources.Excuses session (SessionM.compileOwn job) fun _ after =>
      (∀ decl ∈ job.file.funcs,
        decl.Hosted sources job.id job.file after.program after.output.toList) ∧
      ∀ module ∈ after.program.module? job.id, ∀ method ∈ module.methods,
        ∀ decl ∈ job.file.methods[method.decl]?,
          decl.Hosted sources job.id job.file after.program after.output.toList := by
  rw [SessionM.compileOwn_eq]
  refine h.buildOwn.bind fun init built hBuilt => ?_
  obtain ⟨⟨handle, function, hReady⟩, hInit⟩ := hBuilt
  have hWrites : job.Writes sources start handle function built.program built := ⟨hReady, rfl⟩
  refine hWrites.writeDeclarations.bind fun _ declared hDeclared => ?_
  refine (hDeclared.writeInit hInit).bind fun _ set hSet => hSet.hostsFuncs.mono
    fun _ after hAfter => ?_
  obtain ⟨hProgram, hHosted⟩ := hAfter
  rw [hProgram]
  exact hHosted

end Job

/-- The bodies of a module were all compiled against one program, in which the module was as it is.
All modules that it had are still there, and what stood for a C value in it still does. -/
structure Module.Hosted (sources : Sources) (id : ModuleId) (module : Module) (session : Session)
    (program : Program) : Prop where
  own : program.module? id = some module
  modules : program.Within session.program
  values : program.RetainsValues session.program
  bodies : ∀ decl, decl ∈ module.file.funcs ∨ decl ∈ module.file.methods →
    decl.Hosted sources id module.file program session.output.toList

theorem Module.hosted_lasts (sources : Sources) :
    Remark.Lasts sources fun id module session => ∃ program,
      module.Hosted sources id session program where
  later := by
    rintro id module session session' hRetains ⟨program, hHosted⟩
    exact ⟨program, hHosted.own, hHosted.modules.trans hRetains.modules,
      fun other name e hValue => hRetains.values other name e (hHosted.values other name e hValue),
      fun decl hDecl => (hHosted.bodies decl hDecl).grow hRetains.output⟩
  own := by
    intro job start session after found module hBegun _ hFound hAwaits hRun hModule
    obtain ⟨written, _, _, _, hWriting⟩ := hAwaits.written hFound hRun
    obtain rfl : module = written := Option.some.inj (hModule.symm.trans hWriting.found)
    obtain ⟨hFuncs, hMethods⟩ := hBegun.hostsOwn.success hRun
    refine ⟨after.program, hModule, (Session.Precedes.refl after).modules, fun _ _ _ => id, ?_⟩
    rw [hWriting.complete.file]
    rintro decl (hDecl | hDecl)
    · exact hFuncs decl hDecl
    · obtain ⟨method, hMethod, hIndex⟩ := hWriting.complete.exists_method hDecl
      exact hMethods module hModule method hMethod decl hIndex

/-- Each body of a module of a compiled program was compiled where routines are sound, and its
routine is part of the output. -/
theorem SessionM.compileProgram_hosts {modules : List (String × String)} {withBuiltin : Bool}
    {text : String}
    (hRun : (compileProgram (.ofList modules) withBuiltin text).exec .empty = (.ok (), session))
    {module : Module} (hModule : session.program.module? id = some module) :
    ∃ program, module.Hosted (Sources.ofProgram modules text) id session program :=
  compileProgram_remark hRun (Module.hosted_lasts _) hModule

end GoToC

/-!
## Statements and their points

Each statement of a compiled program was compiled at a point of its function, where the names are
seen that the tree has declared by then, and what was written for it is part of the routine of the
function.
-/

namespace GoToC

variable {decl : FuncDecl} {env' : Env} {session : Session} {module : Module}

/-- The names that a function or method declares around its body. -/
def FuncDecl.declaredNames (decl : FuncDecl) : List String :=
  ((decl.receiver.toList ++ decl.signature.inputs ++ decl.signature.outputs).map (·.name)).filter
    isNamed

theorem FuncType.NamedLike.declaredNames_eq {func : FuncType Ty} (h : func.NamedLike decl) :
    func.declaredNames = decl.declaredNames := by
  rw [FuncType.declaredNames, FuncDecl.declaredNames, List.map_append, List.map_append, h.inputs,
    h.outputs]

variable {sources : Sources} {file : SourceFile} {func : FuncType Ty} {env : Env} {stmt : Stmt}
  {seen : List String} {path : List StmtPart} {host : RoutineM Unit → RoutineM Unit}
  {body : List Stmt} {span : Span} {supply : Supply} {after : Routine}

/-- The environment of the body of a function whose result is the given variable, if it has one. -/
def Env.within (env : Env) (func : FuncType Ty) (result : Option String) : Env :=
  { env with func := some func, namedResult := result }

/-- Whatever stands inside of the body of a function is compiled on the way, where types are those
that the sources make known. -/
theorem Env.Hosts.visits (h : env.Hosts sources file func)
    (hFormed : ∀ handle function, StmtsFormed (sources.known handle function).Word body)
    (hAt : stmt.At seen path host (blockNames func.declaredNames) body)
    (hRun : (compileBody func body span).exec env (.start supply) = (.ok (), after)) :
    ∃ (s : Setting) (result : Option String) (entered : Routine), s.types = s.values ∧
      (∃ handle function, s.values = sources.known handle function) ∧
      (enterFunc func span).exec env (.start supply) = (.ok result, entered) ∧
      Nonempty (Visit s func.ownNames (env.within func result) stmt seen path
        (fun action => RoutineM.inScope (host action)) (fun _ => ()) id entered after) := by
  obtain ⟨s, whole, ⟨handle, function, hKnown⟩, hEnv, hFunc⟩ := h.plain
  have hStmts : StmtsFormed s.types.Word body := by
    rw [whole, hKnown]
    exact hFormed handle function
  have hSounds : Sounds (some s) env (.start supply) := by
    rintro _ ⟨⟩
    exact ⟨hEnv, .start _ supply⟩
  have hSteady : Steady s func.ownNames func.ownNames env (.start supply) :=
    ⟨hSounds, Set.subset_union_left, (h.closed.mono (Set.empty_subset _)).spelled, .start _ supply⟩
  obtain ⟨result, entered, hEnter, hVisit⟩ :=
    compileBody_visits whole hFunc hAt hStmts hSteady (.start supply) hRun
  exact ⟨s, result, entered, whole, ⟨handle, function, hKnown⟩, hEnter, hVisit⟩

/-- The variable of a single output that has a name is the result of a function. -/
theorem enterFunc_result {result : Option String} {routine entered : Routine}
    (h : (enterFunc func span).exec env routine = (.ok result, entered)) :
    result.isSome = true ↔ ∃ output, func.outputs = [output] ∧ isNamed output.name = true := by
  obtain ⟨_, middle, -, hRest⟩ := RoutineM.bind_eq_ok.mp h
  split at hRest
  · next output hOutput =>
      split at hRest
      · next hNamed =>
          obtain ⟨cName, _, -, hBound⟩ := RoutineM.bind_eq_ok.mp hRest
          obtain ⟨_, _, -, hDone⟩ := RoutineM.bind_eq_ok.mp hBound
          cases hDone
          exact iff_of_true rfl ⟨output, hOutput, hNamed⟩
      · next hNamed =>
          cases hRest
          refine iff_of_false (by simp) ?_
          rintro ⟨other, hOther, hOtherNamed⟩
          obtain rfl : output = other := List.singleton_inj.mp (hOutput.symm.trans hOther)
          exact hNamed hOtherNamed
  · next hSeveral =>
      obtain ⟨_, _, -, hDone⟩ := RoutineM.bind_eq_ok.mp hRest
      cases hDone
      refine iff_of_false (by simp) ?_
      rintro ⟨output, hOutput, -⟩
      exact hSeveral output hOutput

/-- The point that the compilation of a declaration comes to where a statement of its body stands,
in place of which anything can be put into the host. The environment is that of the body, in some
loop, and what is bound in the blocks of the routine are the names that are seen. -/
structure FuncDecl.Passes (sources : Sources) (file : SourceFile) (decl : FuncDecl)
    (func : FuncType Ty) (host : RoutineM Unit → RoutineM Unit) (seen : List String) (start : Env)
    (supply : Supply) (env : Env) (routine : Routine) : Prop where
  leads : RoutineM.Leads (bodyAround func decl.span host) start (.start supply) env routine
  inside : ∃ result loop, env = { start.within func result with loop := loop } ∧
    (result.isSome = true ↔ ∃ output, func.outputs = [output] ∧ isNamed output.name = true)
  reaches : env.Reaches sources file routine
  names : ∀ name, routine.isBound name = true ↔ name ∈ seen

/-- Whatever is written in place of a statement stands at one place of the routine: if an action
comes to the same as the statement but for what it writes, the routine is the same but for what
stands there. -/
def FuncDecl.Places (decl : FuncDecl) (func : FuncType Ty) (host : RoutineM Unit → RoutineM Unit)
    (start : Env) (supply : Supply) (after : Routine) (env : Env) (before between : Routine)
    (place : CPlace) : Prop :=
  ∀ (action : RoutineM Unit) (stmts : List CStmt),
    action.exec env before = (.ok (), { between with body := before.body ++ stmts.toArray }) →
    (bodyAround func decl.span host action).exec start (.start supply) =
      (.ok (), { after with body := (place.fill stmts).toArray })

/-- Whether an action comes from the beginning to a session that passes a check. -/
def SessionM.meets (program : SessionM Unit) (check : Session → Bool) : Bool :=
  match program.exec .empty with
  | (.ok (), session) => check session
  | (.error _, _) => false

theorem SessionM.exists_of_meets {program : SessionM Unit} {check : Session → Bool}
    (h : program.meets check = true) :
    ∃ session, program.exec .empty = (.ok (), session) ∧ check session = true := by
  unfold SessionM.meets at h
  split at h
  · next session hRun => exact ⟨session, hRun, h⟩
  · cases h

/-- The statement of a body that is nothing else. -/
def FuncDecl.sole? (decl : FuncDecl) : Option Stmt :=
  match decl.body with
  | some [stmt] => some stmt
  | _ => none

/-- A function of one statement that a check finds in a module. -/
theorem Program.exists_sole {program : Program} {id : ModuleId}
    {check : Module → FuncDecl → Stmt → Bool}
    (h : (program.module? id).any (fun module =>
      module.file.funcs.any fun decl => decl.sole?.any (check module decl)) = true) :
    ∃ module decl stmt, program.module? id = some module ∧ decl ∈ module.file.funcs ∧
      decl.body = some [stmt] ∧ check module decl stmt = true := by
  obtain ⟨module, hModule, hAny⟩ := (Option.any_eq_true _ _).mp h
  obtain ⟨decl, hDecl, hSole⟩ := List.any_eq_true.mp hAny
  obtain ⟨stmt, hStmt, hCheck⟩ := (Option.any_eq_true _ _).mp hSole
  refine ⟨module, decl, stmt, hModule, hDecl, ?_, hCheck⟩
  unfold FuncDecl.sole? at hStmt
  split at hStmt
  · next found hBody =>
      cases hStmt
      exact hBody
  · cases hStmt

theorem Env.Faithful.of_same {files : String → SourceFile → Prop} (h : env.Faithful files file)
    (hProgram : env'.program = env.program) (hModule : env'.module = env.module)
    (hPackage : env'.package = env.package) :
    env'.Faithful files file where
  program := hProgram ▸ h.program
  own := by rw [hProgram, hModule, hPackage]; exact h.own
  entered := by rw [hProgram, hModule]; exact h.entered

/-- The routine that the body of a declaration was compiled to, and where that was. -/
structure FuncDecl.CompilesTo (sources : Sources) (session : Session) (module : Module)
    (decl : FuncDecl) (body : List Stmt) (func : FuncType Ty) (env : Env) (supply : Supply)
    (after : Routine) : Prop where
  hosts : env.Hosts sources module.file func
  own : env.program.module? env.module = some module
  modules : env.program.Within session.program
  given : env.program.Assigns env.module module.file decl func
  like : func.NamedLike decl
  formed : ∀ handle function, StmtsFormed (sources.known handle function).Word body
  run : (compileBody func body decl.span).exec env (.start supply) = (.ok (), after)
  written : ∃ prototype cName, env.program.types.prototype func cName = .ok prototype ∧
    CItem.routine (.func prototype) after.locals.toList after.body.toList ∈ session.output.toList

/-- What a statement wrote stands at its place. -/
theorem FuncDecl.CompilesTo.fill_eq
    (h : decl.CompilesTo sources session module body func env supply after)
    (hAt : stmt.At seen path host (blockNames decl.declaredNames) body) {before between : Routine}
    {place : CPlace} {written : List CStmt}
    (hPlaces : decl.Places func host env supply after env' before between place)
    (hRun : (compileStmt stmt).exec env' before = (.ok (), between))
    (hBody : between.body = before.body ++ written.toArray) :
    place.fill written = after.body.toList := by
  have hFilled := hPlaces (compileStmt stmt) written (by rw [← hBody]; exact hRun)
  rw [bodyAround_eq hAt, h.run] at hFilled
  have hAfter := congrArg (fun run => run.2.body.toList) hFilled
  exact hAfter.symm

/-- A statement of a body was compiled at the point of the declaration that its host comes to. -/
theorem FuncDecl.CompilesTo.visits
    (h : decl.CompilesTo sources session module body func env supply after)
    (hAt : stmt.At seen path host (blockNames decl.declaredNames) body) :
    ∃ (s : Setting) (result : Option String) (entered : Routine)
      (visit : Visit s func.ownNames (env.within func result) stmt seen path
        (fun action => RoutineM.inScope (host action)) (fun _ => ()) id entered after),
      decl.Passes sources module.file func host seen env supply
          { env.within func result with loop := visit.loop } visit.before ∧
        decl.Places func host env supply after { env.within func result with loop := visit.loop }
          visit.before visit.between visit.place := by
  obtain ⟨s, result, entered, whole, hKnown, hEnter, ⟨visit⟩⟩ :=
    h.hosts.visits h.formed (h.like.declaredNames_eq ▸ hAt) h.run
  obtain ⟨hEnv, hRoutine⟩ := visit.steady.sounds s rfl
  have hEmpty : entered.body = #[] := (enterFunc_silent func decl.span env _ _ _ hEnter).1
  refine ⟨s, result, entered, visit, ⟨fun action failure hFails => ?_, ⟨result, visit.loop, rfl,
    enterFunc_result hEnter⟩, ⟨h.hosts.faithful.of_same rfl rfl rfl, s, whole, hKnown, hEnv,
      hRoutine⟩, visit.shows.isBound⟩, fun action stmts hAction => ?_⟩
  · rw [bodyAround_exec host action hEnter]
    exact visit.leads action failure hFails
  · rw [bodyAround_exec host action hEnter]
    simpa [hEmpty, Env.within] using visit.fills action stmts hAction

namespace SessionM

variable {modules : List (String × String)} {withBuiltin : Bool} {text : String} {session : Session}
  {id : ModuleId} {module : Module} {decl : FuncDecl}

/-- Each body of a compiled program was compiled to a routine that was written. -/
theorem compileProgram_compilesTo
    (hRun : (compileProgram (.ofList modules) withBuiltin text).exec .empty = (.ok (), session))
    (hModule : session.program.module? id = some module)
    (hDecl : decl ∈ module.file.funcs ∨ decl ∈ module.file.methods)
    (hBody : decl.body = some body) :
    ∃ func env supply after,
      decl.CompilesTo (.ofProgram modules text) session module body func env supply after := by
  obtain ⟨program, hHosted⟩ := compileProgram_hosts hRun hModule
  obtain ⟨func, prototype, cName, env, supply, after, hAssigns, hLike, hHosts, rfl, rfl, hPrototype,
    hRan, hItem⟩ := hHosted.bodies decl hDecl body hBody
  obtain ⟨own, hOwn, -, hFile⟩ := hHosts.faithful.own
  obtain rfl : own = module := Option.some.inj (hOwn.symm.trans hHosted.own)
  have hSource := hHosts.faithful.program.file env.module own hOwn
  exact ⟨func, env, supply, after, hHosts, hOwn, hHosted.modules, hAssigns, hLike,
    fun handle function => (Sources.formed hSource handle function).body hDecl hBody, hRan,
    prototype, cName, hPrototype, hItem⟩

/-- Each statement of a compiled program is well formed and was compiled at a point of the
declaration that it belongs to. -/
theorem compileProgram_passes
    (hRun : (compileProgram (.ofList modules) withBuiltin text).exec .empty = (.ok (), session))
    (hModule : session.program.module? id = some module)
    (hDecl : decl ∈ module.file.funcs ∨ decl ∈ module.file.methods) (hBody : decl.body = some body)
    (hAt : stmt.At seen path host (blockNames decl.declaredNames) body) :
    ∃ func env supply after env' before between,
      decl.CompilesTo (.ofProgram modules text) session module body func env supply after ∧
      decl.Passes (.ofProgram modules text) module.file func host seen env supply env' before ∧
      (compileStmt stmt).exec env' before = (.ok (), between) := by
  obtain ⟨func, env, supply, after, hCompiled⟩ := compileProgram_compilesTo hRun hModule hDecl hBody
  obtain ⟨s, result, entered, visit, hPasses, -⟩ := hCompiled.visits hAt
  exact ⟨func, env, supply, after, _, visit.before, visit.between, hCompiled, hPasses, visit.run⟩

end SessionM

end GoToC
