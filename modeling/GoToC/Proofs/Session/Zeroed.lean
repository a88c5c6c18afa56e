import GoToC.Proofs.C.Execution
import GoToC.Proofs.Session.Visited

/-!
# What declared variables hold

A declaration in a body writes nothing: its variable is declared at the top of the routine, with the
zero value of its type. So it holds the zero value whenever the declaration is come to in the first
round of each loop around it; in later rounds it holds what was left there. A single named output is
such a variable too. Several outputs are kept where the caller wants them, and nothing is set there
when the function is entered.
-/

namespace GoToC

variable {func : FuncType Ty} {type : Ty} {number : Nat} {written : List CStmt} {place : CPlace}

/-- A variable of a routine that is initialized to the zero value of a type. -/
structure CLocal.ZeroOf (var : CLocal) (store : TypeStore) (type : Ty) : Prop where
  declared : store.cType type = .ok var.type
  zero : store.zeroValue type = .ok var.init

/-- A variable holds what it is initialized to whenever what is written at a place has run, where
the loops around the place are in rounds of a kind. -/
def CLocal.HoldsAt (var : CLocal) (locals : List CLocal) (written : List CStmt) (place : CPlace)
    (kind : List Nat → Prop) : Prop :=
  ∀ {V S : Type} (m : Machine V S) {s t u : S} {rounds : List Nat}, kind rounds →
    m.Starts locals s → m.Arrives written place rounds s t → m.Runs written t .done u →
    m.holds u var.name = m.initial var.init

/-- A name stands for a variable that is initialized to the zero value of what an expression
denotes. -/
structure DeclaresZero (env : Env) (before after : Routine) (name : String) (e : Expr) (type : Ty)
    (var : CLocal) : Prop where
  denoted : ∃ middle, (operand e).type.exec env before = (.ok type, middle)
  zero : var.ZeroOf env.program.types type
  bound : after.binding? name = some ⟨.localVar var.name, type⟩

variable {env : Env} {routine after : Routine} {name : String} {span : Span}

/-! ## Declarations -/

theorem Layout.scopes_ne_nil {values : List Typed} {visible : List Site} {depth : Nat}
    {scopes : List Scope} (h : Layout values visible depth scopes) : scopes ≠ [] := by
  cases h <;> simp

theorem Routine.Shows.scopes_ne_nil {names : List String} (h : routine.Shows names) :
    routine.scopes ≠ [] := by
  obtain ⟨values, outlook, hLaid, -⟩ := h
  exact hLaid.layout.scopes_ne_nil

theorem Routine.binding?_of_withBinding {value : Typed} (h : routine.scopes ≠ [])
    (hScopes : after.scopes = RoutineM.withBinding routine.scopes name value) :
    after.binding? name = some value := by
  obtain ⟨scope, outer, hOpen⟩ := List.exists_cons_of_ne_nil h
  rw [Routine.binding?, hScopes, hOpen, RoutineM.withBinding, List.findSome?_cons,
    List.lookup_cons_self]

/-- A variable that a routine declares, last of all, with the zero value of a type. -/
structure Routine.Declares (routine : Routine) (env : Env) (type : Ty) (var : CLocal)
    (after : Routine) : Prop where
  zero : var.ZeroOf env.program.types type
  locals : after.locals = routine.locals.push var
  scopes : after.scopes = routine.scopes
  body : after.body = routine.body

theorem addLocal_declares
    (h : (RoutineM.addLocal name type span).exec env routine = (.ok (), after)) :
    ∃ var : CLocal, var.name = name ∧ routine.Declares env type var after := by
  obtain ⟨⟨var, hName, hType, hZero, hLocals⟩, -⟩ := addLocal_ok h
  have hYields : Yields env routine.scopes True (RoutineM.addLocal name type span) fun _ => True :=
    .addLocal name type span
  obtain ⟨-, hScopes, hBody⟩ := hYields routine () after rfl h
  exact ⟨var, hName, ⟨hType, hZero⟩, hLocals, hScopes, hBody trivial⟩

theorem declareLocal_declares {cName : String}
    (h : (RoutineM.declareLocal name type span).exec env routine = (.ok cName, after)) :
    ∃ var : CLocal, var.name = cName ∧ routine.Declares env type var after := by
  unfold RoutineM.declareLocal at h
  obtain ⟨_, _, hGet, h⟩ := RoutineM.bind_eq_ok.mp h
  cases hGet
  dsimp only at h
  split at h
  · simp only [RoutineM.bind_eq_ok, RoutineM.map_eq_ok, RoutineM.pure_eq_ok] at h
    obtain ⟨_, numbered, ⟨serial, hSerial, rfl⟩, _, last, hLocal, rfl, rfl⟩ := h
    obtain ⟨var, hName, hDeclares⟩ := addLocal_declares hLocal
    cases hSerial
    exact ⟨var, hName, hDeclares.zero, hDeclares.locals, hDeclares.scopes, hDeclares.body⟩
  · simp only [RoutineM.bind_eq_ok, RoutineM.pure_eq_ok] at h
    obtain ⟨_, _, ⟨rfl, rfl⟩, _, last, hLocal, rfl, rfl⟩ := h
    exact addLocal_declares hLocal

/-- A declaration of a variable adds one to the routine, and that is all. -/
theorem StmtRule.declare_ok {e : Expr} (hScopes : routine.scopes ≠ [])
    (h : (declare name (operand e) span).exec env routine = (.ok (), after)) :
    ∃ type var, DeclaresZero env routine after name e type var ∧
      after.locals = routine.locals.push var ∧ after.body = routine.body := by
  obtain ⟨type, middle, hType, h⟩ := RoutineM.bind_eq_ok.mp h
  obtain ⟨cName, last, hLocal, hBind⟩ := RoutineM.bind_eq_ok.mp h
  obtain ⟨var, rfl, hDeclares⟩ := declareLocal_declares hLocal
  have hKeeps := typeOperand_still e env routine type middle hType
  have hComposed : Composed .expr .any (operand e).type := type_composed .expr e
  have hSame : middle.scopes = routine.scopes :=
    (hComposed.yields env routine.scopes routine type middle rfl hType).2.1
  rw [RoutineM.bindName_exec] at hBind
  cases hBind
  refine ⟨type, var, ⟨⟨middle, hType⟩, hDeclares.zero, ?_⟩, ?_, ?_⟩
  · refine Routine.binding?_of_withBinding hScopes ?_
    show RoutineM.withBinding last.scopes name _ = _
    rw [hDeclares.scopes, hSame]
  · show last.locals = _
    rw [hDeclares.locals, hKeeps.locals]
  · show last.body = _
    rw [hDeclares.body, hKeeps.body]

/-! ## Arrivals -/

/-- Parameters are no variables of a routine. -/
theorem FuncType.variable_notMem_ownNames (func : FuncType Ty) (name : String) :
    .variable name ∉ func.ownNames := by
  rintro (⟨index, -, hName⟩ | ⟨-, index, -, hName⟩)
  · cases hName
  · cases hName

/-- A variable that a statement declares, and nothing else, holds what it is initialized to where
the statement is come to in first rounds. -/
theorem Visit.holdsAt {α : Type} {s : Setting} {stmt : Stmt} {seen : List String}
    {path : List StmtPart} {host : RoutineM Unit → RoutineM α} {give : List CStmt → α}
    {write : List CStmt → List CStmt} {var : CLocal}
    (visit : Visit s func.ownNames env stmt seen path host give write routine after)
    (hLocals : visit.between.locals = visit.before.locals.push var)
    (hDistinct : (after.locals.toList.map (·.name)).Nodup) :
    var.HoldsAt after.locals.toList [] visit.place fun rounds =>
      (∀ count ∈ rounds, count = 0) ∨ ∀ part ∈ path, part.repeats = false := by
  obtain ⟨later, hLater⟩ := visit.later
  have hAll : after.locals.toList = visit.before.locals.toList ++ var :: later := by
    rw [← hLater, hLocals, Array.toList_push, List.append_assoc, List.singleton_append]
  intro V S m _ _ _ rounds hRounds hStarts hArrives hRuns
  have hFirst : ∀ count ∈ rounds, count = 0 := by
    rcases hRounds with hFirst | hOnce
    · exact hFirst
    · exact hArrives.first (by rwa [visit.parts])
  have hFresh : .variable var.name ∉ visit.before.ownNames func.ownNames := by
    rintro (hParam | ⟨other, hOther, hName⟩)
    · exact func.variable_notMem_ownNames var.name hParam
    · rw [hAll, List.map_append, List.nodup_append] at hDistinct
      have hSame : var.name = other.name := by simpa using hName
      exact hDistinct.2.2 _ (List.mem_map_of_mem hOther) _ (by simp) hSame.symm
  cases hRuns
  rw [hArrives.holds hFresh hFirst visit.ahead]
  exact hStarts var (by simp [hAll])

/-! ## Entries -/

/-- There is always a block to bind names in. -/
theorem bindInputs_scopes {index : Nat} {inputs : List (Member Ty)} (hScopes : routine.scopes ≠ [])
    (h : (bindInputs func index inputs).exec env routine = (.ok (), after)) :
    after.scopes ≠ [] := by
  induction inputs generalizing index routine with
  | nil =>
      cases h
      exact hScopes
  | cons input rest ih =>
      unfold bindInputs at h
      dsimp only at h
      split at h
      · obtain ⟨_, middle, hBind, hRest⟩ := RoutineM.bind_eq_ok.mp h
        rw [RoutineM.bindName_exec] at hBind
        cases hBind
        refine ih ?_ hRest
        obtain ⟨scope, outer, hOpen⟩ := List.exists_cons_of_ne_nil hScopes
        simp [hOpen, RoutineM.withBinding]
      · exact ih hScopes h

/-- What is set when a function is entered: nothing, but a single named output is a variable that is
initialized. -/
structure FuncType.Enters (func : FuncType Ty) (env : Env) (result : Option String)
    (entered after : Routine) : Prop where
  silent : entered.body = #[]
  undeclared : func.outputs.length ≠ 1 → entered.locals = #[]
  single : ∀ output, func.outputs = [output] → isNamed output.name = true →
    ∃ var ∈ after.locals.toList, result = some var.name ∧
      entered.binding? output.name = some ⟨.localVar var.name, output.type⟩ ∧
      var.ZeroOf env.program.types output.type ∧
      var.HoldsAt after.locals.toList [] (.here [] after.body.toList) fun _ => True

theorem enterFunc_enters {supply : Supply} {result : Option String} {entered : Routine}
    (h : (enterFunc func span).exec env (.start supply) = (.ok result, entered))
    (hLater : entered.locals.toList <+: after.locals.toList) :
    func.Enters env result entered after := by
  have hSilent := (enterFunc_silent func span env _ result entered h).1
  obtain ⟨_, middle, hInputs, hRest⟩ := RoutineM.bind_eq_ok.mp h
  have hKeeps := bindInputs_still func 0 func.inputs env _ _ middle hInputs
  refine ⟨hSilent, fun hSeveral => ?_, fun output hOutput hNamed => ?_⟩
  · split at hRest
    · next output hOutput => simp [hOutput] at hSeveral
    · obtain ⟨_, last, hOutputs, hDone⟩ := RoutineM.bind_eq_ok.mp hRest
      cases hDone
      exact (hKeeps.trans (bindOutputs_still func 0 _ env middle _ entered hOutputs)).locals
  · rw [hOutput] at hRest
    dsimp only at hRest
    rw [if_pos hNamed] at hRest
    obtain ⟨cName, last, hLocal, hRest⟩ := RoutineM.bind_eq_ok.mp hRest
    obtain ⟨_, bound, hBind, hDone⟩ := RoutineM.bind_eq_ok.mp hRest
    obtain ⟨var, rfl, hDeclares⟩ := declareLocal_declares hLocal
    rw [RoutineM.bindName_exec] at hBind
    cases hBind
    cases hDone
    have hVar : var ∈ after.locals.toList := by
      refine hLater.subset ?_
      show var ∈ last.locals.toList
      simp [hDeclares.locals]
    have hScopes : middle.scopes ≠ [] := bindInputs_scopes (by simp [Routine.start]) hInputs
    refine ⟨var, hVar, rfl, Routine.binding?_of_withBinding hScopes ?_, hDeclares.zero, ?_⟩
    · show RoutineM.withBinding last.scopes output.name _ = _
      rw [hDeclares.scopes]
    · intro V S m _ _ _ rounds _ hStarts hArrives hRuns
      cases hArrives with
      | here hBefore =>
          cases hBefore
          cases hRuns
          exact hStarts var hVar

/-! ## Programs -/

/-- In a compiled program, a declaration of a variable is compiled where its host comes to. Nothing
is written there, and from then on the name stands for a variable of the routine that is initialized
to the zero value of its type. If the variables of the routine have different names, it holds the
zero value at the place of the declaration in the first round of each loop around it, and always if
there is no loop. A single named output is such a variable, which holds the zero value whenever the
function is entered; nothing else is set then. -/
theorem variables_hold_zero {modules : List (String × String)} {withBuiltin : Bool}
    {text : String} {session : Session}
    (hRun : (SessionM.compileProgram (.ofList modules) withBuiltin text).exec .empty =
      (.ok (), session))
    {id : ModuleId} {module : Module} (hModule : session.program.module? id = some module)
    {decl : FuncDecl} (hDecl : decl ∈ module.file.funcs ∨ decl ∈ module.file.methods)
    {body : List Stmt} (hBody : decl.body = some body) :
    ∃ func env supply after,
      decl.CompilesTo (.ofProgram modules text) session module body func env supply after ∧
      (∃ result entered,
        (enterFunc func decl.span).exec env (.start supply) = (.ok result, entered) ∧
          func.Enters env result entered after) ∧
      ∀ span name e seen path host,
        (Stmt.var span name e).At seen path host (blockNames decl.declaredNames) body →
        ∃ env' before between type var place,
          decl.Passes (.ofProgram modules text) module.file func host seen env supply env' before ∧
          (compileStmt (.var span name e)).exec env' before = (.ok (), between) ∧
          between.body = before.body ∧ DeclaresZero env' before between name e type var ∧
          decl.Places func host env supply after env' before between place ∧
          place.path = path ∧ var ∈ after.locals.toList ∧
          ((after.locals.toList.map (·.name)).Nodup →
            var.HoldsAt after.locals.toList [] place fun rounds =>
              (∀ count ∈ rounds, count = 0) ∨ ∀ part ∈ path, part.repeats = false) := by
  obtain ⟨func, env, supply, after, hCompiled⟩ :=
    SessionM.compileProgram_compilesTo hRun hModule hDecl hBody
  refine ⟨func, env, supply, after, hCompiled, ?_, fun span name e seen path host hAt => ?_⟩
  · obtain ⟨result, entered, hEnter, hScope⟩ := compileBody_eq_ok.mp hCompiled.run
    have hComposed : Composed .nested .any (RoutineM.inScope (compileStmts body)) :=
      .inScope rfl (compileStmts_composed body fun _ _ => trivial)
    exact ⟨result, entered, hEnter,
      enterFunc_enters hEnter (hComposed.carries Routine.carried_locals hScope)⟩
  · obtain ⟨s, result, entered, visit, hPasses, hPlaces⟩ := hCompiled.visits hAt
    have hDeclare := visit.run
    rw [compileStmt] at hDeclare
    obtain ⟨type, var, hZero, hLocals, hSame⟩ :=
      StmtRule.declare_ok visit.shows.scopes_ne_nil hDeclare
    obtain ⟨later, hLater⟩ := visit.later
    refine ⟨_, visit.before, visit.between, type, var, visit.place, hPasses, visit.run,
      hSame, hZero, hPlaces, visit.parts, ?_, fun hDistinct => visit.holdsAt hLocals hDistinct⟩
    rw [← hLater, hLocals]
    simp

/-- A loop that declares a variable in each of its rounds. -/
def staleSource : String := "func f() \x7b\n for \x7b\n  var x int\n  x += 1\n \x7d\n\x7d\n"

/-- A loop that counts a variable up. -/
def countsUp : List CStmt → Bool
  | [.loop _ [] none [.update (.localVar name) .add (.int 1)] []] => name = "v_x"
  | _ => false

/-- The one variable of a routine that counts it up. -/
def CItem.countsUp : CItem → Bool
  | .routine (.func _) locals body => locals.map (·.name) = ["v_x"] && GoToC.countsUp body
  | _ => true

theorem staleSource_run :
    (runOf staleSource).1 = true ∧ (runOf staleSource).2.output.toList.all CItem.countsUp = true ∧
      ((runOf staleSource).2.program.module? 0).any (fun module =>
        module.file.funcs.any fun decl => decl.sole?.any fun stmt =>
          match stmt with
          | .whileLoop _ none (.var _ name _ :: _) => decide (name = "x")
          | _ => false) = true := by
  rw [@runOf_of_toList staleSource _ String.toList_ofList]
  decide +kernel

theorem variables_hold_zero_round :
    ∃ module decl body func env supply after span e host env' before between type var place,
      FuncDecl.CompilesTo (.ofProgram [] staleSource) (runOf staleSource).2 module decl
        body func env supply after ∧
      (compileStmt (.var span "x" e)).exec env' before = (.ok (), between) ∧
      DeclaresZero env' before between "x" e type var ∧
      decl.Places func host env supply after env' before between place ∧ place.path = [.round] ∧
      var.HoldsAt after.locals.toList [] place fun rounds => ∀ count ∈ rounds, count = 0 := by
  obtain ⟨hDone, hItems, hFound⟩ := staleSource_run
  obtain ⟨module, decl, stmt, hModule, hDecl, hBody, hCheck⟩ := Program.exists_sole hFound
  split at hCheck
  · next span inner name e rest =>
      obtain rfl : name = "x" := of_decide_eq_true hCheck
      obtain ⟨func, env, supply, after, hCompiled, -, hVars⟩ :=
        variables_hold_zero (runOf_complete hDone) hModule (.inl hDecl) hBody
      obtain ⟨env', before, between, type, var, place, -, hStmt, -, hZero, hPlaces, hPath, -,
        hHolds⟩ :=
        hVars inner "x" e _ _ _ (.whileBody .first)
      obtain ⟨prototype, cName, -, hItem⟩ := hCompiled.written
      have hNames := List.all_eq_true.mp hItems _ hItem
      obtain ⟨hLocals, -⟩ := Bool.and_eq_true_iff.mp hNames
      have hDistinct : (after.locals.toList.map (·.name)).Nodup := by
        rw [of_decide_eq_true hLocals]
        simp
      exact ⟨module, decl, _, func, env, supply, after, inner, e, _, env', before, between,
        type, var, place, hCompiled, hStmt, hZero, hPlaces, hPath,
        fun m _ _ _ _ hFirst => hHolds hDistinct m (.inl hFirst)⟩
  · cases hCheck

/-- A machine that counts a variable up. -/
def counter (name : String) : Machine Nat Nat where
  holds count other := if other = name then count else 0
  initial _ := 0
  eval e s v t := ∃ k, e = .int k ∧ v = k ∧ t = s
  step stmt s t := ∃ k, stmt = .update (.localVar name) .add (.int k) ∧ t = s + k
  truthy v := v ≠ 0
  fits v w := v = w
  holds_of_eval := by
    rintro e s t v other ⟨k, -, -, rfl⟩ -
    rfl
  holds_of_step := by
    rintro stmt s t other ⟨k, rfl, rfl⟩ hOther
    have hNot : other ≠ name := by simpa [CStmt.ownNames, CExpr.ownNames] using hOther
    simp [hNot]

/-- A place in the rounds of a loop that is the only statement. -/
theorem CPlace.exists_of_round {test body post : List CStmt} {cond : Option CExpr}
    (hPath : place.path = [.round])
    (hFill : place.fill written = [.loop number test cond body post]) :
    ∃ first last, place = .within [] (.round number test cond post) (.here first last) [] ∧
      first ++ (written ++ last) = body := by
  cases place with
  | here => cases hPath
  | within before frame inner rest =>
      obtain ⟨hFrame, hInner⟩ := List.cons.inj hPath
      cases frame with
      | round =>
          cases inner with
          | within => cases hInner
          | here first last =>
              rcases List.append_eq_singleton_iff.mp hFill with ⟨rfl, hAlone⟩ | ⟨-, hNone⟩
              · obtain ⟨hLoop, rfl⟩ := List.cons.inj hAlone
                obtain ⟨rfl, rfl, rfl, hBody, rfl⟩ := CStmt.loop.inj hLoop
                rw [CPlace.fill, List.append_assoc] at hBody
                exact ⟨first, last, rfl, hBody⟩
              · cases hNone
      | _ => cases hFrame

/-- Wherever in a loop that counts up a place is, it is come to with a count of one. -/
theorem counter_reaches_one (hPath : place.path = [.round]) (hFill : place.fill written =
      [.loop number [] none [.update (.localVar name) .add (.int 1)] []]) :
    ∃ rounds t, (counter name).Arrives written place rounds 0 t ∧
      (counter name).Runs written t .done 1 := by
  have hStep (count : Nat) :
    (counter name).Runs [.update (.localVar name) .add (.int 1)] count .done
      (count + 1) := .flat rfl nofun ⟨1, rfl, rfl⟩ .nil
  have hEnters (count : Nat) : (counter name).Enters (.round number [] none []) count count :=
    ⟨count, .nil, rfl⟩
  obtain ⟨first, last, rfl, hBody⟩ := CPlace.exists_of_round hPath hFill
  rcases List.append_eq_singleton_iff.mp hBody with ⟨rfl, hRest⟩ | ⟨rfl, hRest⟩
  · rcases List.append_eq_singleton_iff.mp hRest with ⟨rfl, rfl⟩ | ⟨rfl, rfl⟩
    · -- The variable is counted up after the place, so a whole round comes before.
      have hTurn : (counter name).Turn
          (.loop number [] none [.update (.localVar name) .add (.int 1)] []) 0 1 :=
        .loop .nil rfl (hStep 0) trivial .nil
      exact ⟨[1], 1, .within .nil (.succ hTurn .zero) (hEnters 1) (.here .nil), .nil⟩
    · exact ⟨[0], 0, .within .nil .zero (hEnters 0) (.here .nil), hStep 0⟩
  · obtain ⟨rfl, rfl⟩ := List.append_eq_nil_iff.mp hRest
    exact ⟨[0], 1, .within .nil .zero (hEnters 0) (.here (hStep 0)), .nil⟩

/-- It is not so that a variable holds the zero value whenever it is declared: in the second round
of a loop it holds what was left from the first. -/
theorem variables_hold_zero_stale : compile (.ofList []) false staleSource =
      .ok ("#include <stdio.h>\n#include \"runt.h\"\nextern void main__f();\n" ++
        "void main__f() \x7b\nP_int v_x = 0;\nwhile(1) \x7b\n(v_x) += (1);\n" ++
        "Cont_1: \x7b\x7d\n\x7d\nBreak_1: \x7b\x7d\n\x7d\n") ∧
    ¬ ∀ (modules : List (String × String)) (withBuiltin : Bool) (text : String) (session : Session),
      (SessionM.compileProgram (.ofList modules) withBuiltin text).exec .empty = (.ok (), session) →
      ∀ id module, session.program.module? id = some module →
      ∀ decl, decl ∈ module.file.funcs ∨ decl ∈ module.file.methods →
      ∀ body, decl.body = some body →
      ∃ func env supply after,
        decl.CompilesTo (.ofProgram modules text) session module body func env supply after ∧
        ∀ span name e seen path host,
          (Stmt.var span name e).At seen path host (blockNames decl.declaredNames) body →
          ∃ env' before between type var place written,
            (compileStmt (.var span name e)).exec env' before = (.ok (), between) ∧
            between.body = before.body ++ written.toArray ∧
            DeclaresZero env' before between name e type var ∧
            decl.Places func host env supply after env' before between place ∧
            place.path = path ∧ var ∈ after.locals.toList ∧
            ((after.locals.toList.map (·.name)).Nodup →
              var.HoldsAt after.locals.toList written place fun _ => True) := by
  constructor
  · rw [@compile_of_toList _ _ staleSource _ String.toList_ofList]
    decide +kernel
  · intro h
    obtain ⟨hDone, hItems, hFound⟩ := staleSource_run
    obtain ⟨module, decl, stmt, hModule, hDecl, hBody, hCheck⟩ := Program.exists_sole hFound
    split at hCheck
    · next span inner name e rest =>
        obtain ⟨func, env, supply, after, hCompiled, hVars⟩ := h [] false staleSource _
          (runOf_complete hDone) 0 module hModule decl (.inl hDecl) _ hBody
        obtain ⟨env', before, between, type, var, place, written, hRun, hWritten, -, hPlaces, hPath,
          hVar, hHolds⟩ := hVars inner name e _ _ _ (.whileBody .first)
        have hFill := hCompiled.fill_eq (.whileBody .first) hPlaces hRun hWritten
        obtain ⟨prototype, cName, -, hItem⟩ := hCompiled.written
        obtain ⟨hLocals, hCounts⟩ := Bool.and_eq_true_iff.mp (List.all_eq_true.mp hItems _ hItem)
        have hNames : after.locals.toList.map (·.name) = ["v_x"] := of_decide_eq_true hLocals
        have hMember : var.name ∈ after.locals.toList.map (·.name) := List.mem_map_of_mem hVar
        have hName : var.name = "v_x" := by simpa [hNames] using hMember
        have hDistinct : (after.locals.toList.map (·.name)).Nodup := by simp [hNames]
        have hStarts : (counter "v_x").Starts after.locals.toList 0 := by
          intro other _
          simp [counter]
        generalize after.body.toList = stmts at hFill hCounts
        unfold countsUp at hCounts
        split at hCounts
        · next number counted =>
            obtain rfl : counted = "v_x" := of_decide_eq_true hCounts
            obtain ⟨rounds, t, hArrives, hRuns⟩ := counter_reaches_one hPath hFill
            have hZero := hHolds hDistinct (counter "v_x") trivial hStarts hArrives hRuns
            simp [counter, hName] at hZero
        · cases hCounts
    · cases hCheck

end GoToC
