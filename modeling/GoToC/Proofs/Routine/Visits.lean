import GoToC.Proofs.Routine.SpelledStmt
import GoToC.Proofs.Routine.Definitions
import GoToC.Proofs.Routine.ScopedStmt

/-!
# Statements of a body on the way

Which names are visible at each point of a body, and where each of its statements is compiled.
-/

/-!
## The way to a statement

A statement stands inside of others if it is one of them or belongs to a part of one of them, at
any depth. The first statement of a loop and the one between its rounds are parts of the loop. On
the way to it the names are kept that the blocks around it have declared by then, and what is
compiled around it: the host of the statement, in which anything else can be put in its place.
-/

namespace GoToC

/-- A statement that is one of the given statements or stands inside of one: in the part of it that
the path leads to, the outermost first. The host is what the given statements are compiled to around
it. The names around the given statements are those that are seen by the statement, and those that
are seen by the first one of the given. -/
inductive Stmt.At (inner : Stmt) (seen : List String) :
    List StmtPart → (RoutineM Unit → RoutineM Unit) → List String → List Stmt → Prop
  | first {rest} :
      At inner seen [] (fun action => do action; compileStmts rest) seen (inner :: rest)
  | later {path host around stmt rest} :
      At inner seen path host (stmt.declares ++ around) rest →
        At inner seen path (fun action => do compileStmt stmt; host action) around (stmt :: rest)
  | whileBody {path host around span cond body rest} :
      At inner seen path host around body →
        At inner seen (.round :: path)
          (fun action => do StmtRule.loop (optOperand cond) none (host action); compileStmts rest)
          around (.whileLoop span cond body :: rest)
  /-- The first statement of a loop comes before its rounds. -/
  | forInit {path host around span init cond post body rest} :
      At inner seen path host around [init] →
        At inner seen path
          (fun action => do
            StmtRule.forLoop (some (host action)) (optOperand cond) (compileOptStmt post)
              (compileStmts body)
            compileStmts rest)
          around (.forLoop span (some init) cond post body :: rest)
  | forBody {path host around span init cond post body rest} :
      At inner seen path host ((init.map (·.declares)).getD [] ++ around) body →
        At inner seen (.round :: path)
          (fun action => do
            StmtRule.forLoop (compileOptStmt init) (optOperand cond) (compileOptStmt post)
              (host action)
            compileStmts rest)
          around (.forLoop span init cond post body :: rest)
  | forPost {path host around span init cond post body rest} :
      At inner seen path host ((init.map (·.declares)).getD [] ++ around) [post] →
        At inner seen (.between :: path)
          (fun action => do
            StmtRule.forLoop (compileOptStmt init) (optOperand cond) (some (host action))
              (compileStmts body)
            compileStmts rest)
          around (.forLoop span init cond (some post) body :: rest)
  | rangeBody {path host around span key value collection body rest} :
      At inner seen path host (blockNames (key.toList ++ value.toList) ++ around) body →
        At inner seen (.rangeRound :: path)
          (fun action => do
            StmtRule.rangeLoop key value (operand collection) (host action) span
            compileStmts rest)
          around (.rangeLoop span key value collection body :: rest)
  | thenBody {path host around span cond thenBody elseBody rest} :
      At inner seen path host around thenBody →
        At inner seen (.thenBody :: path)
          (fun action => do
            StmtRule.ifElse (operand cond) (host action) (compileOptStmts elseBody)
            compileStmts rest)
          around (.ifElse span cond thenBody elseBody :: rest)
  | elseBody {path host around span cond thenBody elseBody rest} :
      At inner seen path host around elseBody →
        At inner seen (.elseBody :: path)
          (fun action => do
            StmtRule.ifElse (operand cond) (compileStmts thenBody) (some (host action))
            compileStmts rest)
          around (.ifElse span cond thenBody (some elseBody) :: rest)
  | arm {path host around span caseSpan subject earlier later tests body fallback rest} :
      At inner seen path host around body →
        At inner seen (.arm earlier.length :: path)
          (fun action => do
            StmtRule.switch (optOperand subject)
              (compileCases earlier ++ (operands tests, host action) :: compileCases later)
              (compileOptStmts fallback)
            compileStmts rest)
          around (.switch span subject (earlier ++ ⟨tests, body, caseSpan⟩ :: later)
            fallback :: rest)
  | fallback {path host around span subject cases fallback rest} :
      At inner seen path host around fallback →
        At inner seen (.fallback :: path)
          (fun action => do
            StmtRule.switch (optOperand subject) (compileCases cases) (some (host action))
            compileStmts rest)
          around (.switch span subject cases (some fallback) :: rest)
  | block {path host around span body rest} :
      At inner seen path host around body →
        At inner seen (.block :: path)
          (fun action => do
            (do RoutineM.emit (.block (← StmtRule.block (host action))))
            compileStmts rest)
          around (.block span body :: rest)

variable {inner : Stmt} {seen around : List String} {path : List StmtPart}
  {host : RoutineM Unit → RoutineM Unit} {body : List Stmt}

theorem compileStmts_singleton (stmt : Stmt) : compileStmts [stmt] = compileStmt stmt := by
  rw [compileStmts, compileStmts]
  exact bind_pure_unit

theorem compileCases_append (cases others : List (SwitchCase Stmt)) :
    compileCases (cases ++ others) = compileCases cases ++ compileCases others := by
  induction cases with
  | nil => rw [compileCases, List.nil_append, List.nil_append]
  | cons case rest ih => rw [List.cons_append, compileCases, compileCases, ih, List.cons_append]

/-- With the statement itself in its place, the host is what the statements are compiled to. -/
theorem Stmt.At.host_eq (h : inner.At seen path host around body) :
    host (compileStmt inner) = compileStmts body := by
  induction h with
  | first => rw [compileStmts]
  | later _ ih => rw [compileStmts, ← ih]
  | whileBody _ ih | forBody _ ih | rangeBody _ ih | thenBody _ ih | block _ ih =>
      rw [compileStmts, compileStmt, ← ih]
  | forInit _ ih | forPost _ ih =>
      rw [compileStmts_singleton] at ih
      rw [compileStmts, compileStmt, compileOptStmt, ← ih]
  | elseBody _ ih | fallback _ ih => rw [compileStmts, compileStmt, compileOptStmts, ← ih]
  | arm _ ih =>
      rw [compileStmts, compileStmt, compileCases_append, compileCases, compileCase, ← ih]

/-- What stands inside of well-formed statements is well formed. -/
theorem Stmt.At.formed {word : String → Prop} (h : inner.At seen path host around body)
    (hFormed : StmtsFormed word body) : inner.Formed word := by
  induction h with
  | first => exact hFormed.1
  | later _ ih => exact ih hFormed.2
  | whileBody _ ih =>
      rw [StmtsFormed, Stmt.Formed] at hFormed
      exact ih hFormed.1.2
  | forInit _ ih =>
      rw [StmtsFormed, Stmt.Formed, OptStmtFormed] at hFormed
      exact ih ⟨hFormed.1.1, trivial⟩
  | forPost _ ih =>
      rw [StmtsFormed, Stmt.Formed] at hFormed
      obtain ⟨⟨-, -, hPost, -⟩, -⟩ := hFormed
      rw [OptStmtFormed] at hPost
      exact ih ⟨hPost, trivial⟩
  | forBody _ ih | rangeBody _ ih =>
      rw [StmtsFormed, Stmt.Formed] at hFormed
      exact ih hFormed.1.2.2.2
  | thenBody _ ih =>
      rw [StmtsFormed, Stmt.Formed] at hFormed
      exact ih hFormed.1.2.1
  | elseBody _ ih | fallback _ ih =>
      rw [StmtsFormed, Stmt.Formed] at hFormed
      exact ih hFormed.1.2.2
  | arm _ ih =>
      rw [StmtsFormed, Stmt.Formed] at hFormed
      obtain ⟨⟨-, hCases, -⟩, -⟩ := hFormed
      rw [casesFormed_append, CasesFormed] at hCases
      exact ih hCases.2.1.2
  | block _ ih =>
      rw [StmtsFormed, Stmt.Formed] at hFormed
      exact ih hFormed.1

/-- The run of a host comes to a point with what is put into it: whatever fails at that point fails
the host. -/
def RoutineM.Leads {α : Type} (host : RoutineM Unit → RoutineM α) (env : Env) (routine : Routine)
    (env' : Env) (before : Routine) : Prop :=
  ∀ (action : RoutineM Unit) failure, (action.exec env' before).1 = .error failure →
    ((host action).exec env routine).1 = .error failure

theorem RoutineM.Leads.bind {α β : Type} {host : RoutineM Unit → RoutineM α} {env env' : Env}
    {routine before : Routine} (h : Leads host env routine env' before) (next : α → RoutineM β) :
    Leads (fun action => host action >>= next) env routine env' before := by
  intro action failure hFails
  have hHost := h action failure hFails
  rw [bind_exec]
  split
  · next hRun =>
      rw [hRun] at hHost
      cases hHost
  · next hRun =>
      rw [hRun] at hHost
      exact congrArg Except.error (Except.error.inj hHost)

/-- A run comes to one point only. -/
theorem RoutineM.Leads.unique {α : Type} {host : RoutineM Unit → RoutineM α} {env env' env'' : Env}
    {routine before before' : Routine} (h : Leads host env routine env' before)
    (h' : Leads host env routine env'' before') : env'' = env' ∧ before' = before := by
  classical
  by_contra hOther
  let probe : RoutineM Unit := fun e r =>
    if e = env' ∧ r = before then (.error .exhausted, r) else (.error (.fault default), r)
  have hHere : (probe.exec env' before).1 = .error .exhausted := by simp [probe, RoutineM.exec]
  have hThere : (probe.exec env'' before').1 = .error (.fault default) := by
    simp [probe, RoutineM.exec, hOther]
  have hBoth := (h probe _ hHere).symm.trans (h' probe _ hThere)
  cases hBoth

end GoToC

/-!
## Names that are visible on the way

When a body is compiled, the blocks of the routine bind at each point the names that the tree has
declared by then. An action is told by the names that it leaves declared in the innermost block.
-/

namespace GoToC

variable {walk : Env → Outlook → Walk} {arms : List (List Operand × RoutineM Unit)}

variable {names around : List String} {routine : Routine}

/-- The names that the blocks of a routine bind, the latest first. -/
def Routine.Shows (routine : Routine) (names : List String) : Prop :=
  ∃ values outlook, Laid values outlook routine.scopes ∧ outlook.names = names

namespace Routine.Shows

theorem isBound (h : routine.Shows names) (name : String) :
    routine.isBound name = true ↔ name ∈ names := by
  obtain ⟨values, outlook, hLaid, rfl⟩ := h
  have hFound := hLaid.layout.isSome_findSome? name
  show (routine.scopes.findSome? (·.lookup name)).isSome = true ↔ _
  simp [hFound, Outlook.names]

theorem start (supply : Supply) : (Routine.start supply).Shows [] :=
  ⟨[], .start, ⟨.start, rfl⟩, rfl⟩

theorem of_scopes {after : Routine} (h : routine.Shows names)
    (hScopes : after.scopes = routine.scopes) : after.Shows names := by
  obtain ⟨values, outlook, hLaid, hNames⟩ := h
  exact ⟨values, outlook, hScopes ▸ hLaid, hNames⟩

/-- A new block does not bind any names yet. -/
theorem opened (h : routine.Shows names) :
    ({ routine with scopes := [] :: routine.scopes } : Routine).Shows names := by
  obtain ⟨values, outlook, hLaid, hNames⟩ := h
  exact ⟨values, ⟨outlook.visible, outlook.depth + 1, outlook.next⟩,
    ⟨.enter hLaid.layout, hLaid.count⟩, hNames⟩

end Routine.Shows

/-- An action that declares just the given names, the latest first, in the innermost block. -/
def RoutineM.Declares {α : Type} (action : RoutineM α) (names : List String) : Prop :=
  ∀ env (routine : Routine) value after around, routine.Shows around →
    action.exec env routine = (.ok value, after) → after.Shows (names ++ around)

namespace RoutineM.Declares

variable {α β : Type} {action : RoutineM α} {next : α → RoutineM β} {names' : List String}

/-- What follows a walk declares the names that are visible after it. -/
theorem of_scoped {action' : RoutineM α}
    (h : ∀ env, Scoped.OfAction env RoutineM.lookup action action' (walk env))
    (hNames : ∀ env outlook, (walk env outlook).outlook.names = names ++ outlook.names) :
    action.Declares names := by
  rintro env routine value after _ ⟨values, outlook, hLaid, rfl⟩ hRun
  obtain ⟨-, hDone⟩ := h env outlook (lookup_lexical env _) env routine values ⟨rfl, rfl, rfl⟩ hLaid
  obtain ⟨-, more, hAfter, -⟩ := hDone value after hRun
  exact ⟨_, _, hAfter, hNames env outlook⟩

theorem blind (h : action.Blind) : action.Declares [] := by
  intro env routine value after around hShows hRun
  have hScopes : (action.exec env routine).2.scopes = routine.scopes := h.scopes
  rw [hRun] at hScopes
  exact hShows.of_scopes hScopes

theorem bind (h : action.Declares names) (hNext : ∀ value, (next value).Declares names') :
    (action >>= next).Declares (names' ++ names) := by
  intro env routine value after around hShows hRun
  obtain ⟨first, middle, hFirst, hRun⟩ := RoutineM.bind_eq_ok.mp hRun
  rw [List.append_assoc]
  exact hNext first env middle value after _ (h env routine first middle around hShows hFirst) hRun

theorem value {operand : Operand} (h : ∀ env, Scoped.OfOperand env RoutineM.lookup operand) :
    operand.value.Declares [] :=
  .of_scoped (fun env _ => Scoped.value (h env)) fun _ _ => rfl

theorem loopTest {cond : Option Operand}
    (h : ∀ operand ∈ cond, ∀ env, Scoped.OfOperand env RoutineM.lookup operand) :
    (StmtRule.loopTest cond).Declares [] :=
  .of_scoped (fun env _ => Scoped.loopTest fun operand hOperand => h operand hOperand env)
    fun _ _ => rfl

/-- A block ends with the names that it began with. -/
theorem block {action action' : RoutineM Unit}
    (h : ∀ env, Scoped.OfAction env RoutineM.lookup action action' (walk env)) :
    (StmtRule.block action).Declares [] :=
  .of_scoped (fun env _ => Scoped.block (h env)) fun _ _ => rfl

theorem inLoop (number : Nat) (h : action.Declares names) :
    (RoutineM.inLoop number action).Declares names := by
  intro env routine value after around hShows hRun
  exact h { env with loop := some number } routine value after around hShows hRun

theorem rangeLocal (name : Option String) (type : Ty) (span : Span) :
    (StmtRule.rangeLocal name type span).Declares (blockNames name.toList) :=
  .of_scoped (fun _ _ => Scoped.rangeLocal name type span)
    fun _ outlook => outlook.names_declareAll name.toList

theorem switchTests
    (h : ∀ arm ∈ arms, ∀ operand ∈ arm.1, ∀ env, Scoped.OfOperand env RoutineM.lookup operand) :
    (StmtRule.switchTests arms).Declares [] :=
  have hSame : Scoped.SameTests RoutineM.lookup arms
      (arms.map fun arm => (arm.1.map (·.via RoutineM.lookup), arm.2)) := List.map_map ..
  .of_scoped (fun env _ => Scoped.switchTests hSame fun arm hArm operand hOperand =>
    h arm hArm operand hOperand env) fun _ _ => rfl

theorem switchArms (tests : List (List CExpr))
    (h : ∀ arm ∈ arms, (StmtRule.block arm.2).Declares []) :
    (StmtRule.switchArms tests arms).Declares [] := by
  induction arms generalizing tests with
  | nil => cases tests <;> exact .blind (.pure _)
  | cons arm rest ih =>
      cases tests with
      | nil => exact .blind (.pure _)
      | cons first others =>
          have hRest (body : List CStmt) : (do
              let others ← StmtRule.switchArms others rest
              return CStmt.arm first body :: others).Declares [] :=
            .bind (ih others fun a ha => h a (List.mem_cons_of_mem arm ha)) fun _ =>
              .blind (.pure _)
          exact .bind (h arm List.mem_cons_self) hRest

/-- A function declares its named inputs and outputs. -/
theorem enterFunc (func : FuncType Ty) (span : Span) :
    (GoToC.enterFunc func span).Declares (blockNames func.declaredNames) :=
  .of_scoped (fun _ _ => Scoped.enterFunc func span)
    fun _ outlook => outlook.names_declareAll func.declaredNames

theorem compileStmt (stmt : Stmt) : (GoToC.compileStmt stmt).Declares stmt.declares :=
  .of_scoped (fun _ => compileStmt_scoped stmt) fun env => stmt.names_walk env.hides

/-- The first statement of a loop, if it has one. -/
theorem compileOptStmt (stmt : Option Stmt) :
    ((GoToC.compileOptStmt stmt).getD (pure ())).Declares ((stmt.map (·.declares)).getD []) := by
  cases stmt with
  | none =>
      rw [GoToC.compileOptStmt]
      exact .blind (.pure ())
  | some stmt =>
      rw [GoToC.compileOptStmt]
      exact .compileStmt stmt

end RoutineM.Declares

end GoToC

/-!
## Statements of a body, one by one

When a body is compiled, each statement in it is compiled at some point on the way, at whatever
depth it stands. What is written for the body is what is written for the statement, filled in at a
place, and what can run ahead of a first arrival there names nothing but what was declared by then.
The names that the blocks bind at that point are those that the tree has declared.
-/

namespace GoToC

variable {α : Type} {limits : Limits} {give : List CStmt → α} {action : RoutineM α}
  {good : Set OwnName → α → Prop}

section

variable {α : Type} {extent : Extent} {limits : Limits} {env : Env} {routine after : Routine}

/-- Variables are declared behind those declared before. -/
theorem Routine.carried_locals :
    Routine.Carried fun before after => before.locals.toList <+: after.locals.toList where
  same hLocals _ _ _ := hLocals ▸ List.prefix_rfl
  trans hFirst hSecond := hFirst.trans hSecond
  addLocal h := by
    obtain ⟨⟨added, -, -, -, hLocals⟩, -⟩ := addLocal_ok h
    rw [hLocals, Array.toList_push]
    exact List.prefix_append _ _

/-- The same routine, behind statements that were written before. -/
def Routine.behind (earlier : Array CStmt) (routine : Routine) : Routine :=
  { routine with body := earlier ++ routine.body }

/-- An action that does not look at what was written before it. -/
def RoutineM.Oblivious (action : RoutineM α) : Prop :=
  ∀ env routine earlier, action.exec env (routine.behind earlier) =
    (action.exec env routine).map id (·.behind earlier)

namespace RoutineM.Oblivious

variable {β : Type} {action : RoutineM α} {next : α → RoutineM β}

theorem pure (value : α) : Oblivious (pure value : RoutineM α) := fun _ _ _ => rfl

theorem bind (h : Oblivious action) (hNext : ∀ value, Oblivious (next value)) :
    Oblivious (action >>= next) := by
  intro env routine earlier
  rw [bind_exec, bind_exec, h]
  cases action.exec env routine with
  | mk result middle =>
      cases result with
      | ok value => exact hNext value env middle earlier
      | error failure => rfl

theorem get {next : Routine → RoutineM α}
    (hBody : ∀ routine body, next { routine with body := body } = next routine)
    (hNext : ∀ routine, Oblivious (next routine)) : Oblivious (get >>= next) := by
  intro env routine earlier
  show (next (routine.behind earlier)).exec env _ = _
  rw [Routine.behind, hBody]
  exact hNext routine env routine earlier

theorem lift (answer : Faulty α) : Oblivious (RoutineM.lift answer) := by
  cases answer <;> exact fun _ _ _ => rfl

theorem types (ask : TypeStore → Faulty α) : Oblivious (RoutineM.types ask) :=
  .bind (fun _ _ _ => rfl) fun _ => .lift _

theorem nextSerial : Oblivious RoutineM.nextSerial := fun _ _ _ => rfl

theorem requestTypedef (type : Ty) : Oblivious (RoutineM.requestTypedef type) := by
  intro env routine earlier
  unfold RoutineM.requestTypedef
  simp only [bind_exec, get_exec, read_exec]
  show _ = Prod.map id _ _
  cases hRequest : (routine.supply.typedefs.request env.program.types type).1 with
  | error fault =>
      simp only [Routine.behind, hRequest]
      rfl
  | ok item =>
      simp only [Routine.behind, hRequest]
      cases item <;> rfl

theorem addLocal (name : String) (type : Ty) (span : Span) :
    Oblivious (RoutineM.addLocal name type span) := by
  have hDeclare : Oblivious (do
      RoutineM.requestTypedef type
      let cType ← RoutineM.types (·.cType type)
      let init ← RoutineM.types (·.zeroValue type)
      modify fun routine =>
        { routine with locals := routine.locals.push ⟨cType, name, init⟩ } : RoutineM Unit) :=
    .bind (.requestTypedef type) fun _ => .bind (.types _) fun _ => .bind (.types _) fun _ =>
      fun _ _ _ => rfl
  refine .bind (.types _) fun hasZero => ?_
  dsimp only
  split
  · exact fun _ _ _ => rfl
  · exact hDeclare

theorem resultTemps (serial : Nat) (span : Span) (index : Nat) (outputs : List (Member Ty)) :
    Oblivious (Call.resultTemps serial span index outputs) := by
  induction outputs generalizing index with
  | nil => exact .pure _
  | cons output rest ih =>
      exact .bind (.addLocal _ _ _) fun _ => .bind (ih (index + 1)) fun _ => .pure _

end RoutineM.Oblivious

/-- No action looks at what was written before it. -/
theorem Composed.oblivious (h : Composed extent limits action) : action.Oblivious := by
  induction h with
  | pure value => exact .pure value
  | bind _ _ hAction hNext => exact .bind hAction hNext
  | fault | error | read | newFunc | newStruct => exact fun _ _ _ => rfl
  | bindName =>
      intro env routine earlier
      rw [RoutineM.bindName_exec, RoutineM.bindName_exec]
      rfl
  | get hBody _ hNext => exact .get hBody hNext
  | nextSerial => exact .nextSerial
  | emit stmt =>
      intro env routine earlier
      simp [Routine.behind]
  | temp type span => exact .bind .nextSerial fun _ => .bind (.addLocal _ _ _) fun _ => .pure _
  | results outputs span =>
      unfold Call.results
      split
      · exact .pure _
      · exact .pure _
      · exact .bind .nextSerial fun _ => .bind (.resultTemps _ _ _ _) fun _ => .pure _
  | declareLocal name type span =>
      refine .get (fun _ _ => rfl) fun routine => ?_
      dsimp only
      split
      · exact .bind (.bind .nextSerial fun _ => .pure _) fun _ =>
          .bind (.addLocal _ _ _) fun _ => .pure _
      · exact .bind (.pure _) fun _ => .bind (.addLocal _ _ _) fun _ => .pure _
  | capture _ hAction =>
      intro env routine earlier
      simp only [RoutineM.capture_exec, Routine.behind]
      split
      · rfl
      · rfl
  | inScope _ _ hInner =>
      intro env routine earlier
      exact congrArg (fun run => (run.1, { run.2 with scopes := run.2.scopes.tail }))
        (hInner env { routine with scopes := [] :: routine.scopes } earlier)
  | inLoop number _ _ hInner =>
      exact fun env routine earlier => hInner { env with loop := some number } routine earlier

/-- What an action writes comes after what was written before, whatever that is. -/
theorem Composed.replays {action : RoutineM α} (h : Composed extent limits action)
    {value : α} (hRun : action.exec env routine = (.ok value, after)) :
    ∃ stmts : List CStmt, after.body = routine.body ++ stmts.toArray ∧ ∀ body,
      action.exec env { routine with body := body } =
        (.ok value, { after with body := body ++ stmts.toArray }) := by
  let bare : Routine := { routine with body := #[] }
  have hBehind (body : Array CStmt) : { routine with body := body } = bare.behind body := by
    simp [bare, Routine.behind]
  obtain ⟨hResult, hAfter⟩ := Prod.mk.inj <| hRun.symm.trans <|
    (congrArg (action.exec env) (hBehind routine.body)).trans (h.oblivious env bare routine.body)
  refine ⟨(action.exec env bare).2.body.toList, congrArg Routine.body hAfter, fun body => ?_⟩
  rw [hBehind, h.oblivious, hAfter]
  exact Prod.ext hResult.symm rfl

end

/-! ### Points on the way -/

variable {s : Setting} {params known : Set OwnName} {env : Env} {routine middle after : Routine}
  {stmt : Stmt} {seen around : List String} {path : List StmtPart}

theorem Routine.ownNames_mono (h : routine.locals.toList <+: after.locals.toList) :
    routine.ownNames params ⊆ after.ownNames params := by
  rintro n (hParam | ⟨var, hVar, rfl⟩)
  · exact .inl hParam
  · exact .inr ⟨var, h.subset hVar, rfl⟩

/-- A point in the compilation of a routine: types are sound, and what is bound and written names
only what is declared. -/
structure Steady (s : Setting) (params known : Set OwnName) (env : Env) (routine : Routine) :
    Prop where
  sounds : Sounds (some s) env routine
  knows : known ⊆ routine.ownNames params
  env : env.Spelled .free known
  closed : routine.Spelled .free params

namespace Steady

/-- What an action keeps closed is told of a later point. -/
theorem run {value : α} (h : Steady s params known env routine)
    (hSpells : Spells (.closing (some s) params) known action good)
    (hRun : action.exec env routine = (.ok value, after)) :
    ∃ known', known ⊆ known' ∧ good known' value ∧ Steady s params known' env after := by
  obtain ⟨⟨known', le, hKnown, hGood⟩, -, hClosed, hSounds⟩ :=
    hSpells env routine value after h.sounds h.knows h.env h.closed hRun
  exact ⟨known', le, hGood, hSounds, hKnown, h.env.mono le, hClosed⟩

/-- A new block, in which nothing is written yet. -/
theorem opened (h : Steady s params known env routine) :
    Steady s params known env { routine with scopes := [] :: routine.scopes } where
  sounds s hs := ⟨(h.sounds s hs).1, List.forall_mem_cons.mpr ⟨by simp, (h.sounds s hs).2⟩⟩
  knows := h.knows
  env := h.env
  closed := { h.closed with scopes := List.forall_mem_cons.mpr ⟨by simp, h.closed.scopes⟩ }

theorem emptied (h : Steady s params known env routine) :
    Steady s params known env { routine with body := #[] } where
  sounds := h.sounds.of_scopes rfl
  knows := h.knows
  env := h.env
  closed := { h.closed with body := trivial }

theorem looped (h : Steady s params known env routine) (loop : Option Nat) :
    Steady s params known { env with loop := loop } routine where
  sounds s hs := by
    obtain ⟨hEnv, hRoutine⟩ := h.sounds s hs
    exact ⟨{ hEnv with }, hRoutine⟩
  knows := h.knows
  env := { h.env with }
  closed := h.closed

end Steady

/-- A statement that is compiled on the way from one routine to another, at the point that its host
comes to. What is written in its place is filled in at a place of what the host gives and writes. -/
structure Visit {α : Type} (s : Setting) (params : Set OwnName) (env : Env) (stmt : Stmt)
    (seen : List String) (path : List StmtPart) (host : RoutineM Unit → RoutineM α)
    (give : List CStmt → α) (write : List CStmt → List CStmt) (routine after : Routine) where
  loop : Option Nat
  known : Set OwnName
  before : Routine
  between : Routine
  place : CPlace
  written : List CStmt
  steady : Steady s params known { env with loop := loop } before
  shows : before.Shows seen
  leads : RoutineM.Leads host env routine { env with loop := loop } before
  run : (compileStmt stmt).exec { env with loop := loop } before = (.ok (), between)
  body : between.body = before.body ++ written.toArray
  fills : ∀ (action : RoutineM Unit) (stmts : List CStmt),
    action.exec { env with loop := loop } before =
        (.ok (), { between with body := before.body ++ stmts.toArray }) →
      (host action).exec env routine = (.ok (give (place.fill stmts)),
        { after with body := routine.body ++ (write (place.fill stmts)).toArray })
  parts : place.path = path
  ahead : place.Ahead (before.ownNames params)
  earlier : routine.locals.toList <+: before.locals.toList
  later : between.locals.toList <+: after.locals.toList

/-- An action that visits a statement whenever it succeeds, as the host of the statement. The names
are those that are seen by the statement and those that are bound around the action. -/
def Visits (s : Setting) (params known : Set OwnName) (stmt : Stmt) (seen : List String)
    (path : List StmtPart) (around : List String) (host : RoutineM Unit → RoutineM Unit) : Prop :=
  ∀ env routine after, Steady s params known env routine → routine.Shows around →
    (host (compileStmt stmt)).exec env routine = (.ok (), after) →
    Nonempty (Visit s params env stmt seen path host (fun _ => ()) id routine after)

/-- An action that visits a statement and gives what is written, but writes nothing itself. -/
def Holds {α : Type} (s : Setting) (params known : Set OwnName) (stmt : Stmt)
    (seen : List String) (path : List StmtPart) (around : List String)
    (host : RoutineM Unit → RoutineM α) (give : List CStmt → α) : Prop :=
  ∀ env routine value after, Steady s params known env routine → routine.Shows around →
    (host (compileStmt stmt)).exec env routine = (.ok value, after) →
    Nonempty (Visit s params env stmt seen path host give (fun _ => []) routine after)

/-- What the host gives and writes with the statement itself in its place. -/
theorem Visit.run_host {host : RoutineM Unit → RoutineM α} {write : List CStmt → List CStmt}
    (visit : Visit s params env stmt seen path host give write routine after) :
    (host (compileStmt stmt)).exec env routine = (.ok (give (visit.place.fill visit.written)),
      { after with body := routine.body ++ (write (visit.place.fill visit.written)).toArray }) := by
  refine visit.fills _ _ ?_
  rw [← visit.body]
  exact visit.run

/-- An action that can run before a statement that is visited, with the names that it declares. -/
structure Prior {α : Type} (s : Setting) (params known : Set OwnName) (names : List String)
    (action : RoutineM α) (good : Set OwnName → α → Prop) : Prop where
  composed : Composed .nested .any action
  spells : Spells (.closing (some s) params) known action good
  declares : action.Declares names

/-- An action that writes nothing and forgets no variable. -/
def Silent {α : Type} (action : RoutineM α) : Prop :=
  ∀ env routine value after, action.exec env routine = (.ok value, after) →
    after.body = routine.body ∧ routine.locals.toList <+: after.locals.toList

/-- Actions that, last of all, write a statement that is filled with the part that they are given,
and nothing else. -/
def Wraps {α : Type} (known : Set OwnName) (kind : StmtPart) (give : List CStmt → α)
    (next : α → RoutineM Unit) : Prop :=
  ∀ env routine part after, (next (give part)).exec env routine = (.ok (), after) →
    ∃ frame : CFrame, frame.part = kind ∧ frame.Ahead known ∧
      routine.locals.toList <+: after.locals.toList ∧
      ∀ stmts, (next (give stmts)).exec env routine =
        (.ok (), { after with body := routine.body ++ [frame.fill stmts].toArray })

namespace Silent

variable {α β : Type} {action : RoutineM α} {next : α → RoutineM β}

theorem pure (value : α) : Silent (pure value : RoutineM α) := by
  intro env routine found after hRun
  cases hRun
  exact ⟨rfl, List.prefix_rfl⟩

theorem bind (h : Silent action) (hNext : ∀ value, Silent (next value)) :
    Silent (action >>= next) := by
  intro env routine value after hRun
  obtain ⟨first, middle, hFirst, hRun⟩ := RoutineM.bind_eq_ok.mp hRun
  have hMiddle := h _ _ _ _ hFirst
  have hAfter := hNext first _ _ _ _ hRun
  exact ⟨hAfter.1.trans hMiddle.1, hMiddle.2.trans hAfter.2⟩

theorem capture {extent : Extent} (h : Composed extent limits action) :
    Silent (RoutineM.capture action) := by
  rintro env routine ⟨value, stmts⟩ after hRun
  obtain ⟨inner, hInner, -, rfl⟩ := RoutineM.capture_eq_ok.mp hRun
  have hGrown := h.carries Routine.carried_locals hInner
  exact ⟨rfl, hGrown⟩

theorem block {action : RoutineM Unit} (h : Composed .nested limits action) :
    Silent (StmtRule.block action) :=
  .bind (.capture (.inScope rfl h)) fun _ => .pure _

theorem optBlock {action : Option (RoutineM Unit)} (h : ∀ a ∈ action, Composed .nested limits a) :
    Silent (StmtRule.optBlock action) := by
  cases action with
  | none => exact .pure none
  | some action =>
      rw [StmtRule.optBlock, map_eq_pure_bind]
      exact .bind (.block (h action rfl)) fun _ => .pure _

theorem switchArms (tests : List (List CExpr)) {arms : List (List Operand × RoutineM Unit)}
    (h : ∀ arm ∈ arms, Composed .nested limits arm.2) :
    Silent (StmtRule.switchArms tests arms) := by
  induction arms generalizing tests with
  | nil => cases tests <;> exact .pure []
  | cons arm rest ih =>
      cases tests with
      | nil => exact .pure []
      | cons first others =>
          exact .bind (.block (h arm List.mem_cons_self)) fun _ =>
            .bind (ih others fun a ha => h a (List.mem_cons_of_mem arm ha)) fun _ => .pure _

end Silent

namespace Wraps

variable {α : Type} {kind : StmtPart} {give : List CStmt → α} {next : α → RoutineM Unit}

theorem emit (frame : CFrame) (h : frame.Ahead known)
    (hNext : ∀ stmts, next (give stmts) = RoutineM.emit (frame.fill stmts)) :
    Wraps known frame.part give next := by
  intro env routine part after hRun
  rw [hNext] at hRun
  cases hRun
  refine ⟨frame, rfl, h, List.prefix_rfl, fun stmts => ?_⟩
  rw [hNext]
  simp

theorem behind {β : Type} {action : RoutineM β} {next : β → α → RoutineM Unit} (h : Silent action)
    (hNext : ∀ value, Wraps known kind give (next value)) :
    Wraps known kind give fun part => action >>= fun value => next value part := by
  intro env routine part after hRun
  obtain ⟨first, middle, hFirst, hRun⟩ := RoutineM.bind_eq_ok.mp hRun
  obtain ⟨hBody, hLocals⟩ := h _ _ _ _ hFirst
  obtain ⟨frame, hKind, hFrame, hGrown, hFills⟩ := hNext first _ _ _ _ hRun
  refine ⟨frame, hKind, hFrame, hLocals.trans hGrown, fun stmts => ?_⟩
  exact RoutineM.bind_eq_ok.mpr ⟨first, middle, hFirst, hBody ▸ hFills stmts⟩

end Wraps

namespace Visits

variable {host : RoutineM Unit → RoutineM Unit}

theorem inScope (h : Visits s params known stmt seen path around host) :
    Visits s params known stmt seen path around fun action => RoutineM.inScope (host action) := by
  intro env routine after hSteady hShows hRun
  obtain ⟨inner, hInner, rfl⟩ := RoutineM.inScope_eq_ok.mp hRun
  obtain ⟨visit⟩ := h env _ inner hSteady.opened hShows.opened hInner
  exact ⟨{ visit with
    fills := fun action stmts hAction =>
      RoutineM.inScope_eq_ok.mpr ⟨_, visit.fills action stmts hAction, rfl⟩ }⟩

/-- The statement itself. -/
theorem self (stmt : Stmt) : Visits s params known stmt seen [] seen fun action => action := by
  intro env routine after hSteady hShows hRun
  have hComposed : Composed .nested .any (compileStmt stmt) :=
    compileStmt_composed stmt fun _ _ => trivial
  obtain ⟨stmts, hStmts, -⟩ := hComposed.replays hRun
  exact ⟨{
    loop := env.loop
    known := known
    before := routine
    between := after
    place := .here [] []
    written := stmts
    steady := hSteady
    shows := hShows
    leads := fun _ _ hFails => hFails
    run := hRun
    body := hStmts
    fills := fun action stmts hAction => by simpa [CPlace.fill] using hAction
    parts := rfl
    ahead := CStmt.closedAll_nil
    earlier := List.prefix_rfl
    later := List.prefix_rfl }⟩

theorem first {next : Unit → RoutineM Unit} (h : Visits s params known stmt seen path around host)
    (hNext : ∀ value, Composed .nested .any (next value)) :
    Visits s params known stmt seen path around fun action => host action >>= next := by
  intro env routine after hSteady hShows hRun
  obtain ⟨⟨⟩, middle, hFirst, hRun⟩ := RoutineM.bind_eq_ok.mp hRun
  obtain ⟨visit⟩ := h env routine middle hSteady hShows hFirst
  obtain ⟨others, -, hReplays⟩ := (hNext _).replays hRun
  exact ⟨{ visit with
    place := visit.place.widen [] others
    leads := visit.leads.bind next
    fills := fun action stmts hAction => RoutineM.bind_eq_ok.mpr
      ⟨(), _, visit.fills action stmts hAction, by
        simpa [CPlace.fill_widen] using hReplays (routine.body ++ (visit.place.fill stmts).toArray)⟩
    parts := by rw [CPlace.path_widen, visit.parts]
    ahead := visit.ahead.widen CStmt.closedAll_nil _
    later := visit.later.trans ((hNext _).carries Routine.carried_locals hRun) }⟩

theorem second {first : RoutineM α} {host : α → RoutineM Unit → RoutineM Unit}
    {names : List String} (hFirst : Prior s params known names first good)
    (h : ∀ known' value, known ⊆ known' → good known' value →
      Visits s params known' stmt seen path (names ++ around) (host value)) :
    Visits s params known stmt seen path around fun action =>
      first >>= fun value => host value action := by
  intro env routine after hSteady hShows hRun
  obtain ⟨value, middle, hRunFirst, hRun⟩ := RoutineM.bind_eq_ok.mp hRun
  obtain ⟨known', hKnown, hGood, hMiddle⟩ := hSteady.run hFirst.spells hRunFirst
  obtain ⟨hoisted, hHoisted, -⟩ := hFirst.composed.replays hRunFirst
  have hLocals := hFirst.composed.carries Routine.carried_locals hRunFirst
  have hNames := hFirst.declares env routine value middle around hShows hRunFirst
  obtain ⟨visit⟩ := h known' value hKnown hGood env middle after hMiddle hNames hRun
  have hClosed : CStmt.ClosedAll (middle.ownNames params) hoisted := by
    have hBoth := CStmt.spelledAll_free.mp hMiddle.closed.body
    rw [hHoisted, Array.toList_append, CStmt.closedAll_append] at hBoth
    exact hBoth.2
  exact ⟨{ visit with
    place := visit.place.widen hoisted []
    leads := fun action failure hFails => by
      rw [RoutineM.bind_exec, hRunFirst]
      exact visit.leads action failure hFails
    fills := fun action stmts hAction => RoutineM.bind_eq_ok.mpr
      ⟨value, middle, hRunFirst, by
        simpa [CPlace.fill_widen, hHoisted] using visit.fills action stmts hAction⟩
    parts := by rw [CPlace.path_widen, visit.parts]
    ahead := visit.ahead.widen (hClosed.mono (Routine.ownNames_mono visit.earlier)) _
    earlier := hLocals.trans visit.earlier }⟩

/-- A part is compiled first, and then the statement that holds it is written. -/
theorem held {host : RoutineM Unit → RoutineM α} {next : α → RoutineM Unit} {kind : StmtPart}
    (h : Holds s params known stmt seen path around host give)
    (hNext : Wraps known kind give next) :
    Visits s params known stmt seen (kind :: path) around fun action => host action >>= next := by
  intro env routine after hSteady hShows hRun
  obtain ⟨value, middle, hFirst, hRun⟩ := RoutineM.bind_eq_ok.mp hRun
  obtain ⟨visit⟩ := h env routine value middle hSteady hShows hFirst
  obtain ⟨hValue, hMiddle⟩ := Prod.mk.inj (hFirst.symm.trans visit.run_host)
  obtain rfl := Except.ok.inj hValue
  have hBody : middle.body = routine.body := by simpa using congrArg Routine.body hMiddle
  obtain ⟨frame, rfl, hFrame, hLocals, hFills⟩ := hNext _ _ _ _ hRun
  exact ⟨{ visit with
    place := .within [] frame visit.place []
    leads := visit.leads.bind next
    fills := fun action stmts hAction => by
      refine RoutineM.bind_eq_ok.mpr ⟨_, middle, ?_, hBody ▸ hFills _⟩
      exact (visit.fills action stmts hAction).trans (congrArg _ hMiddle.symm)
    parts := by rw [CPlace.path, visit.parts]
    ahead := ⟨CStmt.closedAll_nil,
      (hFrame.mono hSteady.knows).mono (Routine.ownNames_mono visit.earlier), visit.ahead⟩
    later := visit.later.trans hLocals }⟩

end Visits

namespace Holds

variable {host : RoutineM Unit → RoutineM Unit}

theorem capture (h : Visits s params known stmt seen path around host) :
    Holds s params known stmt seen path around (fun action => RoutineM.capture (host action))
      fun stmts => ((), stmts) := by
  rintro env routine ⟨_, stmts⟩ after hSteady hShows hRun
  obtain ⟨inner, hInner, rfl, rfl⟩ := RoutineM.capture_eq_ok.mp hRun
  obtain ⟨visit⟩ := h env _ inner hSteady.emptied (hShows.of_scopes rfl) hInner
  exact ⟨{ visit with
    leads := fun action failure hFails => by
      have hInner := visit.leads action failure hFails
      rw [RoutineM.capture_exec]
      split
      · next hRun =>
          rw [hRun] at hInner
          cases hInner
      · next hRun =>
          rw [hRun] at hInner
          exact congrArg Except.error (Except.error.inj hInner)
    fills := fun action stmts hAction =>
      RoutineM.capture_eq_ok.mpr ⟨_, visit.fills action stmts hAction, by simp, by simp⟩ }⟩

theorem block (h : Visits s params known stmt seen path around host) :
    Holds s params known stmt seen path around (fun action => StmtRule.block (host action)) id := by
  intro env routine stmts after hSteady hShows hRun
  obtain ⟨⟨_, stmts⟩, middle, hCapture, hRun⟩ := RoutineM.bind_eq_ok.mp hRun
  cases hRun
  obtain ⟨visit⟩ := capture (.inScope h) env routine _ _ hSteady hShows hCapture
  exact ⟨{ visit with
    leads := visit.leads.bind _
    fills := fun action stmts hAction =>
      RoutineM.bind_eq_ok.mpr ⟨_, _, visit.fills action stmts hAction, rfl⟩ }⟩

theorem inLoop {host : RoutineM Unit → RoutineM α} (number : Nat)
    (h : Holds s params known stmt seen path around host give) :
    Holds s params known stmt seen path around (fun action => RoutineM.inLoop number (host action))
      give := by
  intro env routine value after hSteady hShows hRun
  obtain ⟨visit⟩ := h _ routine value after (hSteady.looped (some number)) hShows hRun
  exact ⟨{ visit with }⟩

end Holds

end GoToC
