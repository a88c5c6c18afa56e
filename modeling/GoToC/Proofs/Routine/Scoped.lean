import GoToC.Proofs.Routine.Lookups

/-!
# Runs that follow the scopes

Two actions that differ in how they find identifiers come to the same along a walk through the tree
if each name that the walk lists is found as the rules of scoping say, given the declarations that
are visible there. The blocks after them hold the declarations that the walk leaves visible.
Sequences of actions follow sequences of walks, and an action in a block of its own follows a walk
through a block.
-/

namespace GoToC

variable {values : List Typed}

/-- Whether the module that is compiled has a global of that name. -/
def Env.hides (env : Env) (name : String) : Bool := (env.program.global? env.module name).isSome

/-- Environments in which identifiers stand for the same. -/
structure Env.Alike (env env' : Env) : Prop where
  program : env'.program = env.program
  module : env'.module = env.module
  package : env'.package = env.package

/-- A way to find identifiers that, for each use of a list, comes to what the rules of scoping say,
wherever the blocks hold the declarations that are visible there. -/
def Finder.Lexical (find : Finder) (env : Env) (namings : List Naming) : Prop :=
  ∀ name span visible, .use name span visible ∈ namings →
    ∀ env' routine values depth next, env.Alike env' →
      Laid values ⟨visible, depth, next⟩ routine.scopes →
      ∃ outcome, Resolves env values visible name span outcome ∧
        (find name span).exec env' routine = (outcome, routine)

theorem Finder.Lexical.mono {find : Finder} {env : Env} {namings namings' : List Naming}
    (h : find.Lexical env namings) (hSub : namings' ⊆ namings) : find.Lexical env namings' :=
  fun name span visible hUse => h name span visible (hSub hUse)

/-- Each use of a list stands for something, given the values of the declarations. -/
def Found (env : Env) (values : List Typed) (namings : List Naming) : Prop :=
  ∀ name span visible, .use name span visible ∈ namings →
    ∃ value, Resolves env values visible name span (.ok value)

theorem Found.append {env : Env} {namings : List Naming} (h : Found env values namings)
    (more : List Typed) : Found env (values ++ more) namings := by
  intro name span visible hUse
  obtain ⟨value, hValue⟩ := h name span visible hUse
  refine ⟨value, ?_⟩
  cases hValue with
  | declared hRefers hDeclared => exact .declared hRefers (getElem?_append_of_some hDeclared more)
  | module hNone hGlobal => exact .module hNone hGlobal
  | builtin hNone hModule hBuiltin hOther hGlobal =>
      exact .builtin hNone hModule hBuiltin hOther hGlobal
  | primitive hNone hModule hNothing hPrim => exact .primitive hNone hModule hNothing hPrim

/-- The first of two actions follows a walk from a point of a function on, and the other one comes
to the same if names are found in a way that is lexical for the walk. If it gets to the end, each
use stands for something. The blocks around the innermost one stay as they are. -/
def Scoped {α : Type} (env : Env) (find : Finder) (outlook : Outlook) (action action' : RoutineM α)
    (walk : Walk) : Prop :=
  find.Lexical env walk.namings → ∀ env' routine values, env.Alike env' →
    Laid values outlook routine.scopes →
    action'.exec env' routine = action.exec env' routine ∧
      ∀ value after, action.exec env' routine = (.ok value, after) →
        after.scopes.tail = routine.scopes.tail ∧
          ∃ more, Laid (values ++ more) walk.outlook after.scopes ∧
            Found env (values ++ more) walk.namings

/-- Actions that use names and declare none. -/
abbrev Uses {α : Type} (env : Env) (find : Finder) (outlook : Outlook) (action action' : RoutineM α)
    (namings : List Naming) : Prop :=
  Scoped env find outlook action action' ⟨namings, outlook⟩

/-- A value that an action can come to. -/
def RoutineM.Gives {α : Type} (action : RoutineM α) (value : α) : Prop :=
  ∃ env routine after, action.exec env routine = (.ok value, after)

namespace RoutineM.Gives

variable {α β : Type} {action : RoutineM α} {next : α → RoutineM β}

theorem pure_eq {value result : α} (h : (Pure.pure value : RoutineM α).Gives result) :
    value = result := by
  obtain ⟨_, _, _, hRun⟩ := h
  exact (pure_eq_ok.mp hRun).1

theorem of_bind {result : β} (h : (action >>= next).Gives result) :
    ∃ value, action.Gives value ∧ (next value).Gives result := by
  obtain ⟨_, _, _, hRun⟩ := h
  obtain ⟨value, _, hFirst, hRest⟩ := bind_eq_ok.mp hRun
  exact ⟨value, ⟨_, _, _, hFirst⟩, ⟨_, _, _, hRest⟩⟩

theorem not_error {span : Span} {problem : Problem} {result : α} :
    ¬ (RoutineM.error span problem : RoutineM α).Gives result := by
  rintro ⟨_, _, _, hRun⟩
  cases hRun

end RoutineM.Gives

/-- A call is compiled in place if it names an intrinsic that nothing hides. -/
theorem Call.intrinsic?_exec (callee : Expr) (env : Env) (routine : Routine) :
    ∃ found, (intrinsic? callee).exec env routine = (.ok found, routine) ∧
      found.isSome = callee.ident?.any fun name =>
        (name == "len" || name == "append") && !routine.isBound name && !env.hides name := by
  have hHidden (name : String) (intrinsic : Intrinsic) : ∃ found,
      RoutineM.exec (do
        let env ← read
        if (← get).isBound name || (env.program.global? env.module name).isSome then return none
        return some intrinsic) env routine = (.ok found, routine) ∧
      found.isSome = (!routine.isBound name && !env.hides name) := by
    show ∃ found, RoutineM.exec (if routine.isBound name || env.hides name then pure none
      else pure (some intrinsic)) env routine = (.ok found, routine) ∧ _
    rw [← Bool.not_or]
    cases routine.isBound name || env.hides name with
    | true => exact ⟨none, rfl, rfl⟩
    | false => exact ⟨some intrinsic, rfl, rfl⟩
  unfold intrinsic?
  dsimp only
  by_cases hLen : callee.ident? = some "len"
  · rw [hLen]
    exact hHidden "len" .len
  · by_cases hAppend : callee.ident? = some "append"
    · rw [hAppend]
      exact hHidden "append" .append
    · refine ⟨none, ?_, ?_⟩
      · split
        · rfl
        · next hNamed => split at hNamed <;> contradiction
      · cases hIdent : callee.ident? with
        | none => rfl
        | some name => simp_all

section

variable {α β : Type} {env : Env} {find : Finder} {outlook : Outlook} {walk : Walk}
  {action action' : RoutineM α} {next next' : α → RoutineM β}

/-! ## Rules for composed actions -/

namespace Scoped

/-- An action that fails gets nowhere on any walk. -/
theorem fail (failure : Failure) :
    Scoped env find outlook (throw failure : RoutineM α) (throw failure) walk :=
  fun _ _ _ _ _ _ => ⟨rfl, nofun⟩

theorem error (span : Span) (problem : Problem) :
    Scoped env find outlook (RoutineM.error span problem : RoutineM α) (RoutineM.error span problem)
      walk :=
  fun _ _ _ _ _ _ => ⟨rfl, nofun⟩

/-- An action that neither uses nor declares names. -/
theorem blind (h : action.Blind) : Uses env find outlook action action [] := by
  refine fun _ env' routine values _ hLaid => ⟨rfl, fun value after hRun => ?_⟩
  have hScopes : (action.exec env' routine).2.scopes = routine.scopes := h.scopes
  rw [hRun] at hScopes
  refine ⟨congrArg List.tail hScopes, [], ?_, nofun⟩
  rw [hScopes, List.append_nil]
  exact hLaid

/-- One action after another, along one walk after another. -/
theorem bind {after : Outlook → Walk} (h : Scoped env find outlook action action' walk)
    (hNext : ∀ value, action.Gives value →
      Scoped env find walk.outlook (next value) (next' value) (after walk.outlook)) :
    Scoped env find outlook (action >>= next) (action' >>= next') (walk.andThen after) := by
  intro hFind env' routine values hAlike hLaid
  obtain ⟨hSame, hDone⟩ := h (hFind.mono (List.subset_append_left _ _)) env' routine values
    hAlike hLaid
  rw [RoutineM.bind_exec, RoutineM.bind_exec, hSame]
  cases hRun : action.exec env' routine with
  | mk result middle =>
      cases result with
      | error failure => exact ⟨rfl, nofun⟩
      | ok value =>
          obtain ⟨hOuter, more, hMiddle, hFound⟩ := hDone value middle hRun
          obtain ⟨hSame', hDone'⟩ := hNext value ⟨_, _, _, hRun⟩
            (hFind.mono (List.subset_append_right _ _)) env' middle _ hAlike hMiddle
          refine ⟨hSame', fun value last hLast => ?_⟩
          obtain ⟨hOuter', more', hAfter, hFound'⟩ := hDone' value last hLast
          refine ⟨hOuter'.trans hOuter, more ++ more', ?_⟩
          rw [← List.append_assoc]
          exact ⟨hAfter, fun name span visible hUse => (List.mem_append.mp hUse).elim
            (hFound.append more' name span visible) (hFound' name span visible)⟩

/-- Nothing that has to do with names is done first. -/
theorem skip (h : action.Blind) (hNext : ∀ value, action.Gives value →
      Scoped env find outlook (next value) (next' value) walk) :
    Scoped env find outlook (action >>= next) (action >>= next') walk :=
  @bind _ _ _ _ _ _ _ _ _ _ (fun _ => walk) (.blind h) hNext

theorem fail_bind (failure : Failure) :
    Scoped env find outlook ((throw failure : RoutineM α) >>= next) (throw failure >>= next')
      walk := by
  refine .skip (.fail failure) fun value hValue => ?_
  obtain ⟨_, _, _, hRun⟩ := hValue
  cases hRun

theorem error_bind (span : Span) (problem : Problem) :
    Scoped env find outlook ((RoutineM.error span problem : RoutineM α) >>= next)
      (RoutineM.error span problem >>= next') walk :=
  .skip (.error span problem) fun _ hValue => absurd hValue RoutineM.Gives.not_error

/-- One use of names after another. -/
theorem follow {first second : List Naming} (h : Uses env find outlook action action' first)
    (hNext : ∀ value, action.Gives value →
      Uses env find outlook (next value) (next' value) second) :
    Uses env find outlook (action >>= next) (action' >>= next') (first ++ second) :=
  @bind _ _ _ _ _ _ _ _ _ _ (fun outlook => ⟨second, outlook⟩) h hNext

/-- Nothing that has to do with names is done last. -/
theorem close (h : Scoped env find outlook action action' walk)
    (hNext : ∀ value, action.Gives value → (next value).Blind) :
    Scoped env find outlook (action >>= next) (action' >>= next) walk := by
  have hBoth : Scoped env find outlook (action >>= next) (action' >>= next)
      (walk.andThen fun outlook => ⟨[], outlook⟩) :=
    .bind h fun value hValue => .blind (hNext value hValue)
  rwa [Walk.andThen, List.append_nil] at hBoth

theorem map (f : α → β) (h : Scoped env find outlook action action' walk) :
    Scoped env find outlook (f <$> action) (f <$> action') walk := by
  rw [map_eq_pure_bind, map_eq_pure_bind]
  exact .close h fun _ _ => .pure _

theorem capture (h : Scoped env find outlook action action' walk) :
    Scoped env find outlook (RoutineM.capture action) (RoutineM.capture action') walk := by
  intro hFind env' routine values hAlike hLaid
  obtain ⟨hSame, hDone⟩ := h hFind env' { routine with body := #[] } values hAlike hLaid
  refine ⟨by rw [RoutineM.capture_exec, RoutineM.capture_exec, hSame], fun value after hRun => ?_⟩
  obtain ⟨inner, hInner, -, rfl⟩ := RoutineM.capture_eq_ok.mp hRun
  exact hDone _ inner hInner

/-- A block of its own ends with the blocks it began with. -/
theorem inScope {inner : Outlook → Walk}
    (h : ∀ outlook, Scoped env find outlook action action' (inner outlook)) :
    Scoped env find outlook (RoutineM.inScope action) (RoutineM.inScope action')
      (outlook.block inner) := by
  intro hFind env' routine values hAlike hLaid
  obtain ⟨hSame, hDone⟩ := h ⟨outlook.visible, outlook.depth + 1, outlook.next⟩ hFind env'
    { routine with scopes := [] :: routine.scopes } values hAlike ⟨.enter hLaid.layout, hLaid.count⟩
  refine ⟨by rw [RoutineM.inScope_exec, RoutineM.inScope_exec, hSame], fun value after hRun => ?_⟩
  obtain ⟨last, hLast, rfl⟩ := RoutineM.inScope_eq_ok.mp hRun
  obtain ⟨hScopes, more, hAfter, hFound⟩ := hDone value last hLast
  have hScopes : last.scopes.tail = routine.scopes := hScopes
  refine ⟨congrArg List.tail hScopes, more, ⟨?_, hAfter.count⟩, hFound⟩
  show Layout _ outlook.visible outlook.depth last.scopes.tail
  rw [hScopes]
  exact hLaid.layout.append _

/-- What is compiled against changes in what identifiers have nothing to do with. -/
theorem withReader {change : Env → Env} (h : Scoped env find outlook action action' walk)
    (hChange : ∀ env', env.Alike env' → env.Alike (change env')) :
    Scoped env find outlook (withReader change action : RoutineM α) (withReader change action')
      walk :=
  fun hFind env' routine values hAlike hLaid =>
    h hFind (change env') routine values (hChange env' hAlike) hLaid

theorem inLoop (number : Nat) (h : Scoped env find outlook action action' walk) :
    Scoped env find outlook (RoutineM.inLoop number action) (RoutineM.inLoop number action') walk :=
  .withReader h fun _ hAlike => ⟨hAlike.program, hAlike.module, hAlike.package⟩

/-! ## Names -/

/-- An identifier is looked up as the rules of scoping say. -/
theorem resolves {routine : Routine} {env' : Env} (hAlike : env.Alike env')
    (hLaid : Laid values outlook routine.scopes) (name : String) (span : Span) :
    Resolves env values outlook.visible name span
      ((RoutineM.lookup name span).exec env' routine).1 := by
  have hFound := hLaid.layout.findSome? name
  unfold RoutineM.lookup
  simp only [RoutineM.bind_exec, RoutineM.read_exec, RoutineM.get_exec, Routine.binding?,
    hAlike.program, hAlike.module]
  cases hValue : routine.scopes.findSome? (·.lookup name) with
  | some value =>
      rw [hValue] at hFound
      obtain ⟨site, hRefers, hNumber⟩ := hFound
      exact .declared hRefers hNumber
  | none =>
      rw [hValue] at hFound
      cases hModule : env.program.globalValue? env.module name with
      | some value => exact .module hFound hModule
      | none =>
          cases hShared : env.program.builtin.bind fun builtin =>
              if builtin = env.module then none else env.program.globalValue? builtin name with
          | some value =>
              obtain ⟨id, hBuiltin, hGlobal⟩ := Option.bind_eq_some_iff.mp hShared
              split at hGlobal
              · cases hGlobal
              · next hOther => exact .builtin hFound hModule hBuiltin hOther hGlobal
          | none =>
              have hNothing (id : ModuleId) (hBuiltin : env.program.builtin = some id)
                  (hOther : id ≠ env.module) : env.program.globalValue? id name = none := by
                rw [hBuiltin, Option.bind_some, if_neg hOther] at hShared
                exact hShared
              cases hPrim : primValue? name with
              | some value => exact .primitive hFound hModule hNothing hPrim
              | none =>
                  have hUnknown : Resolves env values outlook.visible name span
                      (.error (.error ⟨env.package, span, .unknownIdent name⟩)) :=
                    .unknown hFound hModule hNothing hPrim
                  rw [← hAlike.package] at hUnknown
                  exact hUnknown

/-- What is found lexically is what is looked up. -/
theorem lookup (name : String) (span : Span) :
    Uses env find outlook (RoutineM.lookup name span) (find name span)
      [.use name span outlook.visible] := by
  intro hFind env' routine values hAlike hLaid
  obtain ⟨outcome, hOutcome, hFound⟩ := hFind name span outlook.visible List.mem_cons_self
    env' routine values outlook.depth outlook.next hAlike hLaid
  have hAsks : ((RoutineM.lookup name span).exec env' routine).2 = routine :=
    RoutineM.Asks.lookup name span env' routine
  refine ⟨hFound.trans (Prod.ext (hOutcome.unique (resolves hAlike hLaid name span)) hAsks.symm),
    fun value after hRun => ?_⟩
  have hValue := resolves hAlike hLaid name span
  rw [hRun] at hAsks hValue
  obtain rfl : after = routine := hAsks
  refine ⟨rfl, [], ?_⟩
  rw [List.append_nil]
  refine ⟨hLaid, fun _ _ _ hUse => ?_⟩
  cases List.mem_singleton.mp hUse
  exact ⟨value, hValue⟩

theorem bindName (name : String) (value : Typed) :
    Scoped env find outlook (RoutineM.bind name value) (RoutineM.bind name value)
      (outlook.declare name) := by
  intro _ env' routine values _ hLaid
  refine ⟨rfl, fun done after hRun => ?_⟩
  rw [RoutineM.bindName_exec] at hRun
  cases hRun
  obtain ⟨hLayout, hCount⟩ := hLaid
  have hValue : (values ++ [value])[outlook.next]? = some value := by
    rw [← hCount]
    simp
  obtain ⟨scope, outer, hScopes⟩ := hLayout.exists_cons
  simp only [hScopes] at hLayout ⊢
  refine ⟨rfl, [value], ⟨.declare (hLayout.append [value]) hValue fun site hSite => ?_,
    by simp [Outlook.declare, hCount]⟩, fun _ _ _ hUse => by simp [Outlook.declare] at hUse⟩
  rw [← hCount]
  exact hLayout.number_lt site hSite

/-- Whether a name is that of a variable is asked without using it. -/
theorem isAssignable {next next' : Bool → RoutineM β} (name : String)
    (h : ∀ answer, Scoped env find outlook (next answer) (next' answer) walk) :
    Scoped env find outlook (RoutineM.isAssignable name >>= next)
      (RoutineM.isAssignable name >>= next') walk := by
  intro hFind env' routine values hAlike hLaid
  have hAsks := RoutineM.Asks.isAssignable name env' routine
  rw [RoutineM.bind_exec, RoutineM.bind_exec]
  cases hRun : (RoutineM.isAssignable name).exec env' routine with
  | mk result after =>
      rw [hRun] at hAsks
      obtain rfl : after = routine := hAsks
      cases result with
      | error failure => exact ⟨rfl, nofun⟩
      | ok answer => exact h answer hFind env' after values hAlike hLaid

/-- Whether a call is compiled in place is told as the tree tells it. -/
theorem intrinsic {next next' : Option Call.Intrinsic → RoutineM β} (callee : Expr)
    (h : ∀ found : Option Call.Intrinsic,
      found.isSome = callee.isInPlace env.hides outlook.visible →
      Scoped env find outlook (next found) (next' found) walk) :
    Scoped env find outlook (Call.intrinsic? callee >>= next) (Call.intrinsic? callee >>= next')
      walk := by
  intro hFind env' routine values hAlike hLaid
  obtain ⟨found, hRun, hFound⟩ := Call.intrinsic?_exec callee env' routine
  have hInPlace : found.isSome = callee.isInPlace env.hides outlook.visible := by
    have hHides (name : String) : env'.hides name = env.hides name := by
      rw [Env.hides, Env.hides, hAlike.program, hAlike.module]
    have hBound (name : String) : routine.isBound name = outlook.visible.any (·.name == name) :=
      hLaid.layout.isSome_findSome? name
    simp only [hFound, Expr.isInPlace, hHides, hBound]
  rw [RoutineM.bind_exec, RoutineM.bind_exec, hRun]
  exact h found hInPlace hFind env' routine values hAlike hLaid

end Scoped

/-- Looking through the blocks of the routine is a way that the rules of scoping describe. -/
theorem lookup_lexical (env : Env) (namings : List Naming) :
    Finder.Lexical RoutineM.lookup env namings := by
  intro name span visible _ env' routine values depth next hAlike hLaid
  have hAsks : ((RoutineM.lookup name span).exec env' routine).2 = routine :=
    RoutineM.Asks.lookup name span env' routine
  exact ⟨_, Scoped.resolves hAlike hLaid name span, Prod.ext rfl hAsks⟩

end

end GoToC
