import GoToC.Proofs.Routine.RetracesStmt
import GoToC.Proofs.Session.Handles
import GoToC.Proofs.Session.Tidy

/-!
# Sessions side by side

Two sessions compile modules that are alike. They know the same modules with the same names, of
the same kinds and with values of alike types, and what is compiled in one of them is compiled
in the other one. Numbers, handles and the C text may differ.
-/

namespace GoToC

variable {α β : Type} {package name : String} {ledger : Ledger} {global global' : Global}
  {p : Pairing} {related : α → β → Prop} {a : Option α} {b : Option β} {early : Prop}
  {value value' : GlobalValue} {span : Span} {problem : Problem} {id : ModuleId}
  {module module' : Module} {job : Job} {session session' : Session}

/-! ## Actions -/

/-- Where the first of two actions succeeds, the second one succeeds too, or it ends in a failure
that depends on the order in which types are built. -/
def Reruns {α β : Type} (early : Prop) (session session' : Session) (action : SessionM α)
    (action' : SessionM β) (good : α → β → Session → Session → Prop) : Prop :=
  ∀ value after, action.exec session = (.ok value, after) →
    Runs (fun _ failure => failure.Excused early) session' action' fun value' after' =>
      good value value' after after'

namespace Reruns

variable {α β γ δ : Type} {early : Prop} {session session' : Session} {action : SessionM α}
  {action' : SessionM β} {good : α → β → Session → Session → Prop}

theorem pure {value : α} {value' : β} (h : good value value' session session') :
    Reruns early session session' (pure value) (pure value') good := by
  intro found after hRun
  cases hRun
  exact h

theorem bind {next : α → SessionM γ} {next' : β → SessionM δ}
    {good' : γ → δ → Session → Session → Prop}
    (h : Reruns early session session' action action' good)
    (hNext : ∀ value value' after after', good value value' after after' →
      Reruns early after after' (next value) (next' value') good') :
    Reruns early session session' (action >>= next) (action' >>= next') good' := by
  intro last final hRun
  obtain ⟨value, middle, hFirst, hRest⟩ := SessionM.bind_eq_ok.mp hRun
  exact (h value middle hFirst).bind fun value' after' hGood =>
    hNext value value' middle after' hGood last final hRest

theorem mono {good' : α → β → Session → Session → Prop}
    (h : Reruns early session session' action action' good)
    (imp : ∀ value value' after after', good value value' after after' →
      good' value value' after after') : Reruns early session session' action action' good' :=
  fun value after hRun => (h value after hRun).mono fun value' after' =>
    imp value value' after after'

/-- What holds of each of the two actions alone. -/
theorem both {left : α → Session → Prop} {right : β → Session → Prop}
    {bad bad' : Session → Failure → Prop} (h : Reruns early session session' action action' good)
    (hLeft : Runs bad session action left) (hRight : Runs bad' session' action' right) :
    Reruns early session session' action action' fun value value' after after' =>
      good value value' after after' ∧ left value after ∧ right value' after' := by
  intro value after hRun
  unfold Runs at hLeft
  rw [hRun] at hLeft
  exact ((h value after hRun).both hRight).mono fun _ _ hGood => ⟨hGood.1, hLeft, hGood.2⟩

/-- Actions that are told apart from each other. -/
theorem of_runs {left : α → Session → Prop} {right : β → Session → Prop}
    (hLeft : Runs (fun _ _ => True) session action left)
    (hRight : Runs (fun _ failure => failure.Excused early) session' action' right) :
    Reruns early session session' action action' fun value value' after after' =>
      left value after ∧ right value' after' := by
  intro value after hRun
  rw [Runs, hRun] at hLeft
  exact hRight.mono fun _ _ hGood => ⟨hLeft, hGood⟩

/-- Where the first action fails, nothing is asked of the second one. -/
theorem fail {failure : Failure} :
    Reruns early session session' (throw failure : SessionM α) action' good := by
  intro value after hRun
  cases hRun

theorem error :
    Reruns early session session' (SessionM.error package span problem : SessionM α) action' good :=
  .fail

/-- A check that both make alike. -/
theorem errorIf {check check' : Bool} (hSame : check = check') {package' : String} {span' : Span}
    {problem' : Problem} (h : check = false → Reruns early session session' action action' good) :
    Reruns early session session' (do
      if check then SessionM.error package span problem
      action) (do
      if check' then SessionM.error package' span' problem'
      action') good := by
  subst hSame
  cases check with
  | true => exact .error
  | false => exact h rfl

theorem get : Reruns early session session' (get : SessionM Session) (get : SessionM Session)
    fun found found' after after' =>
      (found = session ∧ found' = session') ∧ after = session ∧ after' = session' := by
  intro value after hRun
  cases hRun
  exact ⟨⟨rfl, rfl⟩, rfl, rfl⟩

theorem changed (change change' : Session → Session) :
    Reruns early session session' (modify change : SessionM Unit) (modify change' : SessionM Unit)
      fun _ _ after after' => after = change session ∧ after' = change' session' := by
  intro value after hRun
  cases hRun
  exact ⟨rfl, rfl⟩

theorem global? {id' : ModuleId} {name' : String} :
    Reruns early session session' (SessionM.global? id name) (SessionM.global? id' name')
      fun found found' after after' =>
        (found = session.program.global? id name ∧ found' = session'.program.global? id' name') ∧
          after = session ∧ after' = session' := by
  intro value after hRun
  cases hRun
  exact ⟨⟨rfl, rfl⟩, rfl, rfl⟩

/-- A question to the type stores. -/
theorem types {ask : TypeStore → Faulty α} {ask' : TypeStore → Faulty β} {good : α → β → Prop}
    (h : Echoes (ask session.program.types) (ask' session'.program.types) good) :
    Reruns early session session' (SessionM.types ask) (SessionM.types ask')
      fun value value' after after' => good value value' ∧ after = session ∧ after' = session' := by
  intro value after hRun
  have hLeft : (SessionM.lift (ask session.program.types)).exec session = (.ok value, after) := hRun
  show Runs _ session' (SessionM.lift (ask' session'.program.types)) _
  cases hAnswer : ask session.program.types with
  | error fault =>
      rw [hAnswer] at hLeft
      cases hLeft
  | ok found =>
      rw [hAnswer] at hLeft
      cases hLeft
      rcases h value hAnswer with ⟨value', hEcho, hGood⟩ | ⟨fault, hEcho, hFault⟩
      · rw [hEcho]
        exact .pure ⟨hGood, rfl, rfl⟩
      · rw [hEcho]
        exact .fail hFault

/-! ### Loops -/

theorem forM {items : List α} {items' : List β} {f : α → SessionM PUnit} {f' : β → SessionM PUnit}
    {same : α → β → Prop} (hItems : List.Forall₂ same items items')
    (inv : Session → Session → Prop) (h : inv session session')
    (hStep : ∀ item ∈ items, ∀ item' ∈ items', same item item' → ∀ before before',
      inv before before' → Reruns early before before' (f item) (f' item')
        fun _ _ after after' => inv after after') :
    Reruns early session session' (items.forM f) (items'.forM f')
      fun _ _ after after' => inv after after' := by
  induction hItems generalizing session session' with
  | nil => exact .pure h
  | cons hSame _ ih =>
      refine (hStep _ List.mem_cons_self _ List.mem_cons_self hSame session session' h).bind
        fun _ _ after after' hAfter => ih hAfter fun item hItem item' hItem' => ?_
      exact hStep item (List.mem_cons_of_mem _ hItem) item' (List.mem_cons_of_mem _ hItem')

theorem foldlM {items : List α} {items' : List β} {f : γ → α → SessionM γ} {f' : δ → β → SessionM δ}
    {start : γ} {start' : δ} {same : α → β → Prop} (hItems : List.Forall₂ same items items')
    (inv : γ → δ → Session → Session → Prop) (h : inv start start' session session')
    (hStep : ∀ item ∈ items, ∀ item' ∈ items', same item item' → ∀ value value' before before',
      inv value value' before before' → Reruns early before before' (f value item) (f' value' item')
        inv) :
    Reruns early session session' (items.foldlM f start) (items'.foldlM f' start') inv := by
  induction hItems generalizing session session' start start' with
  | nil => exact .pure h
  | cons hSame _ ih =>
      rw [List.foldlM_cons, List.foldlM_cons]
      refine (hStep _ List.mem_cons_self _ List.mem_cons_self hSame start start' session session'
        h).bind fun _ _ after after' hAfter => ih hAfter fun item hItem item' hItem' => ?_
      exact hStep item (List.mem_cons_of_mem _ hItem) item' (List.mem_cons_of_mem _ hItem')

end Reruns

/-! ## Sessions that are alike -/

/-- Globals of one name that stand for the same. -/
structure Global.Twin (p : Pairing) (ledger : Ledger) (global global' : Global) : Prop where
  kind : global.kind = global'.kind
  value : Option.Rel (fun value value' => value.toValue.Twin p ledger value'.toValue)
    global.value global'.value
  handle : global.handle.isSome = global'.handle.isSome

/-- Both are built, or neither is; then both have handles, or neither has. -/
theorem Global.Twin.cases (h : global.Twin p ledger global') :
    (∃ value value', global.value = some value ∧ global'.value = some value' ∧
      value.toValue.Twin p ledger value'.toValue) ∨
    global.value = none ∧ global'.value = none ∧
      ((∃ handle handle', global.handle = some handle ∧ global'.handle = some handle') ∨
        global.handle = none ∧ global'.handle = none) := by
  obtain ⟨package, name, cName, kind, decl, span, value, handle⟩ := global
  obtain ⟨package', name', cName', kind', decl', span', value', handle'⟩ := global'
  obtain ⟨-, hValue, hHandle⟩ := h
  dsimp only at hValue hHandle ⊢
  cases hValue with
  | some hSame => exact .inl ⟨_, _, rfl, rfl, hSame⟩
  | none =>
      refine .inr ⟨rfl, rfl, ?_⟩
      cases handle with
      | none => exact .inr ⟨rfl, by simpa using hHandle.symm⟩
      | some handle =>
          obtain ⟨handle', rfl⟩ := Option.isSome_iff_exists.mp hHandle.symm
          exact .inl ⟨handle, handle', rfl, rfl⟩

/-- Methods of twins in one package. -/
structure Method.Twin (p : Pairing) (ledger : Ledger) (package : String) (method method' : Method) :
    Prop where
  decl : method.decl = method'.decl
  type : p.alike ledger method.type method'.type
  names : ∃ record record' name, ledger.twins (.struct record) (.struct record') ∧
    record.package = package ∧ method.cName = SessionM.methodName record name ∧
      method'.cName = SessionM.methodName record' name

structure Module.Twin (p : Pairing) (ledger : Ledger) (module module' : Module) : Prop where
  name : module.name = module'.name
  globals : ∀ name, Option.Rel (Global.Twin p ledger) (module.get? name) (module'.get? name)
  methods : List.Forall₂ (Method.Twin p ledger module.name) module.methods module'.methods

/-- How the types of two sessions are compared once they are built. -/
abbrev Session.pairing (session session' : Session) (early : Prop) : Pairing :=
  .whole session.program.types session'.program.types early

/-- Sessions that know the same modules, and whose ledger is about types of these modules. -/
structure Session.Twin (early : Prop) (ledger : Ledger) (session session' : Session) : Prop where
  left : session.program.Tidy
  right : session'.program.Tidy
  builtin : session.program.builtin = session'.program.builtin
  modules : ∀ id, Option.Rel (Module.Twin (session.pairing session' early) ledger)
    (session.program.module? id) (session'.program.module? id)
  methods : List.Forall₂ (MethodEntry.Twin (session.pairing session' early) ledger)
    session.program.types.methods session'.program.types.methods
  valid : ledger.Valid (session.pairing session' early) session.supply.serial session'.supply.serial
  packages : ∀ a b, ledger.twins a b → session.Knows a.package

theorem optionRel_imp {related' : α → β → Prop} (hImp : ∀ a b, related a b → related' a b)
    (h : Option.Rel related a b) : Option.Rel related' a b := by
  cases h with
  | none => exact .none
  | some hRelated => exact .some (hImp _ _ hRelated)

theorem optionRel_isSome (h : Option.Rel related a b) : a.isSome = b.isSome := by
  cases h <;> rfl

theorem optionRel_of_isSome (hSome : a.isSome = b.isSome)
    (h : ∀ x y, a = some x → b = some y → related x y) : Option.Rel related a b := by
  cases a with
  | none => cases b with
    | none => exact .none
    | some y => simp at hSome
  | some x => cases b with
    | none => simp at hSome
    | some y => exact .some (h x y rfl rfl)

section Imp

variable {p q : Pairing} {ledger ledger' : Ledger}
  (hImp : ∀ a b, p.alike ledger a b → q.alike ledger' a b)

include hImp

theorem Global.Twin.imp (h : global.Twin p ledger global') : global.Twin q ledger' global' :=
  ⟨h.kind, optionRel_imp (fun _ _ => .imp hImp) h.value, h.handle⟩

variable (le : ledger ≤ ledger')

include le

theorem Method.Twin.imp {method method' : Method} (h : method.Twin p ledger package method') :
    method.Twin q ledger' package method' := by
  obtain ⟨record, record', name, hTwins, hRest⟩ := h.names
  exact ⟨h.decl, hImp _ _ h.type, record, record', name, le _ _ hTwins, hRest⟩

theorem Module.Twin.imp (h : module.Twin p ledger module') : module.Twin q ledger' module' :=
  ⟨h.name, fun name => optionRel_imp (fun _ _ => .imp hImp) (h.globals name),
    h.methods.imp fun _ _ => .imp hImp le⟩

end Imp

/-- What is known is told by the names of the modules. -/
theorem Program.find?_eq_findIdx? (program : Program) (name : String) :
    program.find? name = (program.modules.map (·.name)).findIdx? (· == name) := by
  rw [List.findIdx?_map]
  rfl

theorem Job.Touches.find? {before after : Session} (h : job.Touches before after) (name : String) :
    after.program.find? name = before.program.find? name := by
  rw [Program.find?_eq_findIdx?, Program.find?_eq_findIdx?, h.names]

namespace Session.Twin

variable {early : Prop} {ledger ledger' : Ledger} {session session' : Session} {id : ModuleId}
  {name : String}

theorem global? (h : session.Twin early ledger session') (id : ModuleId) (name : String) :
    Option.Rel (Global.Twin (session.pairing session' early) ledger)
      (session.program.global? id name) (session'.program.global? id name) := by
  have hModule := h.modules id
  unfold Program.global?
  revert hModule
  generalize session.program.module? id = found
  generalize session'.program.module? id = found'
  intro hModule
  cases hModule with
  | none => exact .none
  | some hTwin => exact hTwin.globals name

theorem names (h : session.Twin early ledger session') :
    session.program.modules.map (·.name) = session'.program.modules.map (·.name) := by
  refine List.ext_getElem? fun id => ?_
  rw [List.getElem?_map, List.getElem?_map]
  show (session.program.module? id).map (·.name) = (session'.program.module? id).map (·.name)
  have hModule := h.modules id
  revert hModule
  generalize session.program.module? id = found
  generalize session'.program.module? id = found'
  intro hModule
  cases hModule with
  | none => rfl
  | some hTwin => exact congrArg some hTwin.name

theorem count (h : session.Twin early ledger session') :
    session.program.modules.length = session'.program.modules.length := by
  simpa using congrArg List.length h.names

theorem find? (h : session.Twin early ledger session') (name : String) :
    session.program.find? name = session'.program.find? name := by
  rw [Program.find?_eq_findIdx?, Program.find?_eq_findIdx?, h.names]

/-- The sessions after a step that leaves all modules as they are and enters types of one of
them in the ledger. -/
theorem grow (h : session.Twin early ledger session') (le : ledger ≤ ledger')
    (hFresh : ∀ a b, ledger'.twins a b → ledger.twins a b ∨ a.package = package)
    (hKnows : session.Knows package) {supply supply' : Supply}
    (hValid : ledger'.Valid (session.pairing session' early) supply.serial supply'.serial)
    (output output' : Array CItem) :
    Session.Twin early ledger' { session with supply := supply, output := output }
      { session' with supply := supply', output := output' } where
  left := h.left
  right := h.right
  builtin := h.builtin
  modules id := optionRel_imp (fun _ _ => .imp (fun _ _ => Pairing.mono _ le) le) (h.modules id)
  methods := h.methods.imp fun _ _ => .mono le
  valid := hValid
  packages a b hTwins := by
    rcases hFresh a b hTwins with hOld | hPackage
    · exact h.packages a b hOld
    · rw [hPackage]
      exact hKnows

end Session.Twin

/-! ## What routines are compiled against -/

/-- A type of a foreign module, as far as it is built. -/
theorem Value.Twin.foreign {left right : TypeStore} {value value' : Value}
    (h : value.Twin (.whole left right early) ledger value') :
    value.ForeignTwin (.whole left right early) ledger value' := by
  cases value with
  | type a =>
      cases value' with
      | type b =>
          refine ⟨b, rfl, fun hValid => ⟨h, ?_⟩⟩
          rcases Alike.validate h hValid with hOk | hDeep
          · exact .inl hOk
          · exact .inr (.inl hDeep)
      | _ => exact h.elim
  | _ => exact h

namespace Session.Twin

variable {early : Prop} {ledger : Ledger} {session session' : Session} {id : ModuleId}
  {name : String} {value : Value}

theorem exists_global (h : session.Twin early ledger session')
    (hFound : session.program.global? id name = some global) :
    ∃ global', session'.program.global? id name = some global' ∧
      global.Twin (session.pairing session' early) ledger global' := by
  have hGlobal := h.global? id name
  rw [hFound] at hGlobal
  cases hFound' : session'.program.global? id name with
  | none =>
      rw [hFound'] at hGlobal
      cases hGlobal
  | some global' =>
      rw [hFound'] at hGlobal
      cases hGlobal with
      | some hTwin => exact ⟨global', rfl, hTwin⟩

/-- The globals of a module whose types are built. -/
theorem globalValue? (h : session.Twin early ledger session') (hTyped : session.program.Typed id)
    (hValue : session.program.globalValue? id name = some value) :
    ∃ value', session'.program.globalValue? id name = some value' ∧
      value.NamedTwin (session.pairing session' early) ledger value' := by
  obtain ⟨global, hFound, rfl⟩ := Option.map_eq_some_iff.mp hValue
  obtain ⟨global', hFound', hTwin⟩ := h.exists_global hFound
  refine ⟨_, Option.map_eq_some_iff.mpr ⟨global', hFound', rfl⟩, ?_, fun _ _ => trivial⟩
  rcases hTwin.cases with ⟨built, built', hBuilt, hBuilt', hSame⟩ | ⟨hNone, hNone', hHandles⟩
  · rw [hBuilt, hBuilt']
    exact hSame
  · have hHandle : global.handle = none := hTyped global (Program.Has.of_global? hFound).1 hNone
    rcases hHandles with ⟨handle, -, hOwn, -⟩ | ⟨-, hHandle'⟩
    · exact absurd (hOwn.symm.trans hHandle) (by simp)
    · rw [hNone, hNone', hHandle, hHandle']
      exact ⟨rfl, rfl⟩

/-- The globals of any module. A type that is not built cannot be asked for. -/
theorem foreignValue? (h : session.Twin early ledger session')
    (hValue : session.program.globalValue? id name = some value) :
    ∃ value', session'.program.globalValue? id name = some value' ∧
      value.ForeignTwin (session.pairing session' early) ledger value' := by
  obtain ⟨global, hFound, rfl⟩ := Option.map_eq_some_iff.mp hValue
  obtain ⟨global', hFound', hTwin⟩ := h.exists_global hFound
  refine ⟨_, Option.map_eq_some_iff.mpr ⟨global', hFound', rfl⟩, ?_⟩
  rcases hTwin.cases with ⟨built, built', hBuilt, hBuilt', hSame⟩ | ⟨hNone, hNone', hHandles⟩
  · rw [hBuilt, hBuilt']
    exact Value.Twin.foreign hSame
  · rw [hNone, hNone']
    rcases hHandles with ⟨handle, handle', hOwn, hOwn'⟩ | ⟨hHandle, hHandle'⟩
    · rw [hOwn, hOwn']
      refine ⟨.forward handle', rfl, fun hValid => ?_⟩
      have hUnbound := h.left.pending id global handle (Program.Has.of_global? hFound).1 hNone hOwn
      exact absurd hValid (Program.not_validate_forward hUnbound)
    · rw [hHandle, hHandle']
      exact ⟨rfl, rfl⟩

theorem exists_expr (h : session.Twin early ledger session') {e : Typed}
    (hValue : (session.program.global? id name).bind (·.value) = some (.expr e)) :
    ∃ e', (session'.program.global? id name).bind (·.value) = some (.expr e') ∧
      (session.pairing session' early).alike ledger e.type e'.type := by
  obtain ⟨global, hFound, hBuilt⟩ := Option.bind_eq_some_iff.mp hValue
  obtain ⟨global', hFound', hTwin⟩ := h.exists_global hFound
  rcases hTwin.cases with ⟨built, built', hOwn, hBuilt', hSame⟩ | ⟨hNone, -⟩
  · obtain rfl := Option.some.inj (hOwn.symm.trans hBuilt)
    cases built' with
    | expr e' => exact ⟨e', Option.bind_eq_some_iff.mpr ⟨global', hFound', hBuilt'⟩, hSame⟩
    | _ => exact hSame.elim
  · exact absurd (hBuilt.symm.trans hNone) (by simp)

/-- The routines of a module whose types are built are compiled against alike programs. -/
theorem env (h : session.Twin early ledger session') {job' : Job} (hId : job.id = job'.id)
    (hPackage : job.package = job'.package) (hTyped : session.program.Typed job.id) :
    (job.env session).Twin (session.pairing session' early) ledger (job'.env session') where
  left := rfl
  right := rfl
  module := hId
  package := hPackage
  builtin := h.builtin
  kinds id name := by
    have hGlobal := h.global? id name
    show (session.program.global? id name).map _ = (session'.program.global? id name).map _
    revert hGlobal
    generalize session.program.global? id name = found
    generalize session'.program.global? id name = found'
    intro hGlobal
    cases hGlobal with
    | none => rfl
    | some hTwin => exact congrArg some hTwin.kind
  own _ _ hValue := h.globalValue? hTyped hValue
  shared id _ _ hShared hValue := h.globalValue? (h.left.shared id hShared) hValue
  foreign _ _ _ _ hValue := h.foreignValue? hValue
  exprs _ _ _ hValue := h.exists_expr hValue
  methods := h.methods
  func _ hFunc := by cases hFunc
  namedResult := rfl
  loop := rfl

end Session.Twin

/-! ## Values that are given -/

/-- Modules that keep their names stay known. -/
theorem Program.Keeps.find?_ne_none {before after : Program} (h : before.Keeps after)
    (hKnows : before.find? name ≠ none) : after.find? name ≠ none := by
  obtain ⟨id, hFound⟩ := Option.ne_none_iff_exists'.mp hKnows
  obtain ⟨module, hModule, hName⟩ := Program.find?_eq_some hFound
  obtain ⟨module', hModule', hName', -⟩ := h id module hModule
  exact Program.find?_ne_none hModule' (hName'.trans hName)

theorem Global.Twin.given {p : Pairing} {ledger : Ledger} {global global' : Global}
    (h : global.Twin p ledger global') (hNames : global.name = global'.name) (name : String)
    {value value' : GlobalValue} (hValue : value.toValue.Twin p ledger value'.toValue) :
    (global.given name value).Twin p ledger (global'.given name value') := by
  unfold Global.given
  rw [hNames]
  split
  · exact ⟨h.kind, .some hValue, h.handle⟩
  · exact h

theorem Module.Twin.setValue (h : module.Twin p ledger module') (name : String)
    (hValue : value.toValue.Twin p ledger value'.toValue) :
    (module.setValue name value).Twin p ledger (module'.setValue name value') where
  name := h.name
  globals other := by
    have hGlobal := h.globals other
    rw [Module.get?_setValue, Module.get?_setValue]
    cases hFound : module.get? other with
    | none =>
        cases hFound' : module'.get? other with
        | none => exact .none
        | some =>
            rw [hFound, hFound'] at hGlobal
            cases hGlobal
    | some global =>
        cases hFound' : module'.get? other with
        | none =>
            rw [hFound, hFound'] at hGlobal
            cases hGlobal
        | some global' =>
            rw [hFound, hFound'] at hGlobal
            have hName : global.name = other := by simpa using List.find?_some hFound
            have hName' : global'.name = other := by simpa using List.find?_some hFound'
            cases hGlobal with
            | some hTwin => exact .some (hTwin.given (hName.trans hName'.symm) name hValue)
  methods := h.methods

theorem Session.Twin.updateModule (h : session.Twin early ledger session') (id : ModuleId)
    {update update' : Module → Module}
    (hUpdate : ∀ module module', session.program.module? id = some module →
      session'.program.module? id = some module' →
        module.Twin (session.pairing session' early) ledger module' →
          (update module).Twin p ledger (update' module'))
    (hOthers : ∀ module module' : Module, module.Twin (session.pairing session' early)
      ledger module' → module.Twin p ledger module') (other : ModuleId) :
    Option.Rel (Module.Twin p ledger) ((session.program.updateModule id update).module? other)
      ((session'.program.updateModule id update').module? other) := by
  have hModule := h.modules other
  rw [Program.module?_updateModule, Program.module?_updateModule]
  by_cases hId : id = other
  · subst hId
    rw [if_pos rfl, if_pos rfl]
    refine optionRel_of_isSome ?_ fun updated updated' hOwn hOwn' => ?_
    · rw [Option.isSome_map, Option.isSome_map, optionRel_isSome hModule]
    · obtain ⟨module, hFound, rfl⟩ := Option.map_eq_some_iff.mp hOwn
      obtain ⟨module', hFound', rfl⟩ := Option.map_eq_some_iff.mp hOwn'
      rw [hFound, hFound'] at hModule
      cases hModule with
      | some hTwin => exact hUpdate module module' hFound hFound' hTwin
  · rw [if_neg hId, if_neg hId]
    exact optionRel_imp hOthers hModule

theorem Session.Twin.setValue (h : session.Twin early ledger session') (id : ModuleId)
    (name : String)
    (hValue : value.toValue.Twin (session.pairing session' early) ledger value'.toValue)
    (hTarget : ∀ target, value = .module target → target < session.program.modules.length)
    (hTarget' : ∀ target, value' = .module target → target < session'.program.modules.length) :
    Session.Twin early ledger
      { session with program := session.program.updateModule id (·.setValue name value) }
      { session' with program := session'.program.updateModule id (·.setValue name value') } where
  left := h.left.setValue hTarget
  right := h.right.setValue hTarget'
  builtin := h.builtin
  modules := h.updateModule id (fun _ _ _ _ hTwin => hTwin.setValue name hValue)
    fun _ _ hTwin => hTwin
  methods := h.methods
  valid := h.valid
  packages a b hTwins := by
    have hKeeps : session.program.Keeps (session.program.updateModule id (·.setValue name value)) :=
      Program.keeps_updateModule (fun _ => rfl) fun _ => rfl
    exact hKeeps.find?_ne_none (h.packages a b hTwins)

/-! ## Modules that are compiled side by side -/

/-- A ledger with more entries, all of them of one package. -/
structure Ledger.Within (ledger : Ledger) (package : String) (ledger' : Ledger) : Prop where
  le : ledger ≤ ledger'
  fresh : ∀ a b, ledger'.twins a b → ledger.twins a b ∨ a.package = package

theorem Ledger.Within.refl (ledger : Ledger) (package : String) : ledger.Within package ledger :=
  ⟨le_refl _, fun _ _ => .inl⟩

theorem Ledger.Within.trans {first second third : Ledger} (h : first.Within package second)
    (h' : second.Within package third) : first.Within package third := by
  refine ⟨le_trans h.le h'.le, fun a b hTwins => ?_⟩
  rcases h'.fresh a b hTwins with hOld | hOwn
  · exact h.fresh a b hOld
  · exact .inr hOwn

theorem Ledger.Grows.within {ledger' : Ledger} {serial serial' : Nat}
    (h : ledger.Grows package serial serial' ledger') : ledger.Within package ledger' :=
  ⟨h.le, fun a b hTwins => (h.fresh a b hTwins).imp_right And.left⟩

/-- Two sessions in which modules of one name are compiled whose types are built. -/
structure Job.Abreast (early : Prop) (job job' : Job) (ledger : Ledger)
    (session session' : Session) : Prop where
  twin : session.Twin early ledger session'
  id : job.id = job'.id
  package : job.package = job'.package
  typed : session.program.Typed job.id
  module : ∃ module, session.program.module? job.id = some module ∧ module.name = job.package

namespace Job.Abreast

variable {α β : Type} {early : Prop} {job job' : Job} {ledger : Ledger} {session session' : Session}
  {action : RoutineM α} {action' : RoutineM β} {good : Ledger → α → β → Prop}

theorem knows (h : job.Abreast early job' ledger session session') : session.Knows job.package := by
  obtain ⟨module, hModule, hName⟩ := h.module
  exact Program.find?_ne_none hModule hName

/-- What comes of routines that were gone on with: their results are good, and the sessions
differ from those before by numbers only. -/
structure Resumed (early : Prop) (job job' : Job) (ledger : Ledger) (session session' : Session)
    (good : Ledger → α → β → Prop) (found : α × Routine) (found' : β × Routine)
    (after after' : Session) (ledger' : Ledger) : Prop where
  within : ledger.Within job.package ledger'
  abreast : job.Abreast early job' ledger' after after'
  routine : found.2.Twin (session.pairing session' early) ledger' found'.2
  good : good ledger' found.1 found'.1
  left : after = { session with supply := found.2.supply }
  right : after' = { session' with supply := found'.2.supply }

theorem resume (h : job.Abreast early job' ledger session session') {routine routine' : Routine}
    (hRoutine : ({ routine with supply := session.supply } : Routine).Twin
      (session.pairing session' early) ledger { routine' with supply := session'.supply })
    (hRetraces : Retraces (session.pairing session' early) ledger action action' good) :
    Reruns early session session' (SessionM.resume job routine action)
      (SessionM.resume job' routine' action') fun found found' after after' =>
        ∃ ledger', Resumed early job job' ledger session session' good found found' after after'
          ledger' := by
  intro found after hRun
  rw [resume_exec] at hRun
  cases hExec : action.exec (job.env session) { routine with supply := session.supply } with
  | mk result last =>
      rw [hExec] at hRun
      cases result with
      | error failure => cases hRun
      | ok value =>
          cases hRun
          have hOutcome := hRetraces ledger (le_refl _) (job.env session) (job'.env session') _ _
            (h.twin.env h.id h.package h.typed) hRoutine value last hExec
          rw [Runs, resume_exec]
          cases hExec' : action'.exec (job'.env session')
              { routine' with supply := session'.supply } with
          | mk result' last' =>
              rw [hExec'] at hOutcome
              cases hOutcome with
              | failed hExcused => exact hExcused
              | @ok value' _ ledger' hGrows _ _ hTwin hGood =>
                  have hWithin : ledger.Within job.package ledger' := hGrows.within
                  have hAfter := h.twin.grow hWithin.le hWithin.fresh h.knows hTwin.valid
                    session.output session'.output
                  exact ⟨ledger', hWithin, ⟨hAfter, h.id, h.package, h.typed, h.module⟩,
                    hTwin, hGood, rfl, rfl⟩

theorem start (h : job.Abreast early job' ledger session session') :
    (Routine.start session.supply).Twin (session.pairing session' early) ledger
      (Routine.start session'.supply) :=
  ⟨.cons .nil .nil, rfl, rfl, h.twin.valid⟩

theorem routine (h : job.Abreast early job' ledger session session')
    (hRetraces : Retraces (session.pairing session' early) ledger action action' good) :
    Reruns early session session' (SessionM.routine job action) (SessionM.routine job' action')
      fun found found' after after' => ∃ ledger',
        Resumed early job job' ledger session session' good found found' after after' ledger' := by
  intro found after hRun
  rw [routine_exec] at hRun
  rw [Runs, routine_exec]
  have hStart : ({ Routine.start session.supply with supply := session.supply } : Routine).Twin
      (session.pairing session' early) ledger
        { Routine.start session'.supply with supply := session'.supply } := h.start
  exact h.resume hStart hRetraces found after hRun

theorem isolated (h : job.Abreast early job' ledger session session')
    (hRetraces : Retraces (session.pairing session' early) ledger action action' good) :
    Reruns early session session' (SessionM.isolated job action) (SessionM.isolated job' action')
      fun value value' after after' => ∃ ledger' supply supply', ledger.Within job.package ledger' ∧
        job.Abreast early job' ledger' after after' ∧ good ledger' value value' ∧
          after = { session with supply := supply } ∧
            after' = { session' with supply := supply' } := by
  refine (h.routine hRetraces).bind fun found found' after after' hResumed => .pure ?_
  obtain ⟨ledger', hResumed⟩ := hResumed
  exact ⟨ledger', found.2.supply, found'.2.supply, hResumed.within, hResumed.abreast, hResumed.good,
    hResumed.left, hResumed.right⟩

/-! ### Values -/

theorem setValue_exec (h : session.program.global? id name = some global) (value : GlobalValue) :
    (SessionM.setValue id name value).exec session =
      (.ok (), { session with program := session.program.updateModule id (·.setValue name
        value) }) := by
  rw [SessionM.setValue, SessionM.bind_exec, SessionM.declared_exec h]
  rfl

theorem setValue (h : job.Abreast early job' ledger session session') (name : String)
    (hValue : value.toValue.Twin (session.pairing session' early) ledger value'.toValue)
    (hTarget : ∀ target, value ≠ .module target) :
    Reruns early session session' (SessionM.setValue job.id name value)
      (SessionM.setValue job'.id name value') fun _ _ after after' =>
        job.Abreast early job' ledger after after' := by
  intro done after hRun
  obtain ⟨global, last, hDeclared, -⟩ := SessionM.bind_eq_ok.mp hRun
  have hFound := ((@does_declared job session name).success hDeclared).2.1
  obtain ⟨global', hFound', -⟩ := h.twin.exists_global hFound
  rw [setValue_exec hFound] at hRun
  cases hRun
  rw [h.id] at hFound'
  rw [Runs, setValue_exec hFound', ← h.id]
  obtain ⟨module, hModule, hName⟩ := h.module
  refine ⟨h.twin.setValue job.id name hValue (fun _ hSame => absurd hSame (hTarget _))
    (fun target hSame => ?_), h.id, h.package, ?_, module.setValue name value, ?_, hName⟩
  · rw [hSame] at hValue
    cases value with
    | module => exact absurd rfl (hTarget _)
    | _ => exact hValue.elim
  · intro global hHas hNone
    obtain ⟨before, hBefore, rfl | ⟨-, -, rfl⟩⟩ := Program.has_setValue hHas
    · exact h.typed global hBefore hNone
    · cases hNone
  · show (session.program.updateModule job.id (·.setValue name value)).module? job.id = _
    rw [Program.module?_updateModule, if_pos rfl, hModule]
    rfl

end Job.Abreast

end GoToC
