import GoToC.Compile.Module
import GoToC.Proofs.Types.Settled

/-!
# Runs of sessions

What an action on a session comes to: a good result, or a failure that is excused. The
only faults that are excused are those that a routine may end in too.
-/

namespace GoToC

variable {metatype : Prop} {id : ModuleId} {name : String} {session : Session}
  {bad' : Session → Failure → Prop}

/-- The failures that a session may end in. -/
def Session.Excuses (metatype : Prop) (session : Session) : Failure → Prop
  | .error _ => True
  | .fault fault =>
      session.program.types.Deep fault ∨ fault = .notConvertible .castFrom Prim.type.name ∧ metatype
  | .exhausted => False

/-- What an action comes to from a session on. -/
def SessionM.exec {α : Type} (action : SessionM α) (session : Session) :
    Except Failure α × Session := action session

/-- A run of an action from a session on gives a good result or comes to a bad end of a
given kind. -/
def Runs {α : Type} (bad : Session → Failure → Prop) (session : Session) (action : SessionM α)
    (good : α → Session → Prop) : Prop :=
  match action.exec session with
  | (.ok value, after) => good value after
  | (.error failure, after) => bad after failure

namespace SessionM

variable {α β : Type}

theorem bind_exec (action : SessionM α) (next : α → SessionM β) (session : Session) :
    exec (action >>= next) session =
      match action.exec session with
      | (.ok value, middle) => (next value).exec middle
      | (.error failure, middle) => (.error failure, middle) := by
  simp only [exec, Bind.bind, ExceptT.bind, ExceptT.mk, StateT.bind]
  cases action session with
  | mk result middle => cases result <;> rfl

/-- An action that looks at the session first. -/
theorem get_bind_exec (next : Session → SessionM β) (session : Session) :
    exec (get >>= next) session = (next session).exec session := rfl

theorem global?_bind_exec (id : ModuleId) (name : String) (next : Option Global → SessionM β)
    (session : Session) :
    exec (global? id name >>= next) session =
      (next (session.program.global? id name)).exec session := rfl

/-- A name that is declared is found. -/
theorem declared_exec {global : Global} (h : session.program.global? id name = some global) :
    (declared id name).exec session = (.ok global, session) := by
  rw [declared, global?_bind_exec, h]
  rfl

theorem bind_eq_ok {action : SessionM α} {next : α → SessionM β} {after : Session} {value : β} :
    (action >>= next).exec session = (.ok value, after) ↔
      ∃ first middle, action.exec session = (.ok first, middle) ∧
        (next first).exec middle = (.ok value, after) := by
  rw [bind_exec]
  cases action.exec session with
  | mk result middle =>
      cases result with
      | ok first => simp
      | error failure => simp

end SessionM

namespace Runs

variable {α β : Type} {bad : Session → Failure → Prop} {session : Session} {action : SessionM α}
  {good : α → Session → Prop}

theorem pure {value : α} (h : good value session) : Runs bad session (pure value) good := h

theorem bind {next : α → SessionM β} {good' : β → Session → Prop} (h : Runs bad session action good)
    (hNext : ∀ value after, good value after → Runs bad after (next value) good') :
    Runs bad session (action >>= next) good' := by
  unfold Runs at h ⊢
  rw [SessionM.bind_exec]
  cases hRun : action.exec session with
  | mk result middle =>
      rw [hRun] at h
      cases result with
      | ok value => exact hNext value middle h
      | error failure => exact h

theorem mono {good' : α → Session → Prop} (h : Runs bad session action good)
    (imp : ∀ value after, good value after → good' value after) :
    Runs bad session action good' := by
  unfold Runs at h ⊢
  cases hRun : action.exec session with
  | mk result after =>
      rw [hRun] at h
      cases result with
      | ok value => exact imp value after h
      | error failure => exact h

theorem weaken (h : Runs bad session action good)
    (imp : ∀ after failure, bad after failure → bad' after failure) :
    Runs bad' session action good := by
  unfold Runs at h ⊢
  split at h
  · exact h
  · exact imp _ _ h

theorem both {good' : α → Session → Prop} (h : Runs bad session action good)
    (h' : Runs bad' session action good') :
    Runs bad session action fun value after => good value after ∧ good' value after := by
  unfold Runs at h h' ⊢
  split <;> simp_all

/-- What holds however a run ends. -/
theorem always {inv : Session → Prop} (h : Runs (fun after _ => inv after) session action
    fun _ after => inv after) : inv (action.exec session).2 := by
  unfold Runs at h
  split at h
  · next hRun => exact hRun ▸ h
  · next hRun => exact hRun ▸ h

theorem fail {failure : Failure} (h : bad session failure) :
    Runs bad session (throw failure : SessionM α) good := h

theorem error (package : String) (span : Span) (problem : Problem) :
    Runs (Session.Excuses metatype) session (SessionM.error package span problem : SessionM α)
      good := trivial

/-- A check that fails with an error or goes on. -/
theorem errorIf {check : Bool} (package : String) (span : Span) (problem : Problem)
    {rest : SessionM α} (h : check = false → Runs (Session.Excuses metatype) session rest good) :
    Runs (Session.Excuses metatype) session (do
      if check then SessionM.error package span problem
      rest) good := by
  cases check with
  | true => exact trivial
  | false => exact h rfl

theorem get : Runs bad session get fun found after => found = session ∧ after = session :=
  ⟨rfl, rfl⟩

theorem set (other : Session) : Runs bad session (set other) fun _ after => after = other := rfl

theorem changed (change : Session → Session) :
    Runs bad session (modify change) fun _ after => after = change session := rfl

theorem global? : Runs bad session (SessionM.global? id name) fun found after =>
      found = session.program.global? id name ∧ after = session := ⟨rfl, rfl⟩

theorem lift {answer : Faulty α} {fine : α → Prop} (h : session.program.types.Answers answer fine) :
    Runs (Session.Excuses metatype) session (SessionM.lift answer) fun value after =>
      (answer = .ok value ∧ fine value) ∧ after = session := by
  cases answer with
  | ok value => exact ⟨⟨rfl, h⟩, rfl⟩
  | error fault => exact .inl h

/-- A question to the type store; what it answers is kept beside the promise. -/
theorem types {metatype : Prop} {ask : TypeStore → Faulty α} {fine : α → Prop}
    (h : session.program.types.Answers (ask session.program.types) fine) :
    Runs (Session.Excuses metatype) session (SessionM.types ask) fun value after =>
      (ask session.program.types = .ok value ∧ fine value) ∧ after = session :=
  Runs.get.bind fun _ _ ⟨hFound, hAfter⟩ => by
    subst hFound hAfter
    exact .lift h

/-! ## Loops -/

theorem forM {items : List α} {f : α → SessionM PUnit} (inv : List α → Session → Prop)
    (h : inv items session)
    (hStep : ∀ item rest before, inv (item :: rest) before →
      Runs bad before (f item) fun _ after => inv rest after) :
    Runs bad session (items.forM f) fun _ after => inv [] after := by
  induction items generalizing session with
  | nil => exact h
  | cons item rest ih =>
      rw [List.forM_eq_forM, List.forM_cons]
      exact (hStep item rest session h).bind fun _ after hAfter => ih hAfter

/-- A loop that keeps a property and looks at the members of a list only. -/
theorem forM_mem {items : List α} {f : α → SessionM PUnit} (inv : Session → Prop) (h : inv session)
    (hStep : ∀ item ∈ items, ∀ before, inv before →
      Runs bad before (f item) fun _ after => inv after) :
    Runs bad session (items.forM f) fun _ after => inv after := by
  refine (forM (fun rest after => (∀ item ∈ rest, item ∈ items) ∧ inv after)
    ⟨fun _ => id, h⟩ ?_).mono fun _ _ hAfter => hAfter.2
  rintro item rest before ⟨hRest, hBefore⟩
  refine (hStep item (hRest item List.mem_cons_self) before hBefore).mono fun _ after hAfter => ?_
  exact ⟨(List.forall_mem_cons.mp hRest).2, hAfter⟩

theorem arrayForM {items : Array α} {f : α → SessionM PUnit} (inv : Session → Prop)
    (h : inv session)
    (hStep : ∀ item ∈ items.toList, ∀ before, inv before →
      Runs bad before (f item) fun _ after => inv after) :
    Runs bad session (items.forM f) fun _ after => inv after := by
  obtain ⟨items⟩ := items
  rw [Array.forM_eq_forM, List.forM_toArray]
  exact forM_mem inv h hStep

theorem mapM_after {items : List α} {f : α → SessionM β} (inv : List α → List β → Session → Prop)
    {done : List β} (h : inv items done session)
    (hStep : ∀ item rest done before, inv (item :: rest) done before →
      Runs bad before (f item) fun value after => inv rest (done ++ [value]) after) :
    Runs bad session (items.mapM f) fun values after => inv [] (done ++ values) after := by
  induction items generalizing session done with
  | nil =>
      rw [List.mapM_nil]
      exact .pure (by rwa [List.append_nil])
  | cons item rest ih =>
      rw [List.mapM_cons]
      refine (hStep item rest done session h).bind fun value after hAfter =>
        (ih hAfter).bind fun values last hLast => .pure ?_
      rwa [List.append_assoc, List.singleton_append] at hLast

/-- A loop that collects results; what holds may depend on those that it has so far. -/
theorem mapM {items : List α} {f : α → SessionM β} (inv : List α → List β → Session → Prop)
    (h : inv items [] session)
    (hStep : ∀ item rest done before, inv (item :: rest) done before →
      Runs bad before (f item) fun value after => inv rest (done ++ [value]) after) :
    Runs bad session (items.mapM f) fun values after => inv [] values after :=
  mapM_after inv h hStep

theorem foldlM {items : List α} {f : β → α → SessionM β} {start : β}
    (inv : List α → β → Session → Prop) (h : inv items start session)
    (hStep : ∀ item rest value before, inv (item :: rest) value before →
      Runs bad before (f value item) fun value after => inv rest value after) :
    Runs bad session (items.foldlM f start) fun value after => inv [] value after := by
  induction items generalizing session start with
  | nil => exact h
  | cons item rest ih =>
      rw [List.foldlM_cons]
      exact (hStep item rest start session h).bind fun value after hAfter => ih hAfter

end Runs

end GoToC
