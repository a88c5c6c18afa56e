import GoToC.Proofs.Types.Settled

/-!
# What a type stands for

A handle leads to what it is bound to, and a chain of handles leads on until it comes to a
type that is no handle or to a handle that is not bound. Resolving a type gives the end of
its chain, provided that fewer than `maxHops` handles are followed; it blames the handle at
which the chain breaks off, or the handle where it starts if the chain goes on for too long.
-/

namespace GoToC.TypeStore

/-- Following that many bound handles leads from a type to another. -/
inductive Follows (store : TypeStore) : Nat → Ty → Ty → Prop
  | here (type : Ty) : Follows store 0 type type
  | hop {handle next last hops}
      (bound : store.target? handle = some next) (rest : Follows store hops next last) :
      Follows store (hops + 1) (.forward handle) last

/-- The type that is no handle at the end of a chain that is short enough. -/
def StandsFor (store : TypeStore) (type shape : Ty) : Prop :=
  ∃ hops < maxHops, store.Follows hops type shape ∧ ∀ handle, shape ≠ .forward handle

/-- The handle without a target at which a chain breaks off. -/
def BreaksAt (store : TypeStore) (type : Ty) (handle : Handle) : Prop :=
  ∃ hops < maxHops, store.Follows hops type (.forward handle) ∧ store.target? handle = none

/-- The chain of a type comes to a handle that leads back to itself. -/
def RunsInCircles (store : TypeStore) (type : Ty) : Prop :=
  ∃ before around handle, store.Follows before type (.forward handle) ∧ 0 < around ∧
    store.Follows around (.forward handle) (.forward handle)

/-- Binds handles one after the other. -/
def bindAll (store : TypeStore) (bindings : List (Handle × Ty)) : Faulty TypeStore :=
  bindings.foldlM (fun store binding => store.bind binding.1 binding.2) store

variable {store later : TypeStore} {start type next last shape : Ty} {handle : Handle}
  {hops more : Nat} {name : String}

/-! ## Chains of handles -/

theorem follows_forward (bound : store.target? handle = some next) :
    store.Follows (hops + 1) (.forward handle) last ↔ store.Follows hops next last := by
  constructor
  · intro h
    cases h with
    | hop hBound rest =>
        rw [bound] at hBound
        cases hBound
        exact rest
  · exact .hop bound

theorem Follows.trans (h : store.Follows hops type next) (h' : store.Follows more next last) :
    store.Follows (hops + more) type last := by
  induction h with
  | here => simpa using h'
  | hop bound _ ih =>
      rw [Nat.add_right_comm]
      exact .hop bound (ih h')

/-- A chain that goes on passes through bound handles only. -/
theorem Follows.passes (h : store.Follows hops type next) (h' : store.Follows more type last)
    (longer : hops < more) :
    ∃ handle target, next = .forward handle ∧ store.target? handle = some target := by
  induction h generalizing more with
  | here type =>
      cases h' with
      | here => exact absurd longer (Nat.lt_irrefl 0)
      | hop bound _ => exact ⟨_, _, rfl, bound⟩
  | hop bound _ ih =>
      obtain ⟨more, rfl⟩ : ∃ n, more = n + 1 := ⟨more - 1, by omega⟩
      exact ih ((follows_forward bound).mp h') (by omega)

/-- A circle is gone round any number of times. -/
theorem Follows.rounds (h : store.Follows hops type type) (rounds : Nat) :
    store.Follows (rounds * hops) type type := by
  induction rounds with
  | zero =>
      rw [Nat.zero_mul]
      exact .here type
  | succ rounds ih =>
      rw [Nat.succ_mul]
      exact ih.trans h

/-- A chain that runs in circles has no end. -/
theorem RunsInCircles.goes_on (h : store.RunsInCircles type) (hops : Nat) :
    ∃ more > hops, ∃ handle, store.Follows more type (.forward handle) := by
  obtain ⟨before, around, handle, hBefore, positive, hAround⟩ := h
  have hRounds := hBefore.trans (hAround.rounds (hops + 1))
  have hMany : hops + 1 ≤ (hops + 1) * around := Nat.le_mul_of_pos_right _ positive
  exact ⟨before + (hops + 1) * around, by omega, handle, hRounds⟩

theorem RunsInCircles.not_standsFor (h : store.RunsInCircles type) :
    ¬ store.StandsFor type shape := by
  rintro ⟨hops, -, hFollows, hShape⟩
  obtain ⟨more, longer, _, hMore⟩ := h.goes_on hops
  obtain ⟨handle, -, hForward, -⟩ := hFollows.passes hMore longer
  exact hShape handle hForward

theorem RunsInCircles.not_breaksAt (h : store.RunsInCircles type) :
    ¬ store.BreaksAt type handle := by
  rintro ⟨hops, -, hFollows, hUnbound⟩
  obtain ⟨more, longer, _, hMore⟩ := h.goes_on hops
  obtain ⟨other, target, hForward, hBound⟩ := hFollows.passes hMore longer
  cases hForward
  rw [hUnbound] at hBound
  cases hBound

/-! ## Looking at some types of a chain -/

theorem follow_ok_iff : store.follow start hops type = .ok shape ↔
    ∃ n < hops, store.Follows n type shape ∧ ∀ handle, shape ≠ .forward handle := by
  induction hops generalizing type with
  | zero => simp [follow]
  | succ hops ih =>
      cases type with
      | forward handle =>
          cases hTarget : store.target? handle with
          | none =>
              simp only [follow, hTarget, reduceCtorEq, false_iff]
              rintro ⟨n, -, hFollows, hShape⟩
              cases hFollows with
              | here => exact hShape handle rfl
              | hop bound _ =>
                  rw [hTarget] at bound
                  cases bound
          | some next =>
              simp only [follow, hTarget, ih]
              constructor
              · rintro ⟨n, lt, hFollows, hShape⟩
                exact ⟨n + 1, by omega, .hop hTarget hFollows, hShape⟩
              · rintro ⟨n, lt, hFollows, hShape⟩
                cases n with
                | zero =>
                    cases hFollows
                    exact absurd rfl (hShape handle)
                | succ n => exact ⟨n, by omega, (follows_forward hTarget).mp hFollows, hShape⟩
      | _ =>
          simp only [follow, Except.ok.injEq]
          constructor
          · rintro rfl
            exact ⟨0, by omega, .here _, by simp⟩
          · rintro ⟨n, -, hFollows, -⟩
            cases hFollows
            rfl

theorem follow_unbound_iff : store.follow start hops type = .error (.unbound name) ↔
    ∃ handle, (∃ n < hops, store.Follows n type (.forward handle) ∧
      store.target? handle = none) ∧ handle.name = name := by
  induction hops generalizing type with
  | zero => simp [follow]
  | succ hops ih =>
      cases type with
      | forward handle =>
          cases hTarget : store.target? handle with
          | none =>
              simp only [follow, hTarget, Except.error.injEq, ResolveError.unbound.injEq]
              constructor
              · rintro rfl
                exact ⟨handle, ⟨0, by omega, .here _, hTarget⟩, rfl⟩
              · rintro ⟨other, ⟨n, -, hFollows, -⟩, hName⟩
                cases hFollows with
                | here => exact hName
                | hop bound _ =>
                    rw [hTarget] at bound
                    cases bound
          | some next =>
              simp only [follow, hTarget, ih]
              constructor
              · rintro ⟨other, ⟨n, lt, hFollows, hUnbound⟩, hName⟩
                exact ⟨other, ⟨n + 1, by omega, .hop hTarget hFollows, hUnbound⟩, hName⟩
              · rintro ⟨other, ⟨n, lt, hFollows, hUnbound⟩, hName⟩
                cases n with
                | zero =>
                    cases hFollows
                    rw [hTarget] at hUnbound
                    cases hUnbound
                | succ n =>
                    exact ⟨other, ⟨n, by omega, (follows_forward hTarget).mp hFollows, hUnbound⟩,
                      hName⟩
      | _ =>
          simp only [follow, reduceCtorEq, false_iff]
          rintro ⟨other, ⟨n, -, hFollows, -⟩, -⟩
          cases hFollows

/-- A chain that is too long is blamed on where it started. -/
theorem follow_tooDeep (h : store.follow start hops type = .error (.tooDeep name)) :
    start.display = name := by
  induction hops generalizing type with
  | zero =>
      rw [follow] at h
      cases h
      rfl
  | succ hops ih =>
      cases type with
      | forward handle =>
          rw [follow] at h
          split at h
          · cases h
          · exact ih h
      | _ => cases h

/-- Only a chain that starts with a handle can be too long. -/
theorem resolve_tooDeep (h : store.resolve type = .error (.tooDeep name)) :
    ∃ handle, type = .forward handle ∧ handle.name = name := by
  cases type with
  | forward handle => exact ⟨handle, rfl, follow_tooDeep h⟩
  | _ => cases h

/-! ## Binding further handles -/

theorem extends_bind (h : store.bind handle type = .ok later) : store.Extends later := by
  unfold bind at h
  split at h
  · cases h
  · next hUnbound =>
      cases h
      exact extends_setTarget hUnbound

theorem extends_bindAll {bindings : List (Handle × Ty)} (h : store.bindAll bindings = .ok later) :
    store.Extends later := by
  induction bindings generalizing store with
  | nil =>
      cases h
      exact .refl _
  | cons binding rest ih =>
      cases hBind : store.bind binding.1 binding.2 with
      | error fault =>
          rw [bindAll, List.foldlM_cons, hBind] at h
          cases h
      | ok middle =>
          rw [bindAll, List.foldlM_cons, hBind] at h
          exact fun handle type hTarget => ih h handle type (extends_bind hBind handle type hTarget)

/-! ## Resolving a type -/

/-- In every store, a type resolves to what it stands for; it is reported to be used too
early if its chain breaks off, under the name of the handle at the break, and to be defined
in terms of itself in all other cases, under the name of the handle where the chain starts.
A chain that runs in circles is such a case. What a type resolves to stays the same when
further handles are bound. -/
theorem resolve_follows_chain (store : TypeStore) (type : Ty) :
    (∀ shape, store.resolve type = .ok shape ↔ store.StandsFor type shape) ∧
    (∀ name, store.resolve type = .error (.unbound name) ↔
      ∃ handle, store.BreaksAt type handle ∧ handle.name = name) ∧
    (∀ name, store.resolve type = .error (.tooDeep name) ↔
      (∀ shape, ¬ store.StandsFor type shape) ∧ (∀ handle, ¬ store.BreaksAt type handle) ∧
        ∃ handle, type = .forward handle ∧ handle.name = name) ∧
    (store.RunsInCircles type → ∃ handle, type = .forward handle ∧
      store.resolve type = .error (.tooDeep handle.name)) ∧
    (∀ bindings later shape, store.bindAll bindings = .ok later →
      store.resolve type = .ok shape → later.resolve type = .ok shape) := by
  have hOk : ∀ shape, store.resolve type = .ok shape ↔ store.StandsFor type shape :=
    fun _ => follow_ok_iff
  have hUnbound : ∀ name, store.resolve type = .error (.unbound name) ↔
      ∃ handle, store.BreaksAt type handle ∧ handle.name = name :=
    fun _ => follow_unbound_iff
  -- what neither stands for a type nor breaks off is too deep, since no answer is left
  have hDeep : (∀ shape, ¬ store.StandsFor type shape) → (∀ handle, ¬ store.BreaksAt type handle) →
      ∃ handle, type = .forward handle ∧ store.resolve type = .error (.tooDeep handle.name) := by
    intro hShape hBreak
    cases hResolve : store.resolve type with
    | ok shape => exact absurd ((hOk shape).mp hResolve) (hShape shape)
    | error cause =>
        cases cause with
        | unbound name =>
            obtain ⟨handle, hAt, -⟩ := (hUnbound name).mp hResolve
            exact absurd hAt (hBreak handle)
        | tooDeep name =>
            obtain ⟨handle, hType, rfl⟩ := resolve_tooDeep hResolve
            exact ⟨handle, hType, rfl⟩
  refine ⟨hOk, hUnbound, fun name => ⟨fun h => ⟨?_, ?_, resolve_tooDeep h⟩, ?_⟩, ?_, ?_⟩
  · intro shape hShape
    rw [(hOk shape).mpr hShape] at h
    cases h
  · intro handle hBreak
    rw [(hUnbound handle.name).mpr ⟨handle, hBreak, rfl⟩] at h
    cases h
  · rintro ⟨hShape, hBreak, handle, hType, rfl⟩
    obtain ⟨other, hOther, hResolve⟩ := hDeep hShape hBreak
    rw [hType] at hOther
    cases hOther
    exact hResolve
  · exact fun h => hDeep (fun _ => h.not_standsFor) fun _ => h.not_breaksAt
  · exact fun _ _ _ hBind hResolve => follow_extends (extends_bindAll hBind) hResolve

/-- Two handles that are bound to each other, and a third for a slice of numbers. -/
def circle : TypeStore :=
  ⟨3, [(0, .forward ⟨1, "B"⟩), (1, .forward ⟨0, "A"⟩), (2, .slice (.prim .int))], []⟩

/-- The circle is blamed on where one enters it, and the slice remains what the third handle
stands for when a fourth is bound to that. -/
theorem resolve_follows_chain_circle : (circle.resolve (.forward ⟨0, "A"⟩) = .error (.tooDeep "A") ∧
      circle.resolve (.forward ⟨1, "B"⟩) = .error (.tooDeep "B")) ∧
    ∃ later, circle.bind ⟨3, "D"⟩ (.forward ⟨2, "C"⟩) = .ok later ∧
      later.resolve (.forward ⟨2, "C"⟩) = .ok (.slice (.prim .int)) := by
  have hTo : circle.Follows 1 (.forward ⟨0, "A"⟩) (.forward ⟨1, "B"⟩) := .hop rfl (.here _)
  have hBack : circle.Follows 1 (.forward ⟨1, "B"⟩) (.forward ⟨0, "A"⟩) := .hop rfl (.here _)
  refine ⟨⟨?_, ?_⟩, _, rfl, ?_⟩
  · obtain ⟨handle, hType, hResolve⟩ := (resolve_follows_chain circle (.forward ⟨0, "A"⟩)).2.2.2.1
      ⟨0, 2, ⟨0, "A"⟩, .here _, by decide, hTo.trans hBack⟩
    cases hType
    exact hResolve
  · obtain ⟨handle, hType, hResolve⟩ := (resolve_follows_chain circle (.forward ⟨1, "B"⟩)).2.2.2.1
      ⟨1, 2, ⟨0, "A"⟩, hBack, by decide, hTo.trans hBack⟩
    cases hType
    exact hResolve
  · exact (resolve_follows_chain circle (.forward ⟨2, "C"⟩)).2.2.2.2
      [(⟨3, "D"⟩, .forward ⟨2, "C"⟩)] _ _ rfl rfl

end GoToC.TypeStore
