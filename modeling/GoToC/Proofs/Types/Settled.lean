import Mathlib.Data.List.Chain
import GoToC.Proofs.Types.Plain

/-!
# Settled stores and their growth

What can be asked of a store that is settled, and what remains true when a store grows.
-/

/-!
## Settled stores

A store is settled if every known handle is bound to a plain type that was validated.
Every question about a usable type is then answered, or the store holds a chain of
`maxHops` handles, each bound to the next: such a chain passes validation, which starts
at what its first handle is bound to, and is one look too long for whoever starts at the
handle itself.
-/

namespace GoToC

variable {type shape : Ty} {hops : Nat} {func : FuncType Ty} {record : StructType Ty}

namespace TypeStore

/-- A row of handles, each bound to the next, as long as no type may be followed. -/
def HasChain (store : TypeStore) : Prop :=
  ∃ handles : List Handle, handles.length = maxHops ∧
    handles.IsChain fun a b => store.target? a = some (.forward b)

/-- The fault of following a chain that is too long. -/
def Deep (store : TypeStore) (fault : Fault) : Prop :=
  (∃ name, fault = .unresolved (.tooDeep name)) ∧ store.HasChain

/-- The answer to a question has a property, or a chain is too long. -/
def Answers {α : Type} (store : TypeStore) (answer : Faulty α) (good : α → Prop) : Prop :=
  match answer with
  | .ok value => good value
  | .error fault => store.Deep fault

/-- A method that the struct of a key was given: its first input points to that struct. -/
structure GivenTo (store : TypeStore) (k : Known) (key : StructKey) (func : FuncType Ty) :
    Prop where
  plain : (Ty.func func).PlainFunc k
  isMethod : func.isMethod = true
  receiver : ∃ receiver rest record, func.inputs = receiver :: rest ∧
    store.pointeeStruct? receiver.type = .ok (some record) ∧ record.key = key

/-- Every known handle is bound to a plain type that was validated, and the methods of
structs are functions of plain types that take their structs first. -/
structure Settled (store : TypeStore) (k : Known) : Prop where
  bound : ∀ handle : Handle, k.handle handle.id →
    ∃ type, store.target? handle = some type ∧ type.Plain k ∧ store.validate type = .ok ()
  methods : ∀ entry ∈ store.methods,
    ∃ func, entry.2.type = .func func ∧ store.GivenTo k entry.1 func

section Answers

variable {α β : Type} {store : TypeStore}

@[simp] theorem answers_ok {value : α} {good : α → Prop} :
    store.Answers (.ok value) good ↔ good value := Iff.rfl

@[simp] theorem answers_pure {value : α} {good : α → Prop} :
    store.Answers (pure value) good ↔ good value := Iff.rfl

@[simp] theorem answers_error {fault : Fault} {good : α → Prop} :
    store.Answers (.error fault) good ↔ store.Deep fault := Iff.rfl

theorem Answers.bind {answer : Faulty α} {next : α → Faulty β} {good : α → Prop}
    {good' : β → Prop} (h : store.Answers answer good)
    (hNext : ∀ value, good value → store.Answers (next value) good') :
    store.Answers (answer >>= next) good' := by
  cases answer with
  | ok value => exact hNext value h
  | error fault => exact h

theorem Answers.mono {answer : Faulty α} {good good' : α → Prop} (h : store.Answers answer good)
    (hGood : ∀ value, good value → good' value) : store.Answers answer good' := by
  cases answer with
  | ok value => exact hGood value h
  | error fault => exact h

theorem Answers.map {answer : Faulty α} {f : α → β} {good : β → Prop}
    (h : store.Answers answer fun value => good (f value)) : store.Answers (f <$> answer) good := by
  cases answer with
  | ok value => exact h
  | error fault => exact h

end Answers

/-! ### Following handles -/

section Follow

variable {k : Known} {store : TypeStore} {start type shape : Ty}

/-- Handles that were followed in vain form a chain. -/
theorem chain_of_follow_tooDeep {name : String}
    (h : store.follow start hops type = .error (.tooDeep name)) :
    ∃ handles : List Handle, handles.length = hops ∧
      handles.IsChain (fun a b => store.target? a = some (.forward b)) ∧
        ∀ handle ∈ handles.head?, type = .forward handle := by
  induction hops generalizing type with
  | zero => exact ⟨[], rfl, .nil, by simp⟩
  | succ hops ih =>
      cases type with
      | forward handle =>
          rw [follow] at h
          split at h
          · cases h
          · next next hTarget =>
              obtain ⟨handles, hLength, hChain, hHead⟩ := ih h
              refine ⟨handle :: handles, by simp [hLength], ?_, by simp⟩
              rw [List.isChain_cons]
              refine ⟨fun other hOther => ?_, hChain⟩
              rw [hTarget, hHead other hOther]
      | _ => simp [follow] at h

/-- A chain that comes to its end within some hops comes to the same end within more. -/
theorem follow_mono {more : Nat} {start' : Ty} (le : hops ≤ more)
    (h : store.follow start hops type = .ok shape) : store.follow start' more type = .ok shape := by
  induction hops generalizing more type with
  | zero => simp [follow] at h
  | succ hops ih =>
      obtain ⟨more, rfl⟩ : ∃ m, more = m + 1 := ⟨more - 1, by omega⟩
      cases type with
      | forward handle =>
          rw [follow] at h ⊢
          split at h
          · cases h
          · exact ih (by omega) h
      | _ => simpa [follow] using h

theorem follow_not_forward (h : store.follow start hops type = .ok shape) (handle : Handle) :
    shape ≠ .forward handle := by
  induction hops generalizing type with
  | zero => simp [follow] at h
  | succ hops ih =>
      cases type with
      | forward other =>
          rw [follow] at h
          split at h
          · cases h
          · exact ih h
      | _ =>
          simp only [follow, Except.ok.injEq] at h
          rw [← h]
          simp

theorem resolve_not_forward (h : store.resolve type = .ok shape) (handle : Handle) :
    shape ≠ .forward handle :=
  follow_not_forward h handle

/-- What is no handle is its own shape. -/
theorem resolve_eq_self (h : ∀ handle, type ≠ .forward handle) : store.resolve type = .ok type := by
  cases type with
  | forward handle => exact absurd rfl (h handle)
  | _ => rfl

theorem Settled.follow_plain (settled : store.Settled k) (start : Ty) (hops : Nat)
    (h : type.Plain k) :
    (∃ shape, store.follow start hops type = .ok shape ∧ shape.Plain k) ∨
      ∃ name, store.follow start hops type = .error (.tooDeep name) := by
  induction hops generalizing type with
  | zero => exact .inr ⟨_, rfl⟩
  | succ hops ih =>
      cases type with
      | forward handle =>
          rw [Ty.Plain] at h
          obtain ⟨target, hTarget, hPlain, _⟩ := settled.bound handle h
          rw [follow, hTarget]
          exact ih hPlain
      | _ => exact .inl ⟨_, rfl, h⟩

/-- A plain type of a settled store has a plain shape. -/
theorem Settled.peel_plain (settled : store.Settled k) (h : type.Plain k) :
    store.Answers (store.peel type) fun shape =>
      shape.Plain k ∧ ∀ handle, shape ≠ .forward handle := by
  unfold peel
  rcases settled.follow_plain type maxHops h with ⟨shape, hFollow, hPlain⟩ | ⟨name, hFollow⟩
  · rw [resolve, hFollow]
    exact ⟨hPlain, follow_not_forward hFollow⟩
  · rw [resolve, hFollow]
    obtain ⟨handles, hLength, hChain, -⟩ := chain_of_follow_tooDeep hFollow
    exact ⟨⟨name, rfl⟩, handles, hLength, hChain⟩

@[simp] theorem peel_func (func : FuncType Ty) : store.peel (.func func) = .ok (.func func) := rfl

theorem peel_eq_self (h : ∀ handle, type ≠ .forward handle) : store.peel type = .ok type := by
  rw [peel, resolve_eq_self h]

theorem peel_not_forward (h : store.peel type = .ok shape) (handle : Handle) :
    shape ≠ .forward handle := by
  unfold peel at h
  split at h
  · next found hResolve =>
      cases h
      exact resolve_not_forward hResolve handle
  · cases h

theorem peel_peel (h : store.peel type = .ok shape) : store.peel shape = .ok shape :=
  peel_eq_self (peel_not_forward h)

/-- What a usable type is followed to: a usable shape, which is the type itself if it is a
function. -/
structure ShapeOf (k : Known) (type shape : Ty) : Prop where
  usable : shape.Usable k
  not_forward : ∀ handle, shape ≠ .forward handle
  func : ∀ func, shape = .func func → type = shape

theorem ShapeOf.plain (h : ShapeOf k type shape) (hFunc : ∀ func, shape ≠ .func func) :
    shape.Plain k := h.usable.plain hFunc

theorem Settled.peel_usable (settled : store.Settled k) (h : type.Usable k) :
    store.Answers (store.peel type) (ShapeOf k type) := by
  rcases h with h | ⟨h, hFunction⟩
  · refine (settled.peel_plain h).mono fun shape hShape => ⟨.inl hShape.1, hShape.2, ?_⟩
    rintro func rfl
    exact absurd hShape.1 Ty.Plain.not_func
  · obtain ⟨func, rfl⟩ := h.exists_func
    exact ⟨.inr ⟨h, hFunction⟩, by simp, by simp⟩

end Follow

/-! ### Questions about usable types -/

section Inspect

variable {k : Known} {store : TypeStore} {type : Ty}

theorem Settled.cType_usable (settled : store.Settled k) (h : type.Usable k) :
    store.Answers (store.cType type) fun text => isIdentifier text = true := by
  refine (settled.peel_usable h).bind fun shape hShape => ?_
  cases shape with
  | prim p => exact isIdentifier_cType p
  | func record => exact isIdentifier_typedefName record
  | multi members => exact absurd hShape.usable Ty.Usable.not_multi
  | forward handle => exact absurd rfl (hShape.not_forward handle)
  | _ =>
      show isIdentifier _ = true
      decide +kernel

theorem Settled.isPrim_usable (settled : store.Settled k) (h : type.Usable k) (prim : Prim) :
    store.Answers (store.isPrim type prim) fun _ => True := by
  refine (settled.peel_usable h).bind fun shape _ => ?_
  split <;> trivial

theorem Settled.isStorable_usable (settled : store.Settled k) (h : type.Usable k) :
    store.Answers (store.isStorable type) fun _ => True := by
  refine (settled.peel_usable h).bind fun shape _ => ?_
  split <;> trivial

theorem Settled.hasZeroValue_usable (settled : store.Settled k) (h : type.Usable k) :
    store.Answers (store.hasZeroValue type) fun _ => True := by
  refine (settled.peel_usable h).bind fun shape hShape => ?_
  split
  · trivial
  · exact settled.isStorable_usable hShape.usable

/-- A type that was found to have a zero value has one. -/
theorem zeroValue_of_hasZeroValue (h : store.hasZeroValue type = .ok true) :
    ∃ text, store.zeroValue type = .ok text := by
  unfold hasZeroValue at h
  cases hPeel : store.peel type with
  | error fault =>
      rw [hPeel] at h
      cases h
  | ok shape =>
      have hSelf : store.hasZeroValue shape = .ok true := by
        rw [hPeel] at h
        rw [hasZeroValue, peel_peel hPeel]
        exact h
      unfold zeroValue
      simp only [hPeel, hSelf, Bind.bind, Except.bind, Bool.not_true, Bool.false_eq_true, if_false]
      split <;> exact ⟨_, rfl⟩

theorem Settled.element?_usable (settled : store.Settled k) (h : type.Usable k) :
    store.Answers (store.element? type) fun found => ∀ elem ∈ found, elem.Plain k := by
  refine (settled.peel_usable h).bind fun shape hShape => ?_
  split
  · have hPlain := hShape.plain (by simp)
    rw [Ty.Plain] at hPlain
    simpa using hPlain
  · have hPlain := hShape.plain (by simp)
    rw [Ty.Plain] at hPlain
    simpa using hPlain.2
  · simp [Ty.Plain]
  · simp

theorem Settled.sliceElement?_usable (settled : store.Settled k) (h : type.Usable k) :
    store.Answers (store.sliceElement? type) fun found => ∀ elem ∈ found, elem.Plain k := by
  refine (settled.peel_usable h).bind fun shape hShape => ?_
  split
  · have hPlain := hShape.plain (by simp)
    rw [Ty.Plain] at hPlain
    simpa using hPlain
  · simp

theorem Settled.struct?_usable (settled : store.Settled k) (h : type.Usable k) :
    store.Answers (store.struct? type) fun found =>
      ∀ record ∈ found, (Ty.struct record).Plain k := by
  refine (settled.peel_usable h).bind fun shape hShape => ?_
  split
  · simpa using hShape.plain (by simp)
  · simp

theorem Settled.pointeeStruct?_usable (settled : store.Settled k) (h : type.Usable k) :
    store.Answers (store.pointeeStruct? type) fun found =>
      ∀ record ∈ found, (Ty.struct record).Plain k := by
  refine (settled.peel_usable h).bind fun shape hShape => ?_
  split
  · have hPlain := hShape.plain (by simp)
    rw [Ty.Plain] at hPlain
    exact settled.struct?_usable (.inl hPlain)
  · simp

theorem Settled.interface?_usable (settled : store.Settled k) (h : type.Usable k) :
    store.Answers (store.interface? type) fun found =>
      ∀ record ∈ found, (Ty.interface record).Plain k := by
  refine (settled.peel_usable h).bind fun shape hShape => ?_
  split
  · simpa using hShape.plain (by simp)
  · simp

/-- Only a function is found to be one. -/
theorem Settled.func?_usable (settled : store.Settled k) (h : type.Usable k) :
    store.Answers (store.func? type) fun found =>
      ∀ func ∈ found, type = .func func ∧ (Ty.func func).PlainFunc k ∧ k.function := by
  refine (settled.peel_usable h).bind fun shape hShape => ?_
  split
  · next func =>
      have hUsable := hShape.usable.of_func
      simpa using ⟨hShape.func func rfl, hUsable⟩
  · simp

theorem Settled.multi?_usable (settled : store.Settled k) (h : type.Usable k) :
    store.Answers (store.multi? type) fun found => found = none := by
  refine (settled.peel_usable h).bind fun shape hShape => ?_
  split
  · exact absurd hShape.usable Ty.Usable.not_multi
  · rfl

@[simp] theorem func?_func (func : FuncType Ty) : store.func? (.func func) = .ok (some func) := rfl

/-! ### Prototypes -/

theorem Settled.params_plain (settled : store.Settled k) (nameAt : Nat → String)
    (isPointer : Bool) (index : Nat) {members : List (Member Ty)} (h : Ty.PlainAll k members) :
    store.Answers (store.params nameAt isPointer index members) fun _ => True := by
  induction members generalizing index with
  | nil => trivial
  | cons member rest ih =>
      rw [Ty.PlainAll] at h
      refine (settled.cType_usable (.inl h.1.2)).bind fun _ _ => ?_
      exact (ih (index + 1) h.2).bind fun _ _ => trivial

theorem Settled.prototype_plain (settled : store.Settled k) (name : String)
    (h : (Ty.func func).PlainFunc k) :
    store.Answers (store.prototype func name) fun prototype => prototype.name = name := by
  rw [Ty.PlainFunc] at h
  unfold prototype
  split
  · next output hOutputs =>
      have hOutput := h.2.1
      rw [hOutputs, Ty.PlainAll] at hOutput
      refine (settled.cType_usable (.inl hOutput.1.2)).bind fun _ _ => ?_
      exact (settled.params_plain _ _ _ h.1).bind fun _ _ => rfl
  · refine (settled.params_plain _ _ _ h.1).bind fun _ _ => ?_
    exact (settled.params_plain _ _ _ h.2.1).bind fun _ _ => rfl

/-- The definition of a pointer type that is asked for is given, if one is due. -/
theorem Settled.request_usable (settled : store.Settled k) (supply : TypedefSupply)
    (h : type.Usable k) : store.Answers (supply.request store type).1 fun _ => True := by
  have hFunc := settled.func?_usable h
  unfold TypedefSupply.request
  cases hFound : store.func? type with
  | error fault =>
      rw [hFound] at hFunc
      exact hFunc
  | ok found =>
      rw [hFound] at hFunc
      cases found with
      | none => trivial
      | some func =>
          dsimp only
          split
          · trivial
          · have hDefinition : store.Answers (TypedefSupply.definition store func) fun _ => True :=
              (settled.prototype_plain _ (hFunc func rfl).2.1).bind fun _ _ => trivial
            exact hDefinition.map

end Inspect

end TypeStore

end GoToC

/-!
## Growth of stores

Handles are bound once and stay bound. What was found out about a type in a store, from
the handles that it was followed through, remains true in every store that holds the same
bindings and more.
-/

namespace GoToC.TypeStore

/-- Every binding of a store is one of the other. -/
def Extends (before after : TypeStore) : Prop :=
  ∀ handle type, before.target? handle = some type → after.target? handle = some type

variable {before after store : TypeStore} {k k' : Known}

theorem Extends.refl (store : TypeStore) : store.Extends store := fun _ _ => id

theorem follow_extends (h : before.Extends after) {start : Ty}
    (hFollow : before.follow start hops type = .ok shape) :
    after.follow start hops type = .ok shape := by
  induction hops generalizing type with
  | zero => cases hFollow
  | succ hops ih =>
      cases type with
      | forward handle =>
          rw [follow] at hFollow ⊢
          split at hFollow
          · cases hFollow
          · next next hTarget =>
              rw [h handle next hTarget]
              exact ih hFollow
      | _ => exact hFollow

theorem validateWithin_extends (h : before.Extends after) {levels : Nat}
    (hValid : before.validateWithin levels type = .ok ()) :
    after.validateWithin levels type = .ok () := by
  induction levels generalizing type with
  | zero => cases hValid
  | succ levels ih =>
      rw [validateWithin] at hValid ⊢
      cases hResolve : before.resolve type with
      | error cause =>
          rw [hResolve] at hValid
          cases hValid
      | ok shape =>
          have hShape : after.resolve type = .ok shape := follow_extends h hResolve
          rw [hResolve] at hValid
          rw [hShape]
          cases shape with
          | pointer inner => exact ih hValid
          | slice elem => exact ih hValid
          | map key value =>
              have hBoth : (do
                  before.validateWithin levels key
                  before.validateWithin levels value : Except ResolveError Unit) = .ok () := hValid
              cases hKey : before.validateWithin levels key with
              | error cause =>
                  rw [hKey] at hBoth
                  cases hBoth
              | ok done =>
                  rw [hKey] at hBoth
                  show (do
                    after.validateWithin levels key
                    after.validateWithin levels value : Except ResolveError Unit) = .ok ()
                  rw [ih hKey]
                  exact ih hBoth
          | _ => rfl

theorem pointeeStruct?_eq_some : store.pointeeStruct? type = .ok (some record) ↔
      ∃ inner, store.peel type = .ok (.pointer inner) ∧
        store.peel inner = .ok (.struct record) := by
  rw [pointeeStruct?]
  cases store.peel type with
  | error fault => simp [Bind.bind, Except.bind]
  | ok shape =>
      cases shape with
      | pointer inner =>
          show store.struct? inner = _ ↔ _
          rw [struct?]
          cases hInner : store.peel inner with
          | error fault => simp [hInner, Bind.bind, Except.bind]
          | ok found => cases found <;> simp [hInner, Bind.bind, Except.bind, Pure.pure,
              Except.pure]
      | _ => simp [Bind.bind, Except.bind, Pure.pure, Except.pure]

theorem peel_extends (h : before.Extends after) (hPeel : before.peel type = .ok shape) :
    after.peel type = .ok shape := by
  rw [peel] at hPeel ⊢
  cases hResolve : before.resolve type with
  | error cause =>
      rw [hResolve] at hPeel
      cases hPeel
  | ok found =>
      rw [hResolve] at hPeel
      rw [show after.resolve type = .ok found from follow_extends h hResolve]
      exact hPeel

theorem pointeeStruct?_extends (h : before.Extends after)
    (hFound : before.pointeeStruct? type = .ok (some record)) :
    after.pointeeStruct? type = .ok (some record) := by
  obtain ⟨inner, hType, hInner⟩ := pointeeStruct?_eq_some.mp hFound
  exact pointeeStruct?_eq_some.mpr ⟨inner, peel_extends h hType, peel_extends h hInner⟩

theorem GivenTo.extend {key : StructKey} (h : before.GivenTo k key func)
    (hExtends : before.Extends after) : after.GivenTo k key func := by
  obtain ⟨receiver, rest, record, hInputs, hRecord, hKey⟩ := h.receiver
  exact ⟨h.plain, h.isMethod, receiver, rest, record, hInputs,
    pointeeStruct?_extends hExtends hRecord, hKey⟩

/-- A store with more bindings, and with more methods if structs were given them rightly. -/
theorem Settled.extend (settled : before.Settled k) (h : before.Extends after)
    (hMethods : ∀ entry ∈ after.methods, entry ∈ before.methods ∨
      ∃ func, entry.2.type = .func func ∧ after.GivenTo k entry.1 func) : after.Settled k := by
  refine ⟨fun handle hHandle => ?_, fun entry hEntry => ?_⟩
  · obtain ⟨type, hTarget, hPlain, hValid⟩ := settled.bound handle hHandle
    exact ⟨type, h handle type hTarget, hPlain, validateWithin_extends h hValid⟩
  · rcases hMethods entry hEntry with hOld | hNew
    · obtain ⟨func, hType, hGiven⟩ := settled.methods entry hOld
      exact ⟨func, hType, hGiven.extend h⟩
    · exact hNew

/-- More may be known, if the handles that are new are bound to types that were validated. -/
theorem Settled.widen (settled : store.Settled k) (le : k.Le k')
    (hNew : ∀ handle : Handle, k'.handle handle.id → k.handle handle.id ∨
      ∃ type, store.target? handle = some type ∧ type.Plain k' ∧ store.validate type = .ok ()) :
    store.Settled k' := by
  refine ⟨fun handle hHandle => ?_, fun entry hEntry => ?_⟩
  swap
  · obtain ⟨func, hType, hGiven⟩ := settled.methods entry hEntry
    exact ⟨func, hType, hGiven.plain.mono le, hGiven.isMethod, hGiven.receiver⟩
  rcases hNew handle hHandle with hOld | hNew
  · obtain ⟨type, hTarget, hPlain, hValid⟩ := settled.bound handle hOld
    exact ⟨type, hTarget, hPlain.mono le, hValid⟩
  · exact hNew

/-! ### Steps -/

theorem target?_setTarget (store : TypeStore) (handle other : Handle) (type : Ty) :
    (store.setTarget handle type).target? other =
      if other.id = handle.id then some type else store.target? other := by
  show List.lookup other.id ((handle.id, type) :: store.bound) = _
  rw [List.lookup_cons]
  by_cases h : other.id = handle.id
  · rw [if_pos h, beq_iff_eq.mpr h]
  · rw [if_neg h, beq_eq_false_iff_ne.mpr h]
    rfl

theorem extends_setTarget {handle : Handle} (h : store.target? handle = none) :
    store.Extends (store.setTarget handle type) := by
  intro other found hFound
  rw [target?_setTarget, if_neg, hFound]
  intro hSame
  rw [target?, hSame] at hFound
  exact absurd (h.symm.trans hFound) (by simp)

end GoToC.TypeStore
