import Mathlib.Logic.Relation
import GoToC.Proofs.Types.Comparison

/-!
# The unfolding of validated types

A type unfolds into its parts, a handle into what it is bound to. Validation goes down a
bounded number of levels and follows a bounded number of handles at each, so what it accepts
unfolds in boundedly many steps, however the handles of the store are tied together, and
whatever comes up on the way was accepted as well.
-/

namespace GoToC

variable {more : Nat}

open Relation

/-- The types that a pointer, a slice or a map is made of. -/
def Ty.parts : Ty → List Ty
  | .pointer inner => [inner]
  | .slice elem => [elem]
  | .map key value => [key, value]
  | _ => []

namespace TypeStore

/-- One step of unfolding: to a part, or from a handle to what it is bound to. -/
inductive Unfolds (store : TypeStore) : Ty → Ty → Prop
  | part {whole part} (h : part ∈ whole.parts) : Unfolds store whole part
  | bound {handle target} (h : store.target? handle = some target) :
      Unfolds store (.forward handle) target

/-- What comes up when a type is unfolded any number of times. -/
def Reaches (store : TypeStore) : Ty → Ty → Prop := ReflTransGen store.Unfolds

/-- No function comes up when a type is unfolded. -/
def NoFunc (store : TypeStore) (type : Ty) : Prop := ∀ func, ¬ store.Reaches type (.func func)

variable {store : TypeStore} {type part shape start : Ty} {levels hops room : Nat}

/-! ## What validation accepts -/

/-- A type is accepted if it can be followed to its shape and the parts of that are accepted on
the level below. -/
theorem validateWithin_succ : store.validateWithin (levels + 1) type = .ok () ↔
    ∃ shape, store.resolve type = .ok shape ∧
      ∀ part ∈ shape.parts, store.validateWithin levels part = .ok () := by
  rw [validateWithin]
  cases store.resolve type with
  | error cause => simp [Bind.bind, Except.bind]
  | ok shape =>
      cases shape with
      | map key value =>
          cases hKey : store.validateWithin levels key <;>
            simp [Bind.bind, Except.bind, Ty.parts, hKey]
      | _ => simp [Bind.bind, Except.bind, Ty.parts, Pure.pure, Except.pure]

/-- What is accepted on some level is accepted with more levels below. -/
theorem validateWithin_mono (le : levels ≤ more) (h : store.validateWithin levels type = .ok ()) :
    store.validateWithin more type = .ok () := by
  induction levels generalizing more type with
  | zero => cases h
  | succ levels ih =>
      obtain ⟨more, rfl⟩ : ∃ m, more = m + 1 := ⟨more - 1, by omega⟩
      obtain ⟨shape, hShape, hParts⟩ := validateWithin_succ.mp h
      exact validateWithin_succ.mpr
        ⟨shape, hShape, fun part hPart => ih (by omega) (hParts part hPart)⟩

/-- A type with parts is its own shape. -/
theorem resolve_of_mem_parts (h : part ∈ type.parts) : store.resolve type = .ok type := by
  apply resolve_eq_self
  rintro handle rfl
  cases h

/-- What a handle is bound to has the shape of the handle. -/
theorem resolve_target {handle : Handle} {target : Ty}
    (hTarget : store.target? handle = some target)
    (h : store.resolve (.forward handle) = .ok shape) : store.resolve target = .ok shape := by
  rw [resolve, maxHops, follow, hTarget] at h
  exact follow_mono (by decide) h

/-- What a type unfolds to in one step is accepted where the type is. -/
theorem validateWithin_unfolds (h : store.validateWithin levels type = .ok ())
    (hStep : store.Unfolds type part) : store.validateWithin levels part = .ok () := by
  cases levels with
  | zero => cases h
  | succ levels =>
      obtain ⟨shape, hShape, hParts⟩ := validateWithin_succ.mp h
      cases hStep with
      | part hPart =>
          have hSelf : store.resolve type = .ok type := resolve_of_mem_parts hPart
          obtain rfl := Except.ok.inj (hSelf.symm.trans hShape)
          exact validateWithin_mono (by omega) (hParts part hPart)
      | bound hTarget => exact validateWithin_succ.mpr ⟨shape,
          resolve_target hTarget hShape, hParts⟩

/-- What a validated type unfolds to was validated too. -/
theorem validate_reaches (h : store.validate type = .ok ()) (hReaches : store.Reaches type part) :
    store.validate part = .ok () := by
  induction hReaches with
  | refl => exact h
  | tail _ hStep ih => exact validateWithin_unfolds ih hStep

theorem resolve_of_validateWithin (h : store.validateWithin levels type = .ok ()) :
    ∃ shape, store.resolve type = .ok shape := by
  cases levels with
  | zero => cases h
  | succ levels =>
      obtain ⟨shape, hShape, -⟩ := validateWithin_succ.mp h
      exact ⟨shape, hShape⟩

/-! ## How far types unfold -/

/-- A type is accepted with some levels below it and its shape is found within some hops; so
many steps of unfolding it has room for. -/
def Room (store : TypeStore) (room : Nat) (type : Ty) : Prop :=
  ∃ levels hops start shape, store.validateWithin (levels + 1) type = .ok () ∧
    store.follow start hops type = .ok shape ∧ hops + levels * maxHops ≤ room

theorem Room.of_validateWithin (h : store.validateWithin (levels + 1) type = .ok ()) :
    store.Room (maxHops + levels * maxHops) type := by
  obtain ⟨shape, hShape⟩ := resolve_of_validateWithin h
  exact ⟨levels, maxHops, type, shape, h, hShape, Nat.le_refl _⟩

/-- Each step of unfolding uses up some of the room. -/
theorem Room.unfolds (h : store.Room room type) (hStep : store.Unfolds type part) :
    ∃ less, less < room ∧ store.Room less part := by
  obtain ⟨levels, hops, start, shape, hValid, hFollow, hRoom⟩ := h
  cases hops with
  | zero => cases hFollow
  | succ hops =>
      cases hStep with
      | part hPart =>
          obtain ⟨found, hFound, hParts⟩ := validateWithin_succ.mp hValid
          have hSelf : store.resolve type = .ok type := resolve_of_mem_parts hPart
          obtain rfl := Except.ok.inj (hSelf.symm.trans hFound)
          cases levels with
          | zero => cases hParts part hPart
          | succ levels =>
              refine ⟨maxHops + levels * maxHops, ?_, .of_validateWithin (hParts part hPart)⟩
              rw [Nat.succ_mul] at hRoom
              omega
      | bound hTarget =>
          rw [follow, hTarget] at hFollow
          exact ⟨hops + levels * maxHops, by omega, levels, hops, start, shape,
            validateWithin_unfolds hValid (.bound hTarget), hFollow, Nat.le_refl _⟩

theorem Room.pos (h : store.Room room type) : 0 < room := by
  obtain ⟨levels, hops, start, shape, -, hFollow, hRoom⟩ := h
  cases hops with
  | zero => cases hFollow
  | succ hops => omega

/-- A type unfolds in fewer steps than it has room for. -/
theorem Room.length_lt {path : List Ty} (h : store.Room room type)
    (hPath : (type :: path).IsChain store.Unfolds) : path.length < room := by
  induction path generalizing room type with
  | nil => exact h.pos
  | cons next path ih =>
      obtain ⟨hStep, hLater⟩ := List.isChain_cons_cons.mp hPath
      obtain ⟨less, hLess, hRoom⟩ := h.unfolds hStep
      exact Nat.lt_of_le_of_lt (Nat.succ_le_of_lt (ih hRoom hLater)) hLess

/-- A type with room has no infinite unfolding. -/
theorem Room.acc (h : store.Room room type) :
    Acc (fun part whole => store.Unfolds whole part) type := by
  induction room using Nat.strong_induction_on generalizing type with
  | _ room ih =>
      apply Acc.intro
      intro part hStep
      obtain ⟨less, hLess, hRoom⟩ := h.unfolds hStep
      exact ih less hLess hRoom

/-- Any number of steps uses up room. -/
theorem Room.transGen (h : store.Room room type) (hSteps : TransGen store.Unfolds type part) :
    ∃ less, less < room ∧ store.Room less part := by
  induction hSteps with
  | single hStep => exact h.unfolds hStep
  | tail _ hStep ih =>
      obtain ⟨less, hLess, hRoom⟩ := ih
      obtain ⟨lesser, hLesser, hRoom'⟩ := hRoom.unfolds hStep
      exact ⟨lesser, Nat.lt_trans hLesser hLess, hRoom'⟩

/-- A type that comes up in its own unfolding has no room. -/
theorem Room.not_cyclic (h : store.Room room type) : ¬ TransGen store.Unfolds type type := by
  intro hCycle
  induction room using Nat.strong_induction_on with
  | _ room ih =>
      obtain ⟨less, hLess, hRoom⟩ := h.transGen hCycle
      exact ih less hLess hRoom

/-! ## Answers about validated types -/

end TypeStore

/-- A fault of a type that cannot be followed to its shape, or has no end. -/
def Fault.IsUnvalidated : Fault → Prop
  | .unresolved _ | .endless => True
  | _ => False

/-- An answer that is no fault of a type that was not validated. -/
def Faulty.Answered {α : Type} (answer : Faulty α) : Prop :=
  ∀ fault, answer = .error fault → ¬ fault.IsUnvalidated

namespace Faulty.Answered

variable {α β : Type}

theorem ok {value : α} : Answered (.ok value) := nofun

theorem error {fault : Fault} (h : ¬ fault.IsUnvalidated) : Answered (.error fault : Faulty α) := by
  intro found hFound
  cases hFound
  exact h

theorem bind {answer : Faulty α} {next : α → Faulty β} (h : answer.Answered)
    (hNext : ∀ value, answer = .ok value → (next value).Answered) : (answer >>= next).Answered := by
  cases answer with
  | ok value => exact hNext value rfl
  | error fault => exact error (h fault rfl)

end Faulty.Answered

open Faulty

/-- The questions about the shape of one type. -/
inductive Inspector : Type → Type where
  | shape : Inspector Ty
  | cType : Inspector String
  | isPrim (prim : Prim) : Inspector Bool
  | isIntLike : Inspector Bool
  | isStorable : Inspector Bool
  | hasZeroValue : Inspector Bool
  | zeroValue : Inspector String
  | element : Inspector (Option Ty)
  | sliceElement : Inspector (Option Ty)
  | struct : Inspector (Option (StructType Ty))
  | pointeeStruct : Inspector (Option (StructType Ty))
  | interface : Inspector (Option (InterfaceType Ty))
  | func : Inspector (Option (FuncType Ty))
  | multi : Inspector (Option (List (Member Ty)))

def Inspector.ask {α : Type} : Inspector α → TypeStore → Ty → Faulty α
  | shape, store, type => store.peel type
  | cType, store, type => store.cType type
  | isPrim prim, store, type => store.isPrim type prim
  | isIntLike, store, type => store.isIntLike type
  | isStorable, store, type => store.isStorable type
  | hasZeroValue, store, type => store.hasZeroValue type
  | zeroValue, store, type => store.zeroValue type
  | element, store, type => store.element? type
  | sliceElement, store, type => store.sliceElement? type
  | struct, store, type => store.struct? type
  | pointeeStruct, store, type => store.pointeeStruct? type
  | interface, store, type => store.interface? type
  | func, store, type => store.func? type
  | multi, store, type => store.multi? type

namespace TypeStore

variable {α : Type} {store : TypeStore} {type shape start a b : Ty} {levels hops : Nat}

/-- What a type is followed to comes up in its unfolding. -/
theorem reaches_of_follow (h : store.follow start hops type = .ok shape) :
    store.Reaches type shape := by
  induction hops generalizing type with
  | zero => cases h
  | succ hops ih =>
      cases type with
      | forward handle =>
          rw [follow] at h
          split at h
          · cases h
          · next target hTarget => exact .head (.bound hTarget) (ih h)
      | _ =>
          obtain rfl := Except.ok.inj h
          exact .refl

/-- A validated type has a shape, which was validated too. -/
theorem peel_of_validate (h : store.validate type = .ok ()) :
    ∃ shape, store.peel type = .ok shape ∧ store.Reaches type shape ∧
      store.validate shape = .ok () := by
  obtain ⟨shape, hShape⟩ := resolve_of_validateWithin h
  have hReaches : store.Reaches type shape := reaches_of_follow hShape
  exact ⟨shape, by rw [peel, hShape], hReaches, validate_reaches h hReaches⟩

/-- A question that goes on from the shape of a validated type. -/
theorem answered_peel_bind {next : Ty → Faulty α} (h : store.validate type = .ok ())
    (hNext : ∀ shape, store.peel type = .ok shape → store.validate shape = .ok () →
      (∀ handle, shape ≠ .forward handle) → (next shape).Answered) :
    (store.peel type >>= next).Answered := by
  obtain ⟨shape, hPeel, -, hValid⟩ := peel_of_validate h
  rw [hPeel]
  exact hNext shape hPeel hValid (peel_not_forward hPeel)

theorem struct?_answered (h : store.validate type = .ok ()) : (store.struct? type).Answered := by
  apply answered_peel_bind h
  intro shape _ _ _
  split <;> exact .ok

theorem isStorable_answered (h : store.validate type = .ok ()) :
    (store.isStorable type).Answered := by
  apply answered_peel_bind h
  intro shape _ _ _
  split <;> exact .ok

theorem hasZeroValue_answered (h : store.validate type = .ok ()) :
    (store.hasZeroValue type).Answered := by
  apply answered_peel_bind h
  intro shape _ hShape _
  split
  · exact .ok
  · exact isStorable_answered hShape

/-- Whatever is asked about a validated type is answered. -/
theorem ask_answered (inspector : Inspector α) (h : store.validate type = .ok ()) :
    (inspector.ask store type).Answered := by
  cases inspector with
  | shape =>
      obtain ⟨shape, hPeel, -⟩ := peel_of_validate h
      rw [Inspector.ask, hPeel]
      exact .ok
  | isStorable => exact isStorable_answered h
  | hasZeroValue => exact hasZeroValue_answered h
  | struct => exact struct?_answered h
  | cType =>
      apply answered_peel_bind h
      intro shape _ _ hForward
      split
      case h_10 => exact absurd rfl (hForward _)
      all_goals exact .ok
  | zeroValue =>
      apply answered_peel_bind h
      intro shape _ hShape _
      apply Answered.bind (hasZeroValue_answered hShape)
      intro hasZero _
      cases hasZero with
      | false => exact .error id
      | true =>
          rw [if_neg (by simp)]
          split <;> exact .ok
  | pointeeStruct =>
      apply answered_peel_bind h
      intro shape _ hShape _
      split
      · next inner => exact struct?_answered (validate_reaches hShape
          (.single (.part List.mem_cons_self)))
      · exact .ok
  | _ =>
      apply answered_peel_bind h
      intro shape _ _ _
      split <;> exact .ok

/-! ## Comparison and conversion -/

theorem NoFunc.reaches (h : store.NoFunc type) (hReaches : store.Reaches type shape) :
    store.NoFunc shape := fun func hFunc => h func (hReaches.trans hFunc)

theorem NoFunc.part {part : Ty} (h : store.NoFunc type) (hPart : part ∈ type.parts) :
    store.NoFunc part := h.reaches (.single (.part hPart))

/-- No function comes up in a type that is none and unfolds to types in which none comes up. -/
theorem NoFunc.of_unfolds (hType : ∀ func, type ≠ .func func)
    (h : ∀ part, store.Unfolds type part → store.NoFunc part) : store.NoFunc type := by
  intro func hReaches
  rcases ReflTransGen.cases_head hReaches with hSame | ⟨part, hStep, hLater⟩
  · exact hType func hSame
  · exact h part hStep func hLater

/-- Two comparisons, the second of which is only made if the first finds no difference. -/
def both (first second : Faulty Bool) : Faulty Bool := do
  if ← first then second else return false

theorem both_answered {first second : Faulty Bool} (h : first.Answered) (h' : second.Answered) :
    (both first second).Answered := by
  apply Answered.bind h
  intro same _
  cases same with
  | true => exact h'
  | false => exact .ok

/-- Types without functions that are accepted with some levels below them are compared within
these levels, and more levels do not change the answer. -/
theorem equalWithin_validated (le : levels ≤ more) (ha : store.validateWithin levels a = .ok ())
    (hb : store.validateWithin levels b = .ok ()) (hFuncA : store.NoFunc a)
    (hFuncB : store.NoFunc b) :
    store.equalWithin more a b = store.equalWithin levels a b ∧
      (store.equalWithin levels a b).Answered := by
  induction levels generalizing more a b with
  | zero => cases ha
  | succ levels ih =>
      obtain ⟨more, rfl⟩ : ∃ m, more = m + 1 := ⟨more - 1, by omega⟩
      obtain ⟨shapeA, hShapeA, hPartsA⟩ := validateWithin_succ.mp ha
      obtain ⟨shapeB, hShapeB, hPartsB⟩ := validateWithin_succ.mp hb
      have hPeelA : store.peel a = .ok shapeA := by rw [peel, hShapeA]
      have hPeelB : store.peel b = .ok shapeB := by rw [peel, hShapeB]
      have hFuncA' := hFuncA.reaches (reaches_of_follow hShapeA)
      have hFuncB' := hFuncB.reaches (reaches_of_follow hShapeB)
      have hPart {x y : Ty} (hx : x ∈ shapeA.parts) (hy : y ∈ shapeB.parts) :=
        ih (Nat.le_of_succ_le_succ le) (hPartsA x hx) (hPartsB y hy) (hFuncA'.part hx)
          (hFuncB'.part hy)
      rw [equalWithin, equalWithin, hPeelA, hPeelB]
      cases shapeA with
      | func record => exact absurd .refl (hFuncA' record)
      | multi members => exact ⟨rfl, .error id⟩
      | pointer x =>
          cases shapeB with
          | pointer y => exact hPart List.mem_cons_self List.mem_cons_self
          | multi members => exact ⟨rfl, .error id⟩
          | _ => exact ⟨rfl, .ok⟩
      | slice x =>
          cases shapeB with
          | slice y => exact hPart List.mem_cons_self List.mem_cons_self
          | multi members => exact ⟨rfl, .error id⟩
          | _ => exact ⟨rfl, .ok⟩
      | map key value =>
          cases shapeB with
          | map key' value' =>
              have hKeys := hPart (x := key) (y := key') List.mem_cons_self List.mem_cons_self
              have hValues := hPart (x := value) (y := value') (.tail _ List.mem_cons_self)
                (.tail _ List.mem_cons_self)
              exact ⟨congrArg₂ both hKeys.1 hValues.1, both_answered hKeys.2 hValues.2⟩
          | multi members => exact ⟨rfl, .error id⟩
          | _ => exact ⟨rfl, .ok⟩
      | _ =>
          cases shapeB with
          | multi members => exact ⟨rfl, .error id⟩
          | _ => exact ⟨rfl, .ok⟩

/-- Validated types without functions are compared within the levels of validation. -/
theorem equal_validated (ha : store.validate a = .ok ()) (hb : store.validate b = .ok ())
    (hFuncA : store.NoFunc a) (hFuncB : store.NoFunc b) :
    store.equal a b = store.equalWithin (maxHops + 1) a b ∧ (store.equal a b).Answered := by
  have hLevels : maxHops + 1 ≤ usualDepth := by decide
  have hUsual := equalWithin_validated hLevels ha hb hFuncA hFuncB
  have hEqual : store.equal a b = store.equalWithin (maxHops + 1) a b := by
    unfold equal
    rw [hUsual.1]
    split
    · next hEndless => exact absurd trivial (hUsual.2 _ hEndless)
    · rfl
  exact ⟨hEqual, hEqual ▸ hUsual.2⟩

theorem checkConvertible_answered (side : ConversionSide) :
    (checkConvertible side type).Answered := by
  unfold checkConvertible
  split
  · exact .error id
  · exact .error id
  · exact .error id
  · exact .ok

theorem implicitConversion_answered (h : store.validate b = .ok ()) :
    (store.implicitConversion a b).Answered := by
  have hPointee {inner : Ty} (hb : b = .pointer inner) : (store.struct? inner).Answered :=
    struct?_answered (validate_reaches h (.single (.part (by simp [hb, Ty.parts]))))
  unfold implicitConversion
  split
  case h_1 => exact (hPointee rfl).bind fun _ _ => .ok
  case h_2 => exact (hPointee rfl).bind fun _ _ => .ok
  all_goals exact .ok

theorem assign_answered (ha : store.validate a = .ok ()) (hb : store.validate b = .ok ())
    (hFuncA : store.NoFunc a) (hFuncB : store.NoFunc b) : (store.assign a b).Answered := by
  obtain ⟨dest, hDest, hReachesA, hValidA⟩ := peel_of_validate ha
  obtain ⟨src, hSrc, hReachesB, hValidB⟩ := peel_of_validate hb
  rw [assign, hDest, hSrc]
  apply (checkConvertible_answered _).bind
  intro _ _
  split
  · exact .error id
  · have hEqual := equal_validated hValidA hValidB (hFuncA.reaches hReachesA)
      (hFuncB.reaches hReachesB)
    apply hEqual.2.bind
    intro same _
    split
    · exact .ok
    · exact implicitConversion_answered hValidB

theorem cast_answered (ha : store.validate a = .ok ()) (hb : store.validate b = .ok ())
    (hFuncA : store.NoFunc a) (hFuncB : store.NoFunc b) : (store.cast a b).Answered := by
  obtain ⟨dest, hDest, hReachesA, hValidA⟩ := peel_of_validate ha
  obtain ⟨src, hSrc, hReachesB, hValidB⟩ := peel_of_validate hb
  rw [cast, hDest, hSrc]
  apply (checkConvertible_answered _).bind
  intro _ _
  apply (checkConvertible_answered _).bind
  intro _ _
  apply (assign_answered hValidA hValidB (hFuncA.reaches hReachesA) (hFuncB.reaches hReachesB)).bind
  intro conversion _
  split
  · exact .ok
  · split <;> exact .ok

/-- In whatever way the handles of a store are bound, a validated type unfolds in boundedly many
steps into types that were validated too, and its shape can be asked for. If no function comes
up on the way it can be compared and converted: going down further than validation did makes no
difference. A type in whose unfolding something comes up again below itself is not accepted. -/
theorem validated_types_unfold (store : TypeStore) : (∀ type, store.validate type = .ok () →
      (∀ part, store.Reaches type part →
        store.validate part = .ok () ∧ ∃ shape, store.resolve part = .ok shape) ∧
      Acc (fun part whole => store.Unfolds whole part) type ∧
      (∀ path, (type :: path).IsChain store.Unfolds → path.length < maxHops + maxHops * maxHops) ∧
      ∀ {α : Type} (inspector : Inspector α), (inspector.ask store type).Answered) ∧
    (∀ a b, store.validate a = .ok () → store.validate b = .ok () → store.NoFunc a →
      store.NoFunc b →
      (∀ levels, maxHops < levels → store.equalWithin levels a b = store.equal a b) ∧
      (store.equal a b).Answered ∧ (store.assign a b).Answered ∧ (store.cast a b).Answered) ∧
    ∀ type part, store.Reaches type part → TransGen store.Unfolds part part →
      ∃ cause, store.validate type = .error cause := by
  refine ⟨fun type h => ?_, fun a b ha hb hFuncA hFuncB => ?_, fun type part hReaches hCycle => ?_⟩
  · have hRoom : store.Room (maxHops + maxHops * maxHops) type := .of_validateWithin h
    refine ⟨fun part hReaches => ?_, hRoom.acc, fun path => hRoom.length_lt, fun inspector =>
      ask_answered inspector h⟩
    have hPart := validate_reaches h hReaches
    exact ⟨hPart, resolve_of_validateWithin hPart⟩
  · have hEqual := equal_validated ha hb hFuncA hFuncB
    refine ⟨fun levels hLevels => ?_, hEqual.2, assign_answered ha hb hFuncA hFuncB,
      cast_answered ha hb hFuncA hFuncB⟩
    rw [hEqual.1]
    exact (equalWithin_validated hLevels ha hb hFuncA hFuncB).1
  · cases hValid : store.validate type with
    | error cause => exact ⟨cause, rfl⟩
    | ok done =>
        have hRoom : store.Room (maxHops + maxHops * maxHops) part :=
          .of_validateWithin (validate_reaches hValid hReaches)
        exact absurd hCycle hRoom.not_cyclic

/-- A store with one handle, bound to a slice, and one that is bound to a pointer to itself. -/
def twoHandles : TypeStore :=
  (TypeStore.empty.setTarget ⟨0, "Row"⟩ (.slice (.prim .int))).setTarget ⟨1, "Ring"⟩
    (.pointer (.forward ⟨1, "Ring"⟩))

theorem twoHandles_noFunc_row : twoHandles.NoFunc (.forward ⟨0, "Row"⟩) ∧
    twoHandles.NoFunc (.slice (.prim .int)) := by
  have hInt : twoHandles.NoFunc (.prim .int) := by
    apply NoFunc.of_unfolds (by simp)
    intro part hStep
    cases hStep with
    | part hPart => cases hPart
  have hSlice : twoHandles.NoFunc (.slice (.prim .int)) := by
    apply NoFunc.of_unfolds (by simp)
    intro part hStep
    cases hStep with
    | part hPart => exact List.mem_singleton.mp hPart ▸ hInt
  refine ⟨NoFunc.of_unfolds (by simp) fun part hStep => ?_, hSlice⟩
  cases hStep with
  | part hPart => cases hPart
  | bound hTarget => exact Option.some.inj hTarget ▸ hSlice

/-- A map to rows is validated, so it unfolds, and rows are compared; a ring is not validated. -/
theorem validated_types_unfold_rows :
    twoHandles.validate (.map (.prim .string) (.pointer (.forward ⟨0, "Row"⟩))) = .ok () ∧
    (∀ path, (Ty.map (.prim .string) (.pointer (.forward ⟨0, "Row"⟩)) :: path).IsChain
      twoHandles.Unfolds → path.length < maxHops + maxHops * maxHops) ∧
    (twoHandles.equal (.forward ⟨0, "Row"⟩) (.slice (.prim .int))).Answered ∧
    ∃ cause, twoHandles.validate (.slice (.forward ⟨1, "Ring"⟩)) = .error cause := by
  have hMap : twoHandles.validate (.map (.prim .string) (.pointer (.forward ⟨0, "Row"⟩))) =
    .ok () := rfl
  have hRing : twoHandles.Unfolds (.forward ⟨1, "Ring"⟩) (.pointer (.forward ⟨1, "Ring"⟩)) :=
    .bound rfl
  have hPointer : twoHandles.Unfolds (.pointer (.forward ⟨1, "Ring"⟩)) (.forward ⟨1, "Ring"⟩) :=
    .part List.mem_cons_self
  obtain ⟨hUnfold, hCompare, hCyclic⟩ := validated_types_unfold twoHandles
  have hEqual := hCompare _ _ rfl rfl twoHandles_noFunc_row.1 twoHandles_noFunc_row.2
  exact ⟨hMap, (hUnfold _ hMap).2.2.1, hEqual.2.1,
    hCyclic _ _ (.single (.part List.mem_cons_self)) (.tail (.single hRing) hPointer)⟩

end TypeStore

end GoToC
