import GoToC.Proofs.Types.Settled

/-!
# Comparison and conversion in settled stores

A comparison goes down both types at once and ends where either one ends. A plain type
ends after as many levels as it has nodes and, below its handles, as many more as
validation goes down, so the levels that are counted out always suffice. The conversions
then find nothing amiss except a source that is the type of types.
-/

namespace GoToC.TypeStore

variable {k : Known} {store : TypeStore}

/-- A type ends within so many levels when its parts are compared. -/
def Shallow (store : TypeStore) : Nat → Ty → Prop
  | 0, _ => False
  | levels + 1, type =>
      match store.peel type with
      | .ok (.pointer inner) => store.Shallow levels inner
      | .ok (.slice elem) => store.Shallow levels elem
      | .ok (.map key value) => store.Shallow levels key ∧ store.Shallow levels value
      | .ok (.func func) =>
          (∀ input ∈ func.inputs, store.Shallow levels input.type) ∧
            ∀ output ∈ func.outputs, store.Shallow levels output.type
      | _ => True

theorem Shallow.mono {levels more : Nat} {type : Ty} (h : store.Shallow levels type)
    (le : levels ≤ more) : store.Shallow more type := by
  induction levels generalizing more type with
  | zero => exact absurd h (by simp [Shallow])
  | succ levels ih =>
      obtain ⟨more, rfl⟩ : ∃ m, more = m + 1 := ⟨more - 1, by omega⟩
      have le' : levels ≤ more := by omega
      rw [Shallow] at h ⊢
      split at h
      · exact ih h le'
      · exact ih h le'
      · exact ⟨ih h.1 le', ih h.2 le'⟩
      · exact ⟨fun m hm => ih (h.1 m hm) le', fun m hm => ih (h.2 m hm) le'⟩
      · trivial

/-- A type that has the shape of a shallow type, if it has one, is as shallow. -/
theorem Shallow.of_peel {levels : Nat} {a b : Ty} (h : store.Shallow levels b)
    (hPeel : ∀ shape, store.peel a = .ok shape → store.peel b = .ok shape) :
    store.Shallow levels a := by
  cases levels with
  | zero => exact h
  | succ levels =>
      rw [Shallow] at h ⊢
      cases hShape : store.peel a with
      | error fault => trivial
      | ok shape =>
          rw [hPeel shape hShape] at h
          exact h

theorem resolve_of_peel {type shape : Ty} (h : store.peel type = .ok shape) :
    store.resolve type = .ok shape := by
  unfold peel at h
  split at h
  · next found hResolve =>
      cases h
      exact hResolve
  · cases h

theorem Settled.peel_ok_plain (settled : store.Settled k) {type shape : Ty} (h : type.Plain k)
    (hPeel : store.peel type = .ok shape) : shape.Plain k := by
  have hAnswers := settled.peel_plain h
  rw [hPeel] at hAnswers
  exact hAnswers.1

/-- A plain type that was validated is as shallow as validation goes down. -/
theorem Settled.shallow_of_validateWithin (settled : store.Settled k) {levels : Nat} {type : Ty}
    (h : type.Plain k) (hValid : store.validateWithin levels type = .ok ()) :
    store.Shallow levels type := by
  induction levels generalizing type with
  | zero => simp [validateWithin] at hValid
  | succ levels ih =>
      rw [Shallow]
      cases hPeel : store.peel type with
      | error fault => trivial
      | ok shape =>
          have hPlain := settled.peel_ok_plain h hPeel
          rw [validateWithin, resolve_of_peel hPeel] at hValid
          cases shape with
          | pointer inner =>
              rw [Ty.Plain] at hPlain
              exact ih hPlain hValid
          | slice elem =>
              rw [Ty.Plain] at hPlain
              exact ih hPlain hValid
          | map key value =>
              rw [Ty.Plain] at hPlain
              change (store.validateWithin levels key >>= fun _ =>
                store.validateWithin levels value) = .ok () at hValid
              cases hKey : store.validateWithin levels key with
              | error cause =>
                  rw [hKey] at hValid
                  cases hValid
              | ok _ =>
                  rw [hKey] at hValid
                  exact ⟨ih hPlain.1 hKey, ih hPlain.2 hValid⟩
          | func func => exact absurd hPlain Ty.Plain.not_func
          | _ => trivial

/-- The levels below a handle are those of the type that it is bound to. -/
theorem Settled.shallow_forward (settled : store.Settled k) {handle : Handle}
    (h : k.handle handle.id) : store.Shallow (maxHops + 1) (.forward handle) := by
  obtain ⟨target, hTarget, hPlain, hValid⟩ := settled.bound handle h
  refine (settled.shallow_of_validateWithin hPlain hValid).of_peel fun shape hShape => ?_
  have hFollow : store.follow (.forward handle) maxHops (.forward handle) = .ok shape :=
    resolve_of_peel hShape
  rw [maxHops, follow, hTarget] at hFollow
  have hResolve : store.resolve target = .ok shape := follow_mono (by decide) hFollow
  rw [peel, hResolve]

theorem Settled.shallow_plain (settled : store.Settled k) :
    (type : Ty) → type.Plain k → store.Shallow (type.size + maxHops + 1) type
  | .pointer inner, h => by
      rw [Ty.Plain] at h
      rw [Ty.size, Shallow, peel_eq_self (by simp)]
      exact (settled.shallow_plain inner h).mono (by omega)
  | .slice elem, h => by
      rw [Ty.Plain] at h
      rw [Ty.size, Shallow, peel_eq_self (by simp)]
      exact (settled.shallow_plain elem h).mono (by omega)
  | .map key value, h => by
      rw [Ty.Plain] at h
      rw [Ty.size, Shallow, peel_eq_self (by simp)]
      exact ⟨(settled.shallow_plain key h.1).mono (by omega),
        (settled.shallow_plain value h.2).mono (by omega)⟩
  | .forward handle, h => by
      rw [Ty.Plain] at h
      exact (settled.shallow_forward h).mono (by omega)
  | .func _, h => absurd h Ty.Plain.not_func
  | .multi _, h => absurd h Ty.Plain.not_multi
  | .prim _, _ => by simp [Shallow, peel_eq_self]
  | .struct _, _ => by simp [Shallow, peel_eq_self]
  | .interface _, _ => by simp [Shallow, peel_eq_self]
  | .universal, _ => by simp [Shallow, peel_eq_self]

theorem size_le_sizeAll {members : List (Member Ty)} {member : Member Ty} (h : member ∈ members) :
    member.type.size ≤ Ty.sizeAll members := by
  induction members with
  | nil => cases h
  | cons first rest ih =>
      rw [Ty.sizeAll]
      rcases List.mem_cons.mp h with rfl | h
      · omega
      · have := ih h
        omega

theorem Settled.shallow_usable (settled : store.Settled k) {type : Ty} (h : type.Usable k) :
    store.Shallow (type.size + maxHops + 1) type := by
  rcases h with h | ⟨h, -⟩
  · exact settled.shallow_plain type h
  · obtain ⟨⟨inputs, outputs, variadic, isMethod, number⟩, rfl⟩ := h.exists_func
    rw [Ty.PlainFunc, Ty.plainAll_iff, Ty.plainAll_iff] at h
    rw [Ty.size, Shallow, peel_func]
    refine ⟨fun m hm => ?_, fun m hm => ?_⟩
    · have hSize : m.type.size ≤ Ty.sizeAll inputs := size_le_sizeAll hm
      exact (settled.shallow_plain _ (h.1 m hm).2).mono (by omega)
    · have hSize : m.type.size ≤ Ty.sizeAll outputs := size_le_sizeAll hm
      exact (settled.shallow_plain _ (h.2.1 m hm).2).mono (by omega)

/-! ## Equality -/

/-- A comparison is answered, unless it runs out of levels on types that are not shallow. -/
def Ends (store : TypeStore) (answer : Faulty Bool) (shallow : Prop) : Prop :=
  (answer = .error .endless ∧ ¬ shallow) ∨ store.Answers answer fun _ => True

theorem Ends.of_imp {answer : Faulty Bool} {p q : Prop} (h : store.Ends answer p) (imp : q → p) :
    store.Ends answer q := by
  rcases h with ⟨hEndless, hp⟩ | h
  · exact .inl ⟨hEndless, fun hq => hp (imp hq)⟩
  · exact .inr h

theorem Ends.ite {answer : Faulty Bool} {rest : Faulty Bool} {p : Prop} (h : store.Ends answer p)
    (hRest : store.Ends rest p) : store.Ends (do if ← answer then rest else return false) p := by
  rcases h with ⟨rfl, hp⟩ | h
  · exact .inl ⟨rfl, hp⟩
  · cases answer with
    | error fault => exact .inr h
    | ok same =>
        cases same with
        | true => exact hRest
        | false => exact .inr trivial

theorem ends_agree {equal : Ty → Ty → Faulty Bool} (shallow : Ty → Prop) {as bs : List (Member Ty)}
    (h : ∀ a ∈ as, ∀ b ∈ bs, store.Ends (equal a.type b.type) (shallow a.type ∨ shallow b.type)) :
    store.Ends (agree equal as bs) ((∀ a ∈ as, shallow a.type) ∨ ∀ b ∈ bs, shallow b.type) := by
  induction as generalizing bs with
  | nil => cases bs <;> exact .inr trivial
  | cons a as ih =>
      cases bs with
      | nil => exact .inr trivial
      | cons b bs =>
          have hFirst := h a List.mem_cons_self b List.mem_cons_self
          have hRest := ih fun x hx y hy =>
            h x (List.mem_cons_of_mem a hx) y (List.mem_cons_of_mem b hy)
          refine Ends.ite (hFirst.of_imp ?_) (hRest.of_imp ?_)
          · exact Or.imp (fun all => all a List.mem_cons_self) fun all => all b List.mem_cons_self
          · exact Or.imp (fun all x hx => all x (List.mem_cons_of_mem a hx))
              fun all x hx => all x (List.mem_cons_of_mem b hx)

theorem ends_sameTypes {equal : Ty → Ty → Faulty Bool} (shallow : Ty → Prop)
    {as bs : List (Member Ty)}
    (h : ∀ a ∈ as, ∀ b ∈ bs, store.Ends (equal a.type b.type) (shallow a.type ∨ shallow b.type)) :
    store.Ends (sameTypes equal as bs) ((∀ a ∈ as, shallow a.type) ∨ ∀ b ∈ bs, shallow b.type) := by
  unfold sameTypes
  split
  · exact ends_agree shallow h
  · exact .inr trivial

theorem Settled.equalWithin_ends (settled : store.Settled k) (levels : Nat) {a b : Ty}
    (ha : a.Usable k) (hb : b.Usable k) :
    store.Ends (store.equalWithin levels a b)
      (store.Shallow levels a ∨ store.Shallow levels b) := by
  induction levels generalizing a b with
  | zero => exact .inl ⟨rfl, by simp [Shallow]⟩
  | succ levels ih =>
      have hShapeA := settled.peel_usable ha
      have hShapeB := settled.peel_usable hb
      rw [equalWithin, Shallow, Shallow]
      cases hPeelA : store.peel a with
      | error fault =>
          rw [hPeelA] at hShapeA
          exact .inr hShapeA
      | ok shapeA =>
          cases hPeelB : store.peel b with
          | error fault =>
              rw [hPeelB] at hShapeB
              exact .inr hShapeB
          | ok shapeB =>
              rw [hPeelA] at hShapeA
              rw [hPeelB] at hShapeB
              have hUsableA := hShapeA.usable
              have hUsableB := hShapeB.usable
              simp only [Bind.bind, Except.bind]
              split
              · exact absurd hUsableA Ty.Usable.not_multi
              · exact absurd hUsableB Ty.Usable.not_multi
              · exact .inr trivial
              · rw [Ty.usable_pointer] at hUsableA hUsableB
                exact ih hUsableA.usable hUsableB.usable
              · rw [Ty.usable_slice] at hUsableA hUsableB
                exact ih hUsableA.usable hUsableB.usable
              · rw [Ty.usable_map] at hUsableA hUsableB
                refine Ends.ite ((ih hUsableA.1.usable hUsableB.1.usable).of_imp ?_)
                  ((ih hUsableA.2.usable hUsableB.2.usable).of_imp ?_)
                · exact Or.imp And.left And.left
                · exact Or.imp And.right And.right
              · exact .inr trivial
              · exact .inr trivial
              · exact .inr trivial
              · have hFuncA := hUsableA.of_func.1
                have hFuncB := hUsableB.of_func.1
                rw [Ty.PlainFunc, Ty.plainAll_iff, Ty.plainAll_iff] at hFuncA hFuncB
                split
                · exact .inr trivial
                · have hInputs := ends_sameTypes (store.Shallow levels) fun x hx y hy =>
                    ih (hFuncA.1 x hx).2.usable (hFuncB.1 y hy).2.usable
                  have hOutputs := ends_sameTypes (store.Shallow levels) fun x hx y hy =>
                    ih (hFuncA.2.1 x hx).2.usable (hFuncB.2.1 y hy).2.usable
                  exact Ends.ite (hInputs.of_imp (Or.imp And.left And.left))
                    (hOutputs.of_imp (Or.imp And.right And.right))
              · exact .inr trivial

/-- Two usable types of a settled store can be compared. -/
theorem Settled.equal_usable (settled : store.Settled k) {a b : Ty} (ha : a.Usable k)
    (hb : b.Usable k) : store.Answers (store.equal a b) fun _ => True := by
  have hShallowA := settled.shallow_usable ha
  have hShallowB := settled.shallow_usable hb
  have hUsual := settled.equalWithin_ends usualDepth ha hb
  unfold equal
  rcases hUsual with ⟨hEndless, hDeep⟩ | hAnswer
  · -- Neither type ends within the usual depth, so both have many nodes.
    have hSizeA : usualDepth < a.size + maxHops + 1 :=
      Nat.lt_of_not_le fun le => hDeep (.inl (hShallowA.mono le))
    have hSizeB : usualDepth < b.size + maxHops + 1 :=
      Nat.lt_of_not_le fun le => hDeep (.inr (hShallowB.mono le))
    have hDepth : a.size + maxHops + 1 ≤ store.comparisonDepth a b := by
      unfold comparisonDepth usualDepth maxHops at *
      calc a.size + 16 + 1 ≤ (store.weight + a.size + 1) * 17 := by omega
        _ ≤ (store.weight + a.size + 1) * (store.weight + b.size + 1) :=
          Nat.mul_le_mul_left _ (by omega)
    rw [hEndless]
    exact (settled.equalWithin_ends _ ha hb).resolve_left fun h =>
      h.2 (.inl (hShallowA.mono hDepth))
  · split
    · next hEndless =>
        rw [hEndless] at hAnswer
        obtain ⟨⟨name, hName⟩, -⟩ := hAnswer
        cases hName
    · exact hAnswer

/-- A comparison is one that goes down some number of levels. -/
theorem exists_equalWithin (store : TypeStore) (a b : Ty) :
    ∃ levels, store.equal a b = store.equalWithin levels a b := by
  unfold equal
  split
  · exact ⟨_, rfl⟩
  · exact ⟨_, rfl⟩

/-! ## Conversions -/

/-- A shape that may be on either side of a conversion. -/
def Convertible : Ty → Prop
  | .prim .type | .func _ | .multi _ => False
  | _ => True

theorem checkConvertible_ok {side : ConversionSide} {shape : Ty} (h : Convertible shape) :
    checkConvertible side shape = .ok () := by
  unfold checkConvertible
  split
  · exact absurd h (by simp [Convertible])
  · exact absurd h (by simp [Convertible])
  · exact absurd h (by simp [Convertible])
  · rfl

theorem Settled.implicitConversion_usable (settled : store.Settled k) {dest src : Ty}
    (hSrc : src.Usable k) : store.Answers (store.implicitConversion dest src) fun _ => True := by
  unfold implicitConversion
  split
  case h_1 =>
    rw [Ty.usable_pointer] at hSrc
    exact (settled.struct?_usable hSrc.usable).bind fun _ _ => trivial
  case h_2 =>
    rw [Ty.usable_pointer] at hSrc
    exact (settled.struct?_usable hSrc.usable).bind fun _ _ => trivial
  all_goals trivial

/-- A value can be assigned to a place whose shape is convertible, or it is found that it
cannot. -/
theorem Settled.assign_usable (settled : store.Settled k) {dest src shape : Ty}
    (hDest : dest.Usable k) (hSrc : src.Usable k) (hPeel : store.peel dest = .ok shape)
    (hShape : Convertible shape) : store.Answers (store.assign dest src) fun _ => True := by
  have hUsable := settled.peel_usable hDest
  rw [hPeel] at hUsable
  unfold assign
  rw [hPeel]
  refine (settled.peel_usable hSrc).bind fun found hFound => ?_
  have hChecked : store.Answers (checkConvertible .assignTo shape) fun _ => True := by
    rw [checkConvertible_ok hShape]
    trivial
  refine hChecked.bind fun _ _ => ?_
  split
  · exact absurd hFound.usable Ty.Usable.not_multi
  · refine (settled.equal_usable hUsable.usable hFound.usable).bind fun same _ => ?_
    split
    · trivial
    · exact settled.implicitConversion_usable hFound.usable

/-- A conversion on request is answered, unless the source is the type of types. -/
theorem Settled.cast_usable (settled : store.Settled k) {dest src shape : Ty}
    (hDest : dest.Usable k) (hSrc : src.Usable k) (hPeel : store.peel dest = .ok shape)
    (hShape : Convertible shape) (hFunc : ∀ func, src ≠ .func func) :
    store.Answers (store.cast dest src) (fun _ => True) ∨
      store.cast dest src = .error (.notConvertible .castFrom Prim.type.name) ∧ k.metatype := by
  have hUsable := settled.peel_usable hDest
  have hSource := settled.peel_usable hSrc
  rw [hPeel] at hUsable
  unfold cast
  rw [hPeel]
  cases hFound : store.peel src with
  | error fault =>
      rw [hFound] at hSource
      exact .inl hSource
  | ok found =>
      rw [hFound] at hSource
      simp only [Bind.bind, Except.bind, checkConvertible_ok hShape]
      by_cases hMeta : found = .prim .type
      · subst hMeta
        refine .inr ⟨rfl, ?_⟩
        have hPlain := hSource.plain (by simp)
        rw [Ty.Plain] at hPlain
        exact hPlain rfl
      · have hConvertible : Convertible found := by
          unfold Convertible
          split
          · exact hMeta rfl
          · exact hFunc _ (hSource.func _ rfl)
          · exact Ty.Usable.not_multi hSource.usable
          · trivial
        rw [checkConvertible_ok hConvertible]
        left
        have hAssign := settled.assign_usable hUsable.usable hSource.usable (peel_peel hPeel) hShape
        refine hAssign.bind fun conversion _ => ?_
        split
        · trivial
        · split
          · trivial
          · trivial

end GoToC.TypeStore
