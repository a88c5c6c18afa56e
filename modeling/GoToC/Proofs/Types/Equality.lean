import GoToC.Proofs.Types.Depth

/-!
# Equality of types

On types that resolve all the way down and hold no list of results, equality is an equivalence
relation. It does not see handles: in place of a handle, at whatever depth, may stand what the
handle is bound to. Functions are compared by their inputs and outputs and by whether they are
variadic, and by nothing else that they have.
-/

namespace GoToC.TypeStore

open Relation

variable {store : TypeStore} {allowed : Ty.Head → Prop} {a b c type part shape : Ty}

/-- A type whose handles, as far down as types are compared, all resolve, and which has an end. -/
abbrev Resolvable (store : TypeStore) (type : Ty) : Prop := store.Resolves (fun _ => True) type

/-- A resolvable type in which no list of results comes up. -/
abbrev Comparable (store : TypeStore) (type : Ty) : Prop := store.Resolves (· ≠ .multi) type

theorem Resolves.resolvable (h : store.Resolves allowed type) : store.Resolvable type := by
  induction h with
  | of_shape hShape _ _ ih => exact .of_shape hShape trivial ih

/-! ## Types that get the same answers -/

/-- A relation between types whose shapes are by themselves the same and are made of related
types. -/
def Preserved (store : TypeStore) (related : Ty → Ty → Prop) : Prop :=
  ∀ ⦃a b shapeA shapeB⦄, related a b → store.peel a = .ok shapeA → store.peel b = .ok shapeB →
    shapeA.Matches related shapeB

theorem preserved_eq : store.Preserved Eq := by
  rintro a _ shapeA shapeB rfl hA hB
  obtain rfl := Except.ok.inj (hA.symm.trans hB)
  exact .refl fun _ _ => rfl

/-- Comparisons of related types have the same answers. -/
theorem Preserved.equal {left right : Ty → Ty → Prop} (hLeft : store.Preserved left)
    (hRight : store.Preserved right) {a' b' : Ty} (ha : store.Resolvable a)
    (ha' : store.Resolvable a') (hb : store.Resolvable b) (hb' : store.Resolvable b')
    (hA : left a a') (hB : right b b') : store.equal a b = store.equal a' b' := by
  induction ha generalizing a' b b' with
  | @of_shape a shapeA hShapeA _ hParts ih =>
      have hPeelA : store.peel a = .ok shapeA := by rw [peel, hShapeA]
      obtain ⟨shapeA', hPeelA', -, hParts'⟩ := ha'.peel
      obtain ⟨shapeB, hPeelB, -, hPartsB⟩ := hb.peel
      obtain ⟨shapeB', hPeelB', -, hPartsB'⟩ := hb'.peel
      rw [Resolves.equal_shapes (.of_shape hShapeA trivial hParts) hPeelA hPeelB,
        ha'.equal_shapes hPeelA' hPeelB']
      have hShapesA : shapeA.Matches (fun x x' => (x ∈ shapeA.components ∧
          x' ∈ shapeA'.components) ∧ left x x') shapeA' :=
        (hLeft hA hPeelA hPeelA').imp fun x hx x' hx' h => ⟨⟨hx, hx'⟩, h⟩
      have hShapesB : shapeB.Matches (fun y y' => (y ∈ shapeB.components ∧
          y' ∈ shapeB'.components) ∧ right y y') shapeB' :=
        (hRight hB hPeelB hPeelB').imp fun y hy y' hy' h => ⟨⟨hy, hy'⟩, h⟩
      refine sameShape_congr ?_ hShapesA hShapesB
      intro x x' y y' hX hY
      exact ih x hX.1.1 (hParts' x' hX.1.2) (hPartsB y hY.1.1) (hPartsB' y' hY.1.2) hX.2 hY.2

/-! ## Equal types -/

/-- Types that can be compared, and are found equal. -/
structure Equals (store : TypeStore) (a b : Ty) : Prop where
  left : store.Resolvable a
  right : store.Resolvable b
  equal : store.equal a b = .ok true

/-- Equal types have shapes that match. -/
theorem preserved_equals : store.Preserved store.Equals := by
  rintro a b shapeA shapeB ⟨ha, hb, hEqual⟩ hA hB
  rw [ha.equal_shapes hA hB, sameShape_eq_true] at hEqual
  obtain ⟨found, hFound, -, hPartsA⟩ := ha.peel
  obtain rfl := Except.ok.inj (hA.symm.trans hFound)
  obtain ⟨found, hFound, -, hPartsB⟩ := hb.peel
  obtain rfl := Except.ok.inj (hB.symm.trans hFound)
  exact hEqual.2.imp fun x hx y hy h => ⟨hPartsA x hx, hPartsB y hy, h⟩

theorem equal_self (h : store.Comparable a) : store.equal a a = .ok true := by
  induction h with
  | @of_shape a shape hShape hHead hParts ih =>
      have hPeel : store.peel a = .ok shape := by rw [peel, hShape]
      rw [Resolves.equal_shapes (.of_shape hShape hHead hParts) hPeel hPeel, sameShape_eq_true]
      exact ⟨hHead, .refl ih⟩

/-- Types in which no list of results comes up are found equal or not. -/
theorem exists_equal (ha : store.Comparable a) (hb : store.Comparable b) :
    ∃ same, store.equal a b = .ok same := by
  induction ha generalizing b with
  | @of_shape a shapeA hShape hHead hParts ih =>
      have hPeel : store.peel a = .ok shapeA := by rw [peel, hShape]
      obtain ⟨shapeB, hPeelB, hHeadB, hPartsB⟩ := hb.peel
      rw [Resolves.equal_shapes (.of_shape hShape hHead hParts) hPeel hPeelB]
      cases hSame : sameShape store.equal shapeA shapeB with
      | ok same => exact ⟨same, rfl⟩
      | error fault =>
          rcases sameShape_error hSame with ⟨hMulti, -⟩ | ⟨x, hx, y, hy, hFault⟩
          · exact absurd hMulti (not_or.mpr ⟨hHead, hHeadB⟩)
          · obtain ⟨same, hAnswer⟩ := ih x hx (hPartsB y hy)
            rw [hAnswer] at hFault
            cases hFault

/-- Equal types compare alike with every other one. -/
theorem Equals.congr (h : store.Equals a b) (hc : store.Resolvable c) :
    store.equal a c = store.equal b c :=
  preserved_equals.equal preserved_eq h.left h.right hc hc h rfl

theorem Equals.symm (h : store.Equals a b) (ha : store.Comparable a) : store.Equals b a :=
  ⟨h.right, h.left, (h.congr h.left).symm.trans (equal_self ha)⟩

theorem equal_comm (ha : store.Comparable a) (hb : store.Comparable b) :
    store.equal a b = store.equal b a := by
  obtain ⟨same, hSame⟩ := exists_equal ha hb
  obtain ⟨same', hSame'⟩ := exists_equal hb ha
  have hForth (h : store.equal a b = .ok true) : store.equal b a = .ok true :=
    (Equals.symm ⟨ha.resolvable, hb.resolvable, h⟩ ha).equal
  have hBack (h : store.equal b a = .ok true) : store.equal a b = .ok true :=
    (Equals.symm ⟨hb.resolvable, ha.resolvable, h⟩ hb).equal
  rw [hSame, hSame'] at *
  cases same <;> cases same' <;> simp_all

/-! ## Handles and what they are bound to -/

/-- Somewhere in the first type stands a handle, in the second one what it is bound to. -/
inductive Rebinds (store : TypeStore) : Ty → Ty → Prop
  | bound {handle target} : store.target? handle = some target →
      Rebinds store (.forward handle) target
  | pointer {a b : Ty} : Rebinds store a b → Rebinds store (.pointer a) (.pointer b)
  | slice {a b : Ty} : Rebinds store a b → Rebinds store (.slice a) (.slice b)
  | key {a b value} : Rebinds store a b → Rebinds store (.map a value) (.map b value)
  | value {key a b} : Rebinds store a b → Rebinds store (.map key a) (.map key b)
  | field {id package name member before after a b} :
      Rebinds store a b → Rebinds store (.struct
        ⟨id, package, name, before ++ ⟨member, a⟩ :: after⟩)
        (.struct ⟨id, package, name, before ++ ⟨member, b⟩ :: after⟩)
  | method {package name member before after a b} :
      Rebinds store a b → Rebinds store (.interface ⟨package, name, before ++ ⟨member, a⟩ :: after⟩)
        (.interface ⟨package, name, before ++ ⟨member, b⟩ :: after⟩)
  | input {outputs before after variadic isMethod number member a b} : Rebinds store a b →
      Rebinds store (.func ⟨before ++ ⟨member, a⟩ :: after, outputs, variadic, isMethod, number⟩)
        (.func ⟨before ++ ⟨member, b⟩ :: after, outputs, variadic, isMethod, number⟩)
  | output {inputs before after variadic isMethod number member a b} : Rebinds store a b →
      Rebinds store (.func ⟨inputs, before ++ ⟨member, a⟩ :: after, variadic, isMethod, number⟩)
        (.func ⟨inputs, before ++ ⟨member, b⟩ :: after, variadic, isMethod, number⟩)
  | member {before after member a b} : Rebinds store a b →
      Rebinds store (.multi (before ++ ⟨member, a⟩ :: after))
        (.multi (before ++ ⟨member, b⟩ :: after))

namespace Rebinds

/-- Members of which one is replaced. -/
theorem forall₂_members {before after : List (Member Ty)} {member : String}
    (h : store.Rebinds a b) : List.Forall₂ (fun x y => ReflGen store.Rebinds x.type y.type)
      (before ++ ⟨member, a⟩ :: after) (before ++ ⟨member, b⟩ :: after) := by
  have hSame (members : List (Member Ty)) :
      List.Forall₂ (fun x y => ReflGen store.Rebinds x.type y.type) members members :=
    List.forall₂_same.mpr fun _ _ => .refl
  exact List.rel_append (hSame before) (.cons (.single h) (hSame after))

/-- A handle is replaced by what it is bound to, or something below by what that becomes. -/
theorem cases_handle (h : store.Rebinds a b) :
    (∃ handle, a = .forward handle ∧ store.target? handle = some b) ∨
      (∀ handle, a ≠ .forward handle) ∧ (∀ handle, b ≠ .forward handle) ∧
        a.Matches (ReflGen store.Rebinds) b := by
  have hSame (members : List (Member Ty)) :
      List.Forall₂ (fun x y => ReflGen store.Rebinds x.type y.type) members members :=
    List.forall₂_same.mpr fun _ _ => .refl
  cases h with
  | bound hTarget => exact .inl ⟨_, rfl, hTarget⟩
  | pointer h => exact .inr ⟨nofun, nofun, rfl, .cons (.cons (.single h) .nil) .nil⟩
  | slice h => exact .inr ⟨nofun, nofun, rfl, .cons (.cons (.single h) .nil) .nil⟩
  | key h => exact .inr ⟨nofun, nofun, rfl, .cons (.cons (.single h) .nil) (.cons (hSame _) .nil)⟩
  | value h => exact .inr ⟨nofun, nofun, rfl, .cons (hSame _) (.cons (.cons (.single h) .nil) .nil)⟩
  | field h => exact .inr ⟨nofun, nofun, rfl, .nil⟩
  | method h => exact .inr ⟨nofun, nofun, rfl, .nil⟩
  | input h => exact .inr ⟨nofun, nofun, rfl, .cons h.forall₂_members (.cons (hSame _) .nil)⟩
  | output h => exact .inr ⟨nofun, nofun, rfl, .cons (hSame _) (.cons h.forall₂_members .nil)⟩
  | member h => exact .inr ⟨nofun, nofun, rfl, .nil⟩

/-- What a type becomes resolves as the type does. -/
theorem resolves (h : store.Rebinds a b) (ha : store.Resolves allowed a) :
    store.Resolves allowed b := by
  induction ha generalizing b with
  | @of_shape a shape hShape hAllowed hParts ih =>
      rcases h.cases_handle with ⟨handle, rfl, hTarget⟩ | ⟨hA, hB, hMatches⟩
      · exact .of_shape (resolve_target hTarget hShape) hAllowed hParts
      · obtain rfl := Except.ok.inj ((resolve_eq_self hA).symm.trans hShape)
        refine .of_shape (resolve_eq_self hB) (hMatches.head ▸ hAllowed) fun y hy => ?_
        obtain ⟨x, hx, hRebinds⟩ := hMatches.exists_left hy
        cases hRebinds with
        | refl => exact hParts _ hx
        | single hRebinds => exact ih x hx hRebinds

theorem preserved : store.Preserved (ReflGen store.Rebinds) := by
  intro a b shapeA shapeB h hA hB
  cases h with
  | refl =>
      obtain rfl := Except.ok.inj (hA.symm.trans hB)
      exact .refl fun _ _ => .refl
  | single h =>
      rcases h.cases_handle with ⟨handle, rfl, hTarget⟩ | ⟨hAForward, hBForward, hMatches⟩
      · have hSame := resolve_target hTarget (resolve_of_peel hA)
        obtain rfl := Except.ok.inj (hSame.symm.trans (resolve_of_peel hB))
        exact .refl fun _ _ => .refl
      · obtain rfl := Except.ok.inj ((peel_eq_self hAForward).symm.trans hA)
        obtain rfl := Except.ok.inj ((peel_eq_self hBForward).symm.trans hB)
        exact hMatches

theorem exists_peel (h : store.Rebinds a b) (hA : store.peel a = .ok shape) :
    ∃ shape, store.peel b = .ok shape := by
  rcases h.cases_handle with ⟨handle, rfl, hTarget⟩ | ⟨-, hForward, -⟩
  · exact ⟨shape, by rw [peel, resolve_target hTarget (resolve_of_peel hA)]⟩
  · exact ⟨b, peel_eq_self hForward⟩

end Rebinds

/-- A type with some of its handles, at whatever depth, replaced by what they are bound to. -/
abbrev Rebound (store : TypeStore) : Ty → Ty → Prop := ReflTransGen store.Rebinds

namespace Rebound

theorem resolves (h : store.Rebound a b) (ha : store.Resolves allowed a) :
    store.Resolves allowed b := by
  induction h with
  | refl => exact ha
  | tail _ hStep ih => exact hStep.resolves ih

theorem preserved : store.Preserved store.Rebound := by
  intro a b shapeA shapeB h hA hB
  induction h using ReflTransGen.head_induction_on generalizing shapeA with
  | refl =>
      obtain rfl := Except.ok.inj (hA.symm.trans hB)
      exact .refl fun _ _ => .refl
  | head hStep _ ih =>
      obtain ⟨shape, hShape⟩ := hStep.exists_peel hA
      have hFirst : shapeA.Matches store.Rebound shape :=
        (Rebinds.preserved (.single hStep) hA hShape).imp fun _ _ _ _ h => h.to_reflTransGen
      exact hFirst.trans (fun _ _ _ => ReflTransGen.trans) (ih hShape)

/-- A comparison does not tell a handle from what it is bound to, on either side. -/
theorem equal {a' b' : Ty} (hA : store.Rebound a a') (hB : store.Rebound b b')
    (ha : store.Resolvable a) (hb : store.Resolvable b) : store.equal a b = store.equal a' b' :=
  preserved.equal preserved ha (hA.resolves ha) hb (hB.resolves hb) hA hB

end Rebound

/-! ## Functions -/

theorem equal_func {f g : FuncType Ty} (hf : store.Resolvable (.func f)) :
    store.equal (.func f) (.func g) = .ok true ↔ f.variadic = g.variadic ∧
      List.Forall₂ (fun x y => store.equal x.type y.type = .ok true) f.inputs g.inputs ∧
      List.Forall₂ (fun x y => store.equal x.type y.type = .ok true) f.outputs g.outputs := by
  rw [hf.equal_shapes (peel_func f) (peel_func g), sameShape_eq_true]
  constructor
  · rintro ⟨-, hHead, hGroups⟩
    obtain ⟨hInputs, hRest⟩ := List.forall₂_cons.mp hGroups
    exact ⟨Ty.Head.func.inj hHead, hInputs, (List.forall₂_cons.mp hRest).1⟩
  · rintro ⟨hVariadic, hInputs, hOutputs⟩
    exact ⟨nofun, congrArg Ty.Head.func hVariadic, .cons hInputs (.cons hOutputs .nil)⟩

/-- Equality is an equivalence relation on types that resolve and hold no list of results. It is
the same with handles replaced by what they are bound to, and of two functions it asks just
whether both are variadic and whether their inputs and outputs are equal. -/
theorem equal_equivalence (store : TypeStore) :
    (∀ a, store.Comparable a → store.equal a a = .ok true) ∧
    (∀ a b, store.Comparable a → store.Comparable b →
      (∃ same, store.equal a b = .ok same) ∧ store.equal a b = store.equal b a) ∧
    (∀ a b c, store.Comparable a → store.Comparable b → store.Comparable c →
      store.equal a b = .ok true → store.equal b c = .ok true → store.equal a c = .ok true) ∧
    (∀ a a' b, store.Comparable a → store.Comparable b → store.Rebound a a' →
      store.Comparable a' ∧ store.equal a' b = store.equal a b ∧
        store.equal b a' = store.equal b a) ∧
    (∀ f g, store.Comparable (.func f) → store.Comparable (.func g) →
      (store.equal (.func f) (.func g) = .ok true ↔ f.variadic = g.variadic ∧
        List.Forall₂ (fun x y => store.equal x.type y.type = .ok true) f.inputs g.inputs ∧
        List.Forall₂ (fun x y => store.equal x.type y.type = .ok true) f.outputs g.outputs)) := by
  refine ⟨fun a ha => equal_self ha, fun a b ha hb => ⟨exists_equal ha hb, equal_comm ha hb⟩,
    fun a b c ha hb hc hAB hBC => ?_, fun a a' b ha hb hSteps => ?_, fun f g hf _ =>
      equal_func hf.resolvable⟩
  · have hEquals : store.Equals a b := ⟨ha.resolvable, hb.resolvable, hAB⟩
    exact (hEquals.congr hc.resolvable).trans hBC
  · refine ⟨hSteps.resolves ha, ?_, ?_⟩
    · exact (hSteps.equal .refl ha.resolvable hb.resolvable).symm
    · exact (Rebound.equal .refl hSteps hb.resolvable ha.resolvable).symm

theorem twoHandles_comparable_slice : twoHandles.Comparable (.slice (.prim .int)) := by
  refine .of_shape rfl nofun fun part hPart => ?_
  rw [List.mem_singleton.mp hPart]
  exact .of_shape rfl nofun nofun

/-- A function of rows takes a variable number of slices just as a function of slices does,
whatever its input is called; rows behind a pointer are slices behind a pointer. -/
theorem equal_equivalence_rows :
    twoHandles.equal (.pointer (.slice (.prim .int))) (.pointer (.forward ⟨0, "Row"⟩)) =
      twoHandles.equal (.pointer (.forward ⟨0, "Row"⟩)) (.pointer (.forward ⟨0, "Row"⟩)) ∧
    twoHandles.equal (.func ⟨[⟨"row", .forward ⟨0, "Row"⟩⟩], [], true, false, 1⟩)
      (.func ⟨[⟨"it", .slice (.prim .int)⟩], [], true, true, 2⟩) = .ok true := by
  have hSlice := twoHandles_comparable_slice
  have hRow : twoHandles.Comparable (.forward ⟨0, "Row"⟩) :=
    let ⟨hShape, hHead, hParts⟩ := hSlice
    .of_shape hShape hHead hParts
  have hPointer : twoHandles.Comparable (.pointer (.forward ⟨0, "Row"⟩)) :=
    .of_shape rfl nofun fun part hPart => List.mem_singleton.mp hPart ▸ hRow
  have hTaking {input : Ty} {name : String} {isMethod : Bool} {number : Nat}
      (h : twoHandles.Comparable input) :
      twoHandles.Comparable (.func ⟨[⟨name, input⟩], [], true, isMethod, number⟩) :=
    .of_shape rfl nofun fun part hPart => List.mem_singleton.mp hPart ▸ h
  obtain ⟨-, -, -, hHandles, hFunctions⟩ := equal_equivalence twoHandles
  refine ⟨(hHandles _ _ _ hPointer hPointer (.single (.pointer (.bound rfl)))).2.1, ?_⟩
  exact (hFunctions _ _ (hTaking hRow) (hTaking hSlice)).mpr ⟨rfl, .cons rfl .nil, .nil⟩

end GoToC.TypeStore
