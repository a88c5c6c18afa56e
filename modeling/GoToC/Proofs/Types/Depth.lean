import Mathlib.Data.List.Forall2
import Mathlib.Data.Set.Card
import GoToC.Proofs.Types.Unfolding

/-!
# How deep comparisons go

A comparison follows both types to their shapes, compares what shapes are by themselves and
then, group by group, what they are made of. On a type that resolves all the way down this ends:
no type comes up again below itself, so a way down is no longer than there are types to come up,
and the levels that are counted out for a comparison suffice. The comparison of two such types
is therefore the comparison of their shapes by itself, with no levels to count.
-/

namespace GoToC

variable {α β : Type} {as bs as' bs' : List (Member Ty)} {fault : Fault} {related : α → β → Prop}
  {shapeA shapeB : Ty}

open Relation

namespace Ty

/-- What a shape is by itself: of which kind, and under which name if it has one. -/
inductive Head where
  | prim (p : Prim)
  | pointer
  | slice
  | map
  | struct (package name : String)
  | interface (package name : String)
  | universal
  | func (variadic : Bool)
  | multi
  | forward
  deriving DecidableEq

def head : Ty → Head
  | .prim p => .prim p
  | .pointer _ => .pointer
  | .slice _ => .slice
  | .map _ _ => .map
  | .struct record => .struct record.package record.name
  | .interface record => .interface record.package record.name
  | .universal => .universal
  | .func record => .func record.variadic
  | .multi _ => .multi
  | .forward _ => .forward

/-- What a shape is compared by, in groups that have to be equally long. -/
def groups : Ty → List (List (Member Ty))
  | .pointer inner => [[⟨"", inner⟩]]
  | .slice elem => [[⟨"", elem⟩]]
  | .map key value => [[⟨"", key⟩], [⟨"", value⟩]]
  | .func record => [record.inputs, record.outputs]
  | _ => []

/-- The types that a shape is compared by: the parts of a pointer, a slice or a map, the inputs
and outputs of a function. -/
def components (type : Ty) : List Ty := type.groups.flatten.map (·.type)

/-- Types that are by themselves the same and are made of related ones. -/
structure Matches (related : Ty → Ty → Prop) (a b : Ty) : Prop where
  head : a.head = b.head
  groups : List.Forall₂ (List.Forall₂ fun x y => related x.type y.type) a.groups b.groups

end Ty

/-- Related lists are related member by member. -/
theorem forall₂_mem {as : List α} {bs : List β} (h : List.Forall₂ related as bs) :
    List.Forall₂ (fun a b => (a ∈ as ∧ b ∈ bs) ∧ related a b) as bs := by
  induction h with
  | nil => exact .nil
  | cons hHead _ ih =>
      refine .cons ⟨⟨List.mem_cons_self, List.mem_cons_self⟩, hHead⟩ (ih.imp fun a b hab => ?_)
      exact ⟨⟨List.mem_cons_of_mem _ hab.1.1, List.mem_cons_of_mem _ hab.1.2⟩, hab.2⟩

theorem forall₂_trans {γ : Type} {first : α → β → Prop} {second : β → γ → Prop}
    {both : α → γ → Prop} (hBoth : ∀ a b c, first a b → second b c → both a c) {as : List α}
    {bs : List β} {cs : List γ} (h : List.Forall₂ first as bs) (h' : List.Forall₂ second bs cs) :
    List.Forall₂ both as cs := by
  induction h generalizing cs with
  | nil => exact List.forall₂_nil_left_iff.mpr (List.forall₂_nil_left_iff.mp h')
  | cons hHead _ ih =>
      cases h' with
      | cons hHead' hTail' => exact .cons (hBoth _ _ _ hHead hHead') (ih hTail')

theorem exists_of_forall₂ {as : List α} {bs : List β} (h : List.Forall₂ related as bs) {b : β}
    (hb : b ∈ bs) : ∃ a ∈ as, related a b := by
  induction h with
  | nil => cases hb
  | cons hHead _ ih =>
      rcases List.mem_cons.mp hb with rfl | hb
      · exact ⟨_, List.mem_cons_self, hHead⟩
      · obtain ⟨a, ha, hRelated⟩ := ih hb
        exact ⟨a, List.mem_cons_of_mem _ ha, hRelated⟩

namespace Ty.Matches

variable {related related' : Ty → Ty → Prop} {a b : Ty}

theorem mem_components {member : Member Ty} {group : List (Member Ty)} (hGroup : group ∈ a.groups)
    (hMember : member ∈ group) : member.type ∈ a.components :=
  List.mem_map_of_mem (List.mem_flatten_of_mem hGroup hMember)

/-- The types that a match relates are components. -/
theorem imp (h : a.Matches related b)
    (hRelated : ∀ x ∈ a.components, ∀ y ∈ b.components, related x y → related' x y) :
    a.Matches related' b where
  head := h.head
  groups := (forall₂_mem h.groups).imp fun _ _ hGroup => (forall₂_mem hGroup.2).imp fun _ _ hab =>
    hRelated _ (mem_components hGroup.1.1 hab.1.1) _ (mem_components hGroup.1.2 hab.1.2) hab.2

theorem refl (h : ∀ x ∈ a.components, related x x) : a.Matches related a where
  head := rfl
  groups := List.forall₂_same.mpr fun _ hGroup => List.forall₂_same.mpr fun _ hMember =>
    h _ (mem_components hGroup hMember)

theorem trans {c : Ty} (hRelated : ∀ x y z, related x y → related y z → related x z)
    (h : a.Matches related b) (h' : b.Matches related c) : a.Matches related c where
  head := h.head.trans h'.head
  groups := by
    refine forall₂_trans (fun _ _ _ hGroup hGroup' => ?_) h.groups h'.groups
    exact forall₂_trans (fun x y z => hRelated x.type y.type z.type) hGroup hGroup'

/-- Each component of the one is related to some component of the other. -/
theorem exists_left (h : a.Matches related b) {y : Ty} (hy : y ∈ b.components) :
    ∃ x ∈ a.components, related x y := by
  obtain ⟨member, hMember, rfl⟩ := List.mem_map.mp hy
  obtain ⟨group, hGroup, hMember⟩ := List.mem_flatten.mp hMember
  obtain ⟨group', hGroup', hGroups⟩ := exists_of_forall₂ h.groups hGroup
  obtain ⟨member', hMember', hRelated⟩ := exists_of_forall₂ hGroups hMember
  exact ⟨member'.type, mem_components hGroup' hMember', hRelated⟩

end Ty.Matches

namespace TypeStore

variable {store : TypeStore} {a b type part shape : Ty} {levels : Nat}

/-! ## Comparison of shapes -/

/-- Whether groups agree one after another; the first that do not end it. -/
def sameGroups (equal : Ty → Ty → Faulty Bool) :
    List (List (Member Ty)) → List (List (Member Ty)) → Faulty Bool
  | as :: more, bs :: others => do
      if ← sameTypes equal as bs then sameGroups equal more others else return false
  | _, _ => .ok true

/-- The comparison of two shapes, given how what they are made of is compared. -/
def sameShape (equal : Ty → Ty → Faulty Bool) (a b : Ty) : Faulty Bool :=
  if a.head = .multi ∨ b.head = .multi then .error .multiCompared
  else if a.head = b.head then sameGroups equal a.groups b.groups
  else .ok false

section SameShape

variable {equal equal' : Ty → Ty → Faulty Bool} {related related' : Ty → Ty → Prop}

theorem sameGroups_cons (as bs : List (Member Ty)) (more others : List (List (Member Ty))) :
    sameGroups equal (as :: more) (bs :: others) = (do
      if ← sameTypes equal as bs then sameGroups equal more others else return false) := rfl

theorem sameTypes_pair (x y : Ty) : sameTypes equal [⟨"", x⟩] [⟨"", y⟩] = equal x y := by
  show (do if ← equal x y then .ok true else return false) = equal x y
  cases equal x y with
  | error fault => rfl
  | ok same => cases same <;> rfl

theorem sameGroups_single (as bs : List (Member Ty)) :
    sameGroups equal [as] [bs] = sameTypes equal as bs := by
  rw [sameGroups_cons]
  cases sameTypes equal as bs with
  | error fault => rfl
  | ok same => cases same <;> rfl

/-- Shapes that are not made of anything are compared by themselves. -/
theorem sameShape_leaf (hA : a.head ≠ .multi) (hB : b.head ≠ .multi) (hGroups : a.groups = []) :
    sameShape equal a b = .ok (decide (a.head = b.head)) := by
  rw [sameShape, if_neg (by simp [hA, hB]), hGroups]
  split
  · next hHead => simp [sameGroups, hHead]
  · next hHead => simp [hHead]

/-- Types are compared by their shapes. -/
theorem equalWithin_succ (ha : store.peel a = .ok shapeA) (hb : store.peel b = .ok shapeB) :
    store.equalWithin (levels + 1) a b = sameShape (store.equalWithin levels) shapeA shapeB := by
  have hForward := peel_not_forward ha
  rw [equalWithin, ha, hb]
  cases shapeA with
  | forward handle => exact absurd rfl (hForward handle)
  | multi members => rfl
  | prim p =>
      cases shapeB with
      | prim q =>
          rw [sameShape_leaf (by simp [Ty.head]) (by simp [Ty.head]) rfl]
          show (.ok (p == q) : Faulty Bool) = _
          simp [Ty.head, beq_eq_decide]
      | _ => rfl
  | pointer x =>
      cases shapeB with
      | pointer y => exact ((sameGroups_single _ _).trans (sameTypes_pair x y)).symm
      | _ => rfl
  | slice x =>
      cases shapeB with
      | slice y => exact ((sameGroups_single _ _).trans (sameTypes_pair x y)).symm
      | _ => rfl
  | map key value =>
      cases shapeB with
      | map key' value' => 
          show _ = sameGroups (store.equalWithin levels) [[⟨"", key⟩], [⟨"", value⟩]]
            [[⟨"", key'⟩], [⟨"", value'⟩]]
          rw [sameGroups_cons, sameGroups_single, sameTypes_pair, sameTypes_pair]
          rfl
      | _ => rfl
  | struct record =>
      cases shapeB with
      | struct record' =>
          rw [sameShape_leaf (by simp [Ty.head]) (by simp [Ty.head]) rfl]
          show (.ok (record.package == record'.package && record.name == record'.name) :
            Faulty Bool) = _
          simp [Ty.head, beq_eq_decide]
      | _ => rfl
  | interface record =>
      cases shapeB with
      | interface record' =>
          rw [sameShape_leaf (by simp [Ty.head]) (by simp [Ty.head]) rfl]
          show (.ok (record.package == record'.package && record.name == record'.name) :
            Faulty Bool) = _
          simp [Ty.head, beq_eq_decide]
      | _ => rfl
  | universal => cases shapeB <;> rfl
  | func f =>
      cases shapeB with
      | func g => 
          have hHead : (Ty.func f).head = (Ty.func g).head ↔ f.variadic = g.variadic := by
            simp [Ty.head]
          rw [sameShape, if_neg (by simp [Ty.head])]
          by_cases hVariadic : f.variadic = g.variadic
          · rw [if_pos (hHead.mpr hVariadic)]
            show (if f.variadic != g.variadic then (.ok false : Faulty Bool) else _) = _
            rw [if_neg (by simpa using hVariadic)]
            show _ = sameGroups (store.equalWithin levels) [f.inputs, f.outputs]
              [g.inputs, g.outputs]
            rw [sameGroups_cons, sameGroups_single]
          · rw [if_neg (mt hHead.mp hVariadic)]
            show (if f.variadic != g.variadic then (.ok false : Faulty Bool) else _) = _
            rw [if_pos (by simpa using hVariadic)]
      | _ => rfl

theorem agree_congr (h : ∀ x x' y y', related x x' → related' y y' → equal x y = equal' x' y')
    (ha : List.Forall₂ (fun x x' => related x.type x'.type) as as')
    (hb : List.Forall₂ (fun y y' => related' y.type y'.type) bs bs') :
    agree equal as bs = agree equal' as' bs' := by
  induction ha generalizing bs bs' with
  | nil => cases hb <;> rfl
  | cons hHead _ ih =>
      cases hb with
      | nil => rfl
      | cons hHead' hTail' => rw [agree, agree, h _ _ _ _ hHead hHead', ih hTail']

theorem sameTypes_congr (h : ∀ x x' y y', related x x' → related' y y' → equal x y = equal' x' y')
    (ha : List.Forall₂ (fun x x' => related x.type x'.type) as as')
    (hb : List.Forall₂ (fun y y' => related' y.type y'.type) bs bs') :
    sameTypes equal as bs = sameTypes equal' as' bs' := by
  rw [sameTypes, sameTypes, ha.length_eq, hb.length_eq, agree_congr h ha hb]

/-- Shapes that match are compared alike. -/
theorem sameShape_congr {a' b' : Ty}
    (h : ∀ x x' y y', related x x' → related' y y' → equal x y = equal' x' y')
    (ha : a.Matches related a') (hb : b.Matches related' b') :
    sameShape equal a b = sameShape equal' a' b' := by
  have hGroups : sameGroups equal a.groups b.groups = sameGroups equal' a'.groups b'.groups := by
    have hA := ha.groups
    have hB := hb.groups
    generalize a.groups = as, a'.groups = as', b.groups = bs, b'.groups = bs' at hA hB
    induction hA generalizing bs bs' with
    | nil => cases hB <;> rfl
    | cons hHead _ ih =>
        cases hB with
        | nil => rfl
        | cons hHead' hTail' =>
            rw [sameGroups, sameGroups, sameTypes_congr h hHead hHead', ih _ _ hTail']
  rw [sameShape, sameShape, ha.head, hb.head, hGroups]

theorem agree_error (h : agree equal as bs = .error fault) :
    ∃ x ∈ as, ∃ y ∈ bs, equal x.type y.type = .error fault := by
  induction as generalizing bs with
  | nil => cases bs <;> cases h
  | cons x as ih =>
      cases bs with
      | nil => cases h
      | cons y bs =>
          rw [agree] at h
          cases hFirst : equal x.type y.type with
          | error found =>
              rw [hFirst] at h
              cases h
              exact ⟨x, List.mem_cons_self, y, List.mem_cons_self, hFirst⟩
          | ok same =>
              rw [hFirst] at h
              cases same with
              | false => cases h
              | true =>
                  obtain ⟨x', hx, y', hy, hFault⟩ := ih h
                  exact ⟨x', .tail _ hx, y', .tail _ hy, hFault⟩

theorem sameTypes_error (h : sameTypes equal as bs = .error fault) :
    ∃ x ∈ as, ∃ y ∈ bs, equal x.type y.type = .error fault := by
  rw [sameTypes] at h
  split at h
  · exact agree_error h
  · cases h

theorem sameGroups_error {as bs : List (List (Member Ty))}
    (h : sameGroups equal as bs = .error fault) :
    ∃ x ∈ as.flatten, ∃ y ∈ bs.flatten, equal x.type y.type = .error fault := by
  induction as generalizing bs with
  | nil => cases bs <;> cases h
  | cons first as ih =>
      cases bs with
      | nil => cases h
      | cons second bs =>
          rw [sameGroups_cons] at h
          cases hFirst : sameTypes equal first second with
          | error found =>
              rw [hFirst] at h
              cases h
              obtain ⟨x, hx, y, hy, hFault⟩ := sameTypes_error hFirst
              exact ⟨x, List.mem_append_left _ hx, y, List.mem_append_left _ hy, hFault⟩
          | ok same =>
              rw [hFirst] at h
              cases same with
              | false => cases h
              | true =>
                  obtain ⟨x, hx, y, hy, hFault⟩ := ih h
                  exact ⟨x, List.mem_append_right _ hx, y, List.mem_append_right _ hy, hFault⟩

/-- A fault of a comparison is that of a list of results or one of comparing what is below. -/
theorem sameShape_error (h : sameShape equal a b = .error fault) :
    (a.head = .multi ∨ b.head = .multi) ∧ fault = .multiCompared ∨
      ∃ x ∈ a.components, ∃ y ∈ b.components, equal x y = .error fault := by
  rw [sameShape] at h
  split at h
  · next hMulti =>
      cases h
      exact .inl ⟨hMulti, rfl⟩
  · split at h
    · obtain ⟨x, hx, y, hy, hFault⟩ := sameGroups_error h
      exact .inr ⟨x.type, List.mem_map_of_mem hx, y.type, List.mem_map_of_mem hy, hFault⟩
    · cases h

theorem agree_eq_true (hLength : as.length = bs.length) : agree equal as bs = .ok true ↔
      List.Forall₂ (fun x y => equal x.type y.type = .ok true) as bs := by
  induction as generalizing bs with
  | nil => cases bs <;> simp_all [agree]
  | cons x as ih =>
      cases bs with
      | nil => cases hLength
      | cons y bs =>
          rw [agree, List.forall₂_cons, ← ih (Nat.succ.inj hLength)]
          cases equal x.type y.type with
          | error fault => simp [Bind.bind, Except.bind]
          | ok same => cases same <;> simp [Bind.bind, Except.bind, Pure.pure, Except.pure]

theorem sameTypes_eq_true : sameTypes equal as bs = .ok true ↔
      List.Forall₂ (fun x y => equal x.type y.type = .ok true) as bs := by
  rw [sameTypes]
  split
  · next hLength => exact agree_eq_true hLength
  · next hLength => exact iff_of_false (by simp) fun h => hLength h.length_eq

theorem sameGroups_eq_true {as bs : List (List (Member Ty))} (hLength : as.length = bs.length) :
    sameGroups equal as bs = .ok true ↔
      List.Forall₂ (List.Forall₂ fun x y => equal x.type y.type = .ok true) as bs := by
  induction as generalizing bs with
  | nil => cases bs <;> simp_all [sameGroups]
  | cons first as ih =>
      cases bs with
      | nil => cases hLength
      | cons second bs =>
          rw [sameGroups_cons, List.forall₂_cons, ← ih (Nat.succ.inj hLength), ← sameTypes_eq_true]
          cases sameTypes equal first second with
          | error fault => simp [Bind.bind, Except.bind]
          | ok same => cases same <;> simp [Bind.bind, Except.bind, Pure.pure, Except.pure]

/-- Shapes are equal if they match and are no lists of results. -/
theorem sameShape_eq_true : sameShape equal a b = .ok true ↔
    a.head ≠ .multi ∧ a.Matches (fun x y => equal x y = .ok true) b := by
  have hGroups (hHead : a.head = b.head) : a.groups.length = b.groups.length := by
    cases a <;> cases b <;> first | rfl | cases hHead
  rw [sameShape]
  split
  · next hMulti =>
      refine iff_of_false (by simp) fun ⟨hNot, hMatches⟩ => ?_
      exact hMulti.elim hNot (hMatches.head ▸ hNot)
  · next hMulti =>
      rw [not_or] at hMulti
      split
      · next hHead =>
          rw [sameGroups_eq_true (hGroups hHead)]
          exact ⟨fun h => ⟨hMulti.1, hHead, h⟩, fun h => h.2.groups⟩
      · next hHead => exact iff_of_false (by simp) fun h => hHead h.2.head

end SameShape

/-! ## The number of levels -/

/-- Answers that are the same, except that one may come to no end. -/
def SameAnswer (x y : Faulty Bool) : Prop := x = y ∨ x = .error .endless ∨ y = .error .endless

theorem SameAnswer.ite {x y rest rest' : Faulty Bool} (h : SameAnswer x y)
    (hRest : SameAnswer rest rest') :
    SameAnswer (do if ← x then rest else return false)
      (do if ← y then rest' else return false) := by
  rcases h with rfl | rfl | rfl
  · cases x with
    | error fault => exact .inl rfl
    | ok same =>
        cases same with
        | true => exact hRest
        | false => exact .inl rfl
  · exact .inr (.inl rfl)
  · exact .inr (.inr rfl)

theorem sameAnswer_sameTypes {f g : Ty → Ty → Faulty Bool} (h : ∀ a b, SameAnswer (f a b) (g a b))
    (as bs : List (Member Ty)) : SameAnswer (sameTypes f as bs) (sameTypes g as bs) := by
  have hAgree (as bs : List (Member Ty)) : SameAnswer (agree f as bs) (agree g as bs) := by
    induction as generalizing bs with
    | nil => cases bs <;> exact .inl rfl
    | cons a as ih =>
        cases bs with
        | nil => exact .inl rfl
        | cons b bs => exact (h a.type b.type).ite (ih bs)
  unfold sameTypes
  split
  · exact hAgree as bs
  · exact .inl rfl

/-- The number of levels decides at most whether a comparison comes to its end. -/
theorem equalWithin_levels (levels more : Nat) (a b : Ty) :
    SameAnswer (store.equalWithin levels a b) (store.equalWithin more a b) := by
  induction levels generalizing more a b with
  | zero => exact .inr (.inl rfl)
  | succ levels ih =>
      cases more with
      | zero => exact .inr (.inr rfl)
      | succ more =>
          rw [equalWithin, equalWithin]
          cases store.peel a with
          | error fault => exact .inl rfl
          | ok shapeA =>
              cases store.peel b with
              | error fault => exact .inl rfl
              | ok shapeB =>
                  simp only [Bind.bind, Except.bind]
                  split
                  case h_4 | h_5 => exact ih more _ _
                  case h_6 => exact (ih more _ _).ite (ih more _ _)
                  case h_10 =>
                    split
                    · exact .inl rfl
                    · exact (sameAnswer_sameTypes (ih more) _ _).ite
                        (sameAnswer_sameTypes (ih more) _ _)
                  all_goals exact .inl rfl

/-! ## Types that resolve all the way down -/

/-- A type that can be followed to its shape, as can what that is compared by, down to an end.
Each shape that comes up is by itself one of those that are allowed. -/
inductive Resolves (store : TypeStore) (allowed : Ty.Head → Prop) : Ty → Prop
  | of_shape {type shape : Ty} : store.resolve type = .ok shape → allowed shape.head →
      (∀ part ∈ shape.components, Resolves store allowed part) → Resolves store allowed type

/-- One step of opening up a type: to what it is compared by, or from a handle to what that is
bound to. -/
inductive Opens (store : TypeStore) : Ty → Ty → Prop
  | component {whole part} : part ∈ whole.components → Opens store whole part
  | bound {handle target} : store.target? handle = some target →
      Opens store (.forward handle) target

/-- What comes up as a type is opened up. -/
def opened (store : TypeStore) (type : Ty) : Set Ty := {part | ReflTransGen store.Opens type part}

namespace Resolves

variable {allowed : Ty.Head → Prop}

theorem peel (h : store.Resolves allowed type) :
    ∃ shape, store.peel type = .ok shape ∧ allowed shape.head ∧
      ∀ part ∈ shape.components, store.Resolves allowed part := by
  obtain ⟨hShape, hAllowed, hParts⟩ := h
  exact ⟨_, by rw [TypeStore.peel, hShape], hAllowed, hParts⟩

theorem opens (h : store.Resolves allowed type) (hStep : store.Opens type part) :
    store.Resolves allowed part := by
  obtain ⟨hShape, hAllowed, hParts⟩ := h
  cases hStep with
  | component hPart =>
      have hSelf : store.resolve type = .ok type := by
        apply resolve_eq_self
        rintro handle rfl
        cases hPart
      obtain rfl := Except.ok.inj (hSelf.symm.trans hShape)
      exact hParts part hPart
  | bound hTarget => exact .of_shape (resolve_target hTarget hShape) hAllowed hParts

/-- Opening the type up comes to an end. -/
theorem acc (h : store.Resolves allowed type) :
    Acc (fun part whole => store.Opens whole part) type := by
  induction h with
  | @of_shape type shape hShape _ _ ih =>
      have hFollow {hops : Nat} {start type : Ty} (h : store.follow start hops type = .ok shape) :
          Acc (fun part whole => store.Opens whole part) type := by
        induction hops generalizing type with
        | zero => cases h
        | succ hops ihHops =>
            cases type with
            | forward handle =>
                rw [follow] at h
                split at h
                · cases h
                · next target hTarget =>
                    refine .intro _ fun part hStep => ?_
                    cases hStep with
                    | component hPart => cases hPart
                    | bound hBound =>
                        obtain rfl := Option.some.inj (hTarget.symm.trans hBound)
                        exact ihHops h
            | _ =>
                obtain rfl := Except.ok.inj h
                refine .intro _ fun part hStep => ?_
                cases hStep with
                | component hPart => exact ih part hPart
      exact hFollow hShape

/-- No type comes up again below itself. -/
theorem not_cyclic (h : store.Resolves allowed type) : ¬ TransGen store.Opens type type := by
  intro hCycle
  induction h.acc with
  | intro type _ ih =>
      obtain ⟨part, hStep, hBack⟩ := TransGen.head'_iff.mp hCycle
      exact ih part hStep (h.opens hStep) (.tail' hBack hStep)

end Resolves

/-! ## The number of types that come up -/

end TypeStore

namespace Ty

mutual

/-- The types that a type is written with, as deep as comparisons go into it. -/
def nodes : Ty → List Ty
  | .pointer inner => .pointer inner :: inner.nodes
  | .slice elem => .slice elem :: elem.nodes
  | .map key value => .map key value :: (key.nodes ++ value.nodes)
  | .func ⟨inputs, outputs, variadic, isMethod, number⟩ =>
      .func ⟨inputs, outputs, variadic, isMethod, number⟩ :: (nodesAll inputs ++ nodesAll outputs)
  | .prim p => [.prim p]
  | .struct record => [.struct record]
  | .interface record => [.interface record]
  | .universal => [.universal]
  | .multi members => [.multi members]
  | .forward handle => [.forward handle]

def nodesAll : List (Member Ty) → List Ty
  | [] => []
  | ⟨_, type⟩ :: rest => type.nodes ++ nodesAll rest

end

mutual

theorem length_nodes : (type : Ty) → type.nodes.length ≤ type.size
  | .pointer inner => by
      have := inner.length_nodes
      simp only [nodes, size, List.length_cons]
      omega
  | .slice elem => by
      have := elem.length_nodes
      simp only [nodes, size, List.length_cons]
      omega
  | .map key value => by
      have := key.length_nodes
      have := value.length_nodes
      simp only [nodes, size, List.length_cons, List.length_append]
      omega
  | .func ⟨inputs, outputs, _, _, _⟩ => by
      have := length_nodesAll inputs
      have := length_nodesAll outputs
      simp only [nodes, size, List.length_cons, List.length_append]
      omega
  | .prim _ | .struct _ | .interface _ | .universal | .multi _ | .forward _ => by
      simp [nodes, size]

theorem length_nodesAll : (members : List (Member Ty)) → (nodesAll members).length ≤ sizeAll members
  | [] => by simp [nodesAll]
  | ⟨_, type⟩ :: rest => by
      have := type.length_nodes
      have := length_nodesAll rest
      simp only [nodesAll, sizeAll, List.length_append]
      omega

end

theorem self_mem_nodes (type : Ty) : type ∈ type.nodes := by
  cases type <;> simp [nodes]

theorem mem_nodesAll {type : Ty} {members : List (Member Ty)} :
    type ∈ nodesAll members ↔ ∃ member ∈ members, type ∈ member.type.nodes := by
  induction members with
  | nil => simp [nodesAll]
  | cons member rest ih =>
      obtain ⟨name, type'⟩ := member
      simp [nodesAll, ih]

mutual

/-- What a node is compared by is a node. -/
theorem component_mem_nodes {x part : Ty} (hPart : part ∈ x.components) :
    (type : Ty) → x ∈ type.nodes → part ∈ type.nodes
  | .pointer inner, h => by
      rw [nodes, List.mem_cons] at h ⊢
      rcases h with rfl | h
      · rw [List.mem_singleton.mp hPart]
        exact .inr inner.self_mem_nodes
      · exact .inr (component_mem_nodes hPart inner h)
  | .slice elem, h => by
      rw [nodes, List.mem_cons] at h ⊢
      rcases h with rfl | h
      · rw [List.mem_singleton.mp hPart]
        exact .inr elem.self_mem_nodes
      · exact .inr (component_mem_nodes hPart elem h)
  | .map key value, h => by
      rw [nodes, List.mem_cons, List.mem_append] at h ⊢
      rcases h with rfl | h | h
      · rcases List.mem_pair.mp hPart with rfl | rfl
        · exact .inr (.inl part.self_mem_nodes)
        · exact .inr (.inr part.self_mem_nodes)
      · exact .inr (.inl (component_mem_nodes hPart key h))
      · exact .inr (.inr (component_mem_nodes hPart value h))
  | .func ⟨inputs, outputs, variadic, isMethod, number⟩, h => by
      rw [nodes, List.mem_cons, List.mem_append] at h ⊢
      rcases h with rfl | h | h
      · obtain ⟨member, hMember, rfl⟩ := List.mem_map.mp hPart
        have hEither : member ∈ inputs ∨ member ∈ outputs := by simpa [groups] using hMember
        refine .inr (hEither.imp (fun hIn => ?_) fun hOut => ?_)
        · exact mem_nodesAll.mpr ⟨member, hIn, member.type.self_mem_nodes⟩
        · exact mem_nodesAll.mpr ⟨member, hOut, member.type.self_mem_nodes⟩
      · exact .inr (.inl (component_mem_nodesAll hPart inputs h))
      · exact .inr (.inr (component_mem_nodesAll hPart outputs h))
  | .prim _, h | .struct _, h | .interface _, h | .universal, h | .multi _, h | .forward _, h => by
      simp only [nodes, List.mem_singleton] at h
      subst h
      cases hPart

theorem component_mem_nodesAll {x part : Ty} (hPart : part ∈ x.components) :
    (members : List (Member Ty)) → x ∈ nodesAll members → part ∈ nodesAll members
  | [], h => by simp [nodesAll] at h
  | ⟨_, type⟩ :: rest, h => by
      rw [nodesAll, List.mem_append] at h ⊢
      exact h.imp (component_mem_nodes hPart type) (component_mem_nodesAll hPart rest)

end

end Ty

namespace TypeStore

variable {store : TypeStore} {allowed : Ty.Head → Prop} {a b type part shape : Ty} {levels : Nat}

/-- All types that may come up as a type is opened up. -/
def nodes (store : TypeStore) (type : Ty) : List Ty :=
  type.nodes ++ store.bound.flatMap fun entry => entry.2.nodes

theorem length_nodes (store : TypeStore) (type : Ty) :
    (store.nodes type).length ≤ store.weight + type.size := by
  have hBound (entries : List (Nat × Ty)) : (entries.flatMap fun entry => entry.2.nodes).length ≤
        entries.foldr (fun entry total => entry.2.size + total) 0 := by
    induction entries with
    | nil => simp
    | cons entry rest ih =>
        have := entry.2.length_nodes
        simp only [List.flatMap_cons, List.length_append, List.foldr_cons]
        omega
  have hEntries := hBound store.bound
  have hType := type.length_nodes
  rw [nodes, List.length_append, weight]
  omega

theorem opened_subset_nodes (store : TypeStore) (type : Ty) :
    store.opened type ⊆ {part | part ∈ store.nodes type} := by
  intro part hPart
  show part ∈ store.nodes type
  induction hPart with
  | refl => exact List.mem_append_left _ type.self_mem_nodes
  | tail _ hStep ih =>
      rw [nodes, List.mem_append, List.mem_flatMap] at ih ⊢
      cases hStep with
      | component hPart =>
          rcases ih with ih | ⟨entry, hEntry, ih⟩
          · exact .inl (Ty.component_mem_nodes hPart type ih)
          · exact .inr ⟨entry, hEntry, Ty.component_mem_nodes hPart entry.2 ih⟩
      | @bound handle _ hTarget =>
          obtain ⟨before, after, hBound, -⟩ := List.lookup_eq_some_iff.mp hTarget
          refine .inr ⟨(handle.id, _), ?_, Ty.self_mem_nodes _⟩
          rw [hBound]
          exact List.mem_append_right _ List.mem_cons_self

theorem finite_opened (store : TypeStore) (type : Ty) : (store.opened type).Finite :=
  (List.finite_toSet _).subset (store.opened_subset_nodes type)

/-- No more types come up than there are nodes. -/
theorem ncard_opened (store : TypeStore) (type : Ty) :
    (store.opened type).ncard ≤ store.weight + type.size := by
  classical
  calc (store.opened type).ncard
      ≤ {part | part ∈ store.nodes type}.ncard :=
        Set.ncard_le_ncard (store.opened_subset_nodes type) (List.finite_toSet _)
    _ = (store.nodes type).toFinset.card := by
        rw [← Set.ncard_coe_finset]
        congr 1
        ext part
        simp
    _ ≤ (store.nodes type).length := List.toFinset_card_le _
    _ ≤ store.weight + type.size := store.length_nodes type

/-! ## Levels that suffice -/

theorem shallow_succ : store.Shallow (levels + 1) type ↔
    ∀ shape, store.peel type = .ok shape → ∀ part ∈ shape.components,
      store.Shallow levels part := by
  rw [Shallow]
  cases store.peel type with
  | error fault => simp
  | ok shape =>
      simp only [Except.ok.injEq, forall_eq']
      cases shape <;> simp [Ty.components, Ty.groups, or_imp, forall_and]

theorem opened_of_follow {start : Ty} {hops : Nat} (h : store.follow start hops type = .ok shape) :
    ReflTransGen store.Opens type shape := by
  have hStep (whole part : Ty) (h : store.Unfolds whole part) : store.Opens whole part := by
    cases h with
    | bound hTarget => exact .bound hTarget
    | part hPart => exact .component (by cases whole <;> first | exact hPart | cases hPart)
  exact ReflTransGen.mono hStep _ _ (reaches_of_follow h)

/-- As a type is opened up there are fewer and fewer types to come. -/
theorem Resolves.shallow (h : store.Resolves allowed type)
    (hLevels : (store.opened type).ncard ≤ levels) : store.Shallow levels type := by
  induction levels generalizing type with
  | zero =>
      have hEmpty := (Set.ncard_eq_zero (store.finite_opened type)).mp (Nat.le_zero.mp hLevels)
      exact absurd (show type ∈ store.opened type from .refl) (by simp [hEmpty])
  | succ levels ih =>
      rw [shallow_succ]
      intro shape hPeel part hPart
      have hOpens : TransGen store.Opens type part :=
        .tail' (opened_of_follow (resolve_of_peel hPeel)) (.component hPart)
      have hFewer : store.opened part ⊂ store.opened type := by
        refine ⟨fun later hLater => hOpens.to_reflTransGen.trans hLater, fun hAll => ?_⟩
        exact h.not_cyclic (.trans_left hOpens (hAll .refl))
      have hCount := Set.ncard_lt_ncard hFewer (store.finite_opened type)
      obtain ⟨found, hFound, -, hParts⟩ := h.peel
      obtain rfl := Except.ok.inj (hPeel.symm.trans hFound)
      exact ih (hParts part hPart) (by omega)

theorem peel_ne_endless : store.peel type ≠ .error .endless := by
  unfold peel
  split <;> simp

/-- A comparison comes to an end within the levels that suffice for its left side. -/
theorem Shallow.equalWithin_ne_endless (h : store.Shallow levels a) (b : Ty) :
    store.equalWithin levels a b ≠ .error .endless := by
  induction levels generalizing a b with
  | zero => exact absurd h (by simp [Shallow])
  | succ levels ih =>
      intro hEndless
      cases hA : store.peel a with
      | error fault =>
          rw [equalWithin, hA] at hEndless
          cases hEndless
          exact absurd hA peel_ne_endless
      | ok shapeA =>
          cases hB : store.peel b with
          | error fault =>
              rw [equalWithin, hA, hB] at hEndless
              cases hEndless
              exact absurd hB peel_ne_endless
          | ok shapeB =>
              rw [equalWithin_succ hA hB] at hEndless
              rcases sameShape_error hEndless with ⟨-, hFault⟩ | ⟨x, hx, y, -, hFault⟩
              · cases hFault
              · exact ih (shallow_succ.mp h shapeA hA x hx) y hFault

/-! ## The comparison without levels -/

/-- Of a type that resolves some number of levels is enough for every comparison. -/
theorem Resolves.exists_levels (h : store.Resolves allowed type) :
    store.Shallow (store.weight + type.size) type := h.shallow (store.ncard_opened type)

/-- A type that resolves can be compared to the end. -/
theorem Resolves.equal_ne_endless (h : store.Resolves allowed a) (b : Ty) :
    store.equal a b ≠ .error .endless := by
  have hDepth : store.weight + a.size ≤ store.comparisonDepth a b := by
    calc store.weight + a.size ≤ (store.weight + a.size + 1) * 1 := by omega
      _ ≤ store.comparisonDepth a b := Nat.mul_le_mul_left _ (by omega)
  unfold equal
  split
  · exact (h.exists_levels.mono hDepth).equalWithin_ne_endless b
  · next hUsual => exact fun hEndless => hUsual hEndless

/-- However many levels are counted out, the answer is the same if there is one. -/
theorem Resolves.equal_eq (h : store.Resolves allowed a) (hLevels : store.Shallow levels a)
    (b : Ty) : store.equal a b = store.equalWithin levels a b := by
  obtain ⟨more, hMore⟩ := store.exists_equalWithin a b
  rw [hMore]
  rcases equalWithin_levels more levels a b with hSame | hEndless | hEndless
  · exact hSame
  · exact absurd (hMore.trans hEndless) (h.equal_ne_endless b)
  · exact absurd hEndless (hLevels.equalWithin_ne_endless b)

/-- The comparison of two types is that of their shapes. -/
theorem Resolves.equal_shapes (h : store.Resolves allowed a) (hA : store.peel a = .ok shapeA)
    (hB : store.peel b = .ok shapeB) : store.equal a b = sameShape store.equal shapeA shapeB := by
  have hLevels := h.exists_levels.mono (Nat.le_succ _)
  rw [h.equal_eq hLevels, equalWithin_succ hA hB]
  obtain ⟨found, hFound, -, hParts⟩ := h.peel
  obtain rfl := Except.ok.inj (hA.symm.trans hFound)
  have hSelf : shapeA.Matches (fun x x' => x ∈ shapeA.components ∧ x = x') shapeA :=
    .refl fun x hx => ⟨hx, rfl⟩
  have hSelf' : shapeB.Matches Eq shapeB := .refl fun _ _ => rfl
  refine sameShape_congr ?_ hSelf hSelf'
  rintro x _ y _ ⟨hx, rfl⟩ rfl
  exact ((hParts x hx).equal_eq (shallow_succ.mp hLevels shapeA hA x hx) y).symm

end TypeStore

end GoToC
