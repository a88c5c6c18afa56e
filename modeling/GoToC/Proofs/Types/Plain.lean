import GoToC.Proofs.C.Identifier

/-!
# Plain types

A type that a program writes down is plain: at no level is it a function or a list of
results, except among the methods of an interface, and every handle in it is known. A
store is settled if every known handle is bound to a plain type that was validated. In a
settled store a plain type can be followed to its shape unless it starts a chain of
`maxHops` handles.
-/

namespace GoToC

variable {members : List (Member Ty)} {func : FuncType Ty}

/-- What types and names may be made of in a part of a program. -/
structure Known where
  /-- The numbers of the handles that may occur. -/
  handle : Nat → Prop
  /-- Whether the type of types may occur. -/
  metatype : Prop
  /-- Whether functions may occur. -/
  function : Prop
  /-- Whether the C names of globals are all names to C. -/
  strict : Prop

namespace Ty

/-- A function that takes a receiver. -/
def IsMethod (type : Ty) : Prop := ∃ func, type = .func func ∧ func.isMethod = true

mutual

def Plain (k : Known) : Ty → Prop
  | .prim p => p = .type → k.metatype
  | .pointer inner => inner.Plain k
  | .slice elem => elem.Plain k
  | .map key value => key.Plain k ∧ value.Plain k
  | .struct ⟨_, package, name, fields⟩ =>
      (k.strict → NamesGlobals package ∧ isWordTail name = true) ∧ PlainAll k fields
  | .interface ⟨_, _, methods⟩ => PlainMethods k methods
  | .universal => True
  | .func _ => False
  | .multi _ => False
  | .forward handle => k.handle handle.id

/-- Members whose names are identifiers and whose types are plain. -/
def PlainAll (k : Known) : List (Member Ty) → Prop
  | [] => True
  | ⟨name, type⟩ :: rest => (NamedByIdentifier name ∧ type.Plain k) ∧ PlainAll k rest

/-- Members that are functions of plain types without receivers. -/
def PlainMethods (k : Known) : List (Member Ty) → Prop
  | [] => True
  | ⟨_, type⟩ :: rest => (type.PlainFunc k ∧ ¬ type.IsMethod) ∧ PlainMethods k rest

/-- A function of plain types. The last input of a variadic one, after its receiver if it
has one, is a slice. -/
def PlainFunc (k : Known) : Ty → Prop
  | .func ⟨inputs, outputs, variadic, isMethod, _⟩ =>
      PlainAll k inputs ∧ PlainAll k outputs ∧
        (variadic = true → ∃ init name elem, inputs = init ++ [⟨name, .slice elem⟩] ∧
          (isMethod = true → init ≠ []))
  | _ => False

end

/-- A type that one value can have: a plain one or a function of plain ones. -/
def Usable (k : Known) (type : Ty) : Prop :=
  type.Plain k ∨ type.PlainFunc k ∧ k.function

variable {k : Known} {type : Ty}

theorem plainAll_iff : PlainAll k members ↔
      ∀ member ∈ members, NamedByIdentifier member.name ∧ member.type.Plain k := by
  induction members with
  | nil => exact iff_of_true trivial (List.forall_mem_nil _)
  | cons member rest ih =>
    rw [List.forall_mem_cons, ← ih]
    exact Iff.rfl

theorem plainMethods_iff {methods : List (Member Ty)} : PlainMethods k methods ↔
      ∀ method ∈ methods, method.type.PlainFunc k ∧ ¬ method.type.IsMethod := by
  induction methods with
  | nil => exact iff_of_true trivial (List.forall_mem_nil _)
  | cons method rest ih =>
    rw [List.forall_mem_cons, ← ih]
    exact Iff.rfl

theorem PlainFunc.exists_func (h : type.PlainFunc k) : ∃ func, type = .func func := by
  cases type with
  | func func => exact ⟨func, rfl⟩
  | _ => exact False.elim h

theorem PlainFunc.member {func : FuncType Ty} (h : (Ty.func func).PlainFunc k)
    {member : Member Ty} (hMember : member ∈ func.inputs ++ func.outputs) :
    member.type.Plain k := by
  rcases List.mem_append.mp hMember with hMember | hMember
  · exact (plainAll_iff.mp h.1 member hMember).2
  · exact (plainAll_iff.mp h.2.1 member hMember).2

theorem Plain.not_func : ¬ (Ty.func func).Plain k := id

theorem Plain.not_multi : ¬ (Ty.multi members).Plain k := id

theorem Usable.not_multi : ¬ (Ty.multi members).Usable k :=
  fun h => h.elim Plain.not_multi And.left

/-- A usable type that is no function is plain. -/
theorem Usable.plain (h : type.Usable k) (hFunc : ∀ func, type ≠ .func func) : type.Plain k := by
  rcases h with h | ⟨h, -⟩
  · exact h
  · obtain ⟨func, rfl⟩ := h.exists_func
    exact absurd rfl (hFunc func)

theorem Plain.usable (h : type.Plain k) : type.Usable k := .inl h

theorem usable_pointer {inner : Ty} : (Ty.pointer inner).Usable k ↔ inner.Plain k :=
  or_iff_left And.left

theorem usable_slice {elem : Ty} : (Ty.slice elem).Usable k ↔ elem.Plain k :=
  or_iff_left And.left

theorem usable_map {key value : Ty} : (Ty.map key value).Usable k ↔ key.Plain k ∧ value.Plain k :=
  or_iff_left And.left

theorem Usable.of_func (h : (Ty.func func).Usable k) :
    (Ty.func func).PlainFunc k ∧ k.function := h.resolve_left Plain.not_func

end Ty

/-! ## Growth of what is known -/

/-- What is known in one part of a program is known in another. -/
structure Known.Le (k k' : Known) : Prop where
  handle : ∀ id, k.handle id → k'.handle id
  metatype : k.metatype → k'.metatype
  function : k.function → k'.function
  strict : k'.strict → k.strict

namespace Ty

variable {k k' : Known}

mutual

theorem Plain.mono (le : k.Le k') : (type : Ty) → type.Plain k → type.Plain k'
  | .prim p, h => by
      rw [Plain] at h ⊢
      exact fun hp => le.metatype (h hp)
  | .pointer inner, h => by
      rw [Plain] at h ⊢
      exact Plain.mono le inner h
  | .slice elem, h => by
      rw [Plain] at h ⊢
      exact Plain.mono le elem h
  | .map key value, h => by
      rw [Plain] at h ⊢
      exact ⟨Plain.mono le key h.1, Plain.mono le value h.2⟩
  | .struct ⟨_, package, name, fields⟩, h => by
      rw [Plain] at h ⊢
      exact ⟨fun strict => h.1 (le.strict strict), PlainAll.mono le fields h.2⟩
  | .interface ⟨_, _, methods⟩, h => by
      rw [Plain] at h ⊢
      exact PlainMethods.mono le methods h
  | .universal, _ => by simp [Plain]
  | .func _, h => absurd h Plain.not_func
  | .multi _, h => absurd h Plain.not_multi
  | .forward handle, h => by
      rw [Plain] at h ⊢
      exact le.handle _ h

theorem PlainAll.mono (le : k.Le k') : (members : List (Member Ty)) →
    PlainAll k members → PlainAll k' members
  | [], _ => by simp [PlainAll]
  | ⟨_, type⟩ :: rest, h => by
      rw [PlainAll] at h ⊢
      exact ⟨⟨h.1.1, Plain.mono le type h.1.2⟩, PlainAll.mono le rest h.2⟩

theorem PlainMethods.mono (le : k.Le k') : (methods : List (Member Ty)) →
    PlainMethods k methods → PlainMethods k' methods
  | [], _ => by simp [PlainMethods]
  | ⟨_, type⟩ :: rest, h => by
      rw [PlainMethods] at h ⊢
      exact ⟨⟨PlainFunc.mono le type h.1.1, h.1.2⟩, PlainMethods.mono le rest h.2⟩

theorem PlainFunc.mono (le : k.Le k') : (type : Ty) → type.PlainFunc k → type.PlainFunc k'
  | .func ⟨inputs, outputs, _, _, _⟩, h => by
      rw [PlainFunc] at h ⊢
      exact ⟨PlainAll.mono le inputs h.1, PlainAll.mono le outputs h.2.1, h.2.2⟩
  | .prim _, h | .pointer _, h | .slice _, h | .map _ _, h | .struct _, h | .interface _, h
  | .universal, h | .multi _, h | .forward _, h => by simp [PlainFunc] at h

end

theorem Usable.mono (le : k.Le k') {type : Ty} (h : type.Usable k) : type.Usable k' := by
  rcases h with h | ⟨h, hFunction⟩
  · exact .inl (h.mono le)
  · exact .inr ⟨h.mono le, le.function hFunction⟩

end Ty

end GoToC
