import GoToC.Proofs.C.Nesting
import GoToC.Proofs.Routine.Actions

/-!
# Names that a routine is written with

The names in the statements of a routine are words of the source, or made of such words and numbers.
The words of parameters and structs come by way of types, so types are followed too: through the
store, through the values of globals, and through all that the blocks of a routine declare. The C
names of globals come from the values of globals and from the methods of structs, and from nowhere
else, whatever all other names are.
-/

namespace GoToC

variable {name text : String} {func : FuncType Ty} {members : List (Member Ty)} {found : Option Ty}

/-! ## Types -/

namespace Ty

mutual

/-- A type whose structs, members and parameters have names made of letters, digits and
underscores. -/
def Worded : Ty → Prop
  | .prim _ => True
  | .pointer inner => inner.Worded
  | .slice elem => elem.Worded
  | .map key value => key.Worded ∧ value.Worded
  | .struct ⟨_, package, name, fields⟩ =>
      isWordTail package = true ∧ isWordTail name = true ∧ WordedAll fields
  | .interface ⟨_, _, methods⟩ => WordedAll methods
  | .universal => True
  | .func ⟨inputs, outputs, _, _, _⟩ => WordedAll inputs ∧ WordedAll outputs
  | .multi members => WordedAll members
  | .forward _ => True

def WordedAll : List (Member Ty) → Prop
  | [] => True
  | ⟨name, type⟩ :: rest => (NamedByIdentifier name ∧ type.Worded) ∧ WordedAll rest

end

theorem wordedAll_iff :
    WordedAll members ↔ ∀ member ∈ members, NamedByIdentifier member.name ∧ member.type.Worded := by
  induction members with
  | nil => simp [WordedAll]
  | cons member rest ih =>
      rw [List.forall_mem_cons, ← ih]
      exact Iff.rfl

theorem Worded.field {record : StructType Ty} (h : (Ty.struct record).Worded) {name : String}
    {field : Member Ty} (hField : record.field? name = some field) : field.type.Worded :=
  (wordedAll_iff.mp h.2.2 field (List.mem_of_find?_eq_some hField)).2

theorem Worded.struct_cName {record : StructType Ty} (h : (Ty.struct record).Worded) :
    isWordTail record.cName = true :=
  isWordTail_append.mpr ⟨isWordTail_append.mpr ⟨h.1, isWordTail_gaps.2⟩, h.2.1⟩

end Ty

/-- A name that cannot be referred to is empty or blank. -/
theorem isWordTail_of_named (h : NamedByIdentifier name) : isWordTail name = true := by
  cases hNamed : isNamed name with
  | true => exact isWordTail_of_isIdentifier (h hNamed)
  | false =>
      simp only [isNamed, Bool.and_eq_false_iff, bne_eq_false_iff_eq] at hNamed
      rcases hNamed with rfl | rfl
      · rfl
      · exact isWordTail_gaps.1

/-- A C name is made of letters, digits and underscores. -/
theorem isWordTail_of_isCName (h : isCName name = true) :
    isWordTail name = true := isWordTail_of_isIdentifier (isIdentifier_of_isCName h)

theorem Ty.Worded.inputName (h : (Ty.func func).Worded) (index : Nat) :
    isWordTail (func.inputName index) = true :=
  isWordTail_of_isCName (isCName_inputName func index fun input hInput =>
    (Ty.wordedAll_iff.mp h.1 input hInput).1)

/-- The pointers that a function hands its outputs back through. -/
theorem Ty.Worded.outputName (h : (Ty.func func).Worded) (index : Nat) :
    isWordTail (func.outputName index) = true :=
  isWordTail_of_isCName (isCName_outputName func index fun output hOutput =>
    (Ty.wordedAll_iff.mp h.2 output hOutput).1)

namespace TypeStore

/-- A store whose types, and those of its methods, have such names. -/
structure Worded (store : TypeStore) : Prop where
  bound : ∀ entry ∈ store.bound, entry.2.Worded
  methods : ∀ entry ∈ store.methods, entry.2.type.Worded

variable {store : TypeStore} {type shape : Ty}

theorem Worded.follow (h : store.Worded) {start : Ty} {hops : Nat} (hType : type.Worded)
    (hShape : store.follow start hops type = .ok shape) : shape.Worded := by
  induction hops generalizing type with
  | zero => cases hShape
  | succ hops ih =>
      cases type with
      | forward handle =>
          rw [TypeStore.follow] at hShape
          split at hShape
          · cases hShape
          · next next hTarget =>
              obtain ⟨before, rest, hBound, -⟩ := List.lookup_eq_some_iff.mp hTarget
              exact ih (h.bound (handle.id, next) (by simp [hBound])) hShape
      | _ =>
          cases hShape
          exact hType

theorem Worded.peel (h : store.Worded) (hType : type.Worded)
    (hShape : store.peel type = .ok shape) : shape.Worded := by
  unfold TypeStore.peel resolve at hShape
  split at hShape
  · next found hFound =>
      cases hShape
      exact h.follow hType hFound
  · cases hShape

/-- What is found out about a type is found out about its shape. -/
theorem Worded.of_peel (h : store.Worded) (hType : type.Worded) {α : Type} {next : Ty → Faulty α}
    {found : α} (hFound : store.peel type >>= next = .ok found) :
    ∃ shape : Ty, shape.Worded ∧ next shape = .ok found := by
  obtain ⟨shape, hShape, hFound⟩ := Faulty.bind_eq_ok.mp hFound
  exact ⟨shape, h.peel hType hShape, hFound⟩

theorem Worded.element? (h : store.Worded) (hType : type.Worded)
    (hFound : store.element? type = .ok found) : ∀ elem ∈ found, elem.Worded := by
  obtain ⟨shape, hWorded, hFound⟩ := h.of_peel hType hFound
  split at hFound
  · cases hFound
    simpa [Ty.Worded] using hWorded
  · cases hFound
    simpa [Ty.Worded] using hWorded.2
  · cases hFound
    simp [Ty.Worded]
  · cases hFound
    simp

theorem Worded.sliceElement? (h : store.Worded) (hType : type.Worded)
    (hFound : store.sliceElement? type = .ok found) : ∀ elem ∈ found, elem.Worded := by
  obtain ⟨shape, hWorded, hFound⟩ := h.of_peel hType hFound
  split at hFound
  · cases hFound
    simpa [Ty.Worded] using hWorded
  · cases hFound
    simp

theorem Worded.struct? (h : store.Worded) (hType : type.Worded) {found : Option (StructType Ty)}
    (hFound : store.struct? type = .ok found) : ∀ record ∈ found, (Ty.struct record).Worded := by
  obtain ⟨shape, hWorded, hFound⟩ := h.of_peel hType hFound
  split at hFound
  · cases hFound
    simpa using hWorded
  · cases hFound
    simp

theorem Worded.pointeeStruct? (h : store.Worded) (hType : type.Worded)
    {found : Option (StructType Ty)} (hFound : store.pointeeStruct? type = .ok found) :
    ∀ record ∈ found, (Ty.struct record).Worded := by
  obtain ⟨shape, hWorded, hFound⟩ := h.of_peel hType hFound
  split at hFound
  · rw [Ty.Worded] at hWorded
    exact h.struct? hWorded hFound
  · cases hFound
    simp

theorem Worded.interface? (h : store.Worded) (hType : type.Worded)
    {found : Option (InterfaceType Ty)} (hFound : store.interface? type = .ok found) :
    ∀ record ∈ found, (Ty.interface record).Worded := by
  obtain ⟨shape, hWorded, hFound⟩ := h.of_peel hType hFound
  split at hFound
  · cases hFound
    simpa using hWorded
  · cases hFound
    simp

theorem Worded.func? (h : store.Worded) (hType : type.Worded) {found : Option (FuncType Ty)}
    (hFound : store.func? type = .ok found) : ∀ func ∈ found, (Ty.func func).Worded := by
  obtain ⟨shape, hWorded, hFound⟩ := h.of_peel hType hFound
  split at hFound
  · cases hFound
    simpa using hWorded
  · cases hFound
    simp

theorem Worded.multi? (h : store.Worded) (hType : type.Worded) {found : Option (List (Member Ty))}
    (hFound : store.multi? type = .ok found) : ∀ members ∈ found, Ty.WordedAll members := by
  obtain ⟨shape, hWorded, hFound⟩ := h.of_peel hType hFound
  split at hFound
  · cases hFound
    simpa [Ty.Worded] using hWorded
  · cases hFound
    simp

/-- The C type of any type is an identifier. -/
theorem isWordTail_cType (h : store.cType type = .ok text) : isWordTail text = true := by
  obtain ⟨shape, -, hText⟩ := Faulty.bind_eq_ok.mp h
  have hFixed : ∀ text ∈ ["Pointer", "Slice", "Map", "Struct", "Interface", "Multi"],
    isWordTail text = true := by decide +kernel
  cases shape with
  | prim p =>
      cases hText
      exact isWordTail_of_isIdentifier (isIdentifier_cType p)
  | func func =>
      cases hText
      exact isWordTail_of_isIdentifier (isIdentifier_typedefName func)
  | forward handle => cases hText
  | _ =>
      cases hText
      exact hFixed _ (by simp)

theorem balanced_zeroValue (h : store.zeroValue type = .ok text) : Balanced text := by
  obtain ⟨shape, -, hText⟩ := Faulty.bind_eq_ok.mp h
  obtain ⟨hasZero, -, hText⟩ := Faulty.bind_eq_ok.mp hText
  dsimp only at hText
  split at hText
  · cases hText
  · split at hText
    · cases hText
      exact fun _ => rfl
    · cases hText
      exact fun _ => rfl
    · cases hText
      exact fun _ => rfl
    · cases hText
      exact fun _ => rfl

/-! ## Headings -/

theorem worded_params {nameAt : Nat → String} {isPointer : Bool} {index : Nat}
    {params : List CParam} (hName : ∀ index, isWordTail (nameAt index) = true)
    (h : store.params nameAt isPointer index members = .ok params) :
    ∀ param ∈ params, param.Worded := by
  induction members generalizing index params with
  | nil =>
      cases h
      simp
  | cons member rest ih =>
      obtain ⟨type, hType, h⟩ := Faulty.bind_eq_ok.mp h
      obtain ⟨others, hOthers, h⟩ := Faulty.bind_eq_ok.mp h
      cases h
      rintro param (_ | ⟨_, hParam⟩)
      · exact ⟨isWordTail_cType hType, hName index⟩
      · exact ih hOthers param hParam

theorem worded_prototype {prototype : Prototype} (hFunc : (Ty.func func).Worded)
    (hName : Balanced name) (h : store.prototype func name = .ok prototype) : prototype.Worded := by
  cases prototype_eq_ok h with
  | returned _ hResult hParams =>
      exact ⟨isWordTail_cType hResult, hName, worded_params hFunc.inputName hParams⟩
  | passed _ hParams hResults =>
      have hVoid : isWordTail "void" = true := by decide
      refine ⟨hVoid, hName, fun param hParam => ?_⟩
      rcases List.mem_append.mp hParam with hParam | hParam
      · exact worded_params hFunc.inputName hParams param hParam
      · exact worded_params hFunc.outputName hResults param hParam

/-- The definition of a pointer type that is handed out. -/
theorem Worded.request (h : store.Worded) (hType : type.Worded) (supply : TypedefSupply)
    {item : CItem} (hItem : (supply.request store type).1 = .ok (some item)) : item.Worded := by
  unfold TypedefSupply.request at hItem
  split at hItem
  · cases hItem
  · cases hItem
  · next func hFunc =>
      split at hItem
      · cases hItem
      · have hMade : TypedefSupply.definition store func = .ok item := by
          cases hDefinition : TypedefSupply.definition store func with
          | error fault =>
              rw [hDefinition] at hItem
              cases hItem
          | ok found =>
              rw [hDefinition] at hItem
              cases hItem
              rfl
        obtain ⟨prototype, hPrototype, hMade⟩ := Faulty.bind_eq_ok.mp hMade
        cases hMade
        have hName : Balanced ("(*" ++ func.typedefName ++ ")") := fun _ =>
          .append (.append rfl (balanced_word (isWordTail_of_isIdentifier
            (isIdentifier_typedefName func)) _)) rfl
        exact worded_prototype (h.func? hType hFunc func rfl) hName hPrototype

end TypeStore

end GoToC
