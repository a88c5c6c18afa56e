import Mathlib.Data.List.Forall2
import Mathlib.Data.List.Zip
import Mathlib.Order.Basic
import GoToC.Proofs.Routine.LocalNames
import GoToC.Proofs.Types.Comparison

/-!
# Types of two programs that are alike

Two programs that differ in the order of their type declarations build the same types under
different handles and numbers. A ledger lists the structs and interfaces that were made, each
with its twin in the other program. Two types are alike if, once handles are followed, they are
made alike of twins. Whatever is asked of a type has the same answer for one that is alike, or
it has none because the way to the shape is too long.
-/

namespace GoToC

variable {alike alike' : Ty → Ty → Prop} {equal' : Ty → Ty → Faulty Bool}
  {as bs cs ds : List (Member Ty)}

/-! ## Types that are known by name -/

/-- A struct or an interface. -/
inductive NamedType where
  | struct (record : StructType Ty)
  | interface (record : InterfaceType Ty)

namespace NamedType

def toTy : NamedType → Ty
  | struct record => .struct record
  | interface record => .interface record

theorem toTy_injective {a b : NamedType} (h : a.toTy = b.toTy) : a = b := by
  cases a <;> cases b <;> cases h <;> rfl

def package : NamedType → String
  | struct record => record.package
  | interface record => record.package

def name : NamedType → String
  | struct record => record.name
  | interface record => record.name

/-- The fields of a struct, the methods of an interface. -/
def members : NamedType → List (Member Ty)
  | struct record => record.fields
  | interface record => record.methods

/-- What the name of one that was given none starts with. -/
def tag : NamedType → String
  | struct _ => "_struct_"
  | interface _ => "_interface_"

/-- What tells one from another. -/
def title (type : NamedType) : String × String × String := (type.tag, type.package, type.name)

/-- The name is one that was made from a number. -/
def Invented (type : NamedType) (number : Nat) : Prop := type.name = type.tag ++ toString number

end NamedType

/-- A name that starts like those that are made from numbers. -/
def Reserved (name : String) : Prop :=
  (∃ rest, name = "_struct_" ++ rest) ∨ ∃ rest, name = "_interface_" ++ rest

theorem NamedType.Invented.reserved {type : NamedType} {number : Nat} (h : type.Invented number) :
    Reserved type.name := by
  cases type with
  | struct record => exact .inl ⟨toString number, h⟩
  | interface record => exact .inr ⟨toString number, h⟩

/-- The number is told by the name. -/
theorem NamedType.Invented.unique {a b : NamedType} {n m : Nat} (ha : a.Invented n)
    (hb : b.Invented m) (h : a.title = b.title) : n = m := by
  have hTag : a.tag = b.tag := congrArg Prod.fst h
  have hName : a.name = b.name := congrArg (fun title => title.2.2) h
  rw [ha, hb, hTag] at hName
  exact LocalName.toString_injective ((String.append_right_inj _).mp hName)

/-- The structs and interfaces of two programs that correspond to each other. -/
structure Ledger where
  twins : NamedType → NamedType → Prop

namespace Ledger

instance : Preorder Ledger where
  le before after := ∀ a b, before.twins a b → after.twins a b
  le_refl _ _ _ h := h
  le_trans _ _ _ h h' a b hTwins := h' a b (h a b hTwins)

/-- The ledger without entries. -/
def empty : Ledger := ⟨fun _ _ => False⟩

/-- The ledger of the two programs exchanged. -/
def swap (ledger : Ledger) : Ledger := ⟨fun a b => ledger.twins b a⟩

/-- One more entry. -/
def add (ledger : Ledger) (a b : NamedType) : Ledger :=
  ⟨fun x y => ledger.twins x y ∨ x = a ∧ y = b⟩

variable {ledger : Ledger}

theorem le_add (a b : NamedType) : ledger ≤ ledger.add a b := fun _ _ => .inl

end Ledger

/-! ## Alike types -/

/-- Members of one name. -/
def Member.Twin (alike : Ty → Ty → Prop) (a b : Member Ty) : Prop :=
  a.name = b.name ∧ alike a.type b.type

/-- Functions that are made alike. -/
structure FuncType.Twin (alike : Ty → Ty → Prop) (f g : FuncType Ty) : Prop where
  inputs : List.Forall₂ (Member.Twin alike) f.inputs g.inputs
  outputs : List.Forall₂ (Member.Twin alike) f.outputs g.outputs
  variadic : f.variadic = g.variadic
  isMethod : f.isMethod = g.isMethod

theorem Member.Twin.imp (h : ∀ a b, alike a b → alike' a b) {a b : Member Ty}
    (hTwin : Member.Twin alike a b) : Member.Twin alike' a b :=
  ⟨hTwin.1, h _ _ hTwin.2⟩

theorem FuncType.Twin.imp (h : ∀ a b, alike a b → alike' a b) {f g : FuncType Ty}
    (hTwin : FuncType.Twin alike f g) : FuncType.Twin alike' f g :=
  ⟨hTwin.inputs.imp fun _ _ => .imp h, hTwin.outputs.imp fun _ _ => .imp h, hTwin.variadic,
    hTwin.isMethod⟩

/-- Types that are no handles and are made alike of alike types. -/
inductive Shapes (alike : Ty → Ty → Prop) (ledger : Ledger) : Ty → Ty → Prop
  | prim (p : Prim) : Shapes alike ledger (.prim p) (.prim p)
  | pointer {a b} : alike a b → Shapes alike ledger (.pointer a) (.pointer b)
  | slice {a b} : alike a b → Shapes alike ledger (.slice a) (.slice b)
  | map {key value key' value'} : alike key key' → alike value value' →
      Shapes alike ledger (.map key value) (.map key' value')
  | struct {a b} : ledger.twins (.struct a) (.struct b) →
      Shapes alike ledger (.struct a) (.struct b)
  | interface {a b} : ledger.twins (.interface a) (.interface b) →
      Shapes alike ledger (.interface a) (.interface b)
  | universal : Shapes alike ledger .universal .universal
  | func {f g} : FuncType.Twin alike f g → Shapes alike ledger (.func f) (.func g)
  | multi {as bs : List (Member Ty)} : List.Forall₂ (fun a b => alike a.type b.type) as bs →
      Shapes alike ledger (.multi as) (.multi bs)

/-- Types of two stores that are alike once handles are followed. -/
inductive Alike (ledger : Ledger) (left right : TypeStore) : Ty → Ty → Prop
  | left {handle target b} : left.target? handle = some target →
      Alike ledger left right target b → Alike ledger left right (.forward handle) b
  | right {handle a target} : right.target? handle = some target →
      Alike ledger left right a target → Alike ledger left right a (.forward handle)
  | prim (p : Prim) : Alike ledger left right (.prim p) (.prim p)
  | pointer {a b} : Alike ledger left right a b →
      Alike ledger left right (.pointer a) (.pointer b)
  | slice {a b} : Alike ledger left right a b → Alike ledger left right (.slice a) (.slice b)
  | map {key value key' value'} : Alike ledger left right key key' →
      Alike ledger left right value value' →
        Alike ledger left right (.map key value) (.map key' value')
  | struct {a b} : ledger.twins (.struct a) (.struct b) →
      Alike ledger left right (.struct a) (.struct b)
  | interface {a b} : ledger.twins (.interface a) (.interface b) →
      Alike ledger left right (.interface a) (.interface b)
  | universal : Alike ledger left right .universal .universal
  -- The members are taken in pairs, so that the induction goes through the types alone.
  | func {f g} : f.inputs.length = g.inputs.length →
      (∀ a b, (a, b) ∈ f.inputs.zip g.inputs → a.name = b.name) →
      (∀ a b, (a, b) ∈ f.inputs.zip g.inputs → Alike ledger left right a.type b.type) →
      f.outputs.length = g.outputs.length →
      (∀ a b, (a, b) ∈ f.outputs.zip g.outputs → a.name = b.name) →
      (∀ a b, (a, b) ∈ f.outputs.zip g.outputs → Alike ledger left right a.type b.type) →
      f.variadic = g.variadic → f.isMethod = g.isMethod →
        Alike ledger left right (.func f) (.func g)
  | multi {as bs : List (Member Ty)} : as.length = bs.length →
      (∀ a b, (a, b) ∈ as.zip bs → Alike ledger left right a.type b.type) →
        Alike ledger left right (.multi as) (.multi bs)

namespace Alike

variable {ledger ledger' : Ledger} {left right left' right' : TypeStore} {a b shape shape' : Ty}

/-- Types that are made alike are alike. -/
theorem of_shapes (h : Shapes (Alike ledger left right) ledger a b) :
    Alike ledger left right a b := by
  cases h with
  | prim p => exact .prim p
  | pointer h => exact .pointer h
  | slice h => exact .slice h
  | map hKey hValue => exact .map hKey hValue
  | struct h => exact .struct h
  | interface h => exact .interface h
  | universal => exact .universal
  | func h =>
      obtain ⟨hInputs, hIn⟩ := List.forall₂_iff_zip.mp h.inputs
      obtain ⟨hOutputs, hOut⟩ := List.forall₂_iff_zip.mp h.outputs
      exact .func hInputs (fun _ _ hm => (hIn hm).1) (fun _ _ hm => (hIn hm).2) hOutputs
        (fun _ _ hm => (hOut hm).1) (fun _ _ hm => (hOut hm).2) h.variadic h.isMethod
  | multi h =>
      obtain ⟨hLength, hAll⟩ := List.forall₂_iff_zip.mp h
      exact .multi hLength fun _ _ hm => hAll hm

/-- Alike types that are no handles are made alike. -/
theorem shapes (h : Alike ledger left right a b) (ha : ∀ handle, a ≠ .forward handle)
    (hb : ∀ handle, b ≠ .forward handle) : Shapes (Alike ledger left right) ledger a b := by
  cases h with
  | left => exact absurd rfl (ha _)
  | right => exact absurd rfl (hb _)
  | prim p => exact .prim p
  | pointer h => exact .pointer h
  | slice h => exact .slice h
  | map hKey hValue => exact .map hKey hValue
  | struct h => exact .struct h
  | interface h => exact .interface h
  | universal => exact .universal
  | func hInputs hInNames hIn hOutputs hOutNames hOut hVariadic hMethod =>
      exact .func ⟨List.forall₂_iff_zip.mpr ⟨hInputs, fun hm => ⟨hInNames _ _ hm, hIn _ _ hm⟩⟩,
        List.forall₂_iff_zip.mpr ⟨hOutputs, fun hm => ⟨hOutNames _ _ hm, hOut _ _ hm⟩⟩,
        hVariadic, hMethod⟩
  | multi hLength hAll => exact .multi (List.forall₂_iff_zip.mpr ⟨hLength, fun hm => hAll _ _ hm⟩)

/-- More entries and more bindings leave alike types alike. -/
theorem mono (h : Alike ledger left right a b) (hLedger : ledger ≤ ledger')
    (hLeft : left.Extends left') (hRight : right.Extends right') :
    Alike ledger' left' right' a b := by
  induction h with
  | left hTarget _ ih => exact .left (hLeft _ _ hTarget) ih
  | right hTarget _ ih => exact .right (hRight _ _ hTarget) ih
  | prim p => exact .prim p
  | pointer _ ih => exact .pointer ih
  | slice _ ih => exact .slice ih
  | map _ _ ihKey ihValue => exact .map ihKey ihValue
  | struct h => exact .struct (hLedger _ _ h)
  | interface h => exact .interface (hLedger _ _ h)
  | universal => exact .universal
  | func hInputs hInNames _ hOutputs hOutNames _ hVariadic hMethod ihIn ihOut =>
      exact .func hInputs hInNames ihIn hOutputs hOutNames ihOut hVariadic hMethod
  | multi hLength _ ih => exact .multi hLength ih

/-- The same with the two programs exchanged. -/
theorem symm (h : Alike ledger left right a b) : Alike ledger.swap right left b a := by
  have hZip {as bs : List (Member Ty)} {x y : Member Ty} (hm : (x, y) ∈ bs.zip as) :
      (y, x) ∈ as.zip bs := by
    rw [← List.zip_swap, List.mem_map]
    exact ⟨(x, y), hm, rfl⟩
  induction h with
  | left hTarget _ ih => exact .right hTarget ih
  | right hTarget _ ih => exact .left hTarget ih
  | prim p => exact .prim p
  | pointer _ ih => exact .pointer ih
  | slice _ ih => exact .slice ih
  | map _ _ ihKey ihValue => exact .map ihKey ihValue
  | struct h => exact .struct h
  | interface h => exact .interface h
  | universal => exact .universal
  | func hInputs hInNames _ hOutputs hOutNames _ hVariadic hMethod ihIn ihOut =>
      exact .func hInputs.symm (fun x y hm => (hInNames y x (hZip hm)).symm)
        (fun x y hm => ihIn y x (hZip hm)) hOutputs.symm
        (fun x y hm => (hOutNames y x (hZip hm)).symm) (fun x y hm => ihOut y x (hZip hm))
        hVariadic.symm hMethod.symm
  | multi hLength _ ih => exact .multi hLength.symm fun x y hm => ih y x (hZip hm)

/-! ## Shapes -/

theorem target_left {handle : Handle} (h : Alike ledger left right (.forward handle) b) :
    ∃ target, left.target? handle = some target ∧ Alike ledger left right target b := by
  generalize ha : Ty.forward handle = a at h
  induction h with
  | left hTarget hRest =>
      cases ha
      exact ⟨_, hTarget, hRest⟩
  | right hTarget _ ih =>
      obtain ⟨target, hFound, hAlike⟩ := ih ha
      exact ⟨target, hFound, .right hTarget hAlike⟩
  | _ => cases ha

/-- A handle that is alike to something is followed to its shape, unless that is too far. -/
theorem follow_left (h : Alike ledger left right a b) (start : Ty) (hops : Nat) :
    (∃ shape, left.follow start hops a = .ok shape ∧ Alike ledger left right shape b) ∨
      left.follow start hops a = .error (.tooDeep start.display) := by
  induction hops generalizing a with
  | zero => exact .inr rfl
  | succ hops ih =>
      cases a with
      | forward handle =>
          obtain ⟨target, hTarget, hAlike⟩ := h.target_left
          rw [TypeStore.follow, hTarget]
          exact ih hAlike
      | _ => exact .inl ⟨_, rfl, h⟩

theorem follow_right (h : Alike ledger left right a b) (start : Ty) (hops : Nat) :
    (∃ shape, right.follow start hops b = .ok shape ∧ Alike ledger left right a shape) ∨
      right.follow start hops b = .error (.tooDeep start.display) := by
  rcases h.symm.follow_left start hops with ⟨shape, hFollow, hAlike⟩ | hDeep
  · exact .inl ⟨shape, hFollow, hAlike.symm⟩
  · exact .inr hDeep

/-- Both types have a shape, and the shapes are made alike, or one is too far. -/
theorem resolve (h : Alike ledger left right a b) (ha : left.resolve a = .ok shape) :
    (∃ shape', right.resolve b = .ok shape' ∧
      Shapes (Alike ledger left right) ledger shape shape') ∨
      right.resolve b = .error (.tooDeep b.display) := by
  rcases h.follow_left a TypeStore.maxHops with ⟨found, hFound, hAlike⟩ | hDeep
  · obtain rfl : shape = found := Except.ok.inj (ha.symm.trans hFound)
    rcases hAlike.follow_right b TypeStore.maxHops with ⟨shape', hFollow, hBoth⟩ | hDeep
    · exact .inl ⟨shape', hFollow, hBoth.shapes (TypeStore.resolve_not_forward ha)
        (TypeStore.resolve_not_forward hFollow)⟩
    · exact .inr hDeep
  · exact absurd (ha.symm.trans hDeep) (by simp)

end Alike

/-! ## Answers -/

/-- A fault that one program may have although a program that is alike has none. -/
def Fault.Excused (fault : Fault) : Prop := fault ≠ .notConvertible .castFrom Prim.type.name

/-- Where one question is answered, the other one is answered accordingly or in vain. -/
def Echoes {α β : Type} (answer : Faulty α) (echo : Faulty β) (good : α → β → Prop) : Prop :=
  ∀ value, answer = .ok value →
    (∃ value', echo = .ok value' ∧ good value value') ∨ ∃ fault, echo = .error fault ∧ fault.Excused

/-- A question whose faults are all excused. -/
def Mild {α : Type} (answer : Faulty α) : Prop := ∀ fault, answer = .error fault → fault.Excused

section Echoes

variable {α β γ δ : Type} {answer : Faulty α} {echo : Faulty β} {good : α → β → Prop}

theorem Echoes.pure {value : α} {value' : β} (h : good value value') :
    Echoes (pure value) (pure value') good := by
  intro found hFound
  cases hFound
  exact .inl ⟨value', rfl, h⟩

theorem Echoes.bind {next : α → Faulty γ} {next' : β → Faulty δ} {good' : γ → δ → Prop}
    (h : Echoes answer echo good)
    (hNext : ∀ value value', good value value' → Echoes (next value) (next' value') good') :
    Echoes (answer >>= next) (echo >>= next') good' := by
  intro last hLast
  obtain ⟨value, hValue, hRest⟩ := Faulty.bind_eq_ok.mp hLast
  rcases h value hValue with ⟨value', rfl, hGood⟩ | ⟨fault, rfl, hFault⟩
  · exact hNext value value' hGood last hRest
  · exact .inr ⟨fault, rfl, hFault⟩

/-- What is asked in vain needs no echo. -/
theorem Echoes.fault {fault : Fault} : Echoes (.error fault) echo good := fun _ h => by cases h

theorem Mild.echoes (h : Mild echo) : Echoes answer echo fun _ _ => True := by
  intro value _
  cases hEcho : echo with
  | ok value' => exact .inl ⟨value', rfl, trivial⟩
  | error fault => exact .inr ⟨fault, rfl, h fault hEcho⟩

theorem Mild.pure {value : α} : Mild (pure value) := fun _ h => by cases h

theorem Mild.ok {value : α} : Mild (.ok value) := fun _ h => by cases h

theorem Mild.fail {fault : Fault} (h : fault.Excused) : Mild (.error fault : Faulty α) := by
  rintro _ ⟨⟩
  exact h

theorem Mild.bind {next : α → Faulty γ} (h : Mild answer) (hNext : ∀ value, Mild (next value)) :
    Mild (answer >>= next) := by
  cases answer with
  | ok value => exact hNext value
  | error fault => exact .fail (h fault rfl)

theorem Mild.map {f : α → γ} (h : Mild answer) : Mild (answer.map f) := by
  cases answer with
  | ok value => exact .ok
  | error fault => exact .fail (h fault rfl)

end Echoes

namespace TypeStore

variable {store : TypeStore} {type : Ty}

theorem mild_peel : Mild (store.peel type) := by
  unfold peel
  split
  · exact .ok
  · exact .fail (by simp [Fault.Excused])

theorem mild_cType : Mild (store.cType type) := by
  refine mild_peel.bind fun shape => ?_
  split
  case h_10 => exact .fail (by simp [Fault.Excused])
  all_goals exact .pure

theorem mild_isStorable : Mild (store.isStorable type) := by
  refine mild_peel.bind fun shape => ?_
  split <;> exact .pure

theorem mild_zeroValue : Mild (store.zeroValue type) := by
  refine mild_peel.bind fun shape => Mild.bind ?_ fun hasZero => ?_
  · refine mild_peel.bind fun shape => ?_
    split
    · exact .pure
    · exact mild_isStorable
  · cases hasZero with
    | false => exact .fail (by simp [Fault.Excused])
    | true =>
        simp only [Bool.not_true, Bool.false_eq_true, if_false]
        split <;> exact .ok

theorem mild_params (nameAt : Nat → String) (isPointer : Bool) (index : Nat)
    (members : List (Member Ty)) : Mild (store.params nameAt isPointer index members) := by
  induction members generalizing index with
  | nil => exact .ok
  | cons member rest ih => exact mild_cType.bind fun _ => (ih (index + 1)).bind fun _ => .pure

theorem mild_prototype (func : FuncType Ty) (name : String) : Mild (store.prototype func name) := by
  unfold prototype
  split
  · exact mild_cType.bind fun _ => (mild_params _ _ _ _).bind fun _ => .pure
  · exact (mild_params _ _ _ _).bind fun _ => (mild_params _ _ _ _).bind fun _ => .pure

theorem mild_func? : Mild (store.func? type) := by
  refine mild_peel.bind fun shape => ?_
  split <;> exact .pure

theorem mild_request (supply : TypedefSupply) : Mild (supply.request store type).1 := by
  unfold TypedefSupply.request
  split
  · next fault hFault => exact .fail (mild_func? fault hFault)
  · exact .ok
  · split
    · exact .ok
    · have hDefinition : Mild (TypedefSupply.definition store ‹_›) :=
        (mild_prototype _ _).bind fun _ => .pure
      exact hDefinition.map

end TypeStore

theorem exceptBind_eq_ok {ε α β : Type} {x : Except ε α} {next : α → Except ε β} {value : β}
    (h : x >>= next = .ok value) : ∃ first, x = .ok first ∧ next first = .ok value := by
  cases x with
  | ok first => exact ⟨first, rfl, h⟩
  | error cause => cases h

/-! ## Questions about alike types -/

/-- No title belongs to two entries. -/
structure Ledger.OneToOne (ledger : Ledger) : Prop where
  left : ∀ a b c d, ledger.twins a b → ledger.twins c d → a.title = c.title → a = c ∧ b = d
  right : ∀ a b c d, ledger.twins a b → ledger.twins c d → b.title = d.title → a = c ∧ b = d

/-- Two types have one title exactly if their twins have. -/
theorem Ledger.OneToOne.title_iff {ledger : Ledger} (h : ledger.OneToOne) {a b c d : NamedType}
    (hFirst : ledger.twins a b) (hSecond : ledger.twins c d) :
    a.title = c.title ↔ b.title = d.title := by
  constructor
  · intro hTitle
    rw [(h.left a b c d hFirst hSecond hTitle).2]
  · intro hTitle
    rw [(h.right a b c d hFirst hSecond hTitle).1]

namespace Alike

variable {ledger : Ledger} {left right : TypeStore} {a b a' b' : Ty}

theorem peel (h : Alike ledger left right a b) :
    Echoes (left.peel a) (right.peel b) (Shapes (Alike ledger left right) ledger) := by
  intro shape hPeel
  rcases h.resolve (TypeStore.resolve_of_peel hPeel) with ⟨shape', hShape, hBoth⟩ | hDeep
  · exact .inl ⟨shape', by rw [TypeStore.peel, hShape], hBoth⟩
  · exact .inr ⟨_, by rw [TypeStore.peel, hDeep], by simp [Fault.Excused]⟩

theorem isPrim (h : Alike ledger left right a b) (prim : Prim) :
    Echoes (left.isPrim a prim) (right.isPrim b prim) Eq := by
  refine h.peel.bind fun _ _ hShapes => ?_
  cases hShapes <;> exact .pure rfl

theorem isStorable (h : Alike ledger left right a b) :
    Echoes (left.isStorable a) (right.isStorable b) Eq := by
  refine h.peel.bind fun _ _ hShapes => ?_
  cases hShapes <;> exact .pure rfl

theorem hasZeroValue (h : Alike ledger left right a b) :
    Echoes (left.hasZeroValue a) (right.hasZeroValue b) Eq := by
  refine h.peel.bind fun _ _ hShapes => ?_
  have hStorable := (of_shapes hShapes).isStorable
  cases hShapes with
  | struct => exact .pure rfl
  | _ => exact hStorable

theorem element? (h : Alike ledger left right a b) :
    Echoes (left.element? a) (right.element? b) (Option.Rel (Alike ledger left right)) := by
  refine h.peel.bind fun _ _ hShapes => ?_
  cases hShapes with
  | slice h => exact .pure (.some h)
  | map _ h => exact .pure (.some h)
  | prim p =>
      cases p with
      | string => exact .pure (.some (.prim .byte))
      | _ => exact .pure .none
  | _ => exact .pure .none

theorem sliceElement? (h : Alike ledger left right a b) :
    Echoes (left.sliceElement? a) (right.sliceElement? b)
      (Option.Rel (Alike ledger left right)) := by
  refine h.peel.bind fun _ _ hShapes => ?_
  cases hShapes with
  | slice h => exact .pure (.some h)
  | _ => exact .pure .none

theorem struct? (h : Alike ledger left right a b) : Echoes (left.struct? a) (right.struct? b)
      (Option.Rel fun r t => ledger.twins (.struct r) (.struct t)) := by
  refine h.peel.bind fun _ _ hShapes => ?_
  cases hShapes with
  | struct h => exact .pure (.some h)
  | _ => exact .pure .none

theorem pointeeStruct? (h : Alike ledger left right a b) :
    Echoes (left.pointeeStruct? a) (right.pointeeStruct? b)
      (Option.Rel fun r t => ledger.twins (.struct r) (.struct t)) := by
  refine h.peel.bind fun _ _ hShapes => ?_
  cases hShapes with
  | pointer h => exact h.struct?
  | _ => exact .pure .none

theorem interface? (h : Alike ledger left right a b) :
    Echoes (left.interface? a) (right.interface? b)
      (Option.Rel fun r t => ledger.twins (.interface r) (.interface t)) := by
  refine h.peel.bind fun _ _ hShapes => ?_
  cases hShapes with
  | interface h => exact .pure (.some h)
  | _ => exact .pure .none

theorem func? (h : Alike ledger left right a b) : Echoes (left.func? a) (right.func? b)
      (Option.Rel (FuncType.Twin (Alike ledger left right))) := by
  refine h.peel.bind fun _ _ hShapes => ?_
  cases hShapes with
  | func h => exact .pure (.some h)
  | _ => exact .pure .none

theorem multi? (h : Alike ledger left right a b) : Echoes (left.multi? a) (right.multi? b)
      (Option.Rel (List.Forall₂ fun x y => Alike ledger left right x.type y.type)) := by
  refine h.peel.bind fun _ _ hShapes => ?_
  cases hShapes with
  | multi h => exact .pure (.some h)
  | _ => exact .pure .none

/-! ### Validation -/

/-- A type that is alike to one that can be inspected can be inspected too, or it is too deep. -/
theorem validateWithin {levels levels' : Nat} (h : Alike ledger left right a b)
    (hLeft : left.validateWithin levels a = .ok ()) :
    right.validateWithin levels' b = .ok () ∨
      ∃ name, right.validateWithin levels' b = .error (.tooDeep name) := by
  induction levels' generalizing levels a b with
  | zero => exact .inr ⟨_, rfl⟩
  | succ levels' ih =>
      cases levels with
      | zero => cases hLeft
      | succ levels =>
          rw [TypeStore.validateWithin] at hLeft ⊢
          cases hShape : left.resolve a with
          | error cause =>
              rw [hShape] at hLeft
              cases hLeft
          | ok shape =>
              rw [hShape] at hLeft
              rcases h.resolve hShape with ⟨shape', hShape', hBoth⟩ | hDeep
              · rw [hShape']
                cases hBoth with
                | pointer h => exact ih h hLeft
                | slice h => exact ih h hLeft
                | @map key value key' value' hKey hValue =>
                    have hParts : (left.validateWithin levels key >>= fun _ =>
                      left.validateWithin levels value) = .ok () := hLeft
                    obtain ⟨_, hFirst, hSecond⟩ := exceptBind_eq_ok hParts
                    rcases ih hKey hFirst with hOk | ⟨name, hDeep⟩
                    · rcases ih hValue hSecond with hOk' | ⟨name, hDeep⟩
                      · exact .inl (by simp [Bind.bind, Except.bind, hOk, hOk'])
                      · exact .inr ⟨name, by simp [Bind.bind, Except.bind, hOk, hDeep]⟩
                    · exact .inr ⟨name, by simp [Bind.bind, Except.bind, hDeep]⟩
                | _ => exact .inl rfl
              · rw [hDeep]
                exact .inr ⟨_, rfl⟩

theorem validate (h : Alike ledger left right a b) (hLeft : left.validate a = .ok ()) :
    right.validate b = .ok () ∨ ∃ name, right.validate b = .error (.tooDeep name) :=
  h.validateWithin hLeft

/-! ### Comparison -/

/-- The second of two comparisons that depends on the first. -/
theorem echoes_ite {x x' rest rest' : Faulty Bool} (h : Echoes x x' Eq)
    (hRest : Echoes rest rest' Eq) :
    Echoes (do if ← x then rest else return false)
      (do if ← x' then rest' else return false) Eq := by
  refine h.bind fun same _ hSame => ?_
  subst hSame
  cases same with
  | true => exact hRest
  | false => exact .pure rfl

theorem echoes_agree {equal : Ty → Ty → Faulty Bool}
    (h : ∀ a b c d, alike a b → alike c d → Echoes (equal a c) (equal' b d) Eq)
    (hFirst : List.Forall₂ (Member.Twin alike) as bs)
    (hSecond : List.Forall₂ (Member.Twin alike) cs ds) :
    Echoes (TypeStore.agree equal as cs) (TypeStore.agree equal' bs ds) Eq := by
  induction hFirst generalizing cs ds with
  | nil => cases hSecond <;> exact .pure rfl
  | cons hHead _ ih =>
      cases hSecond with
      | nil => exact .pure rfl
      | cons hHead' hTail' => exact echoes_ite (h _ _ _ _ hHead.2 hHead'.2) (ih hTail')

theorem echoes_sameTypes {equal : Ty → Ty → Faulty Bool}
    (h : ∀ a b c d, alike a b → alike c d → Echoes (equal a c) (equal' b d) Eq)
    (hFirst : List.Forall₂ (Member.Twin alike) as bs)
    (hSecond : List.Forall₂ (Member.Twin alike) cs ds) :
    Echoes (TypeStore.sameTypes equal as cs) (TypeStore.sameTypes equal' bs ds) Eq := by
  unfold TypeStore.sameTypes
  rw [← hFirst.length_eq, ← hSecond.length_eq]
  split
  · exact echoes_agree h hFirst hSecond
  · exact .pure rfl

theorem equalWithin (hLedger : ledger.OneToOne) (levels levels' : Nat)
    (h : Alike ledger left right a b) (h' : Alike ledger left right a' b') :
    Echoes (left.equalWithin levels a a') (right.equalWithin levels' b b') Eq := by
  induction levels generalizing levels' a b a' b' with
  | zero => exact .fault
  | succ levels ih =>
      cases levels' with
      | zero => exact fun _ _ => .inr ⟨_, rfl, by simp [Fault.Excused]⟩
      | succ levels' =>
          rw [TypeStore.equalWithin, TypeStore.equalWithin]
          refine h.peel.bind fun _ _ hShapes => h'.peel.bind fun _ _ hShapes' => ?_
          cases hShapes with
          | prim p =>
              cases hShapes' with
              | multi => exact .fault
              | _ => exact .pure rfl
          | pointer hInner =>
              cases hShapes' with
              | pointer hInner' => exact ih levels' hInner hInner'
              | multi => exact .fault
              | _ => exact .pure rfl
          | slice hElem =>
              cases hShapes' with
              | slice hElem' => exact ih levels' hElem hElem'
              | multi => exact .fault
              | _ => exact .pure rfl
          | map hKey hValue =>
              cases hShapes' with
              | map hKey' hValue' =>
                  exact echoes_ite (ih levels' hKey hKey') (ih levels' hValue hValue')
              | multi => exact .fault
              | _ => exact .pure rfl
          | struct hTwins =>
              cases hShapes' with
              | struct hTwins' =>
                  have hIff := hLedger.title_iff hTwins hTwins'
                  refine .pure (Bool.eq_iff_iff.mpr ?_)
                  simpa [NamedType.title, NamedType.tag, NamedType.package,
                    NamedType.name] using hIff
              | multi => exact .fault
              | _ => exact .pure rfl
          | interface hTwins =>
              cases hShapes' with
              | interface hTwins' =>
                  have hIff := hLedger.title_iff hTwins hTwins'
                  refine .pure (Bool.eq_iff_iff.mpr ?_)
                  simpa [NamedType.title, NamedType.tag, NamedType.package,
                    NamedType.name] using hIff
              | multi => exact .fault
              | _ => exact .pure rfl
          | universal =>
              cases hShapes' with
              | multi => exact .fault
              | _ => exact .pure rfl
          | func hFunc =>
              cases hShapes' with
              | func hFunc' =>
                  have hParts (c d c' d' : Ty) (hFirst : Alike ledger left right c d)
                      (hSecond : Alike ledger left right c' d') := ih levels' hFirst hSecond
                  simp only [hFunc.variadic, hFunc'.variadic]
                  split
                  · exact .pure rfl
                  · exact echoes_ite (echoes_sameTypes hParts hFunc.inputs hFunc'.inputs)
                      (echoes_sameTypes hParts hFunc.outputs hFunc'.outputs)
              | multi => exact .fault
              | _ => exact .pure rfl
          | multi => exact .fault

theorem equal (hLedger : ledger.OneToOne) (h : Alike ledger left right a b)
    (h' : Alike ledger left right a' b') : Echoes (left.equal a a') (right.equal b b') Eq := by
  obtain ⟨levels, hLeft⟩ := left.exists_equalWithin a a'
  obtain ⟨levels', hRight⟩ := right.exists_equalWithin b b'
  rw [hLeft, hRight]
  exact equalWithin hLedger levels levels' h h'

/-! ### Conversion -/

theorem checkConvertible (side : ConversionSide) {shape shape' : Ty}
    (h : Shapes (Alike ledger left right) ledger shape shape') :
    Echoes (TypeStore.checkConvertible side shape) (TypeStore.checkConvertible side shape')
      fun _ _ => True := by
  cases h with
  | prim p =>
      cases p with
      | type => exact .fault
      | _ => exact .pure trivial
  | func => exact .fault
  | multi => exact .fault
  | _ => exact .pure trivial

theorem implicitConversion {dest dest' src src' : Ty}
    (hDest : Shapes (Alike ledger left right) ledger dest dest')
    (hSrc : Shapes (Alike ledger left right) ledger src src') :
    Echoes (left.implicitConversion dest src) (right.implicitConversion dest' src') Eq := by
  have hPointer {a b : Ty} (h : Alike ledger left right a b) :
      Echoes (do return (← left.struct? a).map fun _ => Conversion.toInterface)
        (do return (← right.struct? b).map fun _ => Conversion.toInterface) Eq := by
    refine h.struct?.bind fun _ _ hFound => ?_
    cases hFound <;> exact .pure rfl
  cases hDest with
  | prim p =>
      cases hSrc with
      | prim q => cases q <;> exact .pure rfl
      | _ => exact .pure rfl
  | interface =>
      cases hSrc with
      | pointer hInner => exact hPointer hInner
      | prim q => cases q <;> exact .pure rfl
      | _ => exact .pure rfl
  | universal =>
      cases hSrc with
      | pointer hInner => exact hPointer hInner
      | prim q => cases q <;> exact .pure rfl
      | _ => exact .pure rfl
  | _ =>
      cases hSrc with
      | prim q => cases q <;> exact .pure rfl
      | _ => exact .pure rfl

theorem assign (hLedger : ledger.OneToOne) (hDest : Alike ledger left right a b)
    (hSrc : Alike ledger left right a' b') : Echoes (left.assign a a') (right.assign b b') Eq := by
  refine hDest.peel.bind fun dest dest' hShape => hSrc.peel.bind fun src src' hShape' => ?_
  refine (checkConvertible .assignTo hShape).bind fun _ _ _ => ?_
  have hRest : Echoes (do
      if ← left.equal dest src then return some Conversion.keep
      left.implicitConversion dest src) (do
      if ← right.equal dest' src' then return some Conversion.keep
      right.implicitConversion dest' src') Eq := by
    refine (equal hLedger (of_shapes hShape) (of_shapes hShape')).bind fun same _ hSame => ?_
    subst hSame
    cases same with
    | true => exact .pure rfl
    | false => exact implicitConversion hShape hShape'
  cases hShape' with
  | multi => exact .fault
  | _ => exact hRest

theorem cast (hLedger : ledger.OneToOne) (hDest : Alike ledger left right a b)
    (hSrc : Alike ledger left right a' b') : Echoes (left.cast a a') (right.cast b b') Eq := by
  refine hDest.peel.bind fun _ _ hShape => hSrc.peel.bind fun _ _ hShape' => ?_
  refine (checkConvertible .castTo hShape).bind fun _ _ _ => ?_
  refine (checkConvertible .castFrom hShape').bind fun _ _ _ => ?_
  refine (assign hLedger (of_shapes hShape) (of_shapes hShape')).bind fun found _ hFound => ?_
  subst hFound
  cases found with
  | some conversion => exact .pure rfl
  | none =>
      cases hShape with
      | prim p => cases hShape' <;> exact .pure rfl
      | _ => exact .pure rfl

end Alike

end GoToC
