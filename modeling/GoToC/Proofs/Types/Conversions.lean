import GoToC.Proofs.Types.Equality

/-!
# Conversions between types

Which conversion applies is decided by what both shapes are by themselves, by whether the
source points to a struct and by whether the types are equal. So it is the same for types that
are equal, and for a handle and what it is bound to. A conversion on request goes further than
an assignment only between integers.
-/

namespace GoToC.TypeStore

open Relation

variable {store : TypeStore} {left right : Ty → Ty → Prop} {dest dest' src src' a b c : Ty}

/-- The fragment that a conversion, if there is one, makes of the text. -/
def written (text : String) (answer : Faulty (Option Conversion)) : Faulty (Option String) :=
  return (← answer).map (·.applyText text)

/-- The fragment of type `src` as it is stored in a place of type `dest`, if it can be. -/
def assignText (store : TypeStore) (dest : Ty) (text : String) (src : Ty) :
    Faulty (Option String) := written text (store.assign dest src)

/-- The fragment of type `src` as it is converted to `dest` on request, if it can be. -/
def castText (store : TypeStore) (dest : Ty) (text : String) (src : Ty) :
    Faulty (Option String) := written text (store.cast dest src)

/-- The conversion between shapes that a request allows and an assignment does not. -/
def integerCast : Ty → Ty → Option Conversion
  | .prim p, .prim q => if p.isIntLike && q.isIntLike then some (.castTo p) else none
  | _, _ => none

/-- The answer is that one of the types takes part in no conversion. -/
def Refused {α : Type} (answer : Faulty α) : Prop :=
  (∃ side text, answer = .error (.notConvertible side text)) ∨ answer = .error .multiSource

theorem written_eq_some {text fragment : String} {answer : Faulty (Option Conversion)} :
    written text answer = .ok (some fragment) ↔
      ∃ conversion, answer = .ok (some conversion) ∧ conversion.applyText text = fragment := by
  cases answer with
  | error fault => exact iff_of_false nofun fun ⟨_, h, _⟩ => nomatch h
  | ok answer =>
      cases answer with
      | none => exact iff_of_false nofun fun ⟨_, h, _⟩ => nomatch h
      | some conversion =>
          constructor
          · intro h
            exact ⟨conversion, rfl, Option.some.inj (Except.ok.inj h)⟩
          · rintro ⟨_, ⟨⟩, rfl⟩
            rfl

theorem written_eq_none {text : String} {answer : Faulty (Option Conversion)} :
    written text answer = .ok none ↔ answer = .ok none := by
  cases answer with
  | error fault => exact iff_of_false nofun nofun
  | ok answer =>
      cases answer with
      | none => exact iff_of_true rfl rfl
      | some conversion => exact iff_of_false nofun nofun

/-! ## What decides on a conversion -/

theorem convertible_iff {shape : Ty} : Convertible shape ↔
    shape.head ≠ .prim .type ∧ (∀ variadic, shape.head ≠ .func variadic) ∧ shape.head ≠ .multi := by
  cases shape with
  | prim p => cases p <;> simp [Convertible, Ty.head]
  | _ => simp [Convertible, Ty.head]

theorem checkConvertible_not (side : ConversionSide) {shape : Ty} (h : ¬ Convertible shape) :
    ∃ text, checkConvertible side shape = .error (.notConvertible side text) := by
  unfold checkConvertible
  split
  · exact ⟨_, rfl⟩
  · exact ⟨_, rfl⟩
  · exact ⟨_, rfl⟩
  · next hType hFunc hMulti =>
      refine absurd ?_ h
      unfold Convertible
      split
      · exact hType rfl
      · exact hFunc _ rfl
      · exact hMulti _ rfl
      · trivial

/-- An assignment is refused if the place is not convertible or there are several values. -/
theorem assign_eq {shape found : Ty} (hDest : store.peel dest = .ok shape)
    (hSrc : store.peel src = .ok found) (hConvertible : Convertible shape)
    (hMulti : found.head ≠ .multi) : store.assign dest src = (do
      if ← store.equal shape found then return some .keep
      store.implicitConversion shape found) := by
  rw [assign, hDest, hSrc]
  simp only [Bind.bind, Except.bind, checkConvertible_ok hConvertible]
  cases found with
  | multi members => exact absurd rfl hMulti
  | _ => rfl

theorem refused_assign {shape found : Ty} (hDest : store.peel dest = .ok shape)
    (hSrc : store.peel src = .ok found) (h : ¬ Convertible shape ∨ found.head = .multi) :
    Refused (store.assign dest src) := by
  rw [assign, hDest, hSrc]
  by_cases hConvertible : Convertible shape
  · have hMulti := h.resolve_left (not_not_intro hConvertible)
    cases found with
    | multi members =>
        refine .inr ?_
        simp only [Bind.bind, Except.bind, checkConvertible_ok hConvertible]
        rfl
    | _ => cases hMulti
  · obtain ⟨text, hText⟩ := checkConvertible_not .assignTo hConvertible
    refine .inl ⟨.assignTo, text, ?_⟩
    simp only [Bind.bind, Except.bind, hText]

theorem implicitConversion_dest {shape shape' found : Ty} (h : shape.head = shape'.head) :
    store.implicitConversion shape found = store.implicitConversion shape' found := by
  cases shape <;> cases shape' <;> try (cases h; done)
  case prim.prim => rw [Ty.Head.prim.inj h]
  all_goals
    cases found with
    | prim q => cases q <;> rfl
    | _ => rfl

theorem implicitConversion_src {shape found found' : Ty} (h : found.head = found'.head)
    (hInner : ∀ inner inner', found = .pointer inner → found' = .pointer inner' →
      ∃ target target', store.peel inner = .ok target ∧ store.peel inner' = .ok target' ∧
        target.head = target'.head) :
    store.implicitConversion shape found = store.implicitConversion shape found' := by
  cases found <;> cases found' <;> try (cases h; done)
  case prim.prim => rw [Ty.Head.prim.inj h]
  case pointer.pointer inner inner' =>
    obtain ⟨target, target', hTarget, hTarget', hHead⟩ := hInner inner inner' rfl rfl
    have hStruct : (do return (← store.struct? inner).map fun _ => Conversion.toInterface) =
        (do return (← store.struct? inner').map fun _ => Conversion.toInterface :
          Faulty (Option Conversion)) := by
      rw [struct?, struct?, hTarget, hTarget']
      cases target <;> cases target' <;> first | (cases hHead; done) | rfl
    cases shape with
    | interface => exact hStruct
    | universal => exact hStruct
    | _ => rfl
  all_goals cases shape <;> rfl

/-! ## Conversions of interchangeable types -/

/-- Both sides of a conversion, as far down as they are compared, have shapes. -/
theorem equal_peel {shape found : Ty} (ha : store.Resolvable a) (hA : store.peel a = .ok shape)
    (hB : store.peel b = .ok found) : store.equal shape found = store.equal a b := by
  obtain ⟨shape', hShape', -, hParts⟩ := ha.peel
  obtain rfl := Except.ok.inj (hA.symm.trans hShape')
  have hResolves :
    store.Resolvable shape := .of_shape (resolve_of_peel (peel_peel hA)) trivial hParts
  rw [hResolves.equal_shapes (peel_peel hA) (peel_peel hB), ha.equal_shapes hA hB]

/-- A request asks for an assignment first, and then for a conversion between integers. -/
theorem cast_eq {shape found : Ty} (hDest : store.peel dest = .ok shape)
    (hSrc : store.peel src = .ok found) (hConvertible : Convertible shape)
    (hConvertible' : Convertible found) : store.cast dest src = (do
      match ← store.assign dest src with
      | some conversion => return some conversion
      | none => return integerCast shape found) := by
  have hAssign : store.assign shape found = store.assign dest src := by
    rw [assign, assign, hDest, hSrc, peel_peel hDest, peel_peel hSrc]
  rw [cast, hDest, hSrc]
  simp only [Bind.bind, Except.bind, checkConvertible_ok hConvertible,
    checkConvertible_ok hConvertible', hAssign]
  cases store.assign dest src with
  | error fault => rfl
  | ok answer =>
      cases answer with
      | some conversion => rfl
      | none => cases shape <;> first | rfl | (cases found <;> rfl)

theorem refused_cast {shape found : Ty} (hDest : store.peel dest = .ok shape)
    (hSrc : store.peel src = .ok found) (h : ¬ Convertible shape ∨ ¬ Convertible found) :
    Refused (store.cast dest src) := by
  rw [cast, hDest, hSrc]
  by_cases hConvertible : Convertible shape
  · have hOther := h.resolve_left (not_not_intro hConvertible)
    obtain ⟨text, hText⟩ := checkConvertible_not .castFrom hOther
    refine .inl ⟨.castFrom, text, ?_⟩
    simp only [Bind.bind, Except.bind, checkConvertible_ok hConvertible, hText]
  · obtain ⟨text, hText⟩ := checkConvertible_not .castTo hConvertible
    refine .inl ⟨.castTo, text, ?_⟩
    simp only [Bind.bind, Except.bind, hText]

theorem integerCast_congr {shape shape' found found' : Ty} (hShape : shape.head = shape'.head)
    (hFound : found.head = found'.head) : integerCast shape found = integerCast shape' found' := by
  cases shape <;> cases shape' <;> try (cases hShape; done)
  case prim.prim =>
    cases found <;> cases found' <;> try (cases hFound; done)
    case prim.prim => rw [Ty.Head.prim.inj hShape, Ty.Head.prim.inj hFound]
    all_goals rfl
  all_goals rfl

theorem convertible_of_assign {shape found : Ty} (hDest : store.peel dest = .ok shape)
    (hSrc : store.peel src = .ok found) (h : ¬ Refused (store.assign dest src)) :
    Convertible shape ∧ found.head ≠ .multi := by
  by_contra hNot
  exact h (refused_assign hDest hSrc ((not_and_or.mp hNot).imp_right not_not.mp))

theorem convertible_of_cast {shape found : Ty} (hDest : store.peel dest = .ok shape)
    (hSrc : store.peel src = .ok found) (h : ¬ Refused (store.cast dest src)) :
    Convertible shape ∧ Convertible found := by
  by_contra hNot
  exact h (refused_cast hDest hSrc (not_and_or.mp hNot))

section Interchange

variable {shape found : Ty} (hLeft : store.Preserved left) (hRight : store.Preserved right)
  (hDest : store.Resolvable dest) (hDest' : store.Resolvable dest')
  (hSrc : store.Resolvable src) (hSrc' : store.Resolvable src') (hL : left dest dest')
  (hR : right src src') (hShape : store.peel dest = .ok shape) (hFound : store.peel src = .ok found)
  (hConvertible : Convertible shape)

include hLeft hRight hDest hDest' hSrc hSrc' hL hR hShape hFound hConvertible

/-- Assignments between interchangeable types have the same answers. -/
theorem assign_congr (hMulti : found.head ≠ .multi) :
    store.assign dest' src' = store.assign dest src := by
  obtain ⟨shape', hShape', -, -⟩ := hDest'.peel
  obtain ⟨found', hFound', -, hParts'⟩ := hSrc'.peel
  have hShapes := hLeft hL hShape hShape'
  have hFounds := hRight hR hFound hFound'
  have hConvertible' : Convertible shape' := by
    rwa [convertible_iff, ← hShapes.head, ← convertible_iff]
  rw [assign_eq hShape hFound hConvertible hMulti,
    assign_eq hShape' hFound' hConvertible' (hFounds.head ▸ hMulti),
    equal_peel hDest hShape hFound, equal_peel hDest' hShape' hFound',
    hLeft.equal hRight hDest hDest' hSrc hSrc' hL hR, implicitConversion_dest hShapes.head,
    implicitConversion_src hFounds.head]
  rintro inner inner' rfl rfl
  have hInner := (List.forall₂_cons.mp (List.forall₂_cons.mp hFounds.groups).1).1
  obtain ⟨found, hSame, -, hParts⟩ := hSrc.peel
  obtain rfl := Except.ok.inj (hFound.symm.trans hSame)
  obtain ⟨target, hTarget, -, -⟩ := (hParts inner List.mem_cons_self).peel
  obtain ⟨target', hTarget', -, -⟩ := (hParts' inner' List.mem_cons_self).peel
  exact ⟨target, target', hTarget, hTarget', (hRight hInner hTarget hTarget').head⟩

/-- So have requests. -/
theorem cast_congr (hConvertible' : Convertible found) :
    store.cast dest' src' = store.cast dest src := by
  have hAssign := assign_congr hLeft hRight hDest hDest' hSrc hSrc' hL hR hShape hFound hConvertible
    (convertible_iff.mp hConvertible').2.2
  obtain ⟨shape', hShape', -, -⟩ := hDest'.peel
  obtain ⟨found', hFound', -, -⟩ := hSrc'.peel
  have hShapes := hLeft hL hShape hShape'
  have hFounds := hRight hR hFound hFound'
  have hOther : Convertible shape' := by
    rwa [convertible_iff, ← hShapes.head, ← convertible_iff]
  have hOther' : Convertible found' := by
    rwa [convertible_iff, ← hFounds.head, ← convertible_iff]
  rw [cast_eq hShape hFound hConvertible hConvertible', cast_eq hShape' hFound' hOther hOther',
    hAssign, integerCast_congr hShapes.head hFounds.head]

end Interchange

/-- What can be in place of a type: an equal one, or the type with handles replaced by what they
are bound to. -/
def Interchangeable (store : TypeStore) (a b : Ty) : Prop := store.Equals a b ∨ store.Rebound a b

theorem Interchangeable.exists_preserved (h : store.Interchangeable a b) (ha : store.Resolvable a) :
    store.Resolvable b ∧ ∃ related, store.Preserved related ∧ related a b := by
  rcases h with hEquals | hRebound
  · exact ⟨hEquals.right, _, preserved_equals, hEquals⟩
  · exact ⟨hRebound.resolves ha, _, Rebound.preserved, hRebound⟩

theorem Refused.not_ok {α : Type} {answer : α} : ¬ Refused (.ok answer : Faulty α) := by
  rintro (⟨side, text, h⟩ | h) <;> cases h

/-- What an assignment converts, a request does not refuse. -/
theorem convertible_of_assign_some {shape found : Ty} {conversion : Conversion}
    (hDest : store.Resolvable dest) (hShape : store.peel dest = .ok shape)
    (hFound : store.peel src = .ok found) (h : store.assign dest src = .ok (some conversion)) :
    Convertible shape ∧ Convertible found := by
  obtain ⟨hConvertible, hMulti⟩ := convertible_of_assign hShape hFound (h ▸ Refused.not_ok)
  refine ⟨hConvertible, ?_⟩
  rw [assign_eq hShape hFound hConvertible hMulti] at h
  cases hSame : store.equal shape found with
  | error fault =>
      rw [hSame] at h
      cases h
  | ok same =>
      rw [hSame] at h
      cases same with
      | true =>
          rw [equal_peel hDest hShape hFound, hDest.equal_shapes hShape hFound,
            sameShape_eq_true] at hSame
          rwa [convertible_iff, ← hSame.2.head, ← convertible_iff]
      | false =>
          replace h : store.implicitConversion shape found = .ok (some conversion) := h
          unfold implicitConversion at h
          split at h <;> first | trivial | cases h

/-- A request converts whatever an assignment does, and in the same way. -/
theorem cast_of_assign {conversion : Conversion} (hDest : store.Resolvable dest)
    (hSrc : store.Resolvable src) (h : store.assign dest src = .ok (some conversion)) :
    store.cast dest src = .ok (some conversion) := by
  obtain ⟨shape, hShape, -, -⟩ := hDest.peel
  obtain ⟨found, hFound, -, -⟩ := hSrc.peel
  obtain ⟨hConvertible, hConvertible'⟩ := convertible_of_assign_some hDest hShape hFound h
  rw [cast_eq hShape hFound hConvertible hConvertible', h]
  rfl

theorem isSome_integerCast {shape found : Ty} (hShape : store.peel dest = .ok shape)
    (hFound : store.peel src = .ok found) : (integerCast shape found).isSome = true ↔
      store.isIntLike dest = .ok true ∧ store.isIntLike src = .ok true := by
  rw [isIntLike, isIntLike, hShape, hFound]
  cases shape with
  | prim p =>
      cases found with
      | prim q => cases p <;> cases q <;> decide
      | _ => exact iff_of_false nofun fun h => nomatch h.2
  | _ => exact iff_of_false nofun fun h => nomatch h.1

theorem exists_implicitConversion {shape found : Ty}
    (hParts : ∀ part ∈ found.components, ∃ target, store.peel part = .ok target) :
    ∃ answer, store.implicitConversion shape found = .ok answer := by
  have hStruct {inner : Ty} (hInner : ∃ target, store.peel inner = .ok target) :
      ∃ answer, (do return (← store.struct? inner).map fun _ => Conversion.toInterface :
        Faulty (Option Conversion)) = .ok answer := by
    obtain ⟨target, hTarget⟩ := hInner
    rw [struct?, hTarget]
    cases target <;> exact ⟨_, rfl⟩
  unfold implicitConversion
  split
  case h_1 | h_2 => exact hStruct (hParts _ List.mem_cons_self)
  all_goals exact ⟨_, rfl⟩

theorem exists_assign {shape : Ty} (hDest : store.Comparable dest) (hSrc : store.Comparable src)
    (hShape : store.peel dest = .ok shape) (hConvertible : Convertible shape) :
    ∃ answer, store.assign dest src = .ok answer := by
  obtain ⟨found, hFound, hMulti, hParts⟩ := hSrc.peel
  obtain ⟨same, hSame⟩ := exists_equal hDest hSrc
  rw [assign_eq hShape hFound hConvertible hMulti, equal_peel hDest.resolvable hShape hFound, hSame]
  cases same with
  | true => exact ⟨_, rfl⟩
  | false =>
      refine exists_implicitConversion fun part hPart => ?_
      obtain ⟨target, hTarget, -, -⟩ := (hParts part hPart).peel
      exact ⟨target, hTarget⟩

/-- A conversion that is not refused is found possible or not. -/
theorem answered_or_refused (hDest : store.Comparable dest) (hSrc : store.Comparable src) :
    (Refused (store.assign dest src) ∨ ∃ answer, store.assign dest src = .ok answer) ∧
      (Refused (store.cast dest src) ∨ ∃ answer, store.cast dest src = .ok answer) := by
  obtain ⟨shape, hShape, -, -⟩ := hDest.peel
  obtain ⟨found, hFound, -, -⟩ := hSrc.peel
  by_cases hConvertible : Convertible shape
  · obtain ⟨answer, hAssign⟩ := exists_assign hDest hSrc hShape hConvertible
    refine ⟨.inr ⟨answer, hAssign⟩, ?_⟩
    by_cases hConvertible' : Convertible found
    · rw [cast_eq hShape hFound hConvertible hConvertible', hAssign]
      cases answer <;> exact .inr ⟨_, rfl⟩
    · exact .inl (refused_cast hShape hFound (.inr hConvertible'))
  · exact ⟨.inl (refused_assign hShape hFound (.inl hConvertible)),
      .inl (refused_cast hShape hFound (.inl hConvertible))⟩

/-- Which conversion applies depends on the types only up to equality and handles: it is the same
one, and so makes the same of every fragment. A request that is not refused converts as an
assignment does, and where there is no assignment, between integers and nothing else. -/
theorem conversions_interchangeable (store : TypeStore) (text : String) :
    (∀ dest dest' src src', store.Resolvable dest → store.Resolvable src →
      store.Interchangeable dest dest' → store.Interchangeable src src' →
      (¬ Refused (store.assign dest src) →
        store.assignText dest' text src' = store.assignText dest text src) ∧
      (¬ Refused (store.cast dest src) →
        store.castText dest' text src' = store.castText dest text src)) ∧
    (∀ dest src, store.Resolvable dest → store.Resolvable src →
      (∀ fragment, store.assignText dest text src = .ok (some fragment) →
        store.castText dest text src = .ok (some fragment)) ∧
      (store.assignText dest text src = .ok none → ¬ Refused (store.cast dest src) →
        ((∃ fragment, store.castText dest text src = .ok (some fragment)) ↔
          store.isIntLike dest = .ok true ∧ store.isIntLike src = .ok true))) ∧
    (∀ dest src, store.Comparable dest → store.Comparable src →
      (Refused (store.assign dest src) ∨ ∃ answer, store.assignText dest text src = .ok answer) ∧
      (Refused (store.cast dest src) ∨ ∃ answer, store.castText dest text src = .ok answer)) := by
  refine ⟨fun dest dest' src src' hDest hSrc hD hS => ?_, fun dest src hDest hSrc => ⟨?_, ?_⟩,
    fun dest src hDest hSrc => ?_⟩
  · obtain ⟨hDest', left, hLeft, hL⟩ := hD.exists_preserved hDest
    obtain ⟨hSrc', right, hRight, hR⟩ := hS.exists_preserved hSrc
    obtain ⟨shape, hShape, -, -⟩ := hDest.peel
    obtain ⟨found, hFound, -, -⟩ := hSrc.peel
    constructor
    · intro hTaken
      obtain ⟨hConvertible, hMulti⟩ := convertible_of_assign hShape hFound hTaken
      rw [assignText, assignText,
        assign_congr hLeft hRight hDest hDest' hSrc hSrc' hL hR hShape hFound hConvertible hMulti]
    · intro hTaken
      obtain ⟨hConvertible, hConvertible'⟩ := convertible_of_cast hShape hFound hTaken
      rw [castText, castText, cast_congr hLeft hRight hDest hDest' hSrc hSrc' hL hR hShape hFound
        hConvertible hConvertible']
  · intro fragment hFragment
    obtain ⟨conversion, hAssign, hText⟩ := written_eq_some.mp hFragment
    exact written_eq_some.mpr ⟨conversion, cast_of_assign hDest hSrc hAssign, hText⟩
  · intro hNone hTaken
    obtain ⟨shape, hShape, -, -⟩ := hDest.peel
    obtain ⟨found, hFound, -, -⟩ := hSrc.peel
    obtain ⟨hConvertible, hConvertible'⟩ := convertible_of_cast hShape hFound hTaken
    have hCast : store.cast dest src = .ok (integerCast shape found) := by
      rw [cast_eq hShape hFound hConvertible hConvertible', written_eq_none.mp hNone]
      rfl
    rw [← isSome_integerCast hShape hFound, castText, hCast]
    cases integerCast shape found with
    | none => exact iff_of_false (fun ⟨_, h⟩ => nomatch h) nofun
    | some conversion => exact iff_of_true ⟨_, rfl⟩ rfl
  · obtain ⟨hAssign, hCast⟩ := answered_or_refused hDest hSrc
    refine ⟨hAssign.imp_right fun ⟨answer, h⟩ => ?_, hCast.imp_right fun ⟨answer, h⟩ => ?_⟩
    · exact ⟨answer.map (·.applyText text), by rw [assignText, h]; rfl⟩
    · exact ⟨answer.map (·.applyText text), by rw [castText, h]; rfl⟩

/-- Where a row can be nil a slice can be; an integer is a byte on request and not otherwise. -/
theorem conversions_interchangeable_rows :
    twoHandles.assignText (.slice (.prim .int)) "Nil" (.prim .nil) =
      twoHandles.assignText (.forward ⟨0, "Row"⟩) "Nil" (.prim .nil) ∧
    twoHandles.castText (.forward ⟨0, "Row"⟩) "Nil" (.prim .nil) = .ok (some "Nil") ∧
    ∃ fragment, twoHandles.castText (.prim .byte) "n" (.prim .int) = .ok (some fragment) := by
  have hRow : twoHandles.Resolvable (.forward ⟨0, "Row"⟩) :=
    .of_shape rfl trivial fun part hPart =>
      twoHandles_comparable_slice.resolvable.opens (.component hPart)
  have hPrim (p : Prim) : twoHandles.Resolvable (.prim p) := .of_shape rfl trivial nofun
  obtain ⟨hSame, hMore, -⟩ := conversions_interchangeable twoHandles "Nil"
  obtain ⟨-, hIntegers, -⟩ := conversions_interchangeable twoHandles "n"
  have hSlice : twoHandles.Interchangeable (.forward ⟨0, "Row"⟩) (.slice (.prim .int)) :=
    .inr (.single (.bound rfl))
  refine ⟨(hSame _ _ _ _ hRow (hPrim .nil) hSlice (.inr .refl)).1 Refused.not_ok, ?_, ?_⟩
  · exact (hMore _ _ hRow (hPrim .nil)).1 _ rfl
  · exact ((hIntegers _ _ (hPrim .byte) (hPrim .int)).2 rfl Refused.not_ok).mpr ⟨rfl, rfl⟩

end GoToC.TypeStore
