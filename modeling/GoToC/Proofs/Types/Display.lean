import GoToC.Proofs.Types.Equality

/-!
# Types as they are displayed

The text of a type without functions and handles can be read back in one way only. It starts
with a word, which may be empty, and the character behind the word, if there is one, tells of
which kind the type is; inside the brackets of a map the text of the keys ends at the first
bracket that does not belong to it. So such types have the same text just if they are equal.
-/

namespace GoToC

variable {name : String}

namespace Ty

/-- Types that are made of primitives, structs, interfaces, pointers, slices and maps, with
identifiers for names. -/
inductive Spelled : Ty → Prop
  | prim (p : Prim) : Spelled (.prim p)
  | struct {record} : isIdentifier record.package = true →
      isIdentifier record.name = true → Spelled (.struct record)
  | interface {record} : isIdentifier record.package = true →
      isIdentifier record.name = true → Spelled (.interface record)
  | universal : Spelled .universal
  | pointer {inner} : Spelled inner → Spelled (.pointer inner)
  | slice {elem} : Spelled elem → Spelled (.slice elem)
  | map {key value} : Spelled key → Spelled value → Spelled (.map key value)

/-- No struct and interface among the types have the same package and name. -/
def Apart (types : List Ty) : Prop :=
  ∀ record record', .struct record ∈ types → .interface record' ∈ types →
    record.package = record'.package → record.name ≠ record'.name

/-! ## The parts of a text -/

/-- The word that the text of a type starts with. -/
def lead : Ty → List Char
  | .prim p => p.name.toList
  | .map _ _ => ['m', 'a', 'p']
  | .struct record => record.package.toList
  | .interface record => record.package.toList
  | .universal => ['i', 'n', 't', 'e', 'r', 'f', 'a', 'c', 'e']
  | _ => []

/-- What comes after that word. -/
def trail : Ty → List Char
  | .pointer inner => '*' :: inner.display.toList
  | .slice elem => '[' :: ']' :: elem.display.toList
  | .map key value => '[' :: (key.display.toList ++ ']' :: value.display.toList)
  | .struct record => '.' :: record.name.toList
  | .interface record => '.' :: record.name.toList
  | .universal => ['\x7b', '\x7d']
  | _ => []

/-- A text that may come after the text of a type: none, or one that starts with the bracket
that ends the keys of a map. -/
def EndsType (rest : List Char) : Prop := ∀ c ∈ rest.head?, c = ']'

variable {a b : Ty} {rest rest' : List Char}

theorem endsType_nil : EndsType [] := nofun

theorem endsType_bracket (rest : List Char) : EndsType (']' :: rest) := by
  intro c hc
  exact (Option.some.inj hc).symm

theorem name_injective {p q : Prim} (h : p.name = q.name) : p = q := by
  cases p <;> cases q <;> first | rfl | simp [Prim.name] at h

theorem isIdentifier_primName (p : Prim) : isIdentifier p.name = true := by
  cases p <;> decide +kernel

theorem all_isWordPart (h : isIdentifier name = true) :
    ∀ c ∈ name.toList, Lexeme.isWordPart c = true := by
  have hTail := isWordTail_of_isIdentifier h
  rwa [isWordTail, List.all_eq_true] at hTail

namespace Spelled

theorem display_eq (h : a.Spelled) : a.display.toList = a.lead ++ a.trail := by
  have hStar : "*".toList = ['*'] := String.toList_ofList
  have hSlice : "[]".toList = ['[', ']'] := String.toList_ofList
  have hMap : "map[".toList = ['m', 'a', 'p', '['] := String.toList_ofList
  have hBracket : "]".toList = [']'] := String.toList_ofList
  have hDot : ".".toList = ['.'] := String.toList_ofList
  cases h with
  | prim p => exact (List.append_nil _).symm
  | struct | interface => simp only [display, lead, trail, String.toList_append, hDot,
      List.append_assoc, List.singleton_append]
  | universal => exact String.toList_ofList
  | pointer => simp only [display, lead, trail, String.toList_append, hStar, List.singleton_append,
      List.nil_append]
  | slice => simp only [display, lead, trail, String.toList_append, hSlice, List.cons_append,
      List.nil_append]
  | map => simp only [display, lead, trail, String.toList_append, hMap, hBracket,
      List.append_assoc, List.cons_append, List.nil_append]

theorem lead_isWordPart (h : a.Spelled) : ∀ c ∈ a.lead, Lexeme.isWordPart c = true := by
  cases h with
  | prim p => exact all_isWordPart (isIdentifier_primName p)
  | struct hPackage _ => exact all_isWordPart hPackage
  | interface hPackage _ => exact all_isWordPart hPackage
  | universal | map =>
      rw [lead]
      exact List.all_eq_true.mp (by decide)
  | pointer | slice => nofun

/-- The word ends where the rest of the text starts. -/
theorem trail_head (h : a.Spelled) (hRest : EndsType rest) :
    ∀ c ∈ (a.trail ++ rest).head?, Lexeme.isWordPart c = false := by
  intro c hc
  cases h with
  | prim p => rw [hRest c hc]; decide
  | _ =>
      obtain rfl := Option.some.inj hc
      decide

end Spelled

/-- A word is read in one way where it ends. -/
theorem word_inj {word word' after after' : List Char}
    (hWord : ∀ c ∈ word, Lexeme.isWordPart c = true)
    (hWord' : ∀ c ∈ word', Lexeme.isWordPart c = true)
    (hAfter : ∀ c ∈ after.head?, Lexeme.isWordPart c = false)
    (hAfter' : ∀ c ∈ after'.head?, Lexeme.isWordPart c = false)
    (h : word ++ after = word' ++ after') : word = word' ∧ after = after' := by
  have hSame : word = word' := by
    calc word = (word ++ after).takeWhile Lexeme.isWordPart :=
          (Lexeme.takeWhile_run hWord hAfter).symm
      _ = (word' ++ after').takeWhile Lexeme.isWordPart := by rw [h]
      _ = word' := Lexeme.takeWhile_run hWord' hAfter'
  subst hSame
  exact ⟨rfl, List.append_cancel_left h⟩

theorem EndsType.isWordPart (h : EndsType rest) :
    ∀ c ∈ rest.head?, Lexeme.isWordPart c = false := by
  intro c hc
  rw [h c hc]
  decide

/-- What follows a word starts, if at all, with a character that ends no type. -/
theorem Spelled.trail_cases (h : a.Spelled) :
    a.trail = [] ∨ ∃ c more, a.trail = c :: more ∧ c ≠ ']' := by
  cases h with
  | prim => exact .inl rfl
  | _ => exact .inr ⟨_, _, rfl, by decide⟩

/-- Of types with the same text the words are the same, and so is what follows them. -/
theorem Spelled.same_start (ha : a.Spelled) (hb : b.Spelled) (hRest : EndsType rest)
    (hRest' : EndsType rest') (h : a.display.toList ++ rest = b.display.toList ++ rest') :
    a.lead = b.lead ∧ a.trail.head? = b.trail.head? ∧ a.trail ++ rest = b.trail ++ rest' := by
  rw [ha.display_eq, hb.display_eq, List.append_assoc, List.append_assoc] at h
  obtain ⟨hLead, hTrail⟩ := word_inj ha.lead_isWordPart hb.lead_isWordPart
    (ha.trail_head hRest) (hb.trail_head hRest') h
  refine ⟨hLead, ?_, hTrail⟩
  rcases ha.trail_cases with hA | ⟨c, more, hA, hc⟩ <;>
    rcases hb.trail_cases with hB | ⟨d, others, hB, hd⟩ <;> rw [hA, hB] at hTrail ⊢
  · exact absurd (hRest d (by rw [show rest = _ from hTrail]; rfl)) hd
  · exact absurd (hRest' c (by rw [← show _ = rest' from hTrail]; rfl)) hc
  · exact congrArg some (List.cons.inj hTrail).1

/-- A qualified name is read in one way. -/
theorem named_inj {package package' name' : String} (hName : isIdentifier name = true)
    (hName' : isIdentifier name' = true) (hRest : EndsType rest) (hRest' : EndsType rest')
    (hLead : package.toList = package'.toList)
    (hTrail : '.' :: name.toList ++ rest = '.' :: name'.toList ++ rest') :
    package = package' ∧ name = name' ∧ rest = rest' := by
  obtain ⟨hSame, hAfter⟩ := word_inj (all_isWordPart hName) (all_isWordPart hName')
    hRest.isWordPart hRest'.isWordPart (List.cons.inj hTrail).2
  exact ⟨String.toList_injective hLead, String.toList_injective hSame, hAfter⟩

end Ty

namespace TypeStore

open Ty (Spelled Apart EndsType)

variable {store : TypeStore} {a b : Ty} {types : List Ty} {rest rest' : List Char}

theorem Spelled.resolve (h : a.Spelled) : store.resolve a = .ok a := by
  apply resolve_eq_self
  rintro handle rfl
  cases h

/-- A type that is spelled out is followed to itself, as is what it is made of. -/
theorem comparable_spelled (h : a.Spelled) : store.Comparable a := by
  induction h with
  | prim | struct | interface | universal => exact .of_shape rfl nofun nofun
  | pointer _ ih => exact .of_shape rfl nofun fun part hPart => List.mem_singleton.mp hPart ▸ ih
  | slice _ ih => exact .of_shape rfl nofun fun part hPart => List.mem_singleton.mp hPart ▸ ih
  | map _ _ ihKey ihValue =>
      refine .of_shape rfl nofun fun part hPart => ?_
      rcases List.mem_pair.mp hPart with rfl | rfl
      · exact ihKey
      · exact ihValue

/-- Types that are spelled out are equal if they match. -/
theorem equal_spelled (ha : a.Spelled) (hb : b.Spelled) : store.equal a b = .ok true ↔
    a.Matches (fun x y => store.equal x y = .ok true) b := by
  have hA : store.peel a = .ok a := by rw [peel, Spelled.resolve ha]
  have hB : store.peel b = .ok b := by rw [peel, Spelled.resolve hb]
  rw [(comparable_spelled ha).equal_shapes hA hB, sameShape_eq_true, and_iff_right]
  intro hMulti
  cases ha <;> cases hMulti

/-- Types with the same text are equal, whatever follows the one and the other. -/
theorem equal_of_display (ha : a.Spelled) (hb : b.Spelled) (hApart : Apart types)
    (hA : a.nodes ⊆ types) (hB : b.nodes ⊆ types) (hRest : EndsType rest)
    (hRest' : EndsType rest') (h : a.display.toList ++ rest = b.display.toList ++ rest') :
    store.equal a b = .ok true ∧ rest = rest' := by
  induction ha generalizing b rest rest' with
  | prim p =>
      obtain ⟨hLead, hMark, hTrail⟩ := (Spelled.prim p).same_start hb hRest hRest' h
      cases hb with
      | prim q =>
          obtain rfl := Ty.name_injective (String.toList_injective hLead)
          exact ⟨(equal_spelled (.prim p) (.prim p)).mpr ⟨rfl, .nil⟩, hTrail⟩
      | _ => cases hMark
  | @struct record hPackage hName =>
      obtain ⟨hLead, hMark, hTrail⟩ := (Spelled.struct hPackage hName).same_start hb hRest hRest' h
      cases hb with
      | struct hPackage' hName' =>
          obtain ⟨hSame, hSame', hAfter⟩ := Ty.named_inj hName hName' hRest hRest' hLead hTrail
          refine ⟨(equal_spelled (.struct hPackage hName) (.struct hPackage' hName')).mpr
            ⟨?_, .nil⟩, hAfter⟩
          rw [Ty.head, Ty.head, hSame, hSame']
      | interface _ hName' =>
          obtain ⟨hSame, hSame', -⟩ := Ty.named_inj hName hName' hRest hRest' hLead hTrail
          exact absurd hSame' (hApart _ _ (hA (Ty.self_mem_nodes _))
            (hB (Ty.self_mem_nodes _)) hSame)
      | _ => simp [Ty.trail] at hMark
  | @interface record hPackage hName =>
      obtain ⟨hLead, hMark, hTrail⟩ :=
        (Spelled.interface hPackage hName).same_start hb hRest hRest' h
      cases hb with
      | interface hPackage' hName' =>
          obtain ⟨hSame, hSame', hAfter⟩ := Ty.named_inj hName hName' hRest hRest' hLead hTrail
          refine ⟨(equal_spelled (.interface hPackage hName)
            (.interface hPackage' hName')).mpr ⟨?_, .nil⟩, hAfter⟩
          rw [Ty.head, Ty.head, hSame, hSame']
      | struct _ hName' =>
          obtain ⟨hSame, hSame', -⟩ := Ty.named_inj hName hName' hRest hRest' hLead hTrail
          exact absurd hSame'.symm
            (hApart _ _ (hB (Ty.self_mem_nodes _)) (hA (Ty.self_mem_nodes _)) hSame.symm)
      | _ => simp [Ty.trail] at hMark
  | universal =>
      obtain ⟨-, hMark, hTrail⟩ := Spelled.universal.same_start hb hRest hRest' h
      cases hb with
      | universal =>
          exact ⟨(equal_spelled .universal .universal).mpr ⟨rfl, .nil⟩,
            List.append_cancel_left hTrail⟩
      | _ => simp [Ty.trail] at hMark
  | @pointer inner hInner ih =>
      obtain ⟨-, hMark, hTrail⟩ := (Spelled.pointer hInner).same_start hb hRest hRest' h
      cases hb with
      | pointer hInner' =>
          obtain ⟨hEqual, hAfter⟩ := ih hInner' (List.cons_subset.mp hA).2
            (List.cons_subset.mp hB).2 hRest hRest' (List.cons.inj hTrail).2
          refine ⟨(equal_spelled (.pointer hInner) (.pointer hInner')).mpr ⟨rfl, ?_⟩, hAfter⟩
          exact .cons (.cons hEqual .nil) .nil
      | _ => simp [Ty.trail] at hMark
  | @slice elem hElem ih =>
      obtain ⟨hLead, hMark, hTrail⟩ := (Spelled.slice hElem).same_start hb hRest hRest' h
      cases hb with
      | slice hElem' =>
          obtain ⟨hEqual, hAfter⟩ := ih hElem' (List.cons_subset.mp hA).2 (List.cons_subset.mp hB).2
            hRest hRest' (List.cons.inj (List.cons.inj hTrail).2).2
          refine ⟨(equal_spelled (.slice hElem) (.slice hElem')).mpr ⟨rfl, ?_⟩, hAfter⟩
          exact .cons (.cons hEqual .nil) .nil
      | map => cases hLead
      | _ => simp [Ty.trail] at hMark
  | @map key value hKey hValue ihKey ihValue =>
      obtain ⟨hLead, hMark, hTrail⟩ := (Spelled.map hKey hValue).same_start hb hRest hRest' h
      cases hb with
      | @map key' value' hKey' hValue' =>
          obtain ⟨hKeyA, hValueA⟩ := List.append_subset.mp (List.cons_subset.mp hA).2
          obtain ⟨hKeyB, hValueB⟩ := List.append_subset.mp (List.cons_subset.mp hB).2
          have hInside : key.display.toList ++ ']' :: (value.display.toList ++ rest) =
              key'.display.toList ++ ']' :: (value'.display.toList ++ rest') := by
            simpa [Ty.trail] using hTrail
          obtain ⟨hEqual, hAfter⟩ := ihKey hKey' hKeyA hKeyB (Ty.endsType_bracket _)
            (Ty.endsType_bracket _) hInside
          obtain ⟨hEqual', hEnd⟩ := ihValue hValue' hValueA hValueB hRest hRest'
            (List.cons.inj hAfter).2
          refine ⟨(equal_spelled (.map hKey hValue) (.map hKey' hValue')).mpr ⟨rfl, ?_⟩, hEnd⟩
          exact .cons (.cons hEqual .nil) (.cons (.cons hEqual' .nil) .nil)
      | slice => cases hLead
      | _ => simp [Ty.trail] at hMark

/-- Equal types have the same text. -/
theorem display_of_equal (ha : a.Spelled) (hb : b.Spelled) (h : store.equal a b = .ok true) :
    a.display = b.display := by
  induction ha generalizing b with
  | prim p =>
      obtain ⟨hHead, -⟩ := (equal_spelled (.prim p) hb).mp h
      cases hb with
      | prim q => rw [Ty.Head.prim.inj hHead]
      | _ => cases hHead
  | struct hPackage hName =>
      obtain ⟨hHead, -⟩ := (equal_spelled (.struct hPackage hName) hb).mp h
      cases hb with
      | struct =>
          obtain ⟨hSame, hSame'⟩ := Ty.Head.struct.inj hHead
          rw [Ty.display, Ty.display, hSame, hSame']
      | _ => cases hHead
  | interface hPackage hName =>
      obtain ⟨hHead, -⟩ := (equal_spelled (.interface hPackage hName) hb).mp h
      cases hb with
      | interface =>
          obtain ⟨hSame, hSame'⟩ := Ty.Head.interface.inj hHead
          rw [Ty.display, Ty.display, hSame, hSame']
      | _ => cases hHead
  | universal =>
      obtain ⟨hHead, -⟩ := (equal_spelled .universal hb).mp h
      cases hb with
      | universal => rfl
      | _ => cases hHead
  | pointer hInner ih =>
      obtain ⟨hHead, hGroups⟩ := (equal_spelled (.pointer hInner) hb).mp h
      cases hb with
      | pointer hInner' =>
          have hSame := ih hInner' (List.forall₂_cons.mp (List.forall₂_cons.mp hGroups).1).1
          rw [Ty.display, Ty.display, hSame]
      | _ => cases hHead
  | slice hElem ih =>
      obtain ⟨hHead, hGroups⟩ := (equal_spelled (.slice hElem) hb).mp h
      cases hb with
      | slice hElem' =>
          have hSame := ih hElem' (List.forall₂_cons.mp (List.forall₂_cons.mp hGroups).1).1
          rw [Ty.display, Ty.display, hSame]
      | _ => cases hHead
  | map hKey hValue ihKey ihValue =>
      obtain ⟨hHead, hGroups⟩ := (equal_spelled (.map hKey hValue) hb).mp h
      cases hb with
      | map hKey' hValue' =>
          obtain ⟨hKeys, hRest⟩ := List.forall₂_cons.mp hGroups
          have hSame := ihKey hKey' (List.forall₂_cons.mp hKeys).1
          have hSame' := ihValue hValue' (List.forall₂_cons.mp (List.forall₂_cons.mp hRest).1).1
          rw [Ty.display, Ty.display, hSame, hSame']
      | _ => cases hHead

/-- Two types are equal just if they are displayed alike. -/
theorem equal_iff_display (store : TypeStore) (ha : a.Spelled) (hb : b.Spelled)
    (hApart : Apart (a.nodes ++ b.nodes)) :
    store.equal a b = .ok (decide (a.display = b.display)) := by
  have hA : store.Comparable a := comparable_spelled ha
  obtain ⟨same, hSame⟩ := exists_equal hA (comparable_spelled hb)
  have hForth (h : store.equal a b = .ok true) : a.display = b.display := display_of_equal ha hb h
  have hBack (h : a.display = b.display) : store.equal a b = .ok true :=
    (equal_of_display ha hb hApart (List.subset_append_left _ _) (List.subset_append_right _ _)
      Ty.endsType_nil Ty.endsType_nil (by rw [h])).1
  by_cases hText : a.display = b.display
  · rw [hBack hText, decide_eq_true hText]
  · cases same with
    | true => exact absurd (hForth hSame) hText
    | false => rw [hSame, decide_eq_false hText]

/-- A map to pointers to structs and one to pointers to interfaces of another package are told
apart, as they are by their texts. -/
theorem equal_iff_display_rows : TypeStore.empty.equal
    (.map .universal (.pointer (.struct ⟨0, "main", "Row", []⟩)))
    (.map .universal (.pointer (.interface ⟨"table", "Row", []⟩))) = .ok false := by
  have hRow : (Ty.struct ⟨0, "main", "Row", []⟩).Spelled :=
    .struct (by decide +kernel) (by decide +kernel)
  have hRow' : (Ty.interface ⟨"table", "Row", []⟩).Spelled :=
    .interface (by decide +kernel) (by decide +kernel)
  rw [equal_iff_display TypeStore.empty (.map .universal (.pointer hRow))
    (.map .universal (.pointer hRow'))]
  · exact congrArg Except.ok (decide_eq_false (by decide +kernel))
  · intro record record' hRecord hRecord' hPackage
    simp [Ty.nodes] at hRecord hRecord'
    subst hRecord hRecord'
    simp at hPackage

end TypeStore

end GoToC
