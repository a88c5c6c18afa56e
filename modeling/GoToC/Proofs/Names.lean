import GoToC.Names
import Mathlib.Data.Finset.Card

/-!
# Names and texts

A name table keeps its texts twice: the number of each text, and the text of each number. The two
are inverse to each other from the empty table on, and the table grows only at its end, by texts
that are not in it yet. So a text has one name, which it keeps however many texts are entered later,
and a name is the name of one text, until there are no numbers left.
-/

namespace GoToC.NameTable

variable {table later : NameTable} {text other : String} {name name' : Name} {names : List Name}
  {texts : List String}

/-- The numbers and the texts are inverse to each other, and the empty text comes first. -/
structure Valid (table : NameTable) : Prop where
  head : table.text? Name.empty = some ""
  inverse : ∀ text number,
    table.numbers.lookup text = some number ↔ table.text? ⟨number⟩ = some text
  small : table.size ≤ UInt32.size

theorem empty_valid : empty.Valid where
  head := rfl
  inverse := by
    intro text number
    by_cases hText : text = ""
    · subst hText
      by_cases hNumber : number = 0
      · subst hNumber
        exact iff_of_true rfl rfl
      · have hIndex : number.toNat ≠ 0 := fun h => hNumber (UInt32.toNat_inj.mp h)
        simp [empty, text?, Name.index, hIndex, eq_comm, hNumber]
    · have hOther : (text == "") = false := by simpa using hText
      simp only [empty, text?, Name.index, List.lookup_cons, hOther, List.lookup_nil]
      refine iff_of_false nofun fun hFound => hText ?_
      simpa using (Array.mem_of_getElem? hFound)
  small := by decide

namespace Valid

/-- A text has one name only. -/
theorem name_unique (h : table.Valid) (hName : table.text? name = some text)
    (hName' : table.text? name' = some text) : name = name' := by
  have hNumber := (h.inverse text name.number).mpr hName
  have hNumber' := (h.inverse text name'.number).mpr hName'
  exact congrArg Name.mk (Option.some.inj (hNumber.symm.trans hNumber'))

theorem nodup (h : table.Valid) : table.texts.toList.Nodup := by
  refine List.nodup_iff_injective_getElem.mpr fun i j hSame => Fin.ext ?_
  have hName (k : Fin table.texts.toList.length) :
      table.text? ⟨UInt32.ofNat k⟩ = some table.texts.toList[k] ∧ (UInt32.ofNat k).toNat = k := by
    have hLess : k.val < UInt32.size := lt_of_lt_of_le k.isLt h.small
    have hIndex : (UInt32.ofNat k).toNat = k := UInt32.toNat_ofNat_of_lt hLess
    have hBound : k.val < table.texts.size := k.isLt
    exact ⟨by simp [text?, Name.index, hIndex, hBound], hIndex⟩
  have hSecond : table.text? ⟨UInt32.ofNat j⟩ = some table.texts.toList[i] :=
    (hName j).1.trans (congrArg some hSame.symm)
  have hNumbers := congrArg Name.number (h.name_unique (hName i).1 hSecond)
  rw [← (hName i).2, ← (hName j).2]
  exact congrArg UInt32.toNat hNumbers

theorem size_eq (h : table.Valid) :
    table.size = 1 + (table.texts.toList.toFinset.erase "").card := by
  have hEmpty : "" ∈ table.texts.toList.toFinset :=
    List.mem_toFinset.mpr (Array.mem_toList_iff.mpr (Array.mem_of_getElem? h.head))
  calc table.size
      = table.texts.toList.toFinset.card := (List.toFinset_card_of_nodup h.nodup).symm
    _ = (table.texts.toList.toFinset.erase "").card + 1 := (Finset.card_erase_add_one hEmpty).symm
    _ = 1 + (table.texts.toList.toFinset.erase "").card := Nat.add_comm _ _

end Valid

/-- Every name of a table is kept. -/
def Keeps (table later : NameTable) : Prop :=
  ∀ name text, table.text? name = some text → later.text? name = some text

/-! ## One call -/

/-- What a call on a valid table comes to: a text is found by its number, or it is new and is put at
the end, or there is no number left for it. -/
inductive Enters (table : NameTable) (text : String) :
    Except NameFault (Name × NameTable) → Prop
  | found {name : Name} : table.text? name = some text → Enters table text (.ok (name, table))
  | added {number : UInt32} : number.toNat = table.size → (∀ name, table.text? name ≠ some text) →
      Enters table text (.ok (⟨number⟩, ⟨(text, number) :: table.numbers, table.texts.push text⟩))
  | full : table.size = UInt32.size → (∀ name, table.text? name ≠ some text) →
      Enters table text (.error .full)

theorem Valid.enters (h : table.Valid) (text : String) : Enters table text (table.intern text) := by
  unfold intern
  split
  · next number hNumber => exact .found ((h.inverse text number).mp hNumber)
  · next hNone =>
      have hNew (name : Name) : table.text? name ≠ some text := by
        intro hName
        have hNumber := (h.inverse text name.number).mpr hName
        rw [hNone] at hNumber
        cases hNumber
      split
      · next hLess => exact .added (UInt32.toNat_ofNat_of_lt hLess) hNew
      · next hFull => exact .full (Nat.le_antisymm h.small (Nat.not_lt.mp hFull)) hNew

theorem text?_push {number : UInt32} (hNumber : number.toNat = table.size) (name : Name) :
    text? ⟨(text, number) :: table.numbers, table.texts.push text⟩ name =
      if name = ⟨number⟩ then some text else table.text? name := by
  show (table.texts.push text)[name.index]? = _
  rw [Array.getElem?_push]
  have hSame : name.index = table.texts.size ↔ name = ⟨number⟩ := by
    constructor
    · intro hIndex
      have hNumbers : name.number = number := UInt32.toNat_inj.mp (hIndex.trans hNumber.symm)
      exact congrArg Name.mk hNumbers
    · rintro rfl
      exact hNumber
  by_cases hName : name = ⟨number⟩
  · rw [if_pos (hSame.mpr hName), if_pos hName]
  · rw [if_neg fun hIndex => hName (hSame.mp hIndex), if_neg hName]
    rfl

namespace Valid

variable {result : Except NameFault (Name × NameTable)}

/-- A call keeps all names, gives the text its name and enters nothing else. -/
theorem intern (h : table.Valid) (hRun : table.intern text = .ok (name, later)) :
    later.Valid ∧ table.Keeps later ∧ later.text? name = some text ∧
      ∀ other, other ∈ later.texts ↔ other ∈ table.texts ∨ other = text := by
  have hEnters := h.enters text
  rw [hRun] at hEnters
  cases hEnters with
  | found hName =>
      have hText : text ∈ table.texts := Array.mem_of_getElem? hName
      exact ⟨h, fun _ _ => id, hName, fun other =>
        ⟨.inl, fun hOther => hOther.elim id fun hSame => hSame ▸ hText⟩⟩
  | @added number hNumber hNew =>
      have hBound : table.size < UInt32.size := hNumber ▸ number.toNat_lt_size
      have hFree : table.text? ⟨number⟩ = none := by
        show table.texts[number.toNat]? = none
        rw [hNumber]
        exact Array.getElem?_size
      refine ⟨⟨?_, ?_, ?_⟩, ?_, ?_, by simp⟩
      · rw [text?_push hNumber, if_neg, h.head]
        intro hZero
        rw [← hZero, h.head] at hFree
        cases hFree
      · intro other found
        rw [text?_push hNumber, List.lookup_cons]
        by_cases hSame : other = text
        · subst hSame
          rw [beq_self_eq_true, Option.some_inj]
          by_cases hFound : found = number
          · simp [hFound]
          · rw [if_neg fun hName => hFound (congrArg Name.number hName)]
            exact iff_of_false (Ne.symm hFound) (hNew ⟨found⟩)
        · have hOther : (other == text) = false := by simpa using hSame
          rw [hOther]
          show table.numbers.lookup other = some found ↔ _
          rw [h.inverse]
          by_cases hFound : found = number
          · subst hFound
            rw [hFree, if_pos rfl, Option.some_inj]
            exact iff_of_false nofun (Ne.symm hSame)
          · rw [if_neg fun hName => hFound (congrArg Name.number hName)]
      · show (table.texts.push text).size ≤ _
        rw [Array.size_push]
        exact hBound
      · intro name' text' hName
        rw [text?_push hNumber, if_neg, hName]
        rintro rfl
        rw [hFree] at hName
        cases hName
      · rw [text?_push hNumber, if_pos rfl]

/-! ## A row of calls -/

end Valid

theorem internAll_cons (table : NameTable) (text : String) (rest : List String) :
    table.internAll (text :: rest) =
      match table.intern text with
      | .error fault => .error fault
      | .ok (name, middle) =>
          match middle.internAll rest with
          | .error fault => .error fault
          | .ok (names, last) => .ok (name :: names, last) := by
  rw [internAll]
  cases table.intern text with
  | error fault => rfl
  | ok entered =>
      obtain ⟨name, middle⟩ := entered
      show (middle.internAll rest).bind _ = _
      dsimp only
      cases middle.internAll rest <;> rfl

/-- A row of calls keeps all names, gives each text its name and enters nothing else. -/
theorem Valid.internAll (h : table.Valid) (hRun : table.internAll texts = .ok (names, later)) :
    later.Valid ∧ table.Keeps later ∧ names.map later.text? = texts.map some ∧
      ∀ other, other ∈ later.texts ↔ other ∈ table.texts ∨ other ∈ texts := by
  induction texts generalizing table names with
  | nil =>
      cases hRun
      exact ⟨h, fun _ _ => id, rfl, by simp⟩
  | cons text rest ih =>
      rw [internAll_cons] at hRun
      split at hRun
      · cases hRun
      · next name middle hFirst =>
          obtain ⟨hMiddle, hKeeps, hName, hMember⟩ := h.intern hFirst
          split at hRun
          · cases hRun
          · next others last hRest =>
              cases hRun
              obtain ⟨hLast, hKeeps', hNames, hMember'⟩ := ih hMiddle hRest
              refine ⟨hLast, fun name text hText => hKeeps' name text (hKeeps name text hText), ?_,
                fun other => ?_⟩
              · rw [List.map_cons, List.map_cons, hNames, hKeeps' _ _ hName]
              · rw [hMember', hMember, List.mem_cons, or_assoc]

/-- A call fails only if there are more texts than numbers. -/
theorem Valid.intern_full (h : table.Valid) {fault : NameFault}
    (hRun : table.intern text = .error fault) :
    UInt32.size < 1 + ((table.texts.toList ++ [text]).toFinset.erase "").card := by
  have hEnters := h.enters text
  rw [hRun] at hEnters
  cases hEnters with
  | full hFull hNew =>
      have hText : text ∉ table.texts.toList := by
        intro hMember
        obtain ⟨place, hPlace⟩ := List.mem_iff_getElem?.mp hMember
        have hLess : place < UInt32.size :=
          lt_of_lt_of_le (List.getElem?_eq_some_iff.mp hPlace).1 h.small
        refine hNew ⟨UInt32.ofNat place⟩ ?_
        have hIndex : (UInt32.ofNat place).toNat = place := UInt32.toNat_ofNat_of_lt hLess
        show table.texts[(UInt32.ofNat place).toNat]? = _
        rw [hIndex, ← Array.getElem?_toList]
        exact hPlace
      have hEmpty : text ≠ "" := by
        rintro rfl
        exact hNew _ h.head
      have hMore : (table.texts.toList ++ [text]).toFinset.erase "" =
          insert text (table.texts.toList.toFinset.erase "") := by
        ext other
        simp only [Finset.mem_erase, Finset.mem_insert, List.mem_toFinset, List.mem_append,
          List.mem_singleton]
        constructor
        · tauto
        · rintro (rfl | hOther)
          · exact ⟨hEmpty, .inr rfl⟩
          · exact ⟨hOther.1, .inl hOther.2⟩
      have hSize := h.size_eq
      rw [hMore, Finset.card_insert_of_notMem (by simp [hText])]
      omega

/-- A row of calls fails if there are more texts than numbers. -/
theorem Valid.internAll_full (h : table.Valid) {fault : NameFault}
    (hRun : table.internAll texts = .error fault) :
    UInt32.size < 1 + ((table.texts.toList ++ texts).toFinset.erase "").card := by
  induction texts generalizing table with
  | nil => cases hRun
  | cons text rest ih =>
      rw [internAll_cons] at hRun
      split at hRun
      · next hFirst =>
          have hMore := h.intern_full hFirst
          refine lt_of_lt_of_le hMore (Nat.add_le_add_left (Finset.card_le_card ?_) 1)
          refine Finset.erase_subset_erase _ fun other hOther => ?_
          simp only [List.mem_toFinset, List.mem_append, List.mem_cons] at hOther ⊢
          tauto
      · next name middle hFirst =>
          obtain ⟨hMiddle, -, -, hMember⟩ := h.intern hFirst
          split at hRun
          · next hRest =>
              have hSame : (table.texts.toList ++ text :: rest).toFinset =
                  (middle.texts.toList ++ rest).toFinset := by
                ext other
                simp only [List.mem_toFinset, List.mem_append, List.mem_cons, Array.mem_toList_iff,
                  hMember]
                tauto
              rw [hSame]
              exact ih hMiddle hRest
          · cases hRun

/-- Later calls go on where earlier ones ended. -/
theorem internAll_append {more : List String} {all : List Name} {last : NameTable}
    (hRun : table.internAll texts = .ok (names, later))
    (hAll : table.internAll (texts ++ more) = .ok (all, last)) :
    ∃ others, later.internAll more = .ok (others, last) ∧ all = names ++ others := by
  induction texts generalizing table names all with
  | nil =>
      cases hRun
      exact ⟨all, hAll, rfl⟩
  | cons text rest ih =>
      rw [List.cons_append, internAll_cons] at hAll
      rw [internAll_cons] at hRun
      split at hRun
      · cases hRun
      · next name middle hFirst =>
          rw [hFirst] at hAll
          dsimp only at hAll
          split at hRun
          · cases hRun
          · next names' _ hRest =>
              cases hRun
              split at hAll
              · cases hAll
              · next hRestAll =>
                  cases hAll
                  obtain ⟨others, hOthers, rfl⟩ := ih hRest hRestAll
                  exact ⟨others, hOthers, rfl⟩

/-! ## From the empty table on -/

/-- What calls on a new table come to that give these names and leave this table behind. -/
structure Distinguishes (texts : List String) (names : List Name) (table : NameTable) : Prop where
  /-- There is one name for each call, and it stands for the text of that call. -/
  text : names.map table.text? = texts.map some
  same_iff : ∀ (i j : Nat) (name name' : Name) (text text' : String),
    names[i]? = some name → names[j]? = some name' → texts[i]? = some text →
      texts[j]? = some text' → (name = name' ↔ text = text')
  /-- The two sides of the table are inverse to each other. -/
  inverse : ∀ text number,
    table.numbers.lookup text = some number ↔ table.text? ⟨number⟩ = some text
  /-- Whatever is entered later, the names given so far stay and keep their texts. -/
  kept : ∀ more later last, empty.internAll (texts ++ more) = .ok (later, last) →
    names <+: later ∧ ∀ name text, table.text? name = some text → last.text? name = some text
  empty_text : table.text? Name.empty = some ""
  size_eq : table.size = 1 + (texts.toFinset.erase "").card
  size_le : table.size ≤ UInt32.size

/-- Calls on a new table tell texts apart by their names, unless there are more texts than
numbers. -/
theorem names_distinguish_texts (texts : List String) :
    match empty.internAll texts with
    | .ok (names, table) => Distinguishes texts names table
    | .error _ => UInt32.size < 1 + (texts.toFinset.erase "").card := by
  cases hRun : empty.internAll texts with
  | error fault =>
      have hFull := empty_valid.internAll_full hRun
      have hTexts : (empty.texts.toList ++ texts).toFinset.erase "" = texts.toFinset.erase "" := by
        simp [empty, Finset.erase_insert_eq_erase]
      rwa [hTexts] at hFull
  | ok result =>
      obtain ⟨names, table⟩ := result
      obtain ⟨hValid, -, hNames, hMember⟩ := empty_valid.internAll hRun
      have hText {i : Nat} {name : Name} {text : String} (hName : names[i]? = some name)
          (hAt : texts[i]? = some text) : table.text? name = some text := by
        have hSame := congrArg (·[i]?) hNames
        simp only [List.getElem?_map, hName, hAt, Option.map_some] at hSame
        exact Option.some.inj hSame
      refine ⟨hNames, ?_, hValid.inverse, ?_, hValid.head, ?_, hValid.small⟩
      · intro i j name name' text text' hName hName' hAt hAt'
        constructor
        · rintro rfl
          exact Option.some.inj ((hText hName hAt).symm.trans (hText hName' hAt'))
        · rintro rfl
          exact hValid.name_unique (hText hName hAt) (hText hName' hAt')
      · intro more later last hLater
        obtain ⟨others, hMore, rfl⟩ := internAll_append hRun hLater
        exact ⟨List.prefix_append _ _, (hValid.internAll hMore).2.1⟩
      · have hTexts : table.texts.toList.toFinset = insert "" texts.toFinset := by
          ext other
          simp [hMember, empty]
        rw [hValid.size_eq, hTexts, Finset.erase_insert_eq_erase]

example : ((empty.internAll ["Apple", "", "Worm", "Apple"]).map fun run => run.1.map (·.index)) =
    .ok [1, 0, 2, 1] := by decide

end GoToC.NameTable
