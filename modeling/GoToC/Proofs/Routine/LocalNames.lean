import Mathlib.Data.List.Nodup
import GoToC.Proofs.C.Identifier
import GoToC.Proofs.Routine.Composed

/-!
# Names of local variables

Every C variable of a routine has an origin: a source variable that keeps its name, a
source variable that is renamed with a serial number, a temporary, or one of several
results of a call. No two variables of a routine have the same origin. Their names are
the same only where a source variable is spelled like the new name of another one.
-/

namespace GoToC

variable {span : Span} {type : Ty} {done : Unit} {serial m n index : Nat} {name x y : String}
  {func : FuncType Ty} {outputs : List (Member Ty)} {body : List Stmt}

/-- If texts are the same only where items clash, different items have different texts exactly if
none of them clash. -/
theorem nodup_map_iff {α β : Type} {text : α → β} {clash : α → α → Prop} {items : List α}
    (hOnly : ∀ a b, text a = text b → a = b ∨ clash a b ∨ clash b a)
    (hClash : ∀ a b, clash a b → text a = text b ∧ a ≠ b) (h : items.Nodup) :
    (items.map text).Nodup ↔ ∀ a ∈ items, ∀ b ∈ items, ¬ clash a b := by
  constructor
  · intro hTexts a ha b hb hab
    obtain ⟨hText, hNe⟩ := hClash a b hab
    exact hNe (List.inj_on_of_nodup_map hTexts ha hb hText)
  · intro hNone
    refine h.map_on fun a ha b hb hText => ?_
    rcases hOnly a b hText with hEq | hab | hba
    · exact hEq
    · exact absurd hab (hNone a ha b hb)
    · exact absurd hba (hNone b hb a ha)

/-- What a C variable stands for. -/
inductive LocalName where
  | source (name : String)
  /-- A source variable whose plain C name was taken. -/
  | renamed (name : String) (serial : Nat)
  | temp (serial : Nat)
  /-- One result of a call that has several. -/
  | result (serial index : Nat)
  deriving Repr, DecidableEq

namespace LocalName

def text : LocalName → String
  | source name => RoutineM.variableName name
  | renamed name serial => RoutineM.renamedVariable name serial
  | temp serial => RoutineM.tempName serial
  | result serial index => RoutineM.multiName serial index

def serial? : LocalName → Option Nat
  | source _ => none
  | renamed _ serial => some serial
  | temp serial => some serial
  | result serial _ => some serial

def variableOf? : LocalName → Option String
  | source name => some name
  | renamed name _ => some name
  | temp _ => none
  | result _ _ => none

/-- The spelling of a source variable that is taken for another one with a new name. -/
def imitation (name : String) (serial : Nat) : String := name ++ "_" ++ toString serial

/-! ## Names that differ -/

theorem toString_injective (h : toString m = toString n) : m = n := by
  have hDigits : Nat.toDigits 10 m = Nat.toDigits 10 n := by
    simpa only [Nat.toString_eq_repr, Nat.toList_repr] using congrArg String.toList h
  have hRead := congrArg (fun digits => Nat.ofDigitChars 10 digits 0) hDigits
  simpa [Nat.ofDigitChars_toDigits] using hRead

theorem underscore_not_mem_toString (n : Nat) : '_' ∉ (toString n).toList := by
  intro h
  rw [Nat.toString_eq_repr, Nat.toList_repr] at h
  have hDigit := Nat.isDigit_of_mem_toDigits (by decide) (by decide) h
  exact absurd hDigit (by decide)

/-- What comes after the last underscore tells a text apart. -/
theorem append_underscore_inj {xs ys ds es : List Char} (hds : '_' ∉ ds) (hes : '_' ∉ es)
    (h : xs ++ '_' :: ds = ys ++ '_' :: es) : xs = ys ∧ ds = es := by
  rcases List.append_eq_append_iff.mp h with ⟨gap, hYs, hTail⟩ | ⟨gap, hXs, hTail⟩
  · cases gap with
    | nil => simpa [hYs] using hTail
    | cons c rest =>
        simp only [List.cons_append, List.cons.injEq] at hTail
        exact absurd (hTail.2 ▸ by simp) hds
  · cases gap with
    | nil => simpa [hXs, eq_comm] using hTail
    | cons c rest =>
        simp only [List.cons_append, List.cons.injEq] at hTail
        exact absurd (hTail.2 ▸ by simp) hes

theorem imitation_inj (h : imitation x m = imitation y n) : x = y ∧ m = n := by
  have hChars :
      x.toList ++ '_' :: (toString m).toList = y.toList ++ '_' :: (toString n).toList := by
    simpa [imitation, String.toList_append] using congrArg String.toList h
  obtain ⟨hName, hSerial⟩ := append_underscore_inj (underscore_not_mem_toString m)
    (underscore_not_mem_toString n) hChars
  exact ⟨String.toList_injective hName, toString_injective (String.toList_injective hSerial)⟩

theorem variableName_inj (h : RoutineM.variableName x = RoutineM.variableName y) : x = y := by
  have hChars := congrArg String.toList h
  simp only [RoutineM.variableName, String.toList_append, List.append_cancel_left_eq] at hChars
  exact String.toList_injective hChars

/-- A variable with a new name is called like a source variable of another spelling. -/
theorem renamedVariable_eq (name : String) (serial : Nat) :
    RoutineM.renamedVariable name serial = RoutineM.variableName (imitation name serial) := by
  show "v_" ++ name ++ "_" ++ toString serial = "v_" ++ (name ++ "_" ++ toString serial)
  rw [String.append_assoc, String.append_assoc, String.append_assoc]

theorem tempName_inj (h : RoutineM.tempName m = RoutineM.tempName n) : m = n := by
  have hChars : ("_tmp_" ++ toString m).toList = ("_tmp_" ++ toString n).toList :=
    congrArg String.toList h
  simp only [String.toList_append, List.append_cancel_left_eq] at hChars
  exact toString_injective (String.toList_injective hChars)

theorem multiName_inj {i j : Nat} (h : RoutineM.multiName m i = RoutineM.multiName n j) :
    m = n ∧ i = j := by
  have hChars : ("_multi_" ++ toString m ++ "_" ++ toString i).toList =
      ("_multi_" ++ toString n ++ "_" ++ toString j).toList := congrArg String.toList h
  simp only [String.toList_append, List.append_assoc, List.append_cancel_left_eq] at hChars
  obtain ⟨hSerial, hIndex⟩ := append_underscore_inj (underscore_not_mem_toString i)
    (underscore_not_mem_toString j) hChars
  exact ⟨toString_injective (String.toList_injective hSerial),
    toString_injective (String.toList_injective hIndex)⟩

/-- The first two characters tell variables, temporaries and results apart. -/
theorem text_start (name : LocalName) :
    name.text.toList.take 2 = match name with
      | source _ => ['v', '_']
      | renamed _ _ => ['v', '_']
      | temp _ => ['_', 't']
      | result _ _ => ['_', 'm'] := by
  have hVariable (x : String) : (RoutineM.variableName x).toList.take 2 = ['v', '_'] := by
    simp [RoutineM.variableName, String.toList_append]
  cases name with
  | source x => exact hVariable x
  | renamed x serial =>
      show (RoutineM.renamedVariable x serial).toList.take 2 = _
      rw [renamedVariable_eq]
      exact hVariable _
  | temp serial =>
      show ("_tmp_" ++ toString serial).toList.take 2 = _
      simp [String.toList_append]
  | result serial index =>
      show ("_multi_" ++ toString serial ++ "_" ++ toString index).toList.take 2 = _
      simp [String.toList_append]

/-- The second variable is spelled like the new name of the first. -/
def Imitates : LocalName → LocalName → Prop
  | renamed x serial, source y => y = imitation x serial
  | _, _ => False

/-- Two origins have the same name only if one imitates the other. -/
theorem eq_of_text_eq {a b : LocalName} (h : a.text = b.text) :
    a = b ∨ a.Imitates b ∨ b.Imitates a := by
  have hStart := congrArg (fun text => text.toList.take 2) h
  simp only [text_start] at hStart
  cases a with
  | source x =>
      cases b with
      | source y => exact .inl (congrArg _ (variableName_inj h))
      | renamed y n => exact .inr (.inr (variableName_inj (h.trans (renamedVariable_eq y n))))
      | temp n => simp at hStart
      | result n j => simp at hStart
  | renamed x m =>
      cases b with
      | source y =>
          exact .inr (.inl (variableName_inj (h.symm.trans (renamedVariable_eq x m))))
      | renamed y n =>
          have hNames : RoutineM.variableName (imitation x m) =
              RoutineM.variableName (imitation y n) := by
            rw [← renamedVariable_eq, ← renamedVariable_eq]
            exact h
          obtain ⟨rfl, rfl⟩ := imitation_inj (variableName_inj hNames)
          exact .inl rfl
      | temp n => simp at hStart
      | result n j => simp at hStart
  | temp m =>
      cases b with
      | temp n => exact .inl (congrArg _ (tempName_inj h))
      | source y => simp at hStart
      | renamed y n => simp at hStart
      | result n j => simp at hStart
  | result m i =>
      cases b with
      | result n j =>
          obtain ⟨rfl, rfl⟩ := multiName_inj h
          exact .inl rfl
      | source y => simp at hStart
      | renamed y n => simp at hStart
      | temp n => simp at hStart

theorem text_eq_of_imitates {a b : LocalName} (h : a.Imitates b) : a.text = b.text ∧ a ≠ b := by
  cases a with
  | renamed x m =>
      cases b with
      | source y =>
          obtain rfl : y = imitation x m := h
          exact ⟨renamedVariable_eq x m, by simp⟩
      | _ => exact h.elim
  | _ => exact h.elim

/-- Different origins have different names exactly if none of them imitates another. -/
theorem nodup_text_iff {origins : List LocalName} (h : origins.Nodup) :
    (origins.map text).Nodup ↔ ∀ a ∈ origins, ∀ b ∈ origins, ¬ a.Imitates b :=
  nodup_map_iff (fun _ _ => eq_of_text_eq) (fun _ _ => text_eq_of_imitates) h

end LocalName

/-! ## Names of a routine -/

/-- The C variables of a routine have the names of different origins, whose serial
numbers were taken before and whose source variables satisfy `vars`. -/
structure Routine.NamedBy (vars : String → Prop) (origins : List LocalName) (routine : Routine) :
    Prop where
  names : routine.locals.toList.map (·.name) = origins.map LocalName.text
  distinct : origins.Nodup
  serials : ∀ origin ∈ origins, ∀ serial ∈ origin.serial?, serial ≤ routine.supply.serial
  declared : ∀ origin ∈ origins, ∀ x ∈ origin.variableOf?, vars x

def Routine.Named (vars : String → Prop) (routine : Routine) : Prop :=
  ∃ origins, routine.NamedBy vars origins

/-- What every step of a compilation does to a routine. -/
structure Routine.Advances (vars : String → Prop) (before after : Routine) : Prop where
  made : before.supply.typedefs.made ≤ after.supply.typedefs.made
  serial : before.supply.serial ≤ after.supply.serial
  named : before.Named vars → after.Named vars

namespace Routine

variable {vars : String → Prop} {before middle after routine : Routine}

theorem Named.start (vars : String → Prop) (supply : Supply) : (start supply).Named vars :=
  ⟨[], rfl, .nil, by simp, by simp⟩

/-- Names do not depend on anything but the variables and the numbers taken. -/
theorem NamedBy.of_same {origins : List LocalName} (h : before.NamedBy vars origins)
    (hLocals : after.locals = before.locals)
    (hSerial : before.supply.serial ≤ after.supply.serial) : after.NamedBy vars origins where
  names := by rw [hLocals, h.names]
  distinct := h.distinct
  serials origin ho serial hs := Nat.le_trans (h.serials origin ho serial hs) hSerial
  declared := h.declared

/-- One more variable, of an origin that is new. -/
theorem NamedBy.push {origins : List LocalName} {origin : LocalName} {added : CLocal}
    (h : before.NamedBy vars origins) (hNew : origin ∉ origins)
    (hLocals : after.locals = before.locals.push added) (hName : added.name = origin.text)
    (hSerial : before.supply.serial ≤ after.supply.serial)
    (hTaken : ∀ serial ∈ origin.serial?, serial ≤ after.supply.serial)
    (hVars : ∀ x ∈ origin.variableOf?, vars x) : after.NamedBy vars (origins ++ [origin]) := by
  refine ⟨?_, ?_, fun other ho serial hs => ?_, fun other ho x hx => ?_⟩
  · rw [hLocals, Array.toList_push, List.map_append, List.map_append, h.names]
    simp [hName]
  · rw [List.nodup_append_comm, List.singleton_append, List.nodup_cons]
    exact ⟨hNew, h.distinct⟩
  · rw [List.mem_append, List.mem_singleton] at ho
    rcases ho with ho | rfl
    · exact Nat.le_trans (h.serials other ho serial hs) hSerial
    · exact hTaken serial hs
  · rw [List.mem_append, List.mem_singleton] at ho
    rcases ho with ho | rfl
    · exact h.declared other ho x hx
    · exact hVars x hx

/-- An origin with a number that was not taken yet is new. -/
theorem NamedBy.not_mem_of_serial {origins : List LocalName} {origin : LocalName}
    (h : before.NamedBy vars origins) (hSerial : origin.serial? = some serial)
    (hFresh : before.supply.serial < serial) : origin ∉ origins := by
  intro ho
  exact absurd (h.serials origin ho serial hSerial) (Nat.not_le.mpr hFresh)

/-- A source variable whose plain C name is free is new. -/
theorem NamedBy.not_mem_of_not_hasLocal {origins : List LocalName} (h : before.NamedBy vars origins)
    (hFree : before.hasLocal (RoutineM.variableName name) = false) :
    LocalName.source name ∉ origins := by
  intro ho
  have hText : RoutineM.variableName name ∈ before.locals.toList.map (·.name) := by
    rw [h.names]
    exact List.mem_map.mpr ⟨_, ho, rfl⟩
  obtain ⟨l, hl, hName⟩ := List.mem_map.mp hText
  rw [hasLocal, ← Array.any_toList, List.any_eq_false] at hFree
  exact hFree l hl (by simp [hName])

namespace Advances

theorem refl (vars : String → Prop) (routine : Routine) : routine.Advances vars routine :=
  ⟨Nat.le_refl _, Nat.le_refl _, id⟩

theorem trans (h : before.Advances vars middle) (h' : middle.Advances vars after) :
    before.Advances vars after :=
  ⟨Nat.le_trans h.made h'.made, Nat.le_trans h.serial h'.serial, h'.named ∘ h.named⟩

theorem of_same (hLocals : after.locals = before.locals)
    (hSerial : before.supply.serial ≤ after.supply.serial)
    (hMade : before.supply.typedefs.made ≤ after.supply.typedefs.made) :
    before.Advances vars after :=
  ⟨hMade, hSerial, fun ⟨origins, h⟩ => ⟨origins, h.of_same hLocals hSerial⟩⟩

end Advances

end Routine

/-! ## Steps and runs -/

section Runs

variable {vars : String → Prop} {extent : Extent} {α : Type} {env : Env} {routine after : Routine}

theorem TypedefSupply.request_made (supply : TypedefSupply) (store : TypeStore) (type : Ty) :
    (supply.request store type).2.made = supply.made := by
  unfold TypedefSupply.request
  split
  · rfl
  · rfl
  · split <;> rfl

theorem requestTypedef_ok
    (h : (RoutineM.requestTypedef type).exec env routine = (.ok done, after)) :
    after.locals = routine.locals ∧ after.supply.serial = routine.supply.serial ∧
      after.supply.typedefs.made = routine.supply.typedefs.made := by
  obtain ⟨item, -, rfl⟩ := requestTypedef_eq_ok h
  exact ⟨rfl, rfl, TypedefSupply.request_made routine.supply.typedefs env.program.types type⟩

/-- A declared variable is added behind those declared before. -/
theorem addLocal_ok (h : (RoutineM.addLocal name type span).exec env routine = (.ok done, after)) :
    (∃ added : CLocal, added.name = name ∧ env.program.types.cType type = .ok added.type ∧
      env.program.types.zeroValue type = .ok added.init ∧
      after.locals = routine.locals.push added) ∧
      after.supply.serial = routine.supply.serial ∧
        after.supply.typedefs.made = routine.supply.typedefs.made := by
  obtain ⟨added, middle, hName, hCType, hZero, hRequest, rfl⟩ := addLocal_eq_ok h
  obtain ⟨hLocals, hSerial, hMade⟩ := requestTypedef_ok hRequest
  exact ⟨⟨added, hName, hCType, hZero, congrArg (Array.push · _) hLocals⟩, hSerial, hMade⟩

/-- Declares a variable of a new origin, whose number may just have been taken. -/
theorem addLocal_named {origins : List LocalName} (origin : LocalName)
    (h : (RoutineM.addLocal origin.text type span).exec env routine = (.ok done, after))
    (hNamed : routine.NamedBy vars origins) (hNew : origin ∉ origins)
    (hTaken : ∀ serial ∈ origin.serial?, serial ≤ routine.supply.serial)
    (hVars : ∀ x ∈ origin.variableOf?, vars x) : after.NamedBy vars (origins ++ [origin]) := by
  obtain ⟨⟨added, hName, -, -, hLocals⟩, hSerial, -⟩ := addLocal_ok h
  refine hNamed.push hNew hLocals hName (Nat.le_of_eq hSerial.symm) ?_ hVars
  rw [hSerial]
  exact hTaken

/-- A number that is taken is greater than all numbers of names. -/
theorem nextSerial_ok {origins : List LocalName}
    (h : RoutineM.nextSerial.exec env routine = (.ok serial, after))
    (hNamed : routine.NamedBy vars origins) :
    after.NamedBy vars origins ∧ after.supply.serial = serial ∧
      ∀ origin : LocalName, origin.serial? = some serial → origin ∉ origins := by
  rw [RoutineM.nextSerial_exec] at h
  cases h
  exact ⟨hNamed.of_same rfl (Nat.le_succ _), rfl, fun origin hOrigin =>
    hNamed.not_mem_of_serial hOrigin (Nat.lt_succ_self _)⟩

/-- A variable is declared whose name has a number that was just taken. -/
theorem numbered_advances {first : Routine} (origin : LocalName)
    (hOrigin : origin.serial? = some serial)
    (hSerial : RoutineM.nextSerial.exec env routine = (.ok serial, first))
    (hLocal : (RoutineM.addLocal origin.text type span).exec env first = (.ok done, after))
    (hVars : ∀ x ∈ origin.variableOf?, vars x) : routine.Advances vars after := by
  obtain ⟨-, hAfter, hMade⟩ := addLocal_ok hLocal
  refine ⟨?_, ?_, fun ⟨origins, hNamed⟩ => ?_⟩
  · rw [hMade]
    cases hSerial
    exact Nat.le_refl _
  · rw [hAfter]
    cases hSerial
    exact Nat.le_succ _
  · obtain ⟨hFirst, hTaken, hFresh⟩ := nextSerial_ok hSerial hNamed
    refine ⟨_, addLocal_named origin hLocal hFirst (hFresh origin hOrigin) ?_ hVars⟩
    intro number hNumber
    rw [hOrigin, Option.mem_some_iff] at hNumber
    exact Nat.le_of_eq (hNumber.symm.trans hTaken.symm)

theorem temp_advances (h : (RoutineM.temp type span).exec env routine = (.ok name, after)) :
    routine.Advances vars after := by
  unfold RoutineM.temp at h
  simp only [RoutineM.bind_eq_ok, RoutineM.pure_eq_ok] at h
  obtain ⟨serial, first, hSerial, _, second, hLocal, -, rfl⟩ := h
  exact numbered_advances (.temp serial) rfl hSerial hLocal nofun

/-- The variable for one result of a call; those for the next ones are still new. -/
theorem addResult_named {origins : List LocalName}
    (h : (RoutineM.addLocal (RoutineM.multiName serial index) type span).exec env routine =
      (.ok done, after)) (hNamed : routine.NamedBy vars origins)
    (hTaken : serial ≤ routine.supply.serial)
    (hFresh : ∀ i, index ≤ i → LocalName.result serial i ∉ origins) :
    after.NamedBy vars (origins ++ [.result serial index]) ∧ serial ≤ after.supply.serial ∧
      ∀ i, index + 1 ≤ i → LocalName.result serial i ∉ origins ++ [.result serial index] := by
  refine ⟨addLocal_named (.result serial index) h hNamed (hFresh index (Nat.le_refl _)) ?_ ?_,
    (addLocal_ok h).2.1 ▸ hTaken, fun i hi => ?_⟩
  · rintro _ ⟨⟩
    exact hTaken
  · rintro x ⟨⟩
  · rw [List.mem_append, List.mem_singleton, LocalName.result.injEq]
    rintro (hMem | ⟨-, rfl⟩)
    · exact hFresh i (by omega) hMem
    · omega

theorem resultTemps_ok {members : List (Member Ty)}
    (h : (Call.resultTemps serial span index outputs).exec env routine = (.ok members, after)) :
    after.supply.typedefs.made = routine.supply.typedefs.made ∧
      after.supply.serial = routine.supply.serial ∧
      ∀ origins, routine.NamedBy vars origins → serial ≤ routine.supply.serial →
        (∀ i, index ≤ i → LocalName.result serial i ∉ origins) → after.Named vars := by
  induction outputs generalizing index routine members with
  | nil =>
      cases h
      exact ⟨rfl, rfl, fun origins hNamed _ _ => ⟨origins, hNamed⟩⟩
  | cons output rest ih =>
      rw [Call.resultTemps] at h
      simp only [RoutineM.bind_eq_ok, RoutineM.pure_eq_ok] at h
      obtain ⟨_, first, hLocal, others, second, hRest, -, rfl⟩ := h
      obtain ⟨-, hSerial, hMade⟩ := addLocal_ok hLocal
      obtain ⟨hRestMade, hRestSerial, hRestNamed⟩ := ih hRest
      refine ⟨hRestMade.trans hMade, hRestSerial.trans hSerial,
        fun origins hNamed hTaken hFresh => ?_⟩
      obtain ⟨hFirst, hTaken, hFresh⟩ := addResult_named hLocal hNamed hTaken hFresh
      exact hRestNamed _ hFirst hTaken hFresh

theorem results_advances {found : List CExpr × Ty}
    (h : (Call.results outputs span).exec env routine = (.ok found, after)) :
    routine.Advances vars after := by
  unfold Call.results at h
  split at h
  · cases h
    exact .refl _ _
  · cases h
    exact .refl _ _
  · simp only [RoutineM.bind_eq_ok, RoutineM.pure_eq_ok] at h
    obtain ⟨serial, first, hSerial, members, second, hTemps, -, rfl⟩ := h
    obtain ⟨hMade, hSame, hRest⟩ := resultTemps_ok hTemps
    refine ⟨?_, ?_, fun ⟨origins, hNamed⟩ => ?_⟩
    · rw [hMade]
      cases hSerial
      exact Nat.le_refl _
    · rw [hSame]
      cases hSerial
      exact Nat.le_succ _
    · obtain ⟨hFirst, hTaken, hFresh⟩ := nextSerial_ok hSerial hNamed
      exact hRest origins hFirst (Nat.le_of_eq hTaken.symm) fun i _ => hFresh _ rfl

theorem declareLocal_advances {cName : String} (hName : vars name)
    (h : (RoutineM.declareLocal name type span).exec env routine = (.ok cName, after)) :
    routine.Advances vars after := by
  unfold RoutineM.declareLocal at h
  rw [RoutineM.bind_eq_ok] at h
  obtain ⟨_, _, hGet, h⟩ := h
  cases hGet
  have hVars (origin : LocalName) (hOrigin : origin.variableOf? = some name) :
      ∀ x ∈ origin.variableOf?, vars x := by
    intro x hx
    rw [hOrigin, Option.mem_some_iff] at hx
    exact hx ▸ hName
  dsimp only at h
  split at h
  · simp only [RoutineM.bind_eq_ok, RoutineM.map_eq_ok, RoutineM.pure_eq_ok] at h
    obtain ⟨_, first, ⟨serial, hSerial, rfl⟩, _, second, hLocal, -, rfl⟩ := h
    exact numbered_advances (.renamed name serial) rfl hSerial hLocal (hVars _ rfl)
  · next hFree =>
      simp only [RoutineM.bind_eq_ok, RoutineM.pure_eq_ok] at h
      obtain ⟨_, _, ⟨rfl, rfl⟩, _, second, hLocal, -, rfl⟩ := h
      obtain ⟨-, hSerial, hMade⟩ := addLocal_ok hLocal
      refine ⟨Nat.le_of_eq hMade.symm, Nat.le_of_eq hSerial.symm, fun ⟨origins, hNamed⟩ => ?_⟩
      have hNew := hNamed.not_mem_of_not_hasLocal (by simpa using hFree)
      refine ⟨_, addLocal_named (.source name) hLocal hNamed hNew ?_ (hVars _ rfl)⟩
      rintro _ ⟨⟩

/-- Every step of a compilation keeps the names of variables apart. -/
theorem Composed.advances {limits : Limits} {action : RoutineM α}
    (h : Composed extent limits action) {value : α}
    (run : action.exec env routine = (.ok value, after)) : routine.Advances limits.vars after := by
  induction h generalizing env routine after with
  | pure value =>
      cases run
      exact .refl _ _
  | bind _ _ ihAction ihNext =>
      obtain ⟨first, middle, hFirst, hNext⟩ := RoutineM.bind_eq_ok.mp run
      exact (ihAction hFirst).trans (ihNext first hNext)
  | fault | error => cases run
  | read =>
      cases run
      exact .refl _ _
  | get _ _ ihNext => exact ihNext routine run
  | nextSerial =>
      cases run
      exact .of_same rfl (Nat.le_succ _) (Nat.le_refl _)
  | newFunc inputs outputs variadic isMethod =>
      cases run
      exact .of_same rfl (Nat.le_refl _) (Nat.le_succ _)
  | newStruct name fields =>
      cases run
      exact .of_same rfl (Nat.le_refl _) (Nat.le_refl _)
  | emit stmt _ =>
      cases run
      exact .of_same rfl (Nat.le_refl _) (Nat.le_refl _)
  | temp type span _ => exact temp_advances run
  | results outputs span _ => exact results_advances run
  | declareLocal name type span _ hName _ => exact declareLocal_advances hName run
  | bindName name value _ =>
      rw [RoutineM.bindName_exec] at run
      cases run
      exact .of_same rfl (Nat.le_refl _) (Nat.le_refl _)
  | capture _ _ ih =>
      obtain ⟨inner, hInner, -, rfl⟩ := RoutineM.capture_eq_ok.mp run
      have hStart : routine.Advances limits.vars { routine with body := #[] } :=
        .of_same rfl (Nat.le_refl _) (Nat.le_refl _)
      exact (hStart.trans (ih hInner)).trans (.of_same rfl (Nat.le_refl _) (Nat.le_refl _))
  | inScope _ _ ih =>
      obtain ⟨inner, hInner, rfl⟩ := RoutineM.inScope_eq_ok.mp run
      have hStart : routine.Advances limits.vars { routine with scopes := [] :: routine.scopes } :=
        .of_same rfl (Nat.le_refl _) (Nat.le_refl _)
      exact (hStart.trans (ih hInner)).trans (.of_same rfl (Nat.le_refl _) (Nat.le_refl _))
  | inLoop number _ _ ih => exact ih run

/-- The body of a function is compiled after its named inputs and outputs were brought
into scope. -/
theorem compileBody_eq_ok : (compileBody func body span).exec env routine = (.ok done, after) ↔
      ∃ result middle, (enterFunc func span).exec env routine = (.ok result, middle) ∧
        (RoutineM.inScope (compileStmts body)).exec
          { env with func := some func, namedResult := result } middle = (.ok done, after) := by
  unfold compileBody
  rw [RoutineM.bind_eq_ok]
  exact Iff.rfl

theorem compileBody_advances (hOutput : ∀ output, func.outputs = [output] → vars output.name)
    (hBody : ∀ x ∈ variablesOf body, vars x)
    (run : (compileBody func body span).exec env routine = (.ok done, after)) :
    routine.Advances vars after := by
  obtain ⟨result, middle, hEnter, hRest⟩ := compileBody_eq_ok.mp run
  have hScope : Composed .nested (.naming vars) (RoutineM.inScope (compileStmts body)) :=
    .inScope rfl (compileStmts_composed body hBody)
  have hEntered : Composed .simple (.naming vars) (enterFunc func span) :=
    enterFunc_composed func span hOutput trivial
  exact (hEntered.advances hEnter).trans (hScope.advances hRest)

/-- A signature makes a function type. -/
theorem compileSignature_made {receiver : Option (Param Expr)} {signature : Signature Expr}
    (run : (compileSignature receiver signature).exec env routine = (.ok func, after)) :
    0 < after.supply.typedefs.made := by
  unfold compileSignature Operand.signature at run
  simp only [RoutineM.bind_eq_ok] at run
  obtain ⟨inputs, first, -, outputs, second, -, hFunc⟩ := run
  cases hFunc
  exact Nat.succ_pos _

end Runs

end GoToC
