import GoToC.Compile.Declare
import GoToC.Proofs.Token.Lexemes

/-!
# Identifiers

A word of the source is an identifier, and so is every C name that is made by putting
something in front of an identifier or a number behind it. Only the C names of globals,
which begin with the name of a module, may fail to be identifiers.
-/

namespace GoToC

variable {τ : Type} {a b text name package : String}

/-- Whether a text is a letter or underscore and then letters, digits and underscores. -/
def isIdentifier (text : String) : Bool :=
  match text.toList with
  | [] => false
  | c :: rest => Lexeme.isWordStart c && rest.all Lexeme.isWordPart

/-- Whether a text may follow an identifier so that both together are one. -/
def isWordTail (text : String) : Bool := text.toList.all Lexeme.isWordPart

theorem isIdentifier_eq_true : isIdentifier text = true ↔
      ∃ c rest, text.toList = c :: rest ∧ Lexeme.isWordStart c = true ∧
        rest.all Lexeme.isWordPart = true := by
  unfold isIdentifier
  cases text.toList with
  | nil => simp
  | cons c rest =>
      rw [Bool.and_eq_true]
      constructor
      · intro h
        exact ⟨c, rest, rfl, h⟩
      · rintro ⟨_, _, ⟨⟩, h⟩
        exact h

theorem isWordTail_of_isIdentifier (h : isIdentifier text = true) : isWordTail text = true := by
  obtain ⟨c, rest, hText, hStart, hRest⟩ := isIdentifier_eq_true.mp h
  rw [isWordTail, hText, List.all_cons, isWordPart_of_isWordStart hStart, hRest]
  rfl

theorem isWordTail_append :
    isWordTail (a ++ b) = true ↔ isWordTail a = true ∧ isWordTail b = true := by
  simp [isWordTail, String.toList_append]

theorem isIdentifier_append (ha : isIdentifier a = true) (hb : isWordTail b = true) :
    isIdentifier (a ++ b) = true := by
  obtain ⟨c, rest, hText, hStart, hRest⟩ := isIdentifier_eq_true.mp ha
  refine isIdentifier_eq_true.mpr ⟨c, rest ++ b.toList, ?_, hStart, ?_⟩
  · rw [String.toList_append, hText, List.cons_append]
  · rw [List.all_append, hRest, isWordTail] at *
    simpa using hb

theorem isWordTail_toString (n : Nat) : isWordTail (toString n) = true := by
  rw [isWordTail, List.all_eq_true]
  intro c hc
  rw [Nat.toString_eq_repr, Nat.toList_repr] at hc
  have hDigit : c.isDigit = true := Nat.isDigit_of_mem_toDigits (by decide) (by decide) hc
  simp [Lexeme.isWordPart, Char.isAlphanum, hDigit]

/-! ## Names of variables and functions -/

/-- The words that C reads as types or operators where a value may stand. -/
def reservedWords : List String := "void" :: "sizeof" :: Prim.all.map (·.cType)

/-- Whether C reads a text as the name of a variable or function. -/
def isCName (text : String) : Bool := isIdentifier text && !reservedWords.contains text

theorem isIdentifier_of_isCName (h : isCName text = true) :
    isIdentifier text = true := (Bool.and_eq_true_iff.mp h).1

/-- A text is a name if no reserved word starts as it does. -/
theorem isCName_append (ha : isIdentifier a = true)
    (hFree : ∀ reserved ∈ reservedWords, ¬ a.toList <+: reserved.toList)
    (hb : isWordTail b = true) : isCName (a ++ b) = true := by
  have hReserved : reservedWords.contains (a ++ b) = false := by
    rw [List.contains_eq_mem, decide_eq_false_iff_not]
    intro hMem
    refine hFree _ hMem ?_
    rw [String.toList_append]
    exact List.prefix_append _ _
  rw [isCName, isIdentifier_append ha hb, hReserved]
  rfl

/-- What the names that are made up start with. -/
def namePrefixes : List String :=
  ["v_", "_tmp_", "_multi_", "__", "in_", "out_", "out__", "I_", "funk_"]

theorem namePrefixes_free : ∀ a ∈ namePrefixes, isIdentifier a = true ∧
    ∀ reserved ∈ reservedWords, ¬ a.toList <+: reserved.toList := by
  decide +kernel

theorem isCName_prefixed (ha : a ∈ namePrefixes) (hb : isWordTail b = true) :
    isCName (a ++ b) = true :=
  isCName_append (namePrefixes_free a ha).1 (namePrefixes_free a ha).2 hb

/-- What the parts of names are joined by. -/
theorem isWordTail_gaps : isWordTail "_" = true ∧ isWordTail "__" = true := by decide

/-! ## C names of a routine -/

theorem isCName_variableName (h : isWordTail name = true) :
    isCName (RoutineM.variableName name) = true :=
  isCName_prefixed (a := "v_") (by simp [namePrefixes]) h

theorem isCName_renamedVariable (serial : Nat) (h : isWordTail name = true) :
    isCName (RoutineM.renamedVariable name serial) = true := by
  have hTail : isWordTail (name ++ "_" ++ toString serial) = true :=
    isWordTail_append.mpr ⟨isWordTail_append.mpr ⟨h, isWordTail_gaps.1⟩, isWordTail_toString serial⟩
  have hName := isCName_variableName hTail
  rw [RoutineM.variableName, ← String.append_assoc, ← String.append_assoc] at hName
  exact hName

theorem isCName_tempName (serial : Nat) : isCName (RoutineM.tempName serial) = true :=
  isCName_prefixed (a := "_tmp_") (by simp [namePrefixes]) (isWordTail_toString serial)

theorem isCName_multiName (serial index : Nat) :
    isCName (RoutineM.multiName serial index) = true := by
  have hTail : isWordTail (toString serial ++ "_" ++ toString index) = true :=
    isWordTail_append.mpr ⟨isWordTail_append.mpr ⟨isWordTail_toString serial, isWordTail_gaps.1⟩,
      isWordTail_toString index⟩
  have hName : isCName ("_multi_" ++ (toString serial ++ "_" ++ toString index)) = true :=
    isCName_prefixed (by simp [namePrefixes]) hTail
  rw [← String.append_assoc, ← String.append_assoc] at hName
  exact hName

/-- A name of a parameter is an identifier unless it cannot be referred to. -/
def NamedByIdentifier (name : String) : Prop := isNamed name = true → isIdentifier name = true

theorem isCName_inputName (func : FuncType τ) (index : Nat)
    (h : ∀ input ∈ func.inputs, NamedByIdentifier input.name) :
    isCName (func.inputName index) = true := by
  have hNumber : isCName s!"__{index}" = true :=
    isCName_prefixed (a := "__") (by simp [namePrefixes]) (isWordTail_toString index)
  unfold FuncType.inputName
  split
  · next input hInput =>
      split
      · next hNamed =>
          exact isCName_prefixed (a := "in_") (by simp [namePrefixes])
            (isWordTail_of_isIdentifier (h input (List.mem_of_getElem? hInput) hNamed))
      · exact hNumber
  · exact hNumber

theorem isCName_outputName (func : FuncType τ) (index : Nat)
    (h : ∀ output ∈ func.outputs, NamedByIdentifier output.name) :
    isCName (func.outputName index) = true := by
  have hNumber : isCName s!"out__{index}" = true :=
    isCName_prefixed (a := "out__") (by simp [namePrefixes]) (isWordTail_toString index)
  unfold FuncType.outputName
  split
  · next output hOutput =>
      split
      · next hNamed =>
          exact isCName_prefixed (a := "out_") (by simp [namePrefixes])
            (isWordTail_of_isIdentifier (h output (List.mem_of_getElem? hOutput) hNamed))
      · exact hNumber
  · exact hNumber

/-! ## C names of types and globals -/

theorem isIdentifier_cType (prim : Prim) : isIdentifier prim.cType = true := by
  cases prim <;> decide +kernel

theorem isIdentifier_typedefName (func : FuncType τ) : isIdentifier func.typedefName = true :=
  isIdentifier_append (a := "funk_") (namePrefixes_free _ (by simp [namePrefixes])).1
    (isWordTail_toString func.number)

/-- The C names of the globals of a module are names to C. A module called `P` could
declare a variable that is called like a primitive type. -/
def NamesGlobals (package : String) : Prop :=
  isIdentifier (package ++ "__") = true ∧ package ≠ "P"

/-- A global of another module than `P` is not called like a primitive type, and none is
called like an operator. -/
theorem not_isPrefix_of_ne (h : package ≠ "P") :
    ∀ reserved ∈ reservedWords, ¬ (package ++ "__").toList <+: reserved.toList := by
  have hGaps : ∀ reserved ∈ reservedWords, ¬ ['_', '_'] <:+: reserved.toList.drop 2 ∧
      reserved.toList.head? ≠ some '_' ∧
        ((reserved.toList.drop 1).take 2 = ['_', '_'] → reserved.toList.head? = some 'P') := by
    decide +kernel
  intro reserved hReserved hPrefix
  obtain ⟨hGap, hHead, hLetter⟩ := hGaps reserved hReserved
  obtain ⟨rest, hRest⟩ := hPrefix
  rw [String.toList_append] at hRest
  cases hPackage : package.toList with
  | nil =>
      rw [hPackage] at hRest
      exact hHead (by rw [← hRest]; rfl)
  | cons c tail =>
      rw [hPackage] at hRest
      cases tail with
      | nil =>
          have hFirst := hLetter (by rw [← hRest]; rfl)
          rw [← hRest] at hFirst
          refine h (String.toList_injective ?_)
          rw [hPackage, Option.some.inj hFirst]
          rfl
      | cons d others =>
          refine hGap ⟨others, rest, ?_⟩
          rw [← hRest]
          simp

theorem isCName_cName (hPackage : NamesGlobals package) (hName : isWordTail name = true) :
    isCName (Declaration.cName package name) = true :=
  isCName_append hPackage.1 (not_isPrefix_of_ne hPackage.2) hName

theorem isCName_method {record : StructType τ} {member : String}
    (hPackage : NamesGlobals record.package) (hName : isWordTail record.name = true)
    (hMember : isWordTail member = true) : isCName (record.cName ++ "__" ++ member) = true := by
  have hTail : isWordTail (record.name ++ "__" ++ member) = true :=
    isWordTail_append.mpr ⟨isWordTail_append.mpr ⟨hName, isWordTail_gaps.2⟩, hMember⟩
  have hWhole := isCName_cName hPackage hTail
  rw [Declaration.cName, ← String.append_assoc, ← String.append_assoc] at hWhole
  exact hWhole

theorem isCName_dispatch {method : String} (h : isIdentifier method = true) :
    isCName ("I_" ++ method) = true :=
  isCName_prefixed (by simp [namePrefixes]) (isWordTail_of_isIdentifier h)

end GoToC

/-!
## Well-formed C fragments

What is called is a name, and whatever is written as a name is one to C; of the names of
globals this is asked only if `strict` holds.
-/

namespace GoToC.CExpr

/-- What can be called: a variable of the routine, a global or the choice of a method. -/
def IsName : CExpr → Prop
  | .localVar _ => True
  | .global _ => True
  | .dispatch _ => True
  | _ => False

/-- What an identifier that a block declares stands for. -/
def IsVariable : CExpr → Prop
  | .localVar _ => True
  | .param _ => True
  | .result _ => True
  | _ => False

mutual

def Fits (strict : Prop) : CExpr → Prop
  | .int _ => True
  | .nil => True
  | .string _ => True
  | .localVar name => isCName name = true
  | .param name => isCName name = true
  | .result name => isCName name = true
  | .global name => strict → isCName name = true
  | .dispatch method => isIdentifier method = true
  | .unary _ operand => operand.Fits strict
  | .binary _ left right => left.Fits strict ∧ right.Fits strict
  | .field receiver name => receiver.Fits strict ∧ isIdentifier name = true
  | .subscript receiver index => receiver.Fits strict ∧ index.Fits strict
  | .call callee args => callee.IsName ∧ callee.Fits strict ∧ FitAll strict args
  | .addressOf name => isCName name = true
  | .toInterface operand => operand.Fits strict
  | .cast _ operand => operand.Fits strict
  | .byteCount operand => operand.Fits strict
  | .elementCount operand elem => operand.Fits strict ∧ isIdentifier elem = true

def FitAll (strict : Prop) : List CExpr → Prop
  | [] => True
  | e :: rest => e.Fits strict ∧ FitAll strict rest

end

variable {strict : Prop}

theorem fitAll_iff {es : List CExpr} : FitAll strict es ↔ ∀ e ∈ es, e.Fits strict := by
  induction es with
  | nil => simp [FitAll]
  | cons e rest ih => simp [FitAll, ih]

mutual

/-- What fits where the names of globals are identifiers fits anywhere. -/
theorem Fits.mono {strict' : Prop} (imp : strict' → strict) :
    (e : CExpr) → e.Fits strict → e.Fits strict'
  | .int _, _ => by simp [Fits]
  | .nil, _ => by simp [Fits]
  | .string _, _ => by simp [Fits]
  | .localVar _, h => by simpa [Fits] using h
  | .param _, h => by simpa [Fits] using h
  | .result _, h => by simpa [Fits] using h
  | .global _, h => by
      rw [Fits] at h ⊢
      exact fun hs => h (imp hs)
  | .dispatch _, h => by simpa [Fits] using h
  | .unary _ operand, h => by
      rw [Fits] at h ⊢
      exact Fits.mono imp operand h
  | .binary _ left right, h => by
      rw [Fits] at h ⊢
      exact ⟨Fits.mono imp left h.1, Fits.mono imp right h.2⟩
  | .field receiver _, h => by
      rw [Fits] at h ⊢
      exact ⟨Fits.mono imp receiver h.1, h.2⟩
  | .subscript receiver index, h => by
      rw [Fits] at h ⊢
      exact ⟨Fits.mono imp receiver h.1, Fits.mono imp index h.2⟩
  | .call callee args, h => by
      rw [Fits] at h ⊢
      exact ⟨h.1, Fits.mono imp callee h.2.1, FitAll.mono imp args h.2.2⟩
  | .addressOf _, h => by simpa [Fits] using h
  | .toInterface operand, h => by
      rw [Fits] at h ⊢
      exact Fits.mono imp operand h
  | .cast _ operand, h => by
      rw [Fits] at h ⊢
      exact Fits.mono imp operand h
  | .byteCount operand, h => by
      rw [Fits] at h ⊢
      exact Fits.mono imp operand h
  | .elementCount operand _, h => by
      rw [Fits] at h ⊢
      exact ⟨Fits.mono imp operand h.1, h.2⟩

theorem FitAll.mono {strict' : Prop} (imp : strict' → strict) :
    (es : List CExpr) → FitAll strict es → FitAll strict' es
  | [], _ => by simp [FitAll]
  | e :: rest, h => by
      rw [FitAll] at h ⊢
      exact ⟨Fits.mono imp e h.1, FitAll.mono imp rest h.2⟩

end

theorem Fits.converted {e : CExpr} (h : e.Fits strict) (conversion : Conversion) :
    (conversion.apply e).Fits strict := by
  cases conversion with
  | keep => exact h
  | toInterface => simpa [Conversion.apply, Fits] using h
  | castTo prim => simpa [Conversion.apply, Fits] using h

end GoToC.CExpr
