import GoToC.Proofs.Routine.LocalNames

/-!
# Names of parameters

A C parameter stands for an input or an output with a name, or for one that is told by its position.
If no two inputs share a name and no two outputs do, then no two parameters stand for the same.
Their names are the same only where an output is spelled like the position of an output without a
name.
-/

namespace GoToC

variable {index : Nat}

/-- The names that members can be referred to by are all different. -/
def NamesDistinct (members : List (Member Ty)) : Prop :=
  ((members.map (·.name)).filter isNamed).Nodup

instance (members : List (Member Ty)) : Decidable (NamesDistinct members) :=
  inferInstanceAs (Decidable (List.Nodup _))

/-- The two kinds of parameters; outputs are handed back through pointers. -/
inductive ParamSide where
  | input
  | output
  deriving DecidableEq

/-- What a C parameter stands for. -/
inductive ParamName where
  | named (side : ParamSide) (name : String)
  | numbered (side : ParamSide) (index : Nat)
  deriving DecidableEq

namespace ParamName

def text : ParamName → String
  | named .input name => "in_" ++ name
  | named .output name => "out_" ++ name
  | numbered .input index => "__" ++ toString index
  | numbered .output index => "out__" ++ toString index

def side : ParamName → ParamSide
  | named side _ => side
  | numbered side _ => side

/-- What a member at a position is called by. -/
def ofMember (side : ParamSide) (index : Nat) (member : Member Ty) : ParamName :=
  if isNamed member.name then named side member.name else numbered side index

/-- What members are called by, the first of which has the given position. -/
def ofMembers (side : ParamSide) : Nat → List (Member Ty) → List ParamName
  | _, [] => []
  | index, member :: rest => ofMember side index member :: ofMembers side (index + 1) rest

/-! ## Names that differ -/

/-- An output that is spelled like the position of another one. -/
def imitation (index : Nat) : String := "_" ++ toString index

/-- The second parameter has no name, and the first one is spelled like its position. -/
def Imitates : ParamName → ParamName → Prop
  | named .output name, numbered .output index => name = imitation index
  | _, _ => False

theorem isNamed_imitation (index : Nat) : isNamed (imitation index) = true := by
  have hDigits : (toString index).toList ≠ [] := by
    rw [Nat.toString_eq_repr, Nat.toList_repr]
    exact Nat.toDigits_ne_nil
  rw [isNamed, Bool.and_eq_true, bne_iff_ne, bne_iff_ne]
  constructor
  · intro h
    have hChars := congrArg String.toList h
    simp [imitation, String.toList_append] at hChars
  · intro h
    have hChars := congrArg String.toList h
    rw [imitation, String.toList_append] at hChars
    exact hDigits (List.append_right_eq_self.mp hChars)

/-- The position of an output looks like the name of one. -/
theorem text_numbered_output (index : Nat) :
    (numbered .output index).text = (named .output (imitation index)).text := by
  show "out__" ++ toString index = "out_" ++ ("_" ++ toString index)
  rw [← String.append_assoc]
  rfl

/-- The first character tells named inputs, positions of inputs, and outputs apart. -/
theorem text_start (origin : ParamName) :
    origin.text.toList.head? = match origin with
      | named .input _ => some 'i'
      | numbered .input _ => some '_'
      | named .output _ => some 'o'
      | numbered .output _ => some 'o' := by
  unfold text
  split <;> simp [String.toList_append]

/-- Two parameters have the same name only if one imitates the other. -/
theorem eq_of_text_eq {a b : ParamName} (h : a.text = b.text) :
    a = b ∨ a.Imitates b ∨ b.Imitates a := by
  have hStart := congrArg (fun text => text.toList.head?) h
  simp only [text_start] at hStart
  rcases a with ⟨_ | _, x⟩ | ⟨_ | _, i⟩ <;> rcases b with ⟨_ | _, y⟩ | ⟨_ | _, j⟩
  case named.input.named.input => exact .inl (congrArg _ ((String.append_right_inj _).mp h))
  case numbered.input.numbered.input =>
    exact .inl (congrArg _ (LocalName.toString_injective ((String.append_right_inj _).mp h)))
  case named.output.named.output => exact .inl (congrArg _ ((String.append_right_inj _).mp h))
  case named.output.numbered.output =>
    exact .inr (.inl ((String.append_right_inj _).mp (h.trans (text_numbered_output j))))
  case numbered.output.named.output =>
    exact .inr (.inr ((String.append_right_inj _).mp (h.symm.trans (text_numbered_output i))))
  case numbered.output.numbered.output =>
    exact .inl (congrArg _ (LocalName.toString_injective ((String.append_right_inj _).mp h)))
  all_goals simp at hStart

theorem text_eq_of_imitates {a b : ParamName} (h : a.Imitates b) : a.text = b.text ∧ a ≠ b := by
  rcases a with ⟨_ | _, x⟩ | ⟨_ | _, i⟩ <;> rcases b with ⟨_ | _, y⟩ | ⟨_ | _, j⟩
  case named.output.numbered.output =>
    obtain rfl : x = imitation j := h
    exact ⟨(text_numbered_output j).symm, by simp⟩
  all_goals exact h.elim

/-- Different parameters have different names exactly if none of them imitates another. -/
theorem nodup_text_iff {origins : List ParamName} (h : origins.Nodup) :
    (origins.map text).Nodup ↔ ∀ a ∈ origins, ∀ b ∈ origins, ¬ a.Imitates b :=
  nodup_map_iff (fun _ _ => eq_of_text_eq) (fun _ _ => text_eq_of_imitates) h

/-! ## What members are called by -/

variable {side : ParamSide} {index : Nat} {members : List (Member Ty)} {origin : ParamName}

theorem mem_ofMembers : origin ∈ ofMembers side index members ↔
    ∃ i member, members[i]? = some member ∧ origin = ofMember side (index + i) member := by
  induction members generalizing index with
  | nil => simp [ofMembers]
  | cons member rest ih =>
      rw [ofMembers, List.mem_cons, ih]
      constructor
      · rintro (rfl | ⟨i, found, hFound, rfl⟩)
        · exact ⟨0, member, rfl, rfl⟩
        · exact ⟨i + 1, found, hFound, by rw [Nat.add_assoc, Nat.add_comm 1]⟩
      · rintro ⟨i, found, hFound, rfl⟩
        cases i with
        | zero =>
            cases hFound
            exact .inl rfl
        | succ i => exact .inr ⟨i, found, hFound, by rw [Nat.add_assoc, Nat.add_comm 1]⟩

theorem side_of_mem (h : origin ∈ ofMembers side index members) : origin.side = side := by
  obtain ⟨i, member, -, rfl⟩ := mem_ofMembers.mp h
  unfold ofMember
  split <;> rfl

/-- Members whose names are different are called differently. -/
theorem nodup_ofMembers (h : NamesDistinct members) : (ofMembers side index members).Nodup := by
  induction members generalizing index with
  | nil => exact List.nodup_nil
  | cons member rest ih =>
      have hRest : NamesDistinct rest := by
        rw [NamesDistinct, List.map_cons, List.filter_cons] at h
        split at h
        · exact h.of_cons
        · exact h
      refine List.nodup_cons.mpr ⟨fun hMem => ?_, ih hRest⟩
      obtain ⟨i, other, hOther, hSame⟩ := mem_ofMembers.mp hMem
      unfold ofMember at hSame
      split at hSame
      · next hNamed =>
          split at hSame
          · next hOtherNamed =>
              have hName : member.name = other.name := (ParamName.named.inj hSame).2
              rw [NamesDistinct, List.map_cons, List.filter_cons, if_pos hNamed] at h
              refine (List.nodup_cons.mp h).1 (List.mem_filter.mpr ⟨?_, hNamed⟩)
              exact hName ▸ List.mem_map_of_mem (List.mem_of_getElem? hOther)
          · cases hSame
      · split at hSame
        · cases hSame
        · have hIndex := (ParamName.numbered.inj hSame).2
          omega

end ParamName

/-! ## Prototypes -/

namespace FuncType

/-- What the C parameters of a function stand for. -/
def paramNames (func : FuncType Ty) : List ParamName :=
  ParamName.ofMembers .input 0 func.inputs
    ++ (if func.throughPointers then ParamName.ofMembers .output 0 func.outputs else [])

/-- An output that is handed back through a pointer has no name, and another output is spelled like
its position. -/
def HasImitation (func : FuncType Ty) : Prop :=
  func.throughPointers = true ∧ ∃ index output, func.outputs[index]? = some output ∧
    isNamed output.name = false ∧
    ∃ other ∈ func.outputs, other.name = ParamName.imitation index

variable {func : FuncType Ty}

theorem inputName_eq {input : Member Ty} (h : func.inputs[index]? = some input) :
    func.inputName index = (ParamName.ofMember .input index input).text := by
  unfold inputName ParamName.ofMember
  rw [h]
  dsimp only
  split <;> rfl

theorem outputName_eq {output : Member Ty} (h : func.outputs[index]? = some output) :
    func.outputName index = (ParamName.ofMember .output index output).text := by
  unfold outputName ParamName.ofMember
  rw [h]
  dsimp only
  split <;> rfl

theorem nodup_paramNames (hInputs : NamesDistinct func.inputs)
    (hOutputs : NamesDistinct func.outputs) : func.paramNames.Nodup := by
  refine List.Nodup.append (ParamName.nodup_ofMembers hInputs) ?_ ?_
  · split
    · exact ParamName.nodup_ofMembers hOutputs
    · exact List.nodup_nil
  · intro origin hInput hOutput
    split at hOutput
    · have hSides := (ParamName.side_of_mem hInput).symm.trans (ParamName.side_of_mem hOutput)
      cases hSides
    · cases hOutput

theorem mem_paramNames_output {origin : ParamName} (hSide : origin.side = .output) :
    origin ∈ func.paramNames ↔
      func.throughPointers = true ∧ origin ∈ ParamName.ofMembers .output 0 func.outputs := by
  have hInput : origin ∉ ParamName.ofMembers .input 0 func.inputs := by
    intro hMem
    cases (ParamName.side_of_mem hMem).symm.trans hSide
  rw [paramNames, List.mem_append, or_iff_right hInput]
  cases func.throughPointers <;> simp

/-- Parameters imitate each other just where one output is spelled like the position of another. -/
theorem hasImitation_iff : func.HasImitation ↔
    ∃ a ∈ func.paramNames, ∃ b ∈ func.paramNames, a.Imitates b := by
  constructor
  · rintro ⟨hPointers, index, output, hOutput, hUnnamed, other, hOther, hName⟩
    obtain ⟨i, hi⟩ := List.mem_iff_getElem?.mp hOther
    refine ⟨.named .output other.name, (mem_paramNames_output rfl).mpr ⟨hPointers, ?_⟩,
      .numbered .output index, (mem_paramNames_output rfl).mpr ⟨hPointers, ?_⟩, hName⟩
    · refine ParamName.mem_ofMembers.mpr ⟨i, other, hi, ?_⟩
      rw [ParamName.ofMember, hName, if_pos (ParamName.isNamed_imitation index)]
    · refine ParamName.mem_ofMembers.mpr ⟨index, output, hOutput, ?_⟩
      rw [ParamName.ofMember, hUnnamed, if_neg (by simp), Nat.zero_add]
  · rintro ⟨a, ha, b, hb, hImitates⟩
    rcases a with ⟨_ | _, name⟩ | ⟨_ | _, i⟩ <;> rcases b with ⟨_ | _, y⟩ | ⟨_ | _, index⟩
    case named.output.numbered.output =>
      obtain ⟨hPointers, ha⟩ := (mem_paramNames_output rfl).mp ha
      obtain ⟨-, hb⟩ := (mem_paramNames_output rfl).mp hb
      obtain ⟨i, other, hOther, hNamed⟩ := ParamName.mem_ofMembers.mp ha
      obtain ⟨j, output, hOutput, hNumbered⟩ := ParamName.mem_ofMembers.mp hb
      unfold ParamName.ofMember at hNamed hNumbered
      split at hNamed
      · split at hNumbered
        · cases hNumbered
        · next hUnnamed =>
            cases hNamed
            cases hNumbered
            rw [Nat.zero_add] at hImitates
            exact ⟨hPointers, j, output, hOutput, by simpa using hUnnamed, other,
              List.mem_of_getElem? hOther, hImitates⟩
      · cases hNamed
    all_goals exact hImitates.elim

end FuncType

namespace TypeStore

variable {store : TypeStore} {func : FuncType Ty} {name : String} {prototype : Prototype}

theorem params_names {side : ParamSide} {nameAt : Nat → String} {isPointer : Bool}
    {members : List (Member Ty)} {found : List CParam}
    (hName : ∀ i member, members[i]? = some member →
      nameAt (index + i) = (ParamName.ofMember side (index + i) member).text)
    (h : store.params nameAt isPointer index members = .ok found) :
    found.map (·.name) = (ParamName.ofMembers side index members).map ParamName.text := by
  induction members generalizing index found with
  | nil =>
      cases h
      rfl
  | cons member rest ih =>
      obtain ⟨type, -, h⟩ := Faulty.bind_eq_ok.mp h
      obtain ⟨others, hOthers, h⟩ := Faulty.bind_eq_ok.mp h
      cases h
      have hFirst : nameAt index = (ParamName.ofMember side index member).text := hName 0 member rfl
      rw [List.map_cons, ParamName.ofMembers, List.map_cons, hFirst]
      refine congrArg _ (ih (fun i other hOther => ?_) hOthers)
      rw [Nat.add_assoc, Nat.add_comm 1]
      exact hName (i + 1) other hOther

theorem prototype_paramNames (h : store.prototype func name = .ok prototype) :
    prototype.params.map (·.name) = func.paramNames.map ParamName.text := by
  have hIns {found : List CParam}
      (hFound : store.params func.inputName false 0 func.inputs = .ok found) :
      found.map (·.name) = (ParamName.ofMembers .input 0 func.inputs).map ParamName.text :=
    params_names (fun i member hMember => by
      rw [Nat.zero_add]
      exact FuncType.inputName_eq hMember) hFound
  cases TypeStore.prototype_eq_ok h with
  | returned hOutputs _ hInputs =>
      have hDirect : func.throughPointers = false := by simp [FuncType.throughPointers, hOutputs]
      rw [FuncType.paramNames, hDirect, if_neg (by simp), List.append_nil]
      exact hIns hInputs
  | passed hOutputs hInputs hResults =>
      have hPointers : func.throughPointers = true := by
        rw [FuncType.throughPointers, bne_iff_ne]
        intro hLength
        obtain ⟨output, hOutput⟩ := List.length_eq_one_iff.mp hLength
        exact hOutputs output hOutput
      rw [FuncType.paramNames, hPointers, if_pos rfl, List.map_append, List.map_append,
        hIns hInputs]
      refine congrArg _ (params_names (fun i member hMember => ?_) hResults)
      rw [Nat.zero_add]
      exact FuncType.outputName_eq hMember

/-- The parameters of a C function whose named inputs are called differently, and so are its named
outputs, have different names, unless one output is spelled like the position of another one that
has no name: then these two share a name. -/
theorem parameters_distinct_iff (hInputs : NamesDistinct func.inputs)
    (hOutputs : NamesDistinct func.outputs) (h : store.prototype func name = .ok prototype) :
    (prototype.params.map (·.name)).Nodup ↔ ¬ func.HasImitation := by
  rw [prototype_paramNames h, ParamName.nodup_text_iff (FuncType.nodup_paramNames hInputs hOutputs),
    FuncType.hasImitation_iff]
  push Not
  rfl

/-- A function with named and unnamed inputs and outputs. -/
def mixedFunc : FuncType Ty :=
  ⟨[⟨"a", .prim .int⟩, ⟨"_", .prim .int⟩, ⟨"_1", .prim .int⟩],
    [⟨"a", .prim .int⟩, ⟨"", .prim .int⟩, ⟨"_2", .prim .int⟩], false, false, 1⟩

theorem parameters_distinct_mixed :
    NamesDistinct mixedFunc.inputs ∧ NamesDistinct mixedFunc.outputs ∧
      ∃ prototype, TypeStore.empty.prototype mixedFunc "f" = .ok prototype ∧
        (prototype.params.map (·.name)).Nodup ∧ ¬ mixedFunc.HasImitation := by
  have hInputs : NamesDistinct mixedFunc.inputs := by decide +kernel
  have hOutputs : NamesDistinct mixedFunc.outputs := by decide +kernel
  have hPrototype : TypeStore.empty.prototype mixedFunc "f" = .ok ⟨"void", "f",
      [⟨"P_int", "in_a", false⟩, ⟨"P_int", "__1", false⟩, ⟨"P_int", "in__1", false⟩,
        ⟨"P_int", "out_a", true⟩, ⟨"P_int", "out__1", true⟩, ⟨"P_int", "out__2", true⟩]⟩ := by
    decide +kernel
  have hNames : (["in_a", "__1", "in__1", "out_a", "out__1", "out__2"] : List String).Nodup := by
    decide +kernel
  exact ⟨hInputs, hOutputs, _, hPrototype, hNames,
    (parameters_distinct_iff hInputs hOutputs hPrototype).mp hNames⟩

/-- A function with an output that is spelled like the position of the one behind it. -/
def imitatedFunc : FuncType Ty :=
  ⟨[], [⟨"_1", .prim .int⟩, ⟨"_", .prim .int⟩], false, false, 1⟩

/-- Both outputs are called the same. -/
theorem parameters_imitated :
    NamesDistinct imitatedFunc.inputs ∧ NamesDistinct imitatedFunc.outputs ∧
      TypeStore.empty.prototype imitatedFunc "f" =
        .ok ⟨"void", "f", [⟨"P_int", "out__1", true⟩, ⟨"P_int", "out__1", true⟩]⟩ ∧
      ¬ (["out__1", "out__1"] : List String).Nodup := by
  decide +kernel

end TypeStore

end GoToC
