import GoToC.Proofs.Routine.LocalNames
import GoToC.Proofs.Routine.Mirror
import GoToC.Proofs.Routine.SafeExpr

/-!
# Calls pass what prototypes declare

A call is compiled from the type of the function that it calls, and so is the prototype of
that function. What each parameter is to get is told here once, as a list of slots: the
receiver of a method of a struct, an argument for each further input, a slice for the
arguments that a variadic function collects, and the address of a new variable for each output
that is not returned. The arguments of a call fill the slots one by one, and the parameters of
the prototype are declared for them one by one.
-/

namespace GoToC

variable {args : List Expr} {span : Span} {name context : String} {spread : Bool} {type : Ty}
  {cs : List CExpr} {serial index number : Nat} {c : CExpr} {members outputs : List (Member Ty)}
  {prototype : Prototype} {origins : List LocalName} {done : Unit} {value : Typed}
  {last : Member Ty} {found : List CExpr × Ty}

/-- The function that a call is of. -/
structure Call.Target where
  callee : CExpr
  func : FuncType Ty
  /-- The value that a method is called on. -/
  receiver : Option CExpr

namespace Call

/-- A value that is called as it is. -/
def functionTarget (span : Span) (value : Value) : RoutineM Target := do
  let e ← RoutineM.toSingle span value
  match ← RoutineM.types (·.func? e.type) with
  | some func => return ⟨e.c, func, none⟩
  | none => RoutineM.error span (.notCallable e.type.display)

/-- The function that a value can be called as. -/
def target (span : Span) : Value → RoutineM Target
  | .method bound => return ⟨bound.callee, bound.func, some bound.receiver⟩
  | other => functionTarget span other

/-- Whether so many arguments fit so many inputs. Only a variadic function takes a slice for
its last input as it is; otherwise it collects any number of arguments there. -/
def CountFits (variadic spread : Bool) (given inputs : Nat) : Prop :=
  (spread = true → variadic = true) ∧
    if variadic && !spread then inputs ≤ given + 1 else given = inputs

instance (variadic spread : Bool) (given inputs : Nat) :
    Decidable (CountFits variadic spread given inputs) :=
  inferInstanceAs (Decidable (_ ∧ _))

namespace Target

/-- The inputs that a call gives arguments for. -/
def inputs (target : Target) : List (Member Ty) :=
  if target.receiver.isSome && target.func.isMethod then target.func.inputs.drop 1
  else target.func.inputs

/-- Whether the last arguments of a call are collected in a slice. -/
def collects (target : Target) (spread : Bool) : Bool := target.func.variadic && !spread

/-- Whether a call may have that many arguments. -/
abbrev Accepts (target : Target) (given : Nat) (spread : Bool) : Prop :=
  CountFits target.func.variadic spread given target.inputs.length

end Target

/-! ## Slots -/

/-- What a call is to pass for a parameter. -/
inductive Slot where
  | receiver (c : CExpr) (input : Member Ty)
  | argument (source : Expr) (input : Member Ty)
  /-- The last arguments of a variadic function, however many there are. -/
  | collected (sources : List Expr) (input : Member Ty)
  | output (output : Member Ty)

/-- The input or output that a slot is for, and whether it is an output. -/
def Slot.place : Slot → Member Ty × Bool
  | receiver _ input => (input, false)
  | argument _ input => (input, false)
  | collected _ input => (input, false)
  | output found => (found, true)

/-- The slots for inputs that arguments are given for. -/
def inputSlots (collects : Bool) : List Expr → List (Member Ty) → List Slot
  | _, [] => []
  | args, input :: inputs =>
      if collects && inputs.isEmpty then [.collected args input]
      else match args with
        | [] => []
        | arg :: rest => .argument arg input :: inputSlots collects rest inputs

/-- The slots for outputs; one output alone is returned. -/
def outputSlots : List (Member Ty) → List Slot
  | [_] => []
  | outputs => outputs.map .output

/-- The slot for the receiver of a method of a struct. -/
def Target.receiverSlot (target : Target) : List Slot :=
  match target.receiver, target.func.inputs with
  | some c, input :: _ => if target.func.isMethod then [.receiver c input] else []
  | _, _ => []

/-- What a method of an interface is passed before anything else. -/
def Target.dispatched (target : Target) : List CExpr :=
  if target.func.isMethod then [] else target.receiver.toList

def Target.slots (target : Target) (args : List Expr) (spread : Bool) : List Slot :=
  target.receiverSlot ++ inputSlots (target.collects spread) args target.inputs ++
    outputSlots target.func.outputs

end Call

/-- A fragment is a value converted to a type. A function is passed as it is. -/
def TypeStore.Converts (store : TypeStore) (dest : Ty) (value : Typed) (c : CExpr) : Prop :=
  match store.func? dest with
  | .ok (some _) => c = value.c ∧
      (store.isPrim value.type .nil = .ok true ∨ store.equal dest value.type = .ok true)
  | .ok none => ∃ conversion, store.assign dest value.type = .ok (some conversion) ∧
      c = conversion.apply value.c
  | .error _ => False

/-- A routine with one more variable of a type, whose name no other variable has. -/
structure Routine.Gains (env : Env) (before : Routine) (name : String) (type : Ty)
    (after : Routine) : Prop where
  fresh : before.hasLocal name = false
  added : ∃ var : CLocal, var.name = name ∧ env.program.types.cType type = .ok var.type ∧
    after.locals = before.locals.push var
  scopes : after.scopes = before.scopes
  body : after.body = before.body

def Routine.emitted (routine : Routine) (stmt : CStmt) : Routine :=
  { routine with body := routine.body.push stmt }

namespace Call

/-- Arguments are appended to a slice one after another, each from a variable of its own. -/
inductive Collects (env : Env) (slice : String) (elem : Ty) :
    Routine → List Expr → Routine → Prop
  | nil (routine : Routine) : Collects env slice elem routine [] routine
  | cons {routine middle made after source rest value c item} :
      (operand source).value.exec env routine = (.ok value, middle) →
      env.program.types.Converts elem value c → middle.Gains env item elem made →
      Collects env slice elem ((made.emitted (.copy item c)).emitted (.append slice item)) rest
        after →
      Collects env slice elem routine (source :: rest) after

/-- Arguments that are compiled for slots, one after another. -/
inductive Fills (env : Env) : Routine → List Slot → List CExpr → Routine → Prop
  | nil (routine : Routine) : Fills env routine [] [] routine
  | receiver {routine after c input slots cs} :
      Fills env routine slots cs after → Fills env routine (.receiver c input :: slots)
        (c :: cs) after
  | argument {routine middle after source value c input slots cs} :
      (operand source).value.exec env routine = (.ok value, middle) →
      env.program.types.Converts input.type value c → Fills env middle slots cs after →
      Fills env routine (.argument source input :: slots) (c :: cs) after
  | collected {routine made middle after sources elem slice input slots cs} :
      env.program.types.sliceElement? input.type = .ok (some elem) →
      routine.Gains env slice input.type made →
      Collects env slice elem (made.emitted (.nilSlice slice)) sources middle →
      Fills env middle slots cs after →
      Fills env routine (.collected sources input :: slots) (.localVar slice :: cs) after
  | output {routine middle after name output slots cs} :
      routine.Gains env name output.type middle → Fills env middle slots cs after →
      Fills env routine (.output output :: slots) (.addressOf name :: cs) after

/-- A parameter that is declared for an input, or for an output as a pointer. -/
def Declares (store : TypeStore) (place : Member Ty × Bool) (param : CParam) : Prop :=
  store.cType place.1.type = .ok param.type ∧ param.isPointer = place.2

end Call

/-! ## Parameters -/

namespace TypeStore

variable {store : TypeStore}

theorem params_eq_ok {nameAt : Nat → String} {isPointer : Bool} {found : List CParam}
    (h : store.params nameAt isPointer index members = .ok found) :
    List.Forall₂ (Call.Declares store) (members.map (·, isPointer)) found := by
  induction members generalizing index found with
  | nil =>
      cases h
      exact .nil
  | cons member rest ih =>
      obtain ⟨type, hType, h⟩ := Faulty.bind_eq_ok.mp h
      obtain ⟨others, hOthers, h⟩ := Faulty.bind_eq_ok.mp h
      cases h
      exact .cons ⟨hType, rfl⟩ (ih hOthers)

/-- Parameters are declared for all inputs and then for the outputs that are not returned. -/
theorem prototype_params {func : FuncType Ty} (h : store.prototype func name = .ok prototype) :
    List.Forall₂ (Call.Declares store)
      (func.inputs.map (·, false) ++ (Call.outputSlots func.outputs).map Call.Slot.place)
      prototype.params := by
  cases prototype_eq_ok h with
  | returned hOutputs _ hInputs =>
      rw [hOutputs]
      simpa [Call.outputSlots] using params_eq_ok hInputs
  | passed hOutputs hInputs hResults =>
      have hSlots : Call.outputSlots func.outputs = func.outputs.map .output := by
        unfold Call.outputSlots
        split
        · next output hOutput => exact absurd hOutput (hOutputs output)
        · rfl
      rw [hSlots, List.map_map]
      exact List.rel_append (params_eq_ok hInputs) (params_eq_ok hResults)

end TypeStore

/-! ## Slots for inputs -/

namespace Call

variable {target : Target} {store : TypeStore}

/-- Without collecting there is a slot for each argument. -/
theorem inputSlots_zip {inputs : List (Member Ty)} (h : args.length = inputs.length) :
    inputSlots false args inputs = List.zipWith .argument args inputs := by
  induction inputs generalizing args with
  | nil => simp [inputSlots]
  | cons input inputs ih =>
      cases args with
      | nil => simp at h
      | cons arg rest =>
          rw [inputSlots, List.zipWith_cons_cons, ih (Nat.succ.inj h)]
          simp

/-- The last slot collects the arguments that are left. -/
theorem inputSlots_collected {fixed : List (Member Ty)} (last : Member Ty)
    (h : fixed.length ≤ args.length) :
    inputSlots true args (fixed ++ [last]) =
      List.zipWith .argument (args.take fixed.length) fixed ++
        [.collected (args.drop fixed.length) last] := by
  induction fixed generalizing args with
  | nil => cases args <;> simp [inputSlots]
  | cons input fixed ih =>
      cases args with
      | nil => simp at h
      | cons arg rest =>
          have hRest := ih (Nat.le_of_succ_le_succ h)
          simp [inputSlots, hRest]

/-- There is a slot for each input. -/
theorem place_inputSlots {collects : Bool} {inputs : List (Member Ty)}
    (hCollects : collects = true → inputs ≠ [])
    (hCount : if collects then inputs.length ≤ args.length + 1 else args.length = inputs.length) :
    (inputSlots collects args inputs).map Slot.place = inputs.map (·, false) := by
  induction inputs generalizing args with
  | nil => simp [inputSlots]
  | cons input inputs ih =>
      rw [inputSlots.eq_def]
      dsimp only
      split
      · next hLast =>
          have hEmpty : inputs = [] := by
            simpa using (Bool.and_eq_true_iff.mp hLast).2
          simp [hEmpty, Slot.place]
      · next hMore =>
          have hInputs : collects = true → inputs ≠ [] := by
            rintro rfl rfl
            exact hMore rfl
          cases args with
          | nil =>
              exfalso
              cases collects with
              | false => simp at hCount
              | true =>
                  have hNil : inputs.length = 0 := by simpa using hCount
                  exact hInputs rfl (List.length_eq_zero_iff.mp hNil)
          | cons arg rest =>
              have hRest := @ih rest hInputs (by cases collects <;> simpa using hCount)
              simp [Slot.place, hRest]

/-- A method that is bound to a value takes that value first, if it takes a receiver. -/
def Target.Bound (target : Target) : Prop :=
  target.receiver.isSome = true → target.func.isMethod = true → target.func.inputs ≠ []

/-- The inputs of the function are those of the receiver and of the arguments. -/
theorem Target.Bound.place_receiverSlot (h : target.Bound) :
    target.receiverSlot.map Slot.place ++ target.inputs.map (·, false) =
      target.func.inputs.map (·, false) := by
  obtain ⟨callee, func, receiver⟩ := target
  cases receiver with
  | none => simp [receiverSlot, inputs]
  | some c =>
      cases hInputs : func.inputs with
      | nil =>
          have hPlain : func.isMethod = false := by
            simpa [hInputs] using h rfl
          simp [receiverSlot, inputs, hInputs, hPlain]
      | cons input rest =>
          cases hMethod : func.isMethod <;>
            simp [receiverSlot, inputs, hInputs, hMethod, Slot.place]

/-- The parameters of the prototype are declared for the slots of a call. -/
theorem Target.Bound.declares (hBound : target.Bound)
    (h : store.prototype target.func name = .ok prototype)
    (hCollects : target.collects spread = true → target.inputs ≠ [])
    (hAccepts : target.Accepts args.length spread) :
    List.Forall₂ (Declares store) ((target.slots args spread).map Slot.place) prototype.params := by
  rw [Target.slots, List.map_append, List.map_append, place_inputSlots hCollects hAccepts.2,
    hBound.place_receiverSlot]
  exact TypeStore.prototype_params h

end Call

/-! ## Variables that are new -/

section

variable {vars : String → Prop} {env : Env} {routine after : Routine}

/-- No source variable is spelled like a temporary or a result. -/
theorem Routine.NamedBy.not_hasLocal (h : routine.NamedBy vars origins) {origin : LocalName}
    (hNew : origin ∉ origins) (hVariable : origin.variableOf? = none) :
    routine.hasLocal origin.text = false := by
  rw [Bool.eq_false_iff]
  intro hHas
  obtain ⟨var, hVar, hName⟩ := Array.any_eq_true'.mp hHas
  have hText : origin.text ∈ routine.locals.toList.map (·.name) :=
    List.mem_map.mpr ⟨var, Array.mem_toList_iff.mpr hVar, by simpa using hName⟩
  rw [h.names] at hText
  obtain ⟨other, hOther, hSame⟩ := List.mem_map.mp hText
  rcases LocalName.eq_of_text_eq hSame with rfl | hImitates | hImitates
  · exact hNew hOther
  all_goals
    cases origin <;> cases other <;> simp_all [LocalName.Imitates, LocalName.variableOf?]

theorem addLocal_gains (h : (RoutineM.addLocal name type span).exec env routine = (.ok done, after))
    (hFresh : routine.hasLocal name = false) : routine.Gains env name type after := by
  obtain ⟨⟨var, hName, hType, -, hLocals⟩, -⟩ := addLocal_ok h
  have hYields : Yields env routine.scopes True (RoutineM.addLocal name type span) fun _ => True :=
    (Yields.addLocal name type span).mono fun _ _ => trivial
  obtain ⟨-, hScopes, hBody⟩ := hYields routine done after rfl h
  exact ⟨hFresh, ⟨var, hName, hType, hLocals⟩, hScopes, hBody trivial⟩

/-- A variable that is declared after a number was taken for it. -/
theorem Routine.Gains.of_serial
    (h : ({ routine with supply := { routine.supply with serial := serial } } : Routine).Gains env
      name type after) : routine.Gains env name type after :=
  ⟨h.fresh, h.added, h.scopes, h.body⟩

theorem temp_gains (hNamed : routine.Named vars)
    (h : (RoutineM.temp type span).exec env routine = (.ok name, after)) :
    routine.Gains env name type after := by
  obtain ⟨origins, hNamed⟩ := hNamed
  unfold RoutineM.temp at h
  simp only [RoutineM.bind_eq_ok, RoutineM.pure_eq_ok] at h
  obtain ⟨serial, first, hSerial, _, second, hLocal, rfl, rfl⟩ := h
  obtain ⟨hFirst, -, hFresh⟩ := nextSerial_ok hSerial hNamed
  have hGains := addLocal_gains hLocal (hFirst.not_hasLocal (hFresh (.temp serial) rfl) rfl)
  cases hSerial
  exact hGains.of_serial

theorem convert_ok {dest : Ty}
    (h : (RoutineM.convert dest value span context).exec env routine = (.ok c, after)) :
    env.program.types.Converts dest value c ∧ after = routine := by
  have hSame : after = routine := by
    have hAsks := (RoutineM.Idle.convert dest value span context).asks env routine
    rw [h] at hAsks
    exact hAsks
  refine ⟨?_, hSame⟩
  unfold RoutineM.convert at h
  obtain ⟨found, _, hAsked, h⟩ := RoutineM.bind_eq_ok.mp h
  obtain ⟨hFunc, rfl⟩ := RoutineM.types_eq_ok.mp hAsked
  unfold TypeStore.Converts
  rw [hFunc]
  cases found with
  | some func =>
      obtain ⟨isNil, _, hAsked, h⟩ := RoutineM.bind_eq_ok.mp h
      obtain ⟨hNil, rfl⟩ := RoutineM.types_eq_ok.mp hAsked
      split at h
      · next hTrue =>
          cases h
          exact ⟨rfl, .inl (hTrue ▸ hNil)⟩
      · obtain ⟨isEqual, _, hAsked, h⟩ := RoutineM.bind_eq_ok.mp h
        obtain ⟨hEqual, rfl⟩ := RoutineM.types_eq_ok.mp hAsked
        split at h
        · next hTrue =>
            cases h
            exact ⟨rfl, .inr (hTrue ▸ hEqual)⟩
        · cases h
  | none =>
      obtain ⟨storable, _, hAsked, h⟩ := RoutineM.bind_eq_ok.mp h
      obtain ⟨-, rfl⟩ := RoutineM.types_eq_ok.mp hAsked
      dsimp only at h
      split at h
      · cases h
      · obtain ⟨conversion, _, hAsked, h⟩ := RoutineM.bind_eq_ok.mp h
        obtain ⟨hAssign, rfl⟩ := RoutineM.types_eq_ok.mp hAsked
        cases conversion with
        | none => cases h
        | some conversion =>
            cases h
            exact ⟨conversion, hAssign, rfl⟩

end

/-! ## Slots that are filled -/

namespace Call

variable {vars : String → Prop} {env : Env} {routine middle after : Routine}

theorem Fills.append {slots slots' : List Slot} {cs' : List CExpr}
    (h : Fills env routine slots cs middle) (h' : Fills env middle slots' cs' after) :
    Fills env routine (slots ++ slots') (cs ++ cs') after := by
  induction h with
  | nil => exact h'
  | receiver _ ih => exact .receiver (ih h')
  | argument hValue hConverts _ ih => exact .argument hValue hConverts (ih h')
  | collected hElem hGains hCollects _ ih => exact .collected hElem hGains hCollects (ih h')
  | output hGains _ ih => exact .output hGains (ih h')

theorem fixedArgs_fills {inputs : List (Member Ty)} (hLength : args.length ≤ inputs.length)
    (h : (fixedArgs number (args.map operand) inputs).exec env routine = (.ok cs, after)) :
    Fills env routine (List.zipWith .argument args inputs) cs after := by
  induction args generalizing number inputs routine cs with
  | nil =>
      cases h
      exact .nil _
  | cons arg rest ih =>
      cases inputs with
      | nil => simp at hLength
      | cons input inputs =>
          rw [List.map_cons, fixedArgs] at h
          simp only [RoutineM.bind_eq_ok, RoutineM.pure_eq_ok] at h
          obtain ⟨value, middle, hValue, c, _, hConvert, others, _, hOthers, rfl, rfl⟩ := h
          obtain ⟨hConverts, rfl⟩ := convert_ok hConvert
          exact .argument hValue hConverts (ih (Nat.le_of_succ_le_succ hLength) hOthers)

/-- What is compiled for an operand keeps the names of a routine apart. -/
theorem named_of_value {e : Expr} (h : (operand e).value.exec env routine = (.ok value, after))
    (hNamed : routine.Named vars) : after.Named vars :=
  ((value_composed .expr e).advances h).named hNamed

theorem appendItems_collects {slice : String} {elem : Ty} (hNamed : routine.Named vars)
    (h : (appendItems slice elem context span (args.map operand)).exec env routine =
      (.ok done, after)) : Collects env slice elem routine args after := by
  induction args generalizing routine with
  | nil =>
      cases h
      exact .nil _
  | cons arg rest ih =>
      rw [List.map_cons, appendItems] at h
      simp only [RoutineM.bind_eq_ok] at h
      obtain ⟨value, middle, hValue, c, _, hConvert, item, made, hItem, h⟩ := h
      obtain ⟨hConverts, rfl⟩ := convert_ok hConvert
      have hMiddle := named_of_value hValue hNamed
      have hMade : made.Named vars := (temp_advances hItem).named hMiddle
      obtain ⟨_, _, hCopy, _, _, hAppend, hRest⟩ := h
      cases hCopy
      cases hAppend
      obtain ⟨origins, hOrigins⟩ := hMade
      exact .cons hValue hConverts (temp_gains hMiddle hItem)
        (ih ⟨origins, hOrigins.of_same rfl (Nat.le_refl _)⟩ hRest)

theorem packVariadic_fills (hNamed : routine.Named vars)
    (h : (packVariadic last.type (args.map operand) span).exec env routine = (.ok c, after)) :
    Fills env routine [.collected args last] [c] after := by
  unfold packVariadic at h
  obtain ⟨found, _, hAsked, h⟩ := RoutineM.bind_eq_ok.mp h
  obtain ⟨hElem, rfl⟩ := RoutineM.types_eq_ok.mp hAsked
  cases found with
  | none => cases h
  | some elem =>
      simp only [RoutineM.bind_eq_ok, RoutineM.pure_eq_ok] at h
      obtain ⟨slice, made, hSlice, _, _, hEmit, _, filled, hItems, rfl, rfl⟩ := h
      cases hEmit
      obtain ⟨origins, hOrigins⟩ : made.Named vars := (temp_advances hSlice).named hNamed
      exact .collected hElem (temp_gains hNamed hSlice)
        (appendItems_collects ⟨origins, hOrigins.of_same rfl (Nat.le_refl _)⟩ hItems) (.nil _)

/-- The variables for several outputs are declared one after another. -/
theorem resultTemps_fills (hNamed : routine.NamedBy vars origins)
    (hTaken : serial ≤ routine.supply.serial)
    (hFresh : ∀ i, index ≤ i → LocalName.result serial i ∉ origins)
    (h : (resultTemps serial span index outputs).exec env routine = (.ok members, after)) :
    Fills env routine (outputs.map .output) (members.map fun m => .addressOf m.name) after := by
  induction outputs generalizing index routine members origins with
  | nil =>
      cases h
      exact .nil _
  | cons output rest ih =>
      rw [resultTemps] at h
      simp only [RoutineM.bind_eq_ok, RoutineM.pure_eq_ok] at h
      obtain ⟨_, first, hLocal, others, _, hOthers, rfl, rfl⟩ := h
      have hGains := addLocal_gains hLocal (hNamed.not_hasLocal (hFresh index (Nat.le_refl _)) rfl)
      obtain ⟨hFirst, hTaken, hFresh⟩ := addResult_named hLocal hNamed hTaken hFresh
      exact .output hGains (ih hFirst hTaken hFresh hOthers)

theorem Fills.output_of_serial {output : Member Ty} {slots : List Slot}
    (h : Fills env { routine with supply := { routine.supply with serial := serial } }
      (.output output :: slots) cs after) :
    Fills env routine (.output output :: slots) cs after := by
  cases h with
  | output hGains hRest => exact .output hGains.of_serial hRest

/-- The addresses of new variables are passed for outputs, unless there is just one. -/
theorem results_fills (hNamed : routine.Named vars)
    (h : (results outputs span).exec env routine = (.ok found, after)) :
    Fills env routine (outputSlots outputs) found.1 after := by
  match outputs, h with
  | [], h =>
      cases h
      exact .nil _
  | [_], h =>
      cases h
      exact .nil _
  | output :: second :: rest, h =>
      rw [results] at h
      · simp only [RoutineM.bind_eq_ok, RoutineM.pure_eq_ok] at h
        obtain ⟨serial, first, hSerial, members, _, hTemps, rfl, rfl⟩ := h
        obtain ⟨origins, hNamed⟩ := hNamed
        obtain ⟨hFirst, hTaken, hFresh⟩ := nextSerial_ok hSerial hNamed
        have hFills := resultTemps_fills hFirst hTaken.ge (fun i _ => hFresh (.result serial i) rfl)
          hTemps
        cases hSerial
        exact hFills.output_of_serial
      · simp
      · simp

/-! ## Calls of targets -/

/-- The number of arguments is checked before any of them is compiled. -/
theorem checkCount_exec (variadic spread : Bool) (given inputs : Nat) (span : Span) (env : Env)
    (routine : Routine) :
    ∃ cause, (checkCount variadic spread given inputs span).exec env routine =
      if CountFits variadic spread given inputs then (.ok (), routine)
      else (.error (.error ⟨env.package, span, .argCount cause⟩), routine) := by
  unfold checkCount CountFits
  cases variadic <;> cases spread
  case false.true => exact ⟨.spread, rfl⟩
  case true.false =>
    refine ⟨.count given (inputs - 1) true, ?_⟩
    by_cases hCount : given < inputs - 1
    · simp [hCount, show ¬ inputs ≤ given + 1 by omega]
    · simp [hCount, show inputs ≤ given + 1 by omega]
  all_goals
    refine ⟨.count given inputs false, ?_⟩
    by_cases hCount : given = inputs <;> simp [hCount]

/-- A call of a target. -/
def Target.call (target : Target) (args : List Expr) (spread : Bool) (span : Span) :
    RoutineM Value :=
  apply target.callee target.func target.receiver.toList target.inputs (args.map operand)
    spread span

theorem Target.call_rejected (target : Target) (span : Span)
    (h : ¬ target.Accepts args.length spread) :
    ∃ cause, (target.call args spread span).exec env routine =
      (.error (.error ⟨env.package, span, .argCount cause⟩), routine) := by
  obtain ⟨cause, hCheck⟩ := checkCount_exec target.func.variadic spread
    args.length target.inputs.length span env routine
  rw [if_neg h] at hCheck
  refine ⟨cause, ?_⟩
  rw [Target.call, apply, List.length_map, RoutineM.bind_exec, hCheck]

/-- The value that a method is called on is dispatched on or fills a slot of its own. -/
theorem Target.Bound.fills_receiver {target : Target} (h : target.Bound) :
    ∃ own, target.receiver.toList = target.dispatched ++ own ∧
      ∀ env routine, Fills env routine target.receiverSlot own routine := by
  obtain ⟨callee, func, receiver⟩ := target
  cases receiver with
  | none => exact ⟨[], by simp [dispatched], fun _ routine => .nil routine⟩
  | some c =>
      cases hMethod : func.isMethod with
      | false =>
          refine ⟨[], by simp [dispatched, hMethod], fun _ routine => ?_⟩
          have hSlot : receiverSlot ⟨callee, func, some c⟩ = [] := by
            unfold receiverSlot
            split <;> simp_all
          rw [hSlot]
          exact .nil routine
      | true =>
          obtain ⟨input, rest, hInputs⟩ : ∃ input rest, func.inputs = input :: rest :=
            List.exists_cons_of_ne_nil (h rfl hMethod)
          refine ⟨[c], by simp [dispatched, hMethod], fun _ routine => ?_⟩
          have hSlot : receiverSlot ⟨callee, func, some c⟩ = [.receiver c input] := by
            simp [receiverSlot, hInputs, hMethod]
          rw [hSlot]
          exact .receiver (.nil routine)

/-- The end of a call, once its inputs are filled. -/
theorem Target.Bound.fills_slots {target : Target} (hBound : target.Bound) {given : List CExpr}
    (hNamed : middle.Named vars) (hInputs : Fills env routine (inputSlots (target.collects spread)
    args target.inputs) given middle)
    (hResults : (results target.func.outputs span).exec env middle = (.ok found, after)) :
    ∃ cs, target.receiver.toList ++ given ++ found.1 = target.dispatched ++ cs ∧
      Fills env routine (target.slots args spread) cs after := by
  obtain ⟨own, hOwn, hReceiver⟩ := hBound.fills_receiver
  refine ⟨own ++ given ++ found.1, ?_,
    ((hReceiver env routine).append hInputs).append (results_fills hNamed hResults)⟩
  rw [hOwn, List.append_assoc, List.append_assoc, List.append_assoc]

theorem composed_operands (args : List Expr) :
    ∀ found ∈ args.map operand, found.Composed .expr (.naming vars) := by
  intro found hFound
  obtain ⟨e, -, rfl⟩ := List.mem_map.mp hFound
  exact operand_composed .expr e

theorem named_of_fixedArgs {inputs : List (Member Ty)}
    (h : (fixedArgs number (args.map operand) inputs).exec env routine = (.ok cs, after))
    (hNamed : routine.Named vars) : after.Named vars :=
  ((Composed.fixedArgs number inputs (composed_operands args)).advances h).named hNamed

theorem named_of_packVariadic
    (h : (packVariadic type (args.map operand) span).exec env routine = (.ok c, after))
    (hNamed : routine.Named vars) : after.Named vars :=
  ((Composed.packVariadic type span (composed_operands args) trivial).advances h).named hNamed

/-- The fixed inputs are filled one by one, and the last one with a slice. -/
theorem fills_collected {inputs rest : List (Member Ty)} {passed : List CExpr} {slice : CExpr}
    (hCount : inputs.length ≤ args.length + 1)
    (hDrop : inputs.drop (inputs.length - 1) = last :: rest) (hNamed : routine.Named vars)
    (hPassed : (fixedArgs 1 ((args.take (inputs.length - 1)).map operand) inputs).exec env routine =
      (.ok passed, middle))
    (hSlice : (packVariadic last.type ((args.drop (inputs.length - 1)).map operand) span).exec env
      middle = (.ok slice, after)) :
    Fills env routine (inputSlots true args inputs) (passed ++ [slice]) after := by
  rcases List.eq_nil_or_concat' inputs with rfl | ⟨fixed, final, rfl⟩
  · cases hDrop
  · have hFixed : (fixed ++ [final]).length - 1 = fixed.length := by simp
    have hLe : fixed.length ≤ args.length := by simpa using hCount
    rw [hFixed] at hDrop hPassed hSlice
    rw [List.drop_left] at hDrop
    cases hDrop
    have hTake : (args.take fixed.length).length = fixed.length := List.length_take_of_le hLe
    have hZip : List.zipWith Slot.argument (args.take fixed.length) (fixed ++ [last]) =
        List.zipWith Slot.argument (args.take fixed.length) fixed := by
      rw [← List.append_nil (args.take fixed.length), List.zipWith_append (by simpa using hTake)]
      simp
    have hFills := fixedArgs_fills (hTake.trans_le (by simp)) hPassed
    rw [hZip] at hFills
    rw [inputSlots_collected last hLe]
    exact hFills.append (packVariadic_fills (named_of_fixedArgs hPassed hNamed) hSlice)

/-- The arguments of a call fill its slots. -/
theorem Target.Bound.call_fills {target : Target} (hBound : target.Bound) {value : Value}
    (hNamed : routine.Named vars)
    (h : (target.call args spread span).exec env routine = (.ok value, after)) :
    target.Accepts args.length spread ∧ (target.collects spread = true → target.inputs ≠ []) ∧
      ∃ cs type, value = .expr ⟨.call target.callee (target.dispatched ++ cs), type⟩ ∧
        Fills env routine (target.slots args spread) cs after := by
  have hAccepts : target.Accepts args.length spread := by
    by_contra hRejected
    obtain ⟨cause, hError⟩ := target.call_rejected span hRejected
    rw [hError] at h
    cases h
  refine ⟨hAccepts, ?_⟩
  obtain ⟨cause, hCheck⟩ := checkCount_exec target.func.variadic spread
    args.length target.inputs.length span env routine
  rw [if_pos hAccepts] at hCheck
  rw [Target.call, apply, List.length_map, RoutineM.bind_exec, hCheck] at h
  obtain ⟨passed, middle, hPassed, h⟩ := RoutineM.bind_eq_ok.mp h
  rw [← List.map_take] at hPassed
  have hMiddle := named_of_fixedArgs hPassed hNamed
  unfold Target.collects
  cases hCollects : target.func.variadic && !spread with
  | false =>
      have hLength : args.length = target.inputs.length := by
        simpa [CountFits, hCollects] using hAccepts.2
      simp only [hCollects, Bool.false_eq_true, if_false] at hPassed h
      rw [← hLength, List.take_length] at hPassed
      have hInputs : Fills env routine (inputSlots (target.collects spread) args target.inputs)
          passed middle := by
        rw [Target.collects, hCollects, inputSlots_zip hLength]
        exact fixedArgs_fills hLength.le hPassed
      obtain ⟨_, _, hNothing, h⟩ := RoutineM.bind_eq_ok.mp h
      cases hNothing
      obtain ⟨found, _, hResults, hValue⟩ := RoutineM.bind_eq_ok.mp h
      cases hValue
      obtain ⟨cs, hCs, hFills⟩ := hBound.fills_slots hMiddle hInputs hResults
      exact ⟨by simp, cs, found.2, by rw [List.append_nil, hCs], hFills⟩
  | true =>
      simp only [hCollects, if_true] at hPassed h
      split at h
      · next last rest hDrop =>
          obtain ⟨slice, filled, hSlice, h⟩ := RoutineM.bind_eq_ok.mp h
          obtain ⟨_, _, hOne, h⟩ := RoutineM.bind_eq_ok.mp h
          cases hOne
          obtain ⟨found, _, hResults, hValue⟩ := RoutineM.bind_eq_ok.mp h
          cases hValue
          rw [← List.map_drop] at hSlice
          have hInputs : Fills env routine (inputSlots (target.collects spread) args target.inputs)
              (passed ++ [slice]) filled := by
            have hCount : target.inputs.length ≤ args.length + 1 := by
              simpa [hCollects] using hAccepts.2
            rw [Target.collects, hCollects]
            exact fills_collected hCount hDrop hNamed hPassed hSlice
          have hFilled : filled.Named vars := named_of_packVariadic hSlice hMiddle
          obtain ⟨cs, hCs, hFills⟩ := hBound.fills_slots hFilled hInputs hResults
          refine ⟨fun _ hEmpty => ?_, cs, found.2, ?_, hFills⟩
          · rw [hEmpty] at hDrop
            cases hDrop
          · rw [← hCs, List.append_assoc target.receiver.toList]
      · cases h

/-! ## Calls of expressions -/

/-- How a function is called: as it is, through an interface that its value is dispatched on, or
as the method of a struct, whose name it goes by and a pointer to which it takes first. -/
inductive Target.Kind (store : TypeStore) : Target → Prop
  | function (callee : CExpr) (func : FuncType Ty) : Kind store ⟨callee, func, none⟩
  | interface (member : String) (func : FuncType Ty) (receiver : CExpr) :
      func.isMethod = false → Kind store ⟨.dispatch member, func, some receiver⟩
  | struct (record : StructType Ty) (member : String) (func : FuncType Ty) (receiver : CExpr)
      (input : Member Ty) (inputs : List (Member Ty)) :
      func.isMethod = true → func.inputs = input :: inputs →
      store.pointeeStruct? input.type = .ok (some record) →
      Kind store ⟨.global (record.key.cName ++ "__" ++ member), func, some receiver⟩

theorem Target.Kind.bound {store : TypeStore} {target : Target} (h : target.Kind store) :
    target.Bound := by
  intro hReceiver hMethod
  cases h with
  | function => simp at hReceiver
  | interface _ _ _ hPlain => simp [hPlain] at hMethod
  | struct _ _ _ _ _ _ _ hInputs => simp [hInputs]

variable {span : Span} {found : Value}

/-- Finding the target of a call changes nothing. -/
theorem asks_target (span : Span) (found : Value) : (target span found).Asks := by
  have hFunction (value : Value) : (functionTarget span value).Asks := by
    refine .bind (RoutineM.Idle.toSingle span value).asks fun e => .bind (.types _) fun func => ?_
    cases func with
    | none => exact .error _ _
    | some func => exact .pure _
  cases found with
  | method bound => exact .pure _
  | _ => exact hFunction _

theorem kind_of_functionTarget {value : Value} {target : Target}
    (h : (functionTarget span value).exec env routine = (.ok target, after)) (store : TypeStore) :
    target.Kind store := by
  obtain ⟨e, _, -, h⟩ := RoutineM.bind_eq_ok.mp h
  obtain ⟨func, _, -, h⟩ := RoutineM.bind_eq_ok.mp h
  cases func with
  | none => cases h
  | some func =>
      cases h
      exact .function _ _

/-- A sound value is called as a target of one of the kinds. -/
theorem kind_of_target {s : Setting} (hEnv : env.Sound s) (hFound : found.Sound s)
    {target : Target} (h : (Call.target span found).exec env routine = (.ok target, after)) :
    target.Kind env.program.types := by
  cases found with
  | method bound =>
      cases h
      obtain ⟨callee, receiver, func⟩ := bound
      rcases hFound.kind with ⟨name, hCallee, hPlain⟩ | ⟨key, name, hCallee, hGiven⟩
      · cases hCallee
        exact .interface name func receiver hPlain
      · cases hCallee
        obtain ⟨input, inputs, record, hInputs, hRecord, rfl⟩ := hGiven.receiver
        rw [← hEnv.types] at hRecord
        exact .struct record name func receiver input inputs hGiven.isMethod hInputs hRecord
  | _ => exact kind_of_functionTarget h _

theorem exec_functionTarget_call (value : Value) (args : List Expr) (spread : Bool) :
    RoutineM.exec (do
      let e ← RoutineM.toSingle span value
      match ← RoutineM.types (·.func? e.type) with
      | some func => apply e.c func [] func.inputs (args.map operand) spread span
      | none => RoutineM.error span (.notCallable e.type.display)) env routine =
    RoutineM.exec (do
      let target ← functionTarget span value
      target.call args spread span) env routine := by
  unfold functionTarget
  rw [bind_assoc, RoutineM.bind_exec, RoutineM.bind_exec]
  split
  · next e middle hRun =>
      rw [bind_assoc, RoutineM.bind_exec, RoutineM.bind_exec]
      split
      · next func last hRun =>
          cases func with
          | none => rfl
          | some func => rfl
      · rfl
  · rfl

/-- A call that is neither compiled in place nor a conversion finds its target and calls it. -/
theorem exec_call {callee : Expr} (args : List Expr) (spread : Bool) (span : Span)
    (hPlace : (intrinsic? callee).exec env routine = (.ok none, routine))
    (hCallee : (compileExpr callee).exec env routine = (.ok found, middle))
    (hValue : ∀ type, found ≠ .type type) :
    (compileExpr (.call span callee args spread)).exec env routine =
      RoutineM.exec (do
        let target ← target span found
        target.call args spread span) env middle := by
  rw [compileExpr, operands_eq_map, call, RoutineM.bind_exec, hPlace]
  dsimp only
  rw [RoutineM.bind_exec, hCallee]
  dsimp only
  cases found with
  | type denoted => exact absurd rfl (hValue denoted)
  | method bound => rfl
  | _ => exact exec_functionTarget_call _ args spread

end Call

/-- A call that is neither compiled in place nor a conversion is rejected if the number of its
arguments does not fit its target. If it is accepted, what it passes, after the value that a
method of an interface is dispatched on, fills its slots one by one; and these, one by one, are
what the prototype of the function declares parameters for. -/
theorem call_passes_parameters {s : Setting} (hWhole : s.types = s.values) {env : Env}
    {routine middle : Routine} {vars : String → Prop} (hEnv : env.Sound s)
    (hRoutine : routine.Sound s.values) (hNamed : routine.Named vars) {callee : Expr}
    (hFormed : callee.Formed s.types.Word) {found : Value}
    (hPlace : (Call.intrinsic? callee).exec env routine = (.ok none, routine))
    (hCallee : (compileExpr callee).exec env routine = (.ok found, middle))
    (hValue : ∀ type, found ≠ .type type) (args : List Expr) (spread : Bool) (span : Span) :
    (∀ target, (Call.target span found).exec env middle = (.ok target, middle) →
      ¬ target.Accepts args.length spread → ∃ cause,
        (compileExpr (.call span callee args spread)).exec env routine =
          (.error (.error ⟨env.package, span, .argCount cause⟩), middle)) ∧
    ∀ value after, (compileExpr (.call span callee args spread)).exec env routine =
        (.ok value, after) →
      ∃ target cs type, (Call.target span found).exec env middle = (.ok target, middle) ∧
        target.Kind env.program.types ∧ target.Accepts args.length spread ∧
        value = .expr ⟨.call target.callee (target.dispatched ++ cs), type⟩ ∧
        Call.Fills env middle (target.slots args spread) cs after ∧
        ∀ name prototype, env.program.types.prototype target.func name = .ok prototype →
          List.Forall₂ (Call.Declares env.program.types)
            ((target.slots args spread).map Call.Slot.place) prototype.params := by
  rw [Call.exec_call args spread span hPlace hCallee hValue]
  constructor
  · intro target hTarget hRejected
    obtain ⟨cause, hError⟩ := target.call_rejected span hRejected
    refine ⟨cause, ?_⟩
    rw [RoutineM.bind_exec, hTarget]
    exact hError
  · intro value after hRun
    obtain ⟨target, last, hTarget, hCall⟩ := RoutineM.bind_eq_ok.mp hRun
    have hSame := Call.asks_target span found env middle
    rw [hTarget] at hSame
    subst hSame
    have hSafe := compileExpr_safe hWhole callee hFormed env routine hEnv hRoutine
    rw [hCallee] at hSafe
    have hKind := Call.kind_of_target hEnv hSafe.1 hTarget
    have hComposed : Composed .expr (.naming vars) (compileExpr callee) :=
      compileExpr_composed .expr callee
    obtain ⟨hAccepts, hCollects, cs, type, hResult, hFills⟩ :=
      hKind.bound.call_fills ((hComposed.advances hCallee).named hNamed) hCall
    exact ⟨target, cs, type, hTarget, hKind, hAccepts, hResult, hFills,
      fun name prototype hDeclared => hKind.bound.declares hDeclared hCollects hAccepts⟩

/-- A function that takes an integer and collects more of them, and that has two outputs. -/
def collectingFunc : FuncType Ty :=
  ⟨[⟨"a", .prim .int⟩, ⟨"rest", .slice (.prim .int)⟩], [⟨"", .prim .int⟩, ⟨"", .prim .bool⟩], true,
    false, 1⟩

/-- A module with that function. -/
def collectingEnv : Env :=
  ⟨⟨[⟨"main", .empty, [⟨"main", "f", "main__f", .func, 0, .nowhere,
      some (.expr ⟨.global "main__f", .func collectingFunc⟩), none⟩], []⟩], none, .empty⟩,
    0, "main", none, none, none⟩

/-- What the types of that module are made of. -/
def collectingSetting : Setting where
  values := ⟨fun _ => False, False, True, False⟩
  types := ⟨fun _ => False, False, True, False⟩
  store := .empty
  settled := ⟨fun _ h => h.elim, fun _ h => by cases h⟩
  le := ⟨fun _ => id, id, id, id⟩

theorem collectingEnv_sound : collectingEnv.Sound collectingSetting := by
  have hPlain : (Ty.func collectingFunc).PlainFunc collectingSetting.values := by
    have hName (name : String) (h : !isNamed name || isIdentifier name) :
        NamedByIdentifier name := by
      intro hNamed
      simpa [hNamed] using h
    have hInputs : Ty.PlainAll collectingSetting.values collectingFunc.inputs := by
      simp only [collectingFunc, Ty.PlainAll, Ty.Plain]
      exact ⟨⟨hName _ (by decide +kernel), nofun⟩, ⟨hName _ (by decide +kernel), nofun⟩, trivial⟩
    have hOutputs : Ty.PlainAll collectingSetting.values collectingFunc.outputs := by
      simp only [collectingFunc, Ty.PlainAll, Ty.Plain]
      exact ⟨⟨hName _ (by decide +kernel), nofun⟩, ⟨hName _ (by decide +kernel), nofun⟩, trivial⟩
    exact ⟨hInputs, hOutputs, fun _ => ⟨[⟨"a", .prim .int⟩], "rest", .prim .int, rfl, by simp⟩⟩
  have hSound : Typed.Sound collectingSetting.values ⟨.global "main__f", .func collectingFunc⟩ :=
    ⟨.inr ⟨hPlain, trivial⟩, fun h => h.elim, fun _ _ => trivial⟩
  have hGlobal (id : ModuleId) (name : String) (global : Global)
      (h : collectingEnv.program.global? id name = some global) :
      global.value = some (.expr ⟨.global "main__f", .func collectingFunc⟩) := by
    obtain ⟨module, hModule, hFound⟩ := Option.bind_eq_some_iff.mp h
    cases id with
    | zero =>
        cases hModule
        obtain rfl := List.mem_singleton.mp (List.mem_of_find?_eq_some hFound)
        rfl
    | succ id => cases hModule
  have hValue (id : ModuleId) (name : String) (value : Value)
      (h : collectingEnv.program.globalValue? id name = some value) :
      value = .expr ⟨.global "main__f", .func collectingFunc⟩ := by
    obtain ⟨global, hFound, rfl⟩ := Option.map_eq_some_iff.mp h
    rw [hGlobal id name global hFound]
    rfl
  refine ⟨rfl, ?_, ?_, ?_, ?_, ?_, ?_, fun h => h.elim⟩
  · intro name value h
    rw [hValue _ name value h]
    exact .inl hSound
  · intro id name value h
    cases h
  · intro id name value h
    rw [hValue id name value h]
    exact .inl hSound
  · intro id name global e h hExpr
    rw [hGlobal id name global h] at hExpr
    cases hExpr
    exact hSound
  · intro func h
    cases h
  · intro name h
    cases h

/-- The arguments of a call that was compiled, as they are written. -/
def Call.argsOf? : Except Failure Value × Routine → Option (List String)
  | (.ok (.expr ⟨.call _ cs, _⟩), _) => some (cs.map CExpr.render)
  | _ => none

/-- In `f(4)` nothing is left to collect, and yet a slice is passed; `f()` is rejected. -/
theorem call_passes_parameters_collecting :
    let callee := Expr.ident .nowhere "f"
    let target : Call.Target := ⟨.global "main__f", collectingFunc, none⟩
    let start := Routine.start Supply.empty
    (∃ cause, (compileExpr (.call .nowhere callee [] false)).exec collectingEnv start =
      (.error (.error ⟨"main", .nowhere, .argCount cause⟩), start)) ∧
    ∃ cs type after,
      (compileExpr (.call .nowhere callee [.int .nowhere 4] false)).exec collectingEnv start =
        (.ok (.expr ⟨.call (.global "main__f") cs, type⟩), after) ∧
      cs.map CExpr.render = ["(P_int)(4)", "_tmp_1", "&_multi_2_0", "&_multi_2_1"] ∧
      Call.Fills collectingEnv start (target.slots [.int .nowhere 4] false) cs after := by
  intro callee target start
  have hFormed : callee.Formed collectingSetting.types.Word := by
    rw [Expr.Formed]
    exact ⟨by decide +kernel, fun h => absurd h (by decide)⟩
  have hRoutine : start.Sound collectingSetting.values := by
    intro scope hScope entry hEntry
    rw [List.mem_singleton.mp hScope] at hEntry
    cases hEntry
  have hPasses := @call_passes_parameters collectingSetting rfl collectingEnv start start
    (fun _ => True) collectingEnv_sound hRoutine (.start _ _) callee hFormed
    (.expr ⟨.global "main__f", .func collectingFunc⟩) rfl rfl (fun _ h => by cases h)
  refine ⟨(hPasses [] false .nowhere).1 target rfl (by decide), ?_⟩
  have hArgs : Call.argsOf? ((compileExpr (.call .nowhere (.ident .nowhere "f") [.int .nowhere 4]
      false)).exec collectingEnv (.start .empty)) =
        some ["(P_int)(4)", "_tmp_1", "&_multi_2_0", "&_multi_2_1"] := by
    decide +kernel
  unfold Call.argsOf? at hArgs
  split at hArgs
  · next cs type after hRun =>
      obtain ⟨found, given, _, hTarget, -, -, hResult, hFills, -⟩ :=
        (hPasses [.int .nowhere 4] false .nowhere).2 _ _ hRun
      cases hTarget
      cases hResult
      exact ⟨given, type, after, hRun, Option.some.inj hArgs, hFills⟩
  · cases hArgs

end GoToC
