import GoToC.Proofs.Routine.Retraces
import GoToC.Proofs.Routine.SafeValue

/-!
# Values and types that are compiled alike

What a name stands for, how a value is converted and which types are formed comes out alike
against programs that are alike. The places in the source play no part in this. Rules that only
form types hold also while the types of a module are being built.
-/

namespace GoToC

variable {routine after routine' : Routine} {env env' : Env} {ledger : Ledger} {value' : Value}
  {params params' : List (Param Operand)} {specs specs' : List (MethodSpec Operand)} {tag : String}
  {inner inner' : RoutineM (List (Member Ty))} {action action' : RoutineM Ty}

/-- Values of alike types. -/
def Typed.Twin (p : Pairing) (ledger : Ledger) (e e' : Typed) : Prop :=
  p.alike ledger e.type e'.type

theorem Typed.Twin.mono {p : Pairing} {now later : Ledger} (le : now ≤ later) {e e' : Typed}
    (h : e.Twin p now e') : e.Twin p later e' := p.mono le h

namespace Retraces

variable {p : Pairing} {ledger : Ledger}

/-! ## Names -/

theorem lookup (name : String) (span span' : Span) :
    Retraces p ledger (RoutineM.lookup name span) (RoutineM.lookup name span')
      fun now => Value.NamedTwin p now := by
  refine Retraces.read.bind fun now le env env' hEnv => ?_
  refine Retraces.get.bind fun now le routine routine' hRoutine => ?_
  have hEnv := hEnv.mono le
  have hBinding := hRoutine.binding? name
  revert hBinding
  generalize routine.binding? name = found
  generalize routine'.binding? name = found'
  intro hBinding
  cases hBinding with
  | some hAlike => exact .pure fun later le => ⟨p.mono le hAlike, fun _ => Value.noConfusion⟩
  | none =>
      have hKinds (id : ModuleId) (h : env.program.globalValue? id name = none) :
          env'.program.globalValue? id name = none := by
        have hKind := hEnv.kinds id name
        simp only [Program.globalValue?, Option.map_eq_none_iff] at h ⊢
        rw [h] at hKind
        simpa using hKind.symm
      dsimp only
      rw [← hEnv.module, ← hEnv.builtin]
      cases hOwn : env.program.globalValue? env.module name with
      | some value =>
          obtain ⟨value', hFound, hTwin⟩ := hEnv.own name value hOwn
          rw [hFound]
          exact .pure fun later le => hTwin.mono le
      | none =>
          rw [hKinds _ hOwn]
          have hPrim (value : Value) (h : primValue? name = some value) (later : Ledger) :
              value.NamedTwin p later value := by
            unfold primValue? at h
            split at h
            · cases h
              exact ⟨p.formed (.prim _) trivial, fun _ => Value.noConfusion⟩
            · split at h
              · cases h
                exact ⟨p.formed (.prim _) trivial, fun _ => Value.noConfusion⟩
              · split at h
                · cases h
                  exact ⟨p.formed (.prim _) trivial, fun _ => Value.noConfusion⟩
                · obtain ⟨prim, -, rfl⟩ := Option.map_eq_some_iff.mp h
                  exact ⟨p.formed (.prim _) trivial, fun _ => Value.noConfusion⟩
          have hRest : Retraces p now (RoutineM.undeclared name span)
              (RoutineM.undeclared name span') fun now => Value.NamedTwin p now := by
            unfold RoutineM.undeclared
            cases hValue : primValue? name with
            | none => exact .error
            | some value => exact .pure fun later _ => hPrim value hValue later
          cases hBuiltin : env.program.builtin with
          | none => exact hRest
          | some id =>
              simp only [Option.bind_some]
              by_cases hSelf : id = env.module
              · simp only [if_pos hSelf]
                exact hRest
              · simp only [if_neg hSelf]
                cases hShared : env.program.globalValue? id name with
                | none =>
                    rw [hKinds _ hShared]
                    exact hRest
                | some value =>
                    obtain ⟨value', hFound, hTwin⟩ := hEnv.shared id name value hBuiltin hShared
                    rw [hFound]
                    exact .pure fun later le => hTwin.mono le

/-- Names that one routine binds are those that the other one binds. -/
theorem isBound_eq (h : routine.Twin p ledger routine') (name : String) :
    routine.isBound name = routine'.isBound name := by
  have hBinding := h.binding? name
  unfold Routine.isBound
  revert hBinding
  generalize routine.binding? name = found
  generalize routine'.binding? name = found'
  intro hBinding
  cases hBinding <;> rfl

theorem isAssignable (name : String) :
    Retraces p ledger (RoutineM.isAssignable name) (RoutineM.isAssignable name)
      fun _ => Eq := by
  refine Retraces.read.bind fun now le env env' hEnv => ?_
  refine Retraces.get.bind fun now le routine routine' hRoutine => ?_
  have hEnv := hEnv.mono le
  rw [← isBound_eq hRoutine name, ← hEnv.module, ← hEnv.builtin]
  have hKind (id : ModuleId) := hEnv.kinds id name
  split
  · exact .pure fun _ _ => rfl
  · have hOwn := hKind env.module
    cases hGlobal : env.program.global? env.module name with
    | some global =>
        rw [hGlobal] at hOwn
        obtain ⟨global', hFound, hSame⟩ := Option.map_eq_some_iff.mp hOwn.symm
        rw [hFound]
        exact .pure fun _ _ => by rw [hSame]
    | none =>
        rw [hGlobal] at hOwn
        rw [Option.map_eq_none_iff.mp hOwn.symm]
        refine .pure fun _ _ => ?_
        cases env.program.builtin with
        | none => rfl
        | some id =>
            have hShared := congrArg (Option.map (· == GlobalKind.var)) (hKind id)
            rw [Option.map_map, Option.map_map] at hShared
            exact congrArg (Option.getD · false) hShared

/-! ## Variables and values -/

section Values

variable [p.Whole] {a b : Ty}

theorem addLocal (name name' : String) (h : p.alike ledger a b) (span span' : Span) :
    Retraces p ledger (RoutineM.addLocal name a span) (RoutineM.addLocal name' b span')
      fun _ _ _ => True := by
  refine (Retraces.hasZeroValue h).bind fun now _ hasZero _ hSame => ?_
  refine .errorIf (congrArg _ hSame) fun _ => ?_
  refine (Retraces.requestTypedef a b).bind fun now _ _ _ _ => ?_
  refine (Retraces.mild TypeStore.mild_cType).bind fun now _ _ _ _ => ?_
  refine (Retraces.mild TypeStore.mild_zeroValue).bind fun now _ _ _ _ => ?_
  refine .changed fun now _ routine routine' hRoutine => ⟨?_, Nat.le_refl _, Nat.le_refl _⟩
  exact { hRoutine with locals := by simp }

theorem temp (h : p.alike ledger a b) (span span' : Span) :
    Retraces p ledger (RoutineM.temp a span) (RoutineM.temp b span') fun _ _ _ => True :=
  Retraces.nextSerial.bind fun _ le _ _ _ => (Retraces.addLocal _ _ (p.mono le h) _ _).bind
    fun _ _ _ _ _ => .pure fun _ _ => trivial

/-- The routines may have different variables, so that a name is new in one of them only. -/
theorem declareLocal (name : String) (h : p.alike ledger a b) (span span' : Span) :
    Retraces p ledger (RoutineM.declareLocal name a span) (RoutineM.declareLocal name b span')
      fun _ _ _ => True := by
  have hRenamed : TakesNumbers (RoutineM.renamedVariable name <$> RoutineM.nextSerial) :=
    fun _ _ => ⟨_, 1, rfl⟩
  have hPlain : TakesNumbers (Pure.pure (RoutineM.variableName name) : RoutineM String) :=
    fun _ _ => ⟨_, 0, rfl⟩
  refine Retraces.get.bind fun now le routine routine' _ => ?_
  have hRest {naming naming' : RoutineM String} (hFirst : TakesNumbers naming)
      (hSecond : TakesNumbers naming') : Retraces p now
      (do
        let cName ← naming
        RoutineM.addLocal cName a span
        return cName)
      (do
        let cName ← naming'
        RoutineM.addLocal cName b span'
        return cName) fun _ _ _ => True := by
    refine (Retraces.takesNumbers hFirst hSecond).bind fun now' le' _ _ _ => ?_
    exact (Retraces.addLocal _ _ (p.mono (le_trans le le') h) _ _).bind fun _ _ _ _ _ =>
      .pure fun _ _ => trivial
  cases routine.hasLocal (RoutineM.variableName name) with
  | true =>
      cases routine'.hasLocal (RoutineM.variableName name) with
      | true => exact hRest hRenamed hRenamed
      | false => exact hRest hRenamed hPlain
  | false =>
      cases routine'.hasLocal (RoutineM.variableName name) with
      | true => exact hRest hPlain hRenamed
      | false => exact hRest hPlain hPlain

theorem single {e e' : Typed} (h : e.Twin p ledger e') (span span' : Span) :
    Retraces p ledger (RoutineM.single e span) (RoutineM.single e' span')
      fun now => Typed.Twin p now := by
  refine (Retraces.multi? h).bind fun now le found found' hFound => ?_
  cases hFound with
  | some => exact .error
  | none => exact .pure fun later le' => p.mono (le_trans le le') h

theorem toExpr (span span' : Span) {value : Value} (h : value.Twin p ledger value') :
    Retraces p ledger (RoutineM.toExpr span value) (RoutineM.toExpr span' value')
      fun now => Typed.Twin p now := by
  induction value generalizing value' ledger with
  | expr e =>
      cases value' with
      | expr => exact .pure fun _ le => p.mono le h
      | _ => exact h.elim
  | global id name =>
      cases value' with
      | global id' name' =>
          obtain ⟨rfl, rfl⟩ := h
          refine Retraces.read.bind fun now le env env' hEnv => ?_
          cases hValue : (env.program.global? id name).bind (·.value) with
          | none => exact .error
          | some found =>
              cases found with
              | expr e =>
                  obtain ⟨e', hFound, hAlike⟩ := hEnv.exprs id name e hValue
                  rw [hFound]
                  exact .pure fun _ le => p.mono le hAlike
              | _ => exact .error
      | _ => exact h.elim
  | element container index ihContainer ihIndex =>
      cases value' with
      | element container' index' =>
          obtain ⟨hContainer, hIndex⟩ := h
          rw [RoutineM.toExpr, RoutineM.toExpr]
          refine (ihContainer hContainer).bind fun now le e e' he => ?_
          refine (Retraces.single he _ _).bind fun now' le' e e' he => ?_
          have hIndex := hIndex.mono (le_trans le le')
          refine (ihIndex hIndex).bind fun now'' le'' i i' hi => ?_
          refine (Retraces.single hi _ _).bind fun now₃ le₃ i i' _ => ?_
          have he := he.mono (le_trans le'' le₃)
          refine (Retraces.element? he).bind fun now₄ _ found found' hFound => ?_
          cases hFound with
          | some hElem => exact .pure fun _ le => p.mono le hElem
          | none => exact .error
      | _ => exact h.elim
  | type => exact .error
  | module => exact .error
  | method => exact .error

theorem toSingle (span span' : Span) {value : Value} (h : value.Twin p ledger value') :
    Retraces p ledger (RoutineM.toSingle span value) (RoutineM.toSingle span' value')
      fun now => Typed.Twin p now :=
  (Retraces.toExpr span span' h).bind fun _ _ _ _ hValue => .single hValue _ _

theorem convert {dest dest' : Ty} {src src' : Typed} (hDest : p.alike ledger dest dest')
    (hSrc : src.Twin p ledger src') (span span' : Span) (context context' : String) :
    Retraces p ledger (RoutineM.convert dest src span context)
      (RoutineM.convert dest' src' span' context') fun _ _ _ => True := by
  refine (Retraces.func? hDest).bind fun now le found found' hFound => ?_
  have hDest := p.mono le hDest
  have hSrc := hSrc.mono le
  cases hFound with
  | some =>
      refine (Retraces.isPrim hSrc .nil).bind fun now le isNil _ hSame => ?_
      subst hSame
      cases isNil with
      | true => exact .pure fun _ _ => trivial
      | false =>
          refine (Retraces.equal (p.mono le hDest) (p.mono le hSrc)).bind
            fun now _ same _ hSame => ?_
          subst hSame
          cases same with
          | true => exact .pure fun _ _ => trivial
          | false => exact .mismatch
  | none =>
      refine (Retraces.isStorable hDest).bind fun now le storable _ hSame => ?_
      refine .errorIf (congrArg _ hSame) fun _ => ?_
      refine (Retraces.assign (p.mono le hDest) (p.mono le hSrc)).bind fun now _ found _ hSame => ?_
      subst hSame
      cases found with
      | some conversion => exact .pure fun _ _ => trivial
      | none => exact .mismatch

end Values

end Retraces

/-! ## Operands -/

/-- Members of one name and alike types, list by list. -/
abbrev MembersTwin (p : Pairing) (ledger : Ledger) : List (Member Ty) → List (Member Ty) → Prop :=
  List.Forall₂ (Member.Twin (p.alike ledger))

theorem MembersTwin.mono {p : Pairing} {now later : Ledger} (le : now ≤ later)
    {members members' : List (Member Ty)} (h : MembersTwin p now members members') :
    MembersTwin p later members members' := h.imp fun _ _ => .imp fun _ _ => p.mono le

/-- The same for the members of a struct or an interface. -/
abbrev MadeTwin (p : Pairing) (ledger : Ledger) : List (Member Ty) → List (Member Ty) → Prop :=
  List.Forall₂ (Member.Twin (p.MemberAlike ledger))

namespace Operand

variable {p : Pairing} {ledger : Ledger}

/-- Operands of one form that are compiled alike. -/
structure Twin (p : Pairing) (operand operand' : Operand) : Prop where
  source : operand.source.bare = operand'.source.bare
  compile : ∀ ledger, Retraces p ledger operand.compile operand'.compile fun now => Value.Twin p now

/-- Operands that denote alike types. -/
def TypeTwin (p : Pairing) (operand operand' : Operand) : Prop :=
  ∀ ledger, Retraces p ledger operand.type operand'.type fun now => p.alike now

structure ParamTwin (p : Pairing) (param param' : Param Operand) : Prop where
  name : param.name = param'.name
  type : TypeTwin p param.type param'.type

structure SignatureTwin (p : Pairing) (sig sig' : Signature Operand) : Prop where
  variadic : sig.variadic = sig'.variadic
  inputs : List.Forall₂ (ParamTwin p) sig.inputs sig'.inputs
  outputs : List.Forall₂ (ParamTwin p) sig.outputs sig'.outputs

structure SpecTwin (p : Pairing) (spec spec' : MethodSpec Operand) : Prop where
  name : spec.name = spec'.name
  signature : SignatureTwin p spec.signature spec'.signature

theorem Twin.value [p.Whole] {operand operand' : Operand} (h : operand.Twin p operand') :
    Retraces p ledger operand.value operand'.value fun now => Typed.Twin p now :=
  (h.compile ledger).bind fun _ _ _ _ hValue => .toSingle _ _ hValue

theorem values_retraces [p.Whole] {operands operands' : List Operand}
    (h : List.Forall₂ (Twin p) operands operands') :
    Retraces p ledger (values operands) (values operands')
      fun now => List.Forall₂ (Typed.Twin p now) := by
  induction h generalizing ledger with
  | nil => exact .pure fun _ _ => .nil
  | cons hFirst _ ih =>
      refine hFirst.value.bind fun now _ e e' he => ih.bind fun now' le es es' hes => ?_
      refine .pure fun later le' => .cons (he.mono (le_trans le le')) ?_
      exact hes.imp fun _ _ => .mono le'

theorem Twin.type {operand operand' : Operand} (h : operand.Twin p operand') :
    TypeTwin p operand operand' := by
  intro ledger
  refine (h.compile ledger).bind fun now _ value value' hValue => ?_
  cases value with
  | type a =>
      cases value' with
      | type b => exact .pure fun _ le => p.mono le hValue
      | _ => exact hValue.elim
  | _ => exact .error

theorem members_retraces (h : List.Forall₂ (ParamTwin p) params params') :
    Retraces p ledger (members params) (members params') (MembersTwin p) := by
  induction h generalizing ledger with
  | nil => exact .pure fun _ _ => .nil
  | cons hFirst _ ih =>
      refine (hFirst.type ledger).bind fun now _ a b hAlike =>
        ih.bind fun now' le ms ms' hMembers => ?_
      refine .pure fun later le' => .cons ⟨hFirst.name, ?_⟩ (hMembers.mono le')
      exact p.mono (le_trans le le') hAlike

theorem fields_retraces (h : List.Forall₂ (ParamTwin p) params params') :
    Retraces p ledger (members params) (members params') (MadeTwin p) :=
  (members_retraces h).mono fun _ _ _ _ hMembers => hMembers.imp fun _ _ => .imp fun _ _ => .inl

theorem signature_retraces {receiver receiver' : Option (Param Operand)}
    {sig sig' : Signature Operand} (hReceiver : Option.Rel (ParamTwin p) receiver receiver')
    (h : SignatureTwin p sig sig') :
    Retraces p ledger (signature receiver sig) (signature receiver' sig')
      fun now => FuncType.Twin (p.alike now) := by
  have hInputs : List.Forall₂ (ParamTwin p) (receiver.toList ++ sig.inputs)
      (receiver'.toList ++ sig'.inputs) := by
    cases hReceiver with
    | none => exact h.inputs
    | some hParam => exact .cons hParam h.inputs
  have hMethod : receiver.isSome = receiver'.isSome := by cases hReceiver <;> rfl
  refine (members_retraces hInputs).bind fun now _ inputs inputs' hInputs => ?_
  refine (members_retraces h.outputs).bind fun now' le outputs outputs' hOutputs => ?_
  rw [h.variadic, hMethod]
  exact .newFunc _ _ (hInputs.mono le) hOutputs

theorem methods_retraces (h : List.Forall₂ (SpecTwin p) specs specs') :
    Retraces p ledger (methods specs) (methods specs') (MadeTwin p) := by
  induction h generalizing ledger with
  | nil => exact .pure fun _ _ => .nil
  | cons hFirst _ ih =>
      refine (signature_retraces .none hFirst.signature).bind fun now _ func func' hFunc => ?_
      refine ih.bind fun now' le ms ms' hMembers => ?_
      refine .pure fun later le' => .cons ⟨hFirst.name, .inr ⟨func, func', rfl, rfl, ?_⟩⟩ ?_
      · exact hFunc.mono (le_trans le le')
      · exact hMembers.imp fun _ _ => .imp fun _ _ => .mono le'

/-! ### Structs and interfaces -/

/-- The action makes a struct or an interface of the given name out of the members that another
action gives. -/
def Makes (tag name : String) (inner : RoutineM (List (Member Ty))) (action : RoutineM Ty) : Prop :=
  ∀ env routine,
    match inner.exec env routine with
    | (.ok members, after) => ∃ (type : NamedType) (structs : Nat),
        action.exec env routine = (.ok type.toTy,
          { after with supply := { after.supply with structs := structs } }) ∧
        type.tag = tag ∧ type.package = env.package ∧ type.name = name ∧ type.members = members
    | (.error failure, after) => action.exec env routine = (.error failure, after)

theorem structType_makes (name : String) (fields : List (Param Operand)) :
    Makes "_struct_" name (members fields) (structType name fields) := by
  intro env routine
  cases hExec : (members fields).exec env routine with
  | mk result after =>
      cases result with
      | ok found =>
          refine ⟨.struct ⟨after.supply.structs, env.package, name, found⟩,
            after.supply.structs + 1, ?_, rfl, rfl, rfl, rfl⟩
          rw [structType, RoutineM.bind_exec, hExec]
          rfl
      | error failure =>
          show (structType name fields).exec env routine = _
          rw [structType, RoutineM.bind_exec, hExec]

theorem interfaceType_makes (name : String) (specs : List (MethodSpec Operand)) :
    Makes "_interface_" name (methods specs) (interfaceType name specs) := by
  intro env routine
  cases hExec : (methods specs).exec env routine with
  | mk result after =>
      cases result with
      | ok found =>
          refine ⟨.interface ⟨env.package, name, found⟩, after.supply.structs, ?_, rfl,
            rfl, rfl, rfl⟩
          rw [interfaceType, RoutineM.bind_exec, hExec]
          rfl
      | error failure =>
          show (interfaceType name specs).exec env routine = _
          rw [interfaceType, RoutineM.bind_exec, hExec]

theorem alike_toTy {a b : NamedType} (h : ledger.twins a b) (hTag : a.tag = b.tag) :
    p.alike ledger a.toTy b.toTy := by
  cases a with
  | struct => cases b with
    | struct => exact p.formed (.struct h) trivial
    | interface => simp [NamedType.tag] at hTag
  | interface => cases b with
    | struct => simp [NamedType.tag] at hTag
    | interface => exact p.formed (.interface h) trivial

/-- Types that are made alike under one kind of name, each in its package. -/
structure NamedTypes (p : Pairing) (ledger : Ledger) (tag name name' package package' : String)
    (a b : NamedType) : Prop where
  tag : a.tag = tag ∧ b.tag = tag
  name : a.name = name ∧ b.name = name'
  package : a.package = package ∧ b.package = package'
  members : MadeTwin p ledger a.members b.members

theorem makes_retraces {name name' : String} (hMakes : Makes tag name inner action)
    (hMakes' : Makes tag name' inner' action') (h : Retraces p ledger inner inner' (MadeTwin p))
    {now : Ledger} (le : ledger ≤ now) (hEnv : env.Twin p now env')
    (hRoutine : routine.Twin p now routine') {value : Ty}
    (hRun : action.exec env routine = (.ok value, after)) :
    Retraced p now env.package routine routine' value after (fun later value value' =>
      ∃ a b, value = a.toTy ∧ value' = b.toTy ∧
        NamedTypes p later tag name name' env.package env'.package a b)
      (action'.exec env' routine') := by
  have hMade := hMakes env routine
  have hMade' := hMakes' env' routine'
  cases hInner : inner.exec env routine with
  | mk result middle =>
      rw [hInner] at hMade
      cases result with
      | error failure =>
          dsimp only at hMade
          rw [hMade] at hRun
          cases hRun
      | ok found =>
          obtain ⟨a, structs, hExec, haTag, haPackage, haName, haMembers⟩ := hMade
          rw [hExec] at hRun
          cases hRun
          have hOutcome := h now le env env' routine routine' hEnv hRoutine found middle hInner
          cases hInner' : inner'.exec env' routine' with
          | mk result' middle' =>
              rw [hInner'] at hMade' hOutcome
              cases hOutcome with
              | failed hExcused =>
                  dsimp only at hMade'
                  rw [hMade']
                  exact .failed hExcused
              | @ok found' _ grown hGrows hLe hLe' hMiddle hMembers =>
                  obtain ⟨b, structs', hExec', hbTag, hbPackage, hbName, hbMembers⟩ := hMade'
                  rw [hExec']
                  have hDone : Routine.Twin p grown
                      { middle with supply := { middle.supply with structs := structs } }
                      { middle' with supply := { middle'.supply with structs := structs' } } :=
                    ⟨hMiddle.scopes, hMiddle.body, hMiddle.locals, hMiddle.valid⟩
                  refine .ok hGrows hLe hLe' hDone ⟨a, b, rfl, rfl, ⟨haTag, hbTag⟩,
                    ⟨haName, hbName⟩, ⟨haPackage, hbPackage⟩, ?_⟩
                  rw [haMembers, hbMembers]
                  exact hMembers

/-- What is made under an invented name is entered in the ledger. The number of the name is taken
before the members are compiled, so it differs from those of the types among them. -/
theorem invented_retraces {make make' : Nat → RoutineM Ty}
    (hMake : ∀ n, Makes tag (tag ++ toString n) inner (make n))
    (hMake' : ∀ n, Makes tag (tag ++ toString n) inner' (make' n))
    (h : Retraces p ledger inner inner' (MadeTwin p)) :
    Retraces p ledger (RoutineM.nextSerial >>= make) (RoutineM.nextSerial >>= make')
      fun now => p.alike now := by
  intro now le env env' routine routine' hEnv hRoutine value after hRun
  rw [RoutineM.bind_exec, RoutineM.nextSerial_exec] at hRun ⊢
  generalize hStart : ({ routine with
    supply := { routine.supply with serial := routine.supply.serial + 1 } } : Routine) = start
    at hRun
  generalize hStart' : ({ routine' with
    supply := { routine'.supply with serial := routine'.supply.serial + 1 } } : Routine) = start'
  have hSerial : start.supply.serial = routine.supply.serial + 1 := by rw [← hStart]
  have hSerial' : start'.supply.serial = routine'.supply.serial + 1 := by rw [← hStart']
  have hTwin : start.Twin p now start' := by
    rw [← hStart, ← hStart']
    exact { hRoutine with valid := hRoutine.valid.mono (Nat.le_succ _) (Nat.le_succ _) }
  have hOutcome := makes_retraces (hMake (routine.supply.serial + 1))
    (hMake' (routine'.supply.serial + 1)) h le hEnv hTwin hRun
  show Retraced _ _ _ _ _ _ _ _ ((make' (routine'.supply.serial + 1)).exec env' start')
  cases hExec : (make' (routine'.supply.serial + 1)).exec env' start' with
  | mk result last =>
      rw [hExec] at hOutcome
      cases hOutcome with
      | failed hExcused => exact .failed hExcused
      | @ok value' _ grown hGrows hLe hLe' hAfter hMade =>
          obtain ⟨a, b, rfl, rfl, hTags, hNames, hPackages, hMembers⟩ := hMade
          have hFrom : now.Grows env.package (routine.supply.serial + 1)
              (routine'.supply.serial + 1) grown := by
            rw [← hSerial, ← hSerial']
            exact hGrows
          have haInvented : a.Invented (routine.supply.serial + 1) := by
            rw [NamedType.Invented, hNames.1, hTags.1]
          have hbInvented : b.Invented (routine'.supply.serial + 1) := by
            rw [NamedType.Invented, hNames.2, hTags.2]
          have hSameTag : a.tag = b.tag := hTags.1.trans hTags.2.symm
          have hFresh (c d : NamedType) (hTwins : grown.twins c d) :=
            hRoutine.valid.fresh_titles hFrom haInvented hbInvented hTwins
          have hValid : (grown.add a b).Valid p after.supply.serial last.supply.serial := by
            refine hAfter.valid.add (fun c d hTwins => (hFresh c d hTwins).1)
              (fun c d hTwins => (hFresh c d hTwins).2) hSameTag
              (hPackages.1.trans (hEnv.package.trans hPackages.2.symm)) ?_ hMembers
            exact .inr ⟨_, _, haInvented, hbInvented, by omega, by omega⟩
          exact .ok (hFrom.add hPackages.1 haInvented hbInvented) (by omega) (by omega)
            (hAfter.grown (grown.le_add a b) hValid) (alike_toTy (.inr ⟨rfl, rfl⟩) hSameTag)

theorem anonymousStruct_retraces {fields fields' : List (Param Operand)}
    (h : List.Forall₂ (ParamTwin p) fields fields') :
    Retraces p ledger (anonymousStruct fields) (anonymousStruct fields') fun now => p.alike now :=
  invented_retraces (fun _ => structType_makes _ fields) (fun _ => structType_makes _ fields')
    (fields_retraces h)

theorem anonymousInterface_retraces (h : List.Forall₂ (SpecTwin p) specs specs') :
    Retraces p ledger (anonymousInterface specs) (anonymousInterface specs')
      fun now => p.alike now := by
  have hAll : Retraces p ledger
      (RoutineM.nextSerial >>= fun n => interfaceType (s!"_interface_{n}") specs)
      (RoutineM.nextSerial >>= fun n => interfaceType (s!"_interface_{n}") specs') fun now =>
        p.alike now :=
    invented_retraces (fun _ => interfaceType_makes _ specs)
      (fun _ => interfaceType_makes _ specs') (methods_retraces h)
  cases h with
  | nil => exact .pure fun _ _ => p.formed .universal trivial
  | cons => exact hAll

end Operand

/-! ## Members -/

namespace ExprRule

variable {p : Pairing} {ledger : Ledger}

theorem moduleMember_retraces {id : ModuleId} (hId : p.names id) (member : String)
    (span span' : Span) :
    Retraces p ledger (moduleMember id member span) (moduleMember id member span')
      fun now => Value.Twin p now := by
  refine Retraces.read.bind fun now _ env env' hEnv => ?_
  dsimp only
  cases hValue : env.program.globalValue? id member with
  | none => exact .error
  | some value =>
      obtain ⟨value', hFound, hForeign⟩ := hEnv.foreign id member value hId hValue
      rw [hFound]
      cases value with
      | type a =>
          obtain ⟨b, rfl, hValid⟩ := hForeign
          intro later le env env' routine routine' hEnv hRoutine found after hRun
          rw [RoutineM.bind_exec] at hRun
          simp only [requireResolved, RoutineM.bind_exec, RoutineM.read_exec, hEnv.left,
            hEnv.right] at hRun ⊢
          cases hLeft : p.left.validate a with
          | error cause =>
              rw [hLeft] at hRun
              cases cause <;> cases hRun
          | ok =>
              rw [hLeft] at hRun
              cases hRun
              obtain ⟨hAlike, hOk | ⟨name, hDeep⟩ | ⟨hEarly, name, hUnbound⟩⟩ := hValid hLeft
              · rw [hOk]
                exact .ok (.refl _ _ _ _) (Nat.le_refl _) (Nat.le_refl _) hRoutine
                  (p.mono le hAlike)
              · rw [hDeep]
                exact .failed (.inl ⟨name, rfl⟩)
              · rw [hUnbound]
                exact .failed (.inr ⟨hEarly, name, rfl⟩)
      | _ =>
          cases value' with
          | type => exact hForeign.elim
          | _ => exact .pure fun _ le => Value.Twin.mono le hForeign

theorem boundMethod?_eq_method {callee receiver : CExpr} {method : Option (Member Ty)}
    {value : Value}
    (h : (boundMethod? callee receiver method).exec env routine = (.ok (some value), after)) :
    ∃ bound, value = .method bound := by
  cases method with
  | none => cases h
  | some method =>
      obtain ⟨found, middle, -, hRest⟩ := RoutineM.bind_eq_ok.mp h
      cases found with
      | none => cases hRest
      | some func =>
          cases hRest
          exact ⟨_, rfl⟩

/-- A member of a value is not a type. -/
theorem valueMember_ne_type {receiver : Typed} {member : String} {span : Span} {value : Value}
    (h : (valueMember receiver member span).exec env routine = (.ok value, after)) (a : Ty) :
    value ≠ .type a := by
  have hBound {callee : CExpr} {method : Option (Member Ty)} {middle : Routine}
      (hRun : (boundMethod? callee receiver.c method >>= foundMethod receiver member span).exec
        env middle = (.ok value, after)) : value ≠ .type a := by
    obtain ⟨found, last, hFound, hRest⟩ := RoutineM.bind_eq_ok.mp hRun
    cases found with
    | none => cases hRest
    | some method =>
        cases hRest
        obtain ⟨bound, rfl⟩ := boundMethod?_eq_method hFound
        exact Value.noConfusion
  obtain ⟨pointee, first, -, hRest⟩ := RoutineM.bind_eq_ok.mp h
  cases pointee with
  | some record =>
      dsimp only at hRest
      cases hField : record.field? member with
      | some field =>
          rw [hField] at hRest
          cases hRest
          exact Value.noConfusion
      | none =>
          rw [hField] at hRest
          exact hBound hRest
  | none =>
      obtain ⟨found, second, -, hRest⟩ := RoutineM.bind_eq_ok.mp hRest
      cases found with
      | some record => exact hBound hRest
      | none => cases hRest

/-- A member of a name, where a type is wanted: the name is that of a module. -/
theorem dotType_retraces {receiver receiver' : Operand} (h : ∀ ledger,
      Retraces p ledger receiver.compile receiver'.compile fun now => Value.NamedTwin p now)
    (member : String) (span span' : Span) (whole whole' : Expr) :
    Operand.TypeTwin p ⟨whole, dot receiver member span⟩ ⟨whole', dot receiver' member span'⟩ := by
  intro ledger
  unfold Operand.type dot
  rw [bind_assoc, bind_assoc]
  refine (h ledger).bind fun now _ value value' hValue => ?_
  have hModule {id : ModuleId} (hId : p.names id) :
      Operand.TypeTwin p ⟨whole, moduleMember id member span⟩
        ⟨whole', moduleMember id member span'⟩ := by
    intro later
    refine (moduleMember_retraces hId member span span').bind fun now _ found found' hFound => ?_
    cases found with
    | type a =>
        cases found' with
        | type b => exact .pure fun _ le => p.mono le hFound
        | _ => exact hFound.elim
    | _ => exact .error
  have hNone {value : Value} {action' : RoutineM Ty} : Retraces p now
      ((do valueMember (← RoutineM.toSingle span value) member span) >>=
        Operand.denoted whole) action'
      fun now => p.alike now := by
    intro later _ env env' routine routine' _ _ result after hRun
    obtain ⟨found, middle, hFound, hRest⟩ := RoutineM.bind_eq_ok.mp hRun
    obtain ⟨e, first, -, hMember⟩ := RoutineM.bind_eq_ok.mp hFound
    cases found with
    | type a => exact absurd rfl (valueMember_ne_type hMember a)
    | _ => cases hRest
  cases value with
  | module id =>
      cases value' with
      | module id' =>
          obtain rfl : id = id' := hValue.twin
          exact hModule (hValue.names id rfl) now
      | _ => exact hValue.twin.elim
  | _ => exact hNone

theorem pointerType_retraces {inner inner' : Operand} (h : inner.TypeTwin p inner') :
    Retraces p ledger (pointerType inner) (pointerType inner') fun now => Value.Twin p now :=
  (h ledger).bind fun _ _ _ _ hAlike => .pure fun _ le =>
    p.formed (.pointer (p.mono le hAlike)) trivial

theorem sliceType_retraces {elem elem' : Operand} (h : elem.TypeTwin p elem') :
    Retraces p ledger (sliceType elem) (sliceType elem') fun now => Value.Twin p now :=
  (h ledger).bind fun _ _ _ _ hAlike => .pure fun _ le =>
    p.formed (.slice (p.mono le hAlike)) trivial

theorem mapType_retraces {key value key' value' : Operand} (hKey : key.TypeTwin p key')
    (hValue : value.TypeTwin p value') :
    Retraces p ledger (mapType key value) (mapType key' value') fun now => Value.Twin p now := by
  refine (hKey ledger).bind fun now _ a b hFirst => (hValue now).bind fun now' le c d hSecond => ?_
  exact .pure fun _ le' => p.formed (.map (p.mono (le_trans le le') hFirst)
    (p.mono le' hSecond)) trivial

end ExprRule

/-! ## Type expressions -/

/-- A type that was formed, as the value that an expression stands for. -/
theorem Retraces.asValue {p : Pairing}
    (h : Retraces p ledger action action' fun now => p.alike now) :
    Retraces p ledger (do return Value.type (← action)) (do return Value.type (← action'))
      fun now => Value.Twin p now :=
  h.bind fun _ _ _ _ hAlike => .pure fun _ le => p.mono le hAlike

section TypeExpressions

variable {p : Pairing} {word : String → Prop}

mutual

/-- Expressions that have the form of one type denote alike types, whether or not the types of
the module are built. -/
theorem typeOperand_retraces : (e e' : Expr) → e.IsType word → e.bare = e'.bare →
    Operand.TypeTwin p ⟨e, compileExpr e⟩ ⟨e', compileExpr e'⟩
  | .ident span name, _, _, h => by
      refine Operand.Twin.type ⟨h, fun ledger => ?_⟩
      cases Expr.sameForm_of_bare h
      rw [compileExpr, compileExpr]
      exact (Retraces.lookup name _ _).mono fun _ _ _ _ hValue => hValue.twin
  | .dot span (.ident inner name) member, _, _, h => by
      cases Expr.sameForm_of_bare h with
      | dot _ span' _ hReceiver =>
          cases Expr.sameForm_of_bare hReceiver with
          | ident _ inner' _ =>
              simp only [compileExpr]
              exact ExprRule.dotType_retraces (fun _ => .lookup name inner inner') _ _ _ _ _
  | .pointerType span inner, _, hType, h => by
      rw [Expr.IsType] at hType
      refine Operand.Twin.type ⟨h, fun ledger => ?_⟩
      cases Expr.sameForm_of_bare h with
      | pointerType _ _ hInner =>
          rw [compileExpr, compileExpr]
          exact ExprRule.pointerType_retraces (typeOperand_retraces inner _ hType hInner)
  | .sliceType span elem, _, hType, h => by
      rw [Expr.IsType] at hType
      refine Operand.Twin.type ⟨h, fun ledger => ?_⟩
      cases Expr.sameForm_of_bare h with
      | sliceType _ _ hElem =>
          rw [compileExpr, compileExpr]
          exact ExprRule.sliceType_retraces (typeOperand_retraces elem _ hType hElem)
  | .mapType span key value, _, hType, h => by
      rw [Expr.IsType] at hType
      refine Operand.Twin.type ⟨h, fun ledger => ?_⟩
      cases Expr.sameForm_of_bare h with
      | mapType _ _ hKey hValue =>
          rw [compileExpr, compileExpr]
          exact ExprRule.mapType_retraces (typeOperand_retraces key _ hType.1 hKey)
            (typeOperand_retraces value _ hType.2 hValue)
  | .structType span fields, _, hType, h => by
      rw [Expr.IsType] at hType
      refine Operand.Twin.type ⟨h, fun ledger => ?_⟩
      cases Expr.sameForm_of_bare h with
      | structType _ _ hFields =>
          rw [compileExpr, compileExpr]
          exact .asValue (Operand.anonymousStruct_retraces
            (paramOperands_retraces fields _ hType hFields))
  | .interfaceType span specs, _, hType, h => by
      rw [Expr.IsType] at hType
      refine Operand.Twin.type ⟨h, fun ledger => ?_⟩
      cases Expr.sameForm_of_bare h with
      | interfaceType _ _ hSpecs =>
          rw [compileExpr, compileExpr]
          exact .asValue (Operand.anonymousInterface_retraces
            (specOperands_retraces specs _ hType hSpecs))
  | .int _ _, _, h, _ | .str _ _, _, h, _ | .unary _ _ _, _, h, _ | .binary _ _ _ _, _, h, _
  | .call _ _ _ _, _, h, _ | .index _ _ _, _, h, _ | .slice _ _ _ _, _, h, _
  | .ctor _ _ _, _, h, _ => by simp [Expr.IsType] at h
  | .dot _ (.int _ _) _, _, h, _ | .dot _ (.str _ _) _, _, h, _ | .dot _ (.unary _ _ _) _, _, h, _
  | .dot _ (.binary _ _ _ _) _, _, h, _ | .dot _ (.call _ _ _ _) _, _, h, _
  | .dot _ (.dot _ _ _) _, _, h, _ | .dot _ (.index _ _ _) _, _, h, _
  | .dot _ (.slice _ _ _ _) _, _, h, _ | .dot _ (.ctor _ _ _) _, _, h, _
  | .dot _ (.pointerType _ _) _, _, h, _ | .dot _ (.sliceType _ _) _, _, h, _
  | .dot _ (.mapType _ _ _) _, _, h, _ | .dot _ (.structType _ _) _, _, h, _
  | .dot _ (.interfaceType _ _) _, _, h, _ => by simp [Expr.IsType] at h
termination_by structural e => e

theorem paramOperands_retraces : (params params' : List (Param Expr)) → ParamsFormed word params →
    bareParams params = bareParams params' →
      List.Forall₂ (Operand.ParamTwin p) (paramOperands params) (paramOperands params')
  | [], [], _, _ => by simp [paramOperands]
  | [], _ :: _, _, h => by simp [bareParams] at h
  | _ :: _, [], _, h => by simp [bareParams] at h
  | ⟨name, type, _⟩ :: rest, ⟨name', type', _⟩ :: rest', hFormed, h => by
      rw [ParamsFormed] at hFormed
      have hSame : (name = name' ∧ type.bare = type'.bare) ∧
          bareParams rest = bareParams rest' := by
        simpa [bareParams, bareParam] using h
      rw [paramOperands, paramOperands, paramOperand, paramOperand]
      exact .cons ⟨hSame.1.1, typeOperand_retraces type type' hFormed.1.2 hSame.1.2⟩
        (paramOperands_retraces rest rest' hFormed.2 hSame.2)
termination_by structural params => params

theorem signatureOperands_retraces : (sig sig' : Signature Expr) → SignatureFormed word sig →
    bareSignature sig = bareSignature sig' →
      Operand.SignatureTwin p (signatureOperands sig) (signatureOperands sig')
  | ⟨variadic, inputs, outputs⟩, ⟨variadic', inputs', outputs'⟩, hFormed, h => by
      rw [SignatureFormed] at hFormed
      have hSame : variadic = variadic' ∧ bareParams inputs = bareParams inputs' ∧
          bareParams outputs = bareParams outputs' := by simpa [bareSignature] using h
      rw [signatureOperands, signatureOperands]
      exact ⟨hSame.1, paramOperands_retraces inputs inputs' hFormed.1 hSame.2.1,
        paramOperands_retraces outputs outputs' hFormed.2.1 hSame.2.2⟩
termination_by structural sig => sig

theorem specOperands_retraces : (specs specs' : List (MethodSpec Expr)) → SpecsFormed word specs →
    bareSpecs specs = bareSpecs specs' →
      List.Forall₂ (Operand.SpecTwin p) (specOperands specs) (specOperands specs')
  | [], [], _, _ => by simp [specOperands]
  | [], _ :: _, _, h => by simp [bareSpecs] at h
  | _ :: _, [], _, h => by simp [bareSpecs] at h
  | ⟨name, signature, _⟩ :: rest, ⟨name', signature', _⟩ :: rest', hFormed, h => by
      rw [SpecsFormed] at hFormed
      have hSame : (name = name' ∧ bareSignature signature = bareSignature signature') ∧
          bareSpecs rest = bareSpecs rest' := by simpa [bareSpecs] using h
      rw [specOperands, specOperands, specOperand, specOperand]
      exact .cons ⟨hSame.1.1, signatureOperands_retraces signature signature' hFormed.1.2 hSame.1.2⟩
        (specOperands_retraces rest rest' hFormed.2 hSame.2)
termination_by structural specs => specs

end

/-- The type of a declared name: a struct or an interface takes the name itself. -/
theorem compileNamedType_retraces {e e' : Expr} (hType : e.IsType word) (hBare : e.bare = e'.bare)
    (name : String) (hEnv : env.Twin p ledger env') (hRoutine : routine.Twin p ledger routine')
    {value : Ty} (hRun : (compileNamedType e name).exec env routine = (.ok value, after)) :
    Retraced p ledger env.package routine routine' value after (fun now value value' =>
      p.alike now value value' ∨ ∃ a b tag, value = a.toTy ∧ value' = b.toTy ∧
        Operand.NamedTypes p now tag name name env.package env.package a b)
      ((compileNamedType e' name).exec env' routine') := by
  have hNamed {tag : String} {inner inner' : RoutineM (List (Member Ty))}
      {action action' : RoutineM Ty} (hMakes : Operand.Makes tag name inner action)
      (hMakes' : Operand.Makes tag name inner' action')
      (h : Retraces p ledger inner inner' (MadeTwin p))
      (hRun : action.exec env routine = (.ok value, after)) :
      Retraced p ledger env.package routine routine' value after (fun now value value' =>
        p.alike now value value' ∨ ∃ a b tag, value = a.toTy ∧ value' = b.toTy ∧
          Operand.NamedTypes p now tag name name env.package env.package a b)
        (action'.exec env' routine') := by
    have hOutcome := Operand.makes_retraces hMakes hMakes' h (le_refl _) hEnv hRoutine hRun
    cases hExec : action'.exec env' routine' with
    | mk result last =>
        rw [hExec] at hOutcome
        cases hOutcome with
        | failed hExcused => exact .failed hExcused
        | ok hGrows hLe hLe' hAfter hMade =>
            obtain ⟨a, b, ha, hb, hTypes⟩ := hMade
            rw [← hEnv.package] at hTypes
            exact .ok hGrows hLe hLe' hAfter (.inr ⟨a, b, tag, ha, hb, hTypes⟩)
  have hOther (hPlain : compileNamedType e name = (operand e).type)
      (hPlain' : compileNamedType e' name = (operand e').type) :
      Retraced p ledger env.package routine routine' value after (fun now value value' =>
        p.alike now value value' ∨ ∃ a b tag, value = a.toTy ∧ value' = b.toTy ∧
          Operand.NamedTypes p now tag name name env.package env.package a b)
        ((compileNamedType e' name).exec env' routine') := by
    rw [hPlain] at hRun
    rw [hPlain']
    exact (((typeOperand_retraces e e' hType hBare) ledger).mono fun _ _ _ _ hAlike => .inl hAlike)
      ledger (le_refl _) env env' routine routine' hEnv hRoutine value after hRun
  cases Expr.sameForm_of_bare hBare with
  | structType _ _ hFields =>
      rw [Expr.IsType] at hType
      exact hNamed (Operand.structType_makes name _) (Operand.structType_makes name _)
        (Operand.fields_retraces (paramOperands_retraces _ _ hType hFields)) hRun
  | interfaceType _ _ hSpecs =>
      rw [Expr.IsType] at hType
      exact hNamed (Operand.interfaceType_makes name _) (Operand.interfaceType_makes name _)
        (Operand.methods_retraces (specOperands_retraces _ _ hType hSpecs)) hRun
  | _ => exact hOther rfl rfl

/-- The type of a declared function or method. -/
theorem compileSignature_retraces {receiver receiver' : Option (Param Expr)}
    {signature signature' : Signature Expr}
    (hReceiver : ∀ param ∈ receiver, param.type.IsType word) (h : SignatureFormed word signature)
    (hSame : receiver.map bareParam = receiver'.map bareParam)
    (hBare : bareSignature signature = bareSignature signature') :
    Retraces p ledger (compileSignature receiver signature) (compileSignature receiver' signature')
      fun now => FuncType.Twin (p.alike now) := by
  refine Operand.signature_retraces ?_ (signatureOperands_retraces signature signature' h hBare)
  cases receiver with
  | none =>
      cases receiver' with
      | none => exact .none
      | some => cases hSame
  | some param =>
      cases receiver' with
      | none => cases hSame
      | some param' =>
          obtain ⟨name, type, span⟩ := param
          obtain ⟨name', type', span'⟩ := param'
          have hParts : name = name' ∧ type.bare = type'.bare := by simpa [bareParam] using hSame
          rw [Option.map_some, Option.map_some, paramOperand, paramOperand]
          exact .some ⟨hParts.1, typeOperand_retraces type type' (hReceiver _ rfl) hParts.2⟩

end TypeExpressions

end GoToC
