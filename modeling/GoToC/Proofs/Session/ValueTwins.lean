import GoToC.Proofs.Session.Symbols
import GoToC.Proofs.Session.TypeOrders

/-!
# Values that are built side by side

Once the types of a module are built and alike in two sessions, its constants, variables,
functions, methods and initializers are built in one order in both, and come out alike.
-/

namespace GoToC

variable {α β : Type} {decl decl' : VarDecl} {routine routine' : Routine} {items : List α}
  {f : α → SessionM PUnit} {after after' : Session} {type type' a b : Ty}

/-! ## Names of methods -/

/-- Digits are told from the underscores around them. -/
theorem separable_invented (number : Nat) : Separable ("_struct_" ++ toString number) := by
  have hDigits : '_' ∉ (toString number).toList := LocalName.underscore_not_mem_toString number
  have hSome : (toString number).toList ≠ [] := by
    rw [Nat.toString_eq_repr, Nat.toList_repr]
    exact Nat.toDigits_ne_nil
  unfold Separable
  rw [String.toList_append]
  generalize (toString number).toList = digits at hDigits hSome
  have hRest : ¬ ['_', '_'] <:+: digits ++ ['_'] := by
    intro hGap
    have hCount := hGap.sublist.count_le '_'
    rw [List.count_append, List.count_eq_zero_of_not_mem hDigits] at hCount
    exact absurd hCount (by decide)
  cases digits with
  | nil => exact absurd rfl hSome
  | cons digit rest =>
      have hDigit : '_' ≠ digit := by
        rintro rfl
        exact hDigits List.mem_cons_self
      simp only [List.cons_append] at hRest
      simp [List.infix_cons_iff, hDigit, hRest, List.cons_prefix_cons]

/-- A declared name that is taken for a name that was made from a number is reserved. -/
theorem Reserved.of_append_gap {name rest rest' : String} {number : Nat}
    (h : "_struct_" ++ toString number ++ "__" ++ rest = name ++ "__" ++ rest') :
    Reserved name := by
  have hChars : ("_struct_" ++ toString number).toList ++ '_' :: '_' :: rest.toList =
      name.toList ++ '_' :: '_' :: rest'.toList := by
    simpa [String.toList_append] using congrArg String.toList h
  obtain ⟨tail, hTail⟩ := prefix_of_append_gap (separable_invented number) hChars
  refine .inl ⟨toString number ++ String.ofList tail, String.toList_injective ?_⟩
  rw [← hTail]
  simp [String.toList_append]

/-- Methods of two structs go by one C name exactly if those of their twins do. -/
theorem Ledger.Valid.methodName_iff {p : Pairing} {ledger : Ledger} {serial serial' : Nat}
    (h : ledger.Valid p serial serial') {r r' t t' : StructType Ty}
    (hFirst : ledger.twins (.struct r) (.struct r'))
    (hSecond : ledger.twins (.struct t) (.struct t')) (hPackage : r.package = t.package)
    (x y : String) : SessionM.methodName r x = SessionM.methodName t y ↔
      SessionM.methodName r' x = SessionM.methodName t' y := by
  have hSame : r'.package = t'.package :=
    (h.package _ _ hFirst).symm.trans (hPackage.trans (h.package _ _ hSecond))
  have hCancel (a b : StructType Ty) (hEq : a.package = b.package) :
      SessionM.methodName a x = SessionM.methodName b y ↔
        a.name ++ "__" ++ x = b.name ++ "__" ++ y := by
    simp only [SessionM.methodName, StructType.cName, StructKey.cName, StructType.key, hEq,
      String.append_assoc, String.append_right_inj]
  rw [hCancel r t hPackage, hCancel r' t' hSame]
  rcases h.name _ _ hFirst with ⟨hName, hPlain⟩ | ⟨n, n', hr, hr', -, -⟩
  · rcases h.name _ _ hSecond with ⟨hName', -⟩ | ⟨m, m', ht, ht', -, -⟩
    · rw [show r.name = r'.name from hName, show t.name = t'.name from hName']
    · rw [show t.name = _ from ht, show t'.name = _ from ht', ← show r.name = r'.name from hName]
      constructor
      · exact fun hEq => absurd (Reserved.of_append_gap hEq.symm) hPlain
      · exact fun hEq => absurd (Reserved.of_append_gap hEq.symm) hPlain
  · rcases h.name _ _ hSecond with ⟨hName', hPlain'⟩ | ⟨m, m', ht, ht', -, -⟩
    · rw [show r.name = _ from hr, show r'.name = _ from hr', ← show t.name = t'.name from hName']
      constructor
      · exact fun hEq => absurd (Reserved.of_append_gap hEq) hPlain'
      · exact fun hEq => absurd (Reserved.of_append_gap hEq) hPlain'
    · have hTitle : r.name = t.name ↔ r'.name = t'.name := by
        simpa [NamedType.title, NamedType.tag, NamedType.package, NamedType.name, hPackage, hSame]
          using h.title_iff hFirst hSecond
      rw [show r.name = _ from hr, show r'.name = _ from hr', show t.name = _ from ht,
        show t'.name = _ from ht'] at hTitle ⊢
      constructor
      · intro hEq
        obtain ⟨hNames, rfl⟩ :=
          (separable_invented n).append_inj (separable_invented m) hEq
        exact congrArg (· ++ "__" ++ x) (hTitle.mp hNames)
      · intro hEq
        obtain ⟨hNames, rfl⟩ :=
          (separable_invented n').append_inj (separable_invented m') hEq
        exact congrArg (· ++ "__" ++ x) (hTitle.mpr hNames)

/-! ## What is written -/

/-- A session that differs from another one by what was written and by the pointer types that
were handed out for it. -/
def Session.Writes (before after : Session) : Prop := ∃ typedefs output,
  after = { before with supply := { before.supply with typedefs := typedefs }, output := output }

namespace Session.Writes

variable {first second third : Session} {bad : Session → Failure → Prop}

theorem refl (session : Session) : session.Writes session :=
  ⟨session.supply.typedefs, session.output, rfl⟩

theorem trans (h : first.Writes second) (h' : second.Writes third) : first.Writes third := by
  obtain ⟨_, _, rfl⟩ := h
  obtain ⟨typedefs, output, rfl⟩ := h'
  exact ⟨typedefs, output, rfl⟩

theorem write (item : CItem) :
    Runs bad first (SessionM.write item) fun _ after => first.Writes after :=
  ⟨first.supply.typedefs, first.output.push item, rfl⟩

theorem forM (h : ∀ item before, Runs bad before (f item) fun _ after => before.Writes after) :
    Runs bad first (items.forM f) fun _ after => first.Writes after := by
  refine Runs.forM_mem first.Writes (.refl first) fun item _ before hBefore => ?_
  exact (h item before).mono fun _ _ hAfter => hBefore.trans hAfter

theorem writeTypedefItems (items : Array CItem) :
    Runs bad first (items.forM SessionM.write) fun _ after => first.Writes after := by
  refine Runs.arrayForM first.Writes (.refl first) fun item _ before hBefore => ?_
  exact (write item).mono fun _ _ hAfter => hBefore.trans hAfter

end Session.Writes

namespace Job

variable {early : Prop} {job job' : Job} {ledger : Ledger} {session session' : Session}
  {word : String → Prop}

/-- Sessions in which the module has gone on, with more types of it in the ledger. -/
def Reaches (early : Prop) (job job' : Job) (ledger : Ledger) (after after' : Session) : Prop :=
  ∃ ledger', ledger.Within job.package ledger' ∧ job.Abreast early job' ledger' after after'

namespace Abreast

theorem reaches (h : job.Abreast early job' ledger session session') :
    job.Reaches early job' ledger session session' := ⟨ledger, .refl _ _, h⟩

/-- What is written and handed out does not count. -/
theorem writes (h : job.Abreast early job' ledger session session') (hLeft : session.Writes after)
    (hRight : session'.Writes after') : job.Abreast early job' ledger after after' := by
  obtain ⟨typedefs, output, rfl⟩ := hLeft
  obtain ⟨typedefs', output', rfl⟩ := hRight
  have hValid : ledger.Valid (session.pairing session' early)
      { session.supply with typedefs := typedefs }.serial
      { session'.supply with typedefs := typedefs' }.serial := h.twin.valid
  have hTwin := h.twin.grow (le_refl _) (fun _ _ => .inl) h.knows hValid output output'
  exact ⟨hTwin, h.id, h.package, h.typed, h.module⟩

theorem forM {items' : List β} {f' : β → SessionM PUnit} {same : α → β → Prop}
    (hItems : List.Forall₂ same items items') (h : job.Reaches early job' ledger session session')
    (hStep : ∀ item ∈ items, ∀ item' ∈ items', same item item' → ∀ now before before',
      job.Abreast early job' now before before' → Reruns early before before' (f item) (f' item')
        fun _ _ after after' => job.Reaches early job' now after after') :
    Reruns early session session' (items.forM f) (items'.forM f')
      fun _ _ after after' => job.Reaches early job' ledger after after' := by
  refine Reruns.forM hItems _ h fun item hItem item' hItem' hSame before before' hBefore => ?_
  obtain ⟨now, hWithin, hAbreast⟩ := hBefore
  refine (hStep item hItem item' hItem' hSame now before before' hAbreast).mono ?_
  rintro _ _ after after' ⟨later, hMore, hAfter⟩
  exact ⟨later, hWithin.trans hMore, hAfter⟩

/-! ## Constants and variables -/

theorem buildConst (h : job.Abreast early job' ledger session session') {decl decl' : ConstDecl}
    (hFormed : decl.value.Formed word) (hBare : decl.bare = decl'.bare) :
    Reruns early session session' (SessionM.buildConst job decl) (SessionM.buildConst job' decl')
      fun _ _ after after' => job.Reaches early job' ledger after after' := by
  obtain ⟨hName, hType, hValue⟩ : decl.name = decl'.name ∧
      bareOptExpr decl.type = bareOptExpr decl'.type ∧ decl.value.bare = decl'.value.bare := by
    simpa [ConstDecl.bare] using hBare
  have hWritten : decl.type.isSome = decl'.type.isSome := by
    cases hLeft : decl.type <;> cases hRight : decl'.type <;>
      simp [hLeft, hRight, bareOptExpr] at hType ⊢
  refine .errorIf hWritten fun _ => ?_
  refine (h.routine ((operand_retraces decl.value decl'.value hFormed hValue).value)).bind
    fun found found' after after' hFound => ?_
  obtain ⟨now, hResumed⟩ := hFound
  have hPristine : found.2.isPristine = found'.2.isPristine := by
    rw [Routine.isPristine, Routine.isPristine, hResumed.routine.body, hResumed.routine.locals]
  refine .errorIf (congrArg not hPristine) fun _ => ?_
  rw [← hName]
  refine (hResumed.abreast.setValue decl.name ?_ (by simp)).mono fun _ _ last last' hLast => ?_
  · have hAlike := hResumed.good
    rw [hResumed.left, hResumed.right]
    exact hAlike
  · exact ⟨now, hResumed.within, hLast⟩

theorem declared (h : job.Abreast early job' ledger session session') (name : String) :
    Reruns early session session' (SessionM.declared job.id name) (SessionM.declared job'.id name)
      fun global global' after after' => (after = session ∧ after' = session') ∧
        session.program.global? job.id name = some global ∧
          session'.program.global? job'.id name = some global' := by
  intro global after hRun
  obtain ⟨-, hFound, rfl⟩ := (@does_declared job session name).success hRun
  obtain ⟨global', hFound', -⟩ := h.twin.exists_global hFound
  rw [h.id] at hFound'
  rw [Runs, SessionM.declared_exec hFound']
  exact ⟨⟨rfl, rfl⟩, hFound, hFound'⟩

/-- A name that is given a value which is the same for both. -/
theorem giveValue (h : job.Abreast early job' ledger session session') (name : String)
    {value value' : GlobalValue}
    (hValue : value.toValue.Twin (session.pairing session' early) ledger value'.toValue)
    (hTarget : ∀ target, value ≠ .module target) :
    Reruns early session session' (SessionM.setValue job.id name value)
      (SessionM.setValue job'.id name value') fun _ _ after after' =>
        job.Abreast early job' ledger after after' ∧ after = job.withValue session name value ∧
          after' = job'.withValue session' name value' := by
  refine ((h.setValue name hValue hTarget).both (@does_setValue job session name value)
    (@does_setValue job' session' name value')).mono fun _ _ _ _ hAfter => ?_
  exact ⟨hAfter.1, hAfter.2.1.2, hAfter.2.2.2⟩

theorem setType (h : job.Abreast early job' ledger session session') (name : String)
    (hType : (session.pairing session' early).alike ledger type type') :
    Reruns early session session' (SessionM.setType job.id name type)
      (SessionM.setType job'.id name type') fun cName cName' after after' =>
        job.Abreast early job' ledger after after' ∧
          after = job.withValue session name (.expr ⟨.global cName, type⟩) ∧
            after' = job'.withValue session' name (.expr ⟨.global cName', type'⟩) := by
  refine (h.declared name).bind fun global global' after after' hFound => ?_
  obtain ⟨⟨rfl, rfl⟩, -⟩ := hFound
  refine (h.giveValue name ?_ (by simp)).bind fun _ _ last last' hLast => .pure hLast
  exact hType

theorem buildVar (h : job.Abreast early job' ledger session session')
    (hFormed : ∀ type ∈ decl.type, type.IsType word) (hBare : decl.bare = decl'.bare) :
    Reruns early session session' (SessionM.buildVar job decl) (SessionM.buildVar job' decl')
      fun _ _ after after' => job.Reaches early job' ledger after after' := by
  obtain ⟨hName, hType, hInit⟩ : decl.name = decl'.name ∧
      bareOptExpr decl.type = bareOptExpr decl'.type ∧
        bareOptExpr decl.init = bareOptExpr decl'.init := by
    simpa [VarDecl.bare] using hBare
  unfold SessionM.buildVar
  rw [← hName]
  cases hLeft : decl.type with
  | some written =>
      cases hRight : decl'.type with
      | none => simp [hLeft, hRight, bareOptExpr] at hType
      | some written' =>
          have hForm : written.bare = written'.bare := by
            simpa [hLeft, hRight, bareOptExpr] using hType
          have hOperand : Operand.TypeTwin (session.pairing session' early) (operand written)
              (operand written') := typeOperand_retraces written written'
                (hFormed written hLeft) hForm
          refine (h.isolated (hOperand ledger)).bind fun type type' after after' hAfter => ?_
          obtain ⟨now, supply, supply', hWithin, hAbreast, hAlike, rfl, rfl⟩ := hAfter
          have hZero : Echoes (session.program.types.hasZeroValue type)
              (session'.program.types.hasZeroValue type') Eq := Alike.hasZeroValue hAlike
          refine (Reruns.types hZero).bind fun zero zero' last last' hLast => ?_
          obtain ⟨rfl, rfl, rfl⟩ := hLast
          refine .errorIf rfl fun _ => ?_
          refine (hAbreast.setType decl.name hAlike).bind fun _ _ final final' hFinal => .pure ?_
          exact ⟨now, hWithin, hFinal.1⟩
  | none =>
      cases hRight : decl'.type with
      | some written' => simp [hLeft, hRight, bareOptExpr] at hType
      | none =>
          cases hInitial : decl.init with
          | none => exact .error
          | some init =>
              cases hInitial' : decl'.init with
              | none => simp [hInitial, hInitial', bareOptExpr] at hInit
              | some init' => exact .pure h.reaches

/-! ## Functions and methods -/

theorem buildFunc (h : job.Abreast early job' ledger session session') {decl decl' : FuncDecl}
    (hFormed : SignatureFormed word decl.signature) (hBare : decl.bare = decl'.bare) :
    Reruns early session session' (SessionM.buildFunc job decl) (SessionM.buildFunc job' decl')
      fun _ _ after after' => job.Reaches early job' ledger after after' := by
  have hName : decl.name = decl'.name := (FuncDecl.mk.inj hBare).2.1
  have hSignature : bareSignature decl.signature = bareSignature decl'.signature :=
    (FuncDecl.mk.inj hBare).2.2.1
  have hRetraces : Retraces (session.pairing session' early) ledger
      (compileSignature none decl.signature) (compileSignature none decl'.signature)
        fun now => FuncType.Twin ((session.pairing session' early).alike now) :=
    compileSignature_retraces (by simp) hFormed rfl hSignature
  refine (h.isolated hRetraces).bind fun func func' after after' hAfter => ?_
  obtain ⟨now, supply, supply', hWithin, hAbreast, hTwin, rfl, rfl⟩ := hAfter
  rw [← hName]
  refine (hAbreast.setValue decl.name ?_ (by simp)).mono fun _ _ last last' hLast =>
    ⟨now, hWithin, hLast⟩
  exact Alike.of_shapes (.func hTwin)

theorem withMethod (h : job.Abreast early job' ledger session session')
    {record record' : StructType Ty} (hRecord : ledger.twins (.struct record) (.struct record'))
    (hPackage : record.package = job.package) (name : String) {func func' : FuncType Ty}
    (hFunc : FuncType.Twin ((session.pairing session' early).alike ledger) func func')
    (index : Nat) (span span' : Span) :
    job.Abreast early job' ledger (job.withMethod session record ⟨name, .func func⟩
        ⟨SessionM.methodName record name, .func func, index, span⟩)
      (job'.withMethod session' record' ⟨name, .func func'⟩
        ⟨SessionM.methodName record' name, .func func', index, span'⟩) := by
  have hImp (a b : Ty) (hAlike : Alike ledger session.program.types session'.program.types a b) :
      Alike ledger (session.program.types.addMethod record ⟨name, .func func⟩)
        (session'.program.types.addMethod record' ⟨name, .func func'⟩) a b :=
    hAlike.mono (le_refl _) (fun _ _ hTarget => hTarget) fun _ _ hTarget => hTarget
  have hMember : Alike ledger session.program.types session'.program.types (.func func)
    (.func func') := .of_shapes (.func hFunc)
  obtain ⟨module, hModule, hName⟩ := h.module
  have hMethod (other other' : Module) (hOther : session.program.module? job.id = some other)
      (hTwin : other.Twin (session.pairing session' early) ledger other') :
      (other.addMethod ⟨SessionM.methodName record name, .func func, index, span⟩).Twin
        (.whole (session.program.types.addMethod record ⟨name, .func func⟩)
          (session'.program.types.addMethod record' ⟨name, .func func'⟩) early) ledger
        (other'.addMethod ⟨SessionM.methodName record' name, .func func', index, span'⟩) := by
    obtain rfl : module = other := Option.some.inj (hModule.symm.trans hOther)
    refine ⟨hTwin.name, (hTwin.imp hImp (le_refl _)).globals, ?_⟩
    refine List.rel_append (hTwin.imp hImp (le_refl _)).methods (.cons ?_ .nil)
    exact ⟨rfl, hImp _ _ hMember, record, record', name, hRecord, hPackage.trans hName.symm, rfl,
      rfl⟩
  have hKeeps : session.program.Keeps (job.withMethod session record ⟨name, .func func⟩
      ⟨SessionM.methodName record name, .func func, index, span⟩).program :=
    @Program.keeps_updateModule { session.program with types := _ } _ _ (fun _ => rfl) fun _ => rfl
  refine ⟨⟨h.twin.left.addMethod _ _ _, h.twin.right.addMethod _ _ _, h.twin.builtin,
    fun other => ?_, ?_, h.twin.valid.imp hImp, ?_⟩, h.id, h.package, ?_, ?_⟩
  · show Option.Rel _ ((session.program.updateModule job.id _).module? other)
      ((session'.program.updateModule job'.id _).module? other)
    rw [← h.id]
    exact h.twin.updateModule job.id (fun other other' hOther _ hTwin =>
      hMethod other other' hOther hTwin) (fun _ _ => .imp hImp (le_refl _)) other
  · exact List.rel_append (h.twin.methods.imp fun _ _ => .imp hImp (le_refl _))
      (.cons ⟨⟨record, record', hRecord, rfl, rfl⟩, rfl, hImp _ _ hMember⟩ .nil)
  · exact fun a b hTwins => hKeeps.find?_ne_none (h.twin.packages a b hTwins)
  · exact fun global hHas => h.typed global (Program.Tidy.has_addMethod hHas)
  · refine ⟨module.addMethod ⟨SessionM.methodName record name, .func func, index, span⟩, ?_, hName⟩
    show (Program.updateModule _ job.id (·.addMethod _)).module? job.id = _
    rw [Program.module?_updateModule, if_pos rfl]
    show (session.program.module? job.id).map _ = _
    rw [hModule]
    rfl

/-- The structs that alike receivers point to, if they are of the module. -/
theorem receiverStruct? (h : job.Abreast early job' ledger session session')
    (hAlike : (session.pairing session' early).alike ledger a b) :
    Reruns early session session' (SessionM.receiverStruct? job a)
      (SessionM.receiverStruct? job' b) fun found found' after after' =>
        Option.Rel (fun r r' => ledger.twins (.struct r) (.struct r') ∧ r.package = job.package)
          found found' ∧ after = session ∧ after' = session' := by
  have hStructs : Echoes (session.program.types.pointeeStruct? a)
      (session'.program.types.pointeeStruct? b) _ := Alike.pointeeStruct? hAlike
  refine (Reruns.types hStructs).bind fun found found' _ _ hFound => .pure ⟨?_, hFound.2⟩
  cases hFound.1 with
  | none => exact .none
  | @some r r' hTwins =>
      have hPackage : r.package = r'.package := h.twin.valid.package _ _ hTwins
      rw [Option.filter_some, Option.filter_some, ← hPackage, ← h.package]
      split
      · next hOwn => exact .some ⟨hTwins, by simpa using hOwn⟩
      · exact .none

/-- The methods that the module has so far. -/
theorem methods (h : job.Abreast early job' ledger session session') :
    Reruns early session session' (SessionM.methods job.id) (SessionM.methods job'.id)
      fun found found' after after' =>
        List.Forall₂ (Method.Twin (session.pairing session' early) ledger job.package)
          found found' ∧ after = session ∧ after' = session' := by
  refine Reruns.get.bind fun now now' last last' hNow => .pure ?_
  obtain ⟨⟨hNow, hNow'⟩, rfl, rfl⟩ := hNow
  rw [hNow, hNow', ← h.id]
  obtain ⟨module, hModule, hName⟩ := h.module
  have hTwin := h.twin.modules job.id
  rw [hModule] at hTwin
  cases hFound : last'.program.module? job.id with
  | none =>
      rw [hFound] at hTwin
      cases hTwin
  | some module' =>
      rw [hFound] at hTwin
      cases hTwin with
      | some hTwin =>
          rw [hModule]
          exact ⟨hName ▸ hTwin.methods, rfl, rfl⟩

theorem buildMethod (h : job.Abreast early job' ledger session session') (index : Nat)
    {decl decl' : FuncDecl} (hFormed : decl.Formed word) (hBare : decl.bare = decl'.bare) :
    Reruns early session session' (SessionM.buildMethod job index decl)
      (SessionM.buildMethod job' index decl')
      fun _ _ after after' => job.Reaches early job' ledger after after' := by
  obtain ⟨hReceiver, hName, hSignature, -, -⟩ := FuncDecl.mk.inj hBare
  have hRetraces : Retraces (session.pairing session' early) ledger
      (compileSignature decl.receiver decl.signature)
      (compileSignature decl'.receiver decl'.signature)
        fun now => FuncType.Twin ((session.pairing session' early).alike now) :=
    compileSignature_retraces (fun param hParam => (hFormed.receiver param hParam).2)
      hFormed.signature hReceiver hSignature
  refine (h.isolated hRetraces).bind fun func func' after after' hAfter => ?_
  obtain ⟨now, supply, supply', hWithin, hAbreast, hTwin, rfl, rfl⟩ := hAfter
  have hAlike : Alike now session.program.types session'.program.types
      ((func.inputs.head?.map (·.type)).getD (.prim .void))
      ((func'.inputs.head?.map (·.type)).getD (.prim .void)) := by
    have hInputs := hTwin.inputs
    revert hInputs
    generalize func.inputs = inputs
    generalize func'.inputs = inputs'
    intro hInputs
    cases hInputs with
    | nil => exact .prim .void
    | cons hFirst _ => exact hFirst.2
  rw [← hName]
  refine (hAbreast.receiverStruct? hAlike).bind fun found found' last last' hFound => ?_
  obtain ⟨hStruct, rfl, rfl⟩ := hFound
  cases hStruct with
  | none => exact .error
  | @some record record' hRecord =>
      obtain ⟨hTwins, hPackage⟩ := hRecord
      refine hAbreast.methods.bind fun methods methods' same same' hMethods => ?_
      obtain ⟨hMethods, rfl, rfl⟩ := hMethods
      have hTests (method method' : Method)
          (hMethod : method.Twin (session.pairing session' early) now job.package method') :
          (method.cName == SessionM.methodName record decl.name) =
            (method'.cName == SessionM.methodName record' decl.name) := by
        obtain ⟨other, other', name, hOther, hOwn, hSame, hSame'⟩ := hMethod.names
        rw [hSame, hSame', Bool.eq_iff_iff, beq_iff_eq, beq_iff_eq]
        exact hAbreast.twin.valid.methodName_iff hOther hTwins (hOwn.trans hPackage.symm) _ _
      have hPrevious := forall₂_find? hMethods hTests
      revert hPrevious
      generalize methods.find? _ = previous
      generalize methods'.find? _ = previous'
      intro hPrevious
      cases hPrevious with
      | some => exact .error
      | none =>
          refine Reruns.get.bind fun before before' last last' hBefore => ?_
          obtain ⟨⟨rfl, rfl⟩, rfl, rfl⟩ := hBefore
          refine (Reruns.changed _ _).bind fun _ _ next next' hNext => ?_
          obtain ⟨rfl, rfl⟩ := hNext
          refine (Reruns.changed _ _).mono fun _ _ final final' hFinal => ?_
          obtain ⟨rfl, rfl⟩ := hFinal
          exact ⟨now, hWithin, hAbreast.withMethod hTwins hPackage decl.name hTwin index _ _⟩

theorem buildMethods (h : job.Abreast early job' ledger session session')
    {decls decls' : List FuncDecl}
    (hDecls : List.Forall₂ (fun decl decl' => decl.bare = decl'.bare) decls decls')
    (hFormed : ∀ decl ∈ decls, decl.Formed word) (index : Nat) :
    Reruns early session session' (SessionM.buildMethods job index decls)
      (SessionM.buildMethods job' index decls')
      fun _ _ after after' => job.Reaches early job' ledger after after' := by
  induction hDecls generalizing ledger session session' index with
  | nil => exact .pure h.reaches
  | cons hBare _ ih =>
      refine (h.buildMethod index (hFormed _ List.mem_cons_self) hBare).bind
        fun _ _ after after' hAfter => ?_
      obtain ⟨now, hWithin, hAbreast⟩ := hAfter
      refine (ih hAbreast (List.forall_mem_cons.mp hFormed).2
        (index + 1)).mono fun _ _ last last' hLast => ?_
      obtain ⟨later, hMore, hLast⟩ := hLast
      exact ⟨later, hWithin.trans hMore, hLast⟩

/-! ## Initializers -/

theorem inferType (h : job.Abreast early job' ledger session session')
    (hAlike : Alike ledger session.program.types session'.program.types a b) :
    Reruns early session session' (SessionM.inferType job decl a)
      (SessionM.inferType job' decl' b) fun found found' after after' =>
        Alike ledger session.program.types session'.program.types found found' ∧
          after = session ∧ after' = session' := by
  refine (Reruns.types (hAlike.isPrim .constInt)).bind fun isConst _ last last' hLast => ?_
  obtain ⟨rfl, rfl, rfl⟩ := hLast
  cases isConst with
  | true => exact .pure ⟨.prim .int, rfl, rfl⟩
  | false =>
      refine (Reruns.types hAlike.hasZeroValue).bind fun hasZero _ last last' hLast => ?_
      obtain ⟨rfl, rfl, rfl⟩ := hLast
      refine (Reruns.types (hAlike.isPrim .nil)).bind fun isNil _ last last' hLast => ?_
      obtain ⟨rfl, rfl, rfl⟩ := hLast
      cases hCheck : hasZero && !isNil with
      | true => exact .pure ⟨hAlike, rfl, rfl⟩
      | false => exact .error

end Abreast

/-- Two routines of initializers that are written on. -/
structure Initializes (early : Prop) (job job' : Job) (ledger : Ledger) (routine routine' : Routine)
    (session session' : Session) : Prop where
  abreast : job.Abreast early job' ledger session session'
  routine : routine.Twin (session.pairing session' early) ledger routine'

/-- What comes of writing on two routines of initializers. -/
def Continues (early : Prop) (job job' : Job) (ledger : Ledger) (session session' : Session)
    (found found' : Routine) (after after' : Session) : Prop :=
  ∃ now, ledger.Within job.package now ∧ job.Initializes early job' now found found' after after' ∧
    after.program.types = session.program.types ∧ after'.program.types = session'.program.types

theorem Continues.before {now : Ledger} {before before' : Session} {found found' : Routine}
    (h : job.Continues early job' now before before' found found' after after')
    (hWithin : ledger.Within job.package now)
    (hTypes : before.program.types = session.program.types)
    (hTypes' : before'.program.types = session'.program.types) :
    job.Continues early job' ledger session session' found found' after after' := by
  obtain ⟨later, hMore, hDone, hSame, hSame'⟩ := h
  exact ⟨later, hWithin.trans hMore, hDone, hSame.trans hTypes, hSame'.trans hTypes'⟩

theorem Initializes.resume {action : RoutineM α} {action' : RoutineM β}
    {good : Ledger → α → β → Prop}
    (h : job.Initializes early job' ledger routine routine' session session')
    (hRetraces : Retraces (session.pairing session' early) ledger action action' good) :
    Reruns early session session' (SessionM.resume job routine action)
      (SessionM.resume job' routine' action') fun found found' after after' =>
        ∃ now, ledger.Within job.package now ∧
          job.Initializes early job' now found.2 found'.2 after after' ∧
            good now found.1 found'.1 ∧ after = { session with supply := found.2.supply } ∧
              after' = { session' with supply := found'.2.supply } := by
  have hStart : ({ routine with supply := session.supply } : Routine).Twin
      (session.pairing session' early) ledger { routine' with supply := session'.supply } :=
    ⟨h.routine.scopes, h.routine.body, h.routine.locals, h.abreast.twin.valid⟩
  refine (h.abreast.resume hStart hRetraces).mono fun found found' after after' hFound => ?_
  obtain ⟨now, hWithin, hAbreast, hRoutine, hGood, rfl, rfl⟩ := hFound
  exact ⟨now, hWithin, ⟨hAbreast, hRoutine⟩, hGood, rfl, rfl⟩

/-- Storing the value of an initializer. -/
theorem Initializes.store
    (h : job.Initializes early job' ledger routine routine' session session') (name : String)
    (span span' : Span) {value value' : Typed}
    (hType : Alike ledger session.program.types session'.program.types type type')
    (hValue : value.Twin (session.pairing session' early) ledger value') :
    Reruns early session session' (do
      let cName ← SessionM.setType job.id name type
      let store : RoutineM Unit := do
        let converted ← RoutineM.convert type value span "in variable initializer"
        let cType ← RoutineM.types (·.cType type)
        RoutineM.emit (.store (.global cName) cType converted)
      return (← SessionM.resume job routine store).2) (do
      let cName ← SessionM.setType job'.id name type'
      let store : RoutineM Unit := do
        let converted ← RoutineM.convert type' value' span' "in variable initializer"
        let cType ← RoutineM.types (·.cType type')
        RoutineM.emit (.store (.global cName) cType converted)
      return (← SessionM.resume job' routine' store).2) fun found found' after after' =>
        job.Continues early job' ledger session session' found found' after after' := by
  refine (h.abreast.setType name hType).bind fun cName cName' last last' hLast => ?_
  obtain ⟨hSet, rfl, rfl⟩ := hLast
  have hNext : job.Initializes early job' ledger routine routine'
      (job.withValue session name (.expr ⟨.global cName, type⟩))
      (job'.withValue session' name (.expr ⟨.global cName', type'⟩)) := ⟨hSet, h.routine⟩
  have hStore : Retraces (session.pairing session' early) ledger (do
      let converted ← RoutineM.convert type value span "in variable initializer"
      let cType ← RoutineM.types (·.cType type)
      RoutineM.emit (.store (.global cName) cType converted)) (do
      let converted ← RoutineM.convert type' value' span' "in variable initializer"
      let cType ← RoutineM.types (·.cType type')
      RoutineM.emit (.store (.global cName') cType converted)) fun _ _ _ => True :=
    (Retraces.convert hType hValue _ _ _ _).bind fun _ _ _ _ _ =>
      (Retraces.mild TypeStore.mild_cType).bind fun _ _ _ _ _ => .emit _ _
  refine (hNext.resume hStore).bind fun found found' final final' hFinal => .pure ?_
  obtain ⟨now, hWithin, hDone, -, rfl, rfl⟩ := hFinal
  exact ⟨now, hWithin, hDone, rfl, rfl⟩

theorem Initializes.buildInit
    (h : job.Initializes early job' ledger routine routine' session session')
    (hBare : decl.bare = decl'.bare) (hFormed : ∀ init ∈ decl.init, init.Formed word)
    {declared declared' : Option Ty}
    (hDeclared : Option.Rel (Alike ledger session.program.types session'.program.types) declared
      declared') :
    Reruns early session session' (SessionM.buildInit job routine decl declared)
      (SessionM.buildInit job' routine' decl' declared') fun found found' after after' =>
        job.Continues early job' ledger session session' found found' after after' := by
  obtain ⟨hName, -, hInit⟩ : decl.name = decl'.name ∧
      bareOptExpr decl.type = bareOptExpr decl'.type ∧
        bareOptExpr decl.init = bareOptExpr decl'.init := by
    simpa [VarDecl.bare] using hBare
  unfold SessionM.buildInit
  rw [← hName]
  cases hLeft : decl.init with
  | none =>
      cases hRight : decl'.init with
      | none => exact .pure ⟨ledger, .refl _ _, h, rfl, rfl⟩
      | some => simp [hLeft, hRight, bareOptExpr] at hInit
  | some init =>
      cases hRight : decl'.init with
      | none => simp [hLeft, hRight, bareOptExpr] at hInit
      | some init' =>
          have hForm : init.bare = init'.bare := by
            simpa [hLeft, hRight, bareOptExpr] using hInit
          refine (h.resume (operand_retraces init init' (hFormed init hLeft) hForm).value).bind
            fun found found' after after' hFound => ?_
          obtain ⟨now, hWithin, hNow, hValue, rfl, rfl⟩ := hFound
          have hGoesOn {type type' : Ty}
              (hType : Alike now session.program.types session'.program.types type type') :=
            hNow.store decl.name decl.span decl'.span hType hValue
          cases hDeclared with
          | some hAlike =>
              exact (hGoesOn (hAlike.mono hWithin.le (.refl _) (.refl _))).mono
                fun _ _ _ _ hAfter => hAfter.before hWithin rfl rfl
          | none =>
              refine (hNow.abreast.inferType hValue).bind fun type type' last last' hLast => ?_
              obtain ⟨hAlike, rfl, rfl⟩ := hLast
              exact (hGoesOn hAlike).mono fun _ _ _ _ hAfter => hAfter.before hWithin rfl rfl

theorem declaredTypes_exec (session : Session) : (SessionM.declaredTypes job).exec session =
    (.ok (job.file.vars.map fun decl =>
      (decl, (session.program.global? job.id decl.name).bind (·.type?))), session) := by
  have hLoop (decls : List VarDecl) : (decls.mapM fun decl => do
      return (decl, (← SessionM.global? job.id decl.name).bind (·.type?)) :
        SessionM (List (VarDecl × Option Ty))).exec session =
      (.ok (decls.map fun decl =>
        (decl, (session.program.global? job.id decl.name).bind (·.type?))), session) := by
    induction decls with
    | nil => rfl
    | cons decl rest ih =>
        rw [List.mapM_cons, SessionM.bind_exec]
        show ((rest.mapM _ >>= fun others => pure (_ :: others)) : SessionM _).exec session = _
        rw [SessionM.bind_exec, ih]
        rfl
  exact hLoop job.file.vars

/-- Names of globals that are twins are declared with alike types. -/
theorem Abreast.type? (h : job.Abreast early job' ledger session session') (name : String) :
    Option.Rel (Alike ledger session.program.types session'.program.types)
      ((session.program.global? job.id name).bind (·.type?))
      ((session'.program.global? job'.id name).bind (·.type?)) := by
  have hGlobal := h.twin.global? job.id name
  rw [← h.id]
  revert hGlobal
  generalize session.program.global? job.id name = found
  generalize session'.program.global? job.id name = found'
  intro hGlobal
  cases hGlobal with
  | none => exact .none
  | @some global global' hTwin =>
      show Option.Rel _ global.type? global'.type?
      unfold Global.type?
      rcases hTwin.cases with ⟨value, value', hValue, hValue', hSame⟩ | ⟨hNone, hNone', -⟩
      · rw [hValue, hValue']
        cases value <;> cases value' <;> first | exact .some hSame | exact .none | exact hSame.elim
      · rw [hNone, hNone']
        exact .none

/-- Variables of one form with alike types that they were declared with. -/
structure DeclaredTwin (ledger : Ledger) (left right : TypeStore) (word : String → Prop)
    (entry entry' : VarDecl × Option Ty) : Prop where
  bare : entry.1.bare = entry'.1.bare
  formed : ∀ init ∈ entry.1.init, init.Formed word
  type : Option.Rel (Alike ledger left right) entry.2 entry'.2

theorem Abreast.declaredTypes (h : job.Abreast early job' ledger session session')
    (hVars : job.file.vars.map VarDecl.bare = job'.file.vars.map VarDecl.bare)
    (hFormed : ∀ decl ∈ job.file.vars, ∀ init ∈ decl.init, init.Formed word) :
    Reruns early session session' (SessionM.declaredTypes job) (SessionM.declaredTypes job')
      fun vars vars' after after' =>
        List.Forall₂ (DeclaredTwin ledger session.program.types session'.program.types word) vars
          vars' ∧ after = session ∧ after' = session' := by
  intro vars after hRun
  rw [declaredTypes_exec] at hRun
  cases hRun
  rw [Runs, declaredTypes_exec]
  refine ⟨?_, rfl, rfl⟩
  rw [List.forall₂_map_left_iff, List.forall₂_map_right_iff]
  have hBare := (forall₂_of_map_eq hVars)
  revert hBare hFormed
  generalize job.file.vars = decls
  generalize job'.file.vars = decls'
  intro hFormed hBare
  induction hBare with
  | nil => exact .nil
  | @cons decl decl' _ _ hSame _ ih =>
      refine .cons ⟨hSame, hFormed decl List.mem_cons_self, ?_⟩
        (ih fun other hOther => hFormed other (List.mem_cons_of_mem _ hOther))
      have hName : decl.name = decl'.name := (VarDecl.mk.inj hSame).1
      rw [← hName]
      exact h.type? decl.name

theorem VarDecl.isNone_init (h : decl.bare = decl'.bare) :
    decl.init.isNone = decl'.init.isNone := by
  have hInit : bareOptExpr decl.init = bareOptExpr decl'.init := (VarDecl.mk.inj h).2.2.1
  cases hLeft : decl.init <;> cases hRight : decl'.init <;>
    simp [hLeft, hRight, bareOptExpr] at hInit ⊢

theorem Abreast.buildInits (h : job.Abreast early job' ledger session session')
    (hVars : job.file.vars.map VarDecl.bare = job'.file.vars.map VarDecl.bare)
    (hFormed : ∀ decl ∈ job.file.vars, ∀ init ∈ decl.init, init.Formed word) :
    Reruns early session session' (SessionM.buildInits job) (SessionM.buildInits job')
      fun _ _ after after' => job.Reaches early job' ledger after after' := by
  have hNone : job.file.vars.all (·.init.isNone) = job'.file.vars.all (·.init.isNone) := by
    have hBare := forall₂_of_map_eq hVars
    revert hBare
    generalize job.file.vars = decls
    generalize job'.file.vars = decls'
    intro hBare
    induction hBare with
    | nil => rfl
    | cons hSame _ ih => rw [List.all_cons, List.all_cons, ih, VarDecl.isNone_init hSame]
  unfold SessionM.buildInits
  rw [← hNone]
  split
  · exact .pure h.reaches
  · refine (h.declaredTypes hVars hFormed).bind fun vars vars' _ _ hVars => ?_
    obtain ⟨hVars, rfl, rfl⟩ := hVars
    refine Reruns.get.bind fun now now' _ _ hNow => ?_
    obtain ⟨⟨hNow, hNow'⟩, rfl, rfl⟩ := hNow
    rw [hNow, hNow']
    refine Reruns.bind (Reruns.foldlM hVars (job.Continues early job' ledger _ _)
      ⟨ledger, .refl _ _, ⟨h, h.start⟩, rfl, rfl⟩ ?_) fun routine routine' after after' hAfter => ?_
    · rintro ⟨decl, declared⟩ - ⟨decl', declared'⟩ - hDeclared routine routine' before
        before' hBefore
      obtain ⟨later, hWithin, hBefore, hTypes, hTypes'⟩ := hBefore
      have hType := hDeclared.type
      rw [← hTypes, ← hTypes'] at hType
      refine (hBefore.buildInit hDeclared.bare hDeclared.formed ?_).mono
        fun _ _ _ _ hAfter => hAfter.before hWithin hTypes hTypes'
      exact optionRel_imp (fun _ _ hAlike => hAlike.mono hWithin.le (.refl _) (.refl _)) hType
    · obtain ⟨later, hWithin, hAfter, -⟩ := hAfter
      refine (Reruns.of_runs (Session.Writes.writeTypedefItems routine.typedefs)
        (Session.Writes.writeTypedefItems routine'.typedefs)).bind
          fun _ _ last last' hLast => .pure ?_
      exact ⟨later, hWithin, hAfter.abreast.writes hLast.1 hLast.2⟩

end GoToC.Job
