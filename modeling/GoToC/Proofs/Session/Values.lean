import GoToC.Proofs.Routine.SpelledExpr
import GoToC.Proofs.Session.Types

/-!
# Constants, variables and functions

Once the types of a module are built its other globals get values: a constant the
fragment of its initializer, a variable or function its C name. The initializers of
variables are compiled last, one after another into one routine.
-/

namespace GoToC.Job

variable {sources : Sources} {start session : Session} {job : Job} {handle : Nat → Prop}
  {function : Prop} {left : Global → Prop}

/-! ## Steps -/

theorem Ready.mono {left' : Global → Prop} (h :
    job.Ready sources start handle function left session)
    (imp : ∀ global, left global → left' global) :
    job.Ready sources start handle function left' session :=
  ⟨h.toBuilds, fun global hHas hNone => imp global (h.waiting global hHas hNone)⟩

theorem Ready.withSupply (h : job.Ready sources start handle function left session)
    {supply : Supply} (hMade : session.supply.typedefs.made ≤ supply.typedefs.made) :
    job.Ready sources start handle function left { session with supply := supply } :=
  ⟨h.toBuilds.withSupply hMade, h.waiting⟩

/-- A routine that was gone on with leaves all but the numbers as it was. -/
theorem Ready.resumed {α : Type} {action : RoutineM α} {good : α → Prop} {routine : Routine}
    {found : α × Routine} {after : Session} {k : Known} {extent : Extent} {limits : Limits}
    (h : job.Ready sources start handle function left session)
    (hComposed : Composed extent limits action)
    (hResumed : job.Resumed session routine action k good found after) :
    job.Ready sources start handle function left after := by
  rw [hResumed.session]
  exact h.withSupply (hComposed.advances hResumed.run).made

theorem known_le_functions : (sources.known handle function).Le (sources.known handle True) :=
  ⟨fun _ h => h, fun h => h, fun _ => trivial, fun h => h⟩

/-- Values may be functions once a function type was made. -/
theorem Ready.withFunctions (h : job.Ready sources start handle function left session)
    (hMade : 0 < session.supply.typedefs.made) :
    job.Ready sources start handle True left session := by
  have hSettled : session.program.types.Settled (sources.known handle True) :=
    h.sound.program.settled.widen known_le_functions fun _ hKnown => .inl hKnown
  exact ⟨⟨⟨⟨h.sound.program.widen known_le_functions hSettled, fun _ => hMade, h.sound.faithful,
    h.sound.items⟩, h.extended, h.later, h.sourced, h.entered, h.fresh⟩, h.own⟩, h.waiting⟩

/-- A global gets the value of a fragment. -/
theorem Ready.withExpr (h : job.Ready sources start handle function left session) {name : String}
    {e : Typed} (hSound : e.Sound (sources.known handle function)) (hClosed : e.c.Closed ∅)
    (hTree : GlobalMirrors sources.files job.package job.file name e.c.tree)
    (hFunc : ∀ global, session.program.Has job.id global → global.name = name →
      global.kind = .func → ∃ func, e.type = .func func ∧
        ∀ decl ∈ job.file.funcs, decl.name = name → func.NamedLike decl) :
    job.Ready sources start handle function (fun global => left global ∧ global.name ≠ name)
      (job.withValue session name (.expr e)) := by
  refine ⟨h.toBuilds.withValue (h.toWorks.withValue ?_ ?_), ?_⟩
  · intro global hHas hName
    refine ⟨?_, ?_, by simp, fun hKind value hValue => ?_⟩
    · rintro found ⟨⟩
      exact hSound
    · rintro found ⟨⟩
      exact hClosed
    · obtain ⟨func, hType, hLike⟩ := hFunc global hHas hName hKind
      obtain ⟨c, type⟩ := e
      cases hValue
      subst hType hName
      exact ⟨c, func, rfl, hLike⟩
  · intro global hHas hName
    refine (h.faithful_global hHas).withValue ?_ (by simp) (by simp)
    rintro found ⟨⟩
    rw [hName]
    exact hTree
  · intro global' hHas hNone
    obtain ⟨global, hBefore, rfl⟩ := has_withValue.mp hHas
    obtain ⟨hWaits, hName⟩ := Global.given_value_eq_none hNone
    rw [Global.given, if_neg hName]
    exact ⟨h.waiting global hBefore hWaits, hName⟩

/-- The same for a declared global that is no function. -/
theorem Ready.setExpr (h : job.Ready sources start handle function left session)
    {kind : GlobalKind} {name : String} {e : Typed} (hName : name ∈ job.file.names kind)
    (hKind : kind ≠ .func) (hSound : e.Sound (sources.known handle function))
    (hClosed : e.c.Closed ∅)
    (hTree : GlobalMirrors sources.files job.package job.file name e.c.tree) :
    Runs sources.Excuses session (SessionM.setValue job.id name (.expr e)) fun _ after =>
      job.Ready sources start handle function left after ∧ after.supply = session.supply := by
  obtain ⟨found, hFound, hSame, rfl⟩ := Declaration.exists_ofFile_iff.mpr hName
  refine (h.setValue hFound (.expr e)).mono fun _ after hAfter => ?_
  rw [hAfter]
  refine ⟨(h.withExpr hSound hClosed hTree fun global hHas hGlobal hFunc => ?_).mono
    fun _ => And.left, rfl⟩
  have hDeclares := h.declares hHas hFound hGlobal
  exact absurd (hSame.symm.trans (hDeclares.kind.symm.trans hFunc)) hKind

/-- The fragment of a global of the module that is a name to C. -/
theorem Ready.global_sound (h : job.Ready sources start handle function left session)
    {name : String} {type : Ty} (hName : isIdentifier name = true)
    (hType : type.Usable (sources.known handle function)) :
    Typed.Sound (sources.known handle function)
      ⟨.global (Declaration.cName job.package name), type⟩ := by
  refine ⟨hType, ?_, fun _ _ => trivial⟩
  rw [CExpr.Fits]
  exact fun strict => isCName_cName (sources.namesGlobals h.sourced strict)
    (isWordTail_of_isIdentifier hName)

/-- Makes a variable of the module a C variable of a type. -/
theorem Ready.setType (h : job.Ready sources start handle function left session) {decl : VarDecl}
    {type : Ty} (hDecl : decl ∈ job.file.vars)
    (hType : type.Usable (sources.known handle function)) :
    Runs sources.Excuses session (SessionM.setType job.id decl.name type) fun _ after =>
      job.Ready sources start handle function left after ∧ after.supply = session.supply := by
  have hWord := ((sources.formed h.sourced handle function).vars decl hDecl).1
  have hName : decl.name ∈ job.file.names .var := List.mem_map_of_mem hDecl
  obtain ⟨found, hFound, -, hSame⟩ := Declaration.exists_ofFile_iff.mpr hName
  have hSound := h.global_sound hWord.1 hType
  rw [← hSame] at hSound ⊢
  refine (h.declared hFound).bind fun global after hAfter => ?_
  obtain ⟨hDeclares, rfl⟩ := hAfter
  rw [← hDeclares.cName] at hSound
  refine (h.setExpr (hSame ▸ hName) (by simp) hSound (CExpr.closed_global _) ?_).bind
    fun _ last hLast => .pure hLast
  rw [hDeclares.cName, hSame, CExpr.tree]
  exact .var hDecl

/-! ## Constants and variables -/

/-- The fragment that an initializer of a module comes to. -/
theorem Ready.mirrors_value (h : job.Ready sources start handle function left session) {e : Expr}
    {value : Typed} {after : Routine} (run : (operand e).value.exec (job.env session)
      { Routine.start session.supply with supply := session.supply } = (.ok value, after)) :
    Mirrors sources.files (.outside job.package job.file) e value.c.tree :=
  ((compileExpr_mirrored h.env_faithful [[]] e).value _ value after rfl run).1

/-- The value of a constant needs no variables, so it names none. -/
theorem Ready.closed_value (h : job.Ready sources start handle function left session) {e : Expr}
    {value : Typed} {after : Routine} (run : (operand e).value.exec (job.env session)
      { Routine.start session.supply with supply := session.supply } = (.ok value, after))
    (hPristine : after.isPristine = true) : value.c.Closed ∅ := by
  have hSpells : Spells (.closing none ∅) ∅ (operand e).value (Typed.Spelled .free) :=
    .value (compileExpr_closes e)
  obtain ⟨⟨known, -, hKnown, hSpelled⟩, -⟩ := hSpells _ _ value after (fun _ => nofun)
    (Set.empty_subset _) h.env_occurs.closed.spelled (.start ∅ session.supply) run
  exact (Typed.spelled_free.mp hSpelled).mono
    (hKnown.trans_eq (Routine.ownNames_of_isPristine hPristine))

theorem Ready.buildConst (h : job.Ready sources start handle function left session)
    {decl : ConstDecl} (hDecl : decl ∈ job.file.consts) :
    Runs sources.Excuses session (SessionM.buildConst job decl) fun _ after =>
      job.Ready sources start handle function left after := by
  have hFormed := ((sources.formed h.sourced handle function).consts decl hDecl).2
  have hSafe : (operand decl.value).Sound h.sound.program.setting :=
    operand_safe rfl decl.value hFormed
  have hComposed : Composed .expr .any (operand decl.value).value :=
    value_composed .expr decl.value
  refine .errorIf _ _ _ fun _ => (h.toBuilds.routine hSafe.value).bind fun found after hFound => ?_
  have hAfter := h.resumed hComposed hFound
  refine .errorIf _ _ _ fun hPristine => ?_
  have hName : decl.name ∈ job.file.names .const := List.mem_map_of_mem hDecl
  have hClosed := h.closed_value hFound.run (by simpa using hPristine)
  refine (hAfter.setExpr hName (by simp) hFound.good hClosed ?_).mono fun _ _ hLast => hLast.1
  exact .const hDecl (h.mirrors_value hFound.run)

theorem Ready.buildVar (h : job.Ready sources start handle function left session)
    {decl : VarDecl} (hDecl : decl ∈ job.file.vars) :
    Runs sources.Excuses session (SessionM.buildVar job decl) fun _ after =>
      job.Ready sources start handle function left after := by
  unfold SessionM.buildVar
  split
  · next written hWritten =>
      have hFormed := ((sources.formed h.sourced handle function).vars decl hDecl).2.1
        written hWritten
      have hSafe : (operand written).SoundType h.sound.program.setting :=
        typeOperand_safe h.sound.program.setting written hFormed
      have hComposed : Composed .expr .any (operand written).type := type_composed .expr written
      refine (h.toBuilds.isolated hSafe).bind fun type after hAfter => ?_
      obtain ⟨routine, hResumed⟩ := hAfter
      have hType := hResumed.good.1.usable
      have hAfter := h.resumed hComposed hResumed
      refine (Runs.types (hAfter.sound.program.settled.hasZeroValue_usable hType)).bind
        fun hasZero last hLast => ?_
      rw [hLast.2]
      refine .errorIf _ _ _ fun _ => ?_
      exact (hAfter.setType hDecl hType).bind fun _ _ hDone => .pure hDone.1
  · exact .pure h
  · exact .error _ _ _

/-! ## Functions -/

/-- No two functions of the module have the same name. -/
theorem Ready.nodup_names (h : job.Ready sources start handle function left session)
    (kind : GlobalKind) : (job.file.names kind).Nodup := by
  obtain ⟨module, -, -, hFile, hEntered⟩ := h.entered
  exact Declaration.nodup_names (hFile ▸ hEntered.distinct) kind

theorem Ready.buildFunc (h : job.Ready sources start handle function left session)
    {decl : FuncDecl} (hDecl : decl ∈ job.file.funcs) :
    Runs sources.Excuses session (SessionM.buildFunc job decl) fun _ after =>
      job.Ready sources start handle True (fun global => left global ∧ global.name ≠ decl.name)
        after := by
  obtain ⟨hFormed, hReceiver⟩ := (sources.formed h.sourced handle function).funcs decl hDecl
  have hComposed : Composed .expr .any (compileSignature none decl.signature) :=
    compileSignature_composed .expr none decl.signature
  refine (h.toBuilds.isolated (compileSignature_safe h.sound.program.setting (by simp)
    hFormed.signature)).bind fun func after hAfter => ?_
  obtain ⟨routine, hResumed⟩ := hAfter
  obtain ⟨hPlain, hInputs, hOutputs, -⟩ := hResumed.good
  have hMade : 0 < after.supply.typedefs.made := by
    rw [hResumed.session]
    exact compileSignature_made hResumed.run
  have hAfter := (h.resumed hComposed hResumed).withFunctions hMade
  obtain ⟨found, hFound, -, hSame⟩ := Declaration.exists_ofFile_iff.mpr
    (show decl.name ∈ job.file.names .func from List.mem_map_of_mem hDecl)
  rw [← hSame]
  refine (hAfter.setValue hFound _).mono fun _ last hLast => ?_
  rw [hLast, hSame]
  refine hAfter.withExpr (hAfter.global_sound hFormed.name.1 (.inr ⟨?_, trivial⟩))
    (CExpr.closed_global _) ?_ ?_
  · exact hPlain.mono known_le_functions
  · rw [CExpr.tree]
    exact .func hDecl
  · rintro global - - -
    refine ⟨func, rfl, fun other hOther hNames => ?_⟩
    obtain rfl : other = decl := List.inj_on_of_nodup_map (h.nodup_names .func) hOther hDecl hNames
    exact ⟨by rw [hReceiver]; exact hInputs, hOutputs⟩

theorem Ready.mem_names (h : job.Ready sources start handle function left session)
    {global : Global} (hHas : session.program.Has job.id global) :
    global.name ∈ job.file.names global.kind := by
  obtain ⟨decl, hDecl, hDeclares⟩ := h.exists_decl hHas
  exact Declaration.exists_ofFile_iff.mp ⟨decl, hDecl, hDeclares.kind.symm, hDeclares.name.symm⟩

/-- A global that may be without a value when its module is written. -/
def MayWait (global : Global) : Prop := global.kind ≠ .type ∧ global.kind ≠ .func

/-- All functions are built, while types were built before. -/
theorem Ready.buildFuncs
    (h : job.Ready sources start handle function (fun global => global.kind ≠ .type) session) :
    Runs sources.Excuses session (job.file.funcs.forM (SessionM.buildFunc job)) fun _ after =>
      ∃ function, job.Ready sources start handle function MayWait after := by
  refine (Runs.forM (fun rest after => (∀ decl ∈ rest, decl ∈ job.file.funcs) ∧
    ∃ function, job.Ready sources start handle function (fun global => global.kind ≠ .type ∧
      (global.kind = .func → global.name ∈ rest.map (·.name))) after) ?_ ?_).mono
      fun _ after hAfter => ?_
  · refine ⟨fun _ hDecl => hDecl, function, h.toBuilds, fun global hHas hNone => ?_⟩
    refine ⟨h.waiting global hHas hNone, fun hKind => ?_⟩
    have hName := h.mem_names hHas
    rw [hKind] at hName
    exact hName
  · rintro decl rest before ⟨hMem, function, hBefore⟩
    refine (hBefore.buildFunc (hMem decl List.mem_cons_self)).mono fun _ after hAfter => ?_
    refine ⟨(List.forall_mem_cons.mp hMem).2, True,
      hAfter.mono fun global hLeft => ⟨hLeft.1.1, fun hKind => ?_⟩⟩
    exact (List.mem_cons.mp (hLeft.1.2 hKind)).resolve_left hLeft.2
  · obtain ⟨-, function, hReady⟩ := hAfter
    exact ⟨function, hReady.mono fun global hLeft =>
      ⟨hLeft.1, fun hKind => by simpa using hLeft.2 hKind⟩⟩

/-! ## Methods -/

/-- The session after a method was given to a struct. -/
def withMethod (job : Job) (session : Session) (record : StructType Ty) (member : Member Ty)
    (method : Method) : Session :=
  { session with
    program := Program.updateModule
      { session.program with types := session.program.types.addMethod record member } job.id
      (·.addMethod method) }

theorem Ready.withMethod (h : job.Ready sources start handle function left session)
    {record : StructType Ty} {name : String} {func : FuncType Ty} {method : Method}
    (hGiven : session.program.types.GivenTo (sources.known handle function) record.key func)
    (hMethod : method.Sound (sources.known handle function) job.file) :
    job.Ready sources start handle function left
      (job.withMethod session record ⟨name, .func func⟩ method) := by
  obtain ⟨module, hModule, hPackage, hFile, hEntered⟩ := h.entered
  have hExtended : start.Extends { session with
      program := { session.program with
        types := session.program.types.addMethod record ⟨name, .func func⟩ } } :=
    ⟨h.extended.modules, h.extended.builtin, h.extended.next, h.extended.targets⟩
  have hHas {global : Global}
      (hHas : (job.withMethod session record ⟨name, .func func⟩ method).program.Has job.id global) :
      session.program.Has job.id global := by
    obtain ⟨module', hModule', hMem'⟩ := hHas
    rcases Program.of_module?_updateModule hModule' with ⟨-, found, hFound, rfl⟩ | ⟨hOther, -⟩
    · exact ⟨found, hFound, hMem'⟩
    · exact absurd rfl hOther
  refine ⟨⟨⟨⟨(h.sound.program.addTypeMethod hGiven).addMethod ?_, h.sound.made,
    (h.sound.faithful.withTypes _).addMethod _ _, h.sound.items⟩, hExtended.updateModule h.later _,
    h.later, h.sourced, ⟨module.addMethod method, ?_, hPackage, hFile, hEntered.globals,
      hEntered.distinct⟩, fun global handle hGlobal => h.fresh global handle (hHas hGlobal)⟩,
    fun global handle hGlobal => h.own global handle (hHas hGlobal)⟩,
    fun global hGlobal => h.waiting global (hHas hGlobal)⟩
  · intro found hFound
    obtain rfl : module = found := Option.some.inj (hModule.symm.trans hFound)
    rw [hFile]
    exact hMethod
  · show (Program.updateModule _ job.id (·.addMethod method)).module? job.id = _
    rw [Program.module?_updateModule, if_pos rfl]
    exact congrArg (Option.map (·.addMethod method)) hModule

theorem Ready.buildMethod (h : job.Ready sources start handle function left session)
    {index : Nat} {decl : FuncDecl} (hDecl : job.file.methods[index]? = some decl) :
    Runs sources.Excuses session (SessionM.buildMethod job index decl) fun _ after =>
      job.Ready sources start handle function left after := by
  obtain ⟨hFormed, hReceiver⟩ := (sources.formed h.sourced handle function).methods decl
    (List.mem_of_getElem? hDecl)
  have hComposed : Composed .expr .any (compileSignature decl.receiver decl.signature) :=
    compileSignature_composed .expr decl.receiver decl.signature
  refine (h.toBuilds.isolated (compileSignature_safe h.sound.program.setting hFormed.receiver
    hFormed.signature)).bind fun func after hAfter => ?_
  obtain ⟨routine, hResumed⟩ := hAfter
  obtain ⟨hPlain, hInputs, hOutputs, hMethod⟩ := hResumed.good
  have hAfter := h.resumed hComposed hResumed
  obtain ⟨param, hParam⟩ := Option.isSome_iff_exists.mp hReceiver
  obtain ⟨first, rest, hHead⟩ : ∃ first rest, func.inputs = first :: rest := by
    refine List.exists_cons_of_ne_nil fun hNone => ?_
    rw [hNone, hParam] at hInputs
    cases hInputs
  have hUsable : first.type.Usable (sources.known handle function) := by
    have hParts := hPlain
    rw [Ty.PlainFunc, hHead] at hParts
    exact (Ty.plainAll_iff.mp hParts.1 first List.mem_cons_self).2.usable
  have hAsk := hAfter.sound.program.settled.pointeeStruct?_usable hUsable
  rw [hHead]
  refine Runs.bind ((Runs.types hAsk).bind fun found last hLast => .pure ?_)
    fun found last (hLast : (∀ record ∈ found,
      after.program.types.pointeeStruct? first.type = .ok (some record)) ∧ last = after) => ?_
  · refine ⟨fun record hRecord => ?_, hLast.2⟩
    obtain rfl := (Option.filter_eq_some_iff.mp hRecord).1
    exact hLast.1.1
  obtain ⟨hRecord, hLast⟩ := hLast
  rw [hLast]
  split
  · exact .error _ _ _
  · next _ record =>
      have hGiven : after.program.types.GivenTo (sources.known handle function) record.key func :=
        ⟨hPlain, hMethod.trans hReceiver, first, rest, record, hHead, hRecord record rfl, rfl⟩
      refine Runs.bind (Runs.get.bind fun _ _ hGet => .pure hGet.2)
        fun methods last (hLast : last = after) => ?_
      rw [hLast]
      split
      · exact .error _ _ _
      · refine Runs.get.bind fun now last hNow => ?_
        rw [hNow.1, hNow.2]
        refine (Runs.changed _).bind fun _ middle hMiddle => (Runs.changed _).mono
          fun _ final hFinal => ?_
        rw [hFinal, hMiddle]
        refine hAfter.withMethod hGiven ⟨hPlain, decl, hDecl, ?_⟩
        rintro other ⟨⟩
        exact ⟨hInputs, hOutputs⟩

theorem Ready.buildMethods (h : job.Ready sources start handle function left session)
    {index : Nat} {rest : List FuncDecl} (hRest : job.file.methods.drop index = rest) :
    Runs sources.Excuses session (SessionM.buildMethods job index rest) fun _ after =>
      job.Ready sources start handle function left after := by
  induction rest generalizing index session with
  | nil => exact .pure h
  | cons decl rest ih =>
      have hDecl : job.file.methods[index]? = some decl := by
        rw [← List.head?_drop, hRest]
        rfl
      refine (h.buildMethod hDecl).bind fun _ after hAfter => ih hAfter ?_
      rw [← List.tail_drop, hRest]
      rfl

end GoToC.Job
