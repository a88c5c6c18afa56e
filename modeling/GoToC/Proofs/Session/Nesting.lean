import GoToC.Proofs.Session.Visited

/-!
# Nesting of compiled programs

While a program is compiled, whatever its modules declare and whatever was written is made of words
of the sources, names of modules and numbers. So every item that is written closes just the brackets
that it opens, however deep its statements and expressions are nested, if the names of the modules
are identifiers.
-/

namespace GoToC

variable {name : String} {type : Ty} {func : FuncType Ty} {global : Global} {session : Session}
  {program : Program} {file : SourceFile} {store : TypeStore} {value : GlobalValue}
  {record : StructType Ty}

/-! ## Words of a file -/

/-- The words of a text that is read are identifiers. -/
theorem formed_of_parse {text : String} (h : parse text = .ok file) : file.Formed SourceWord := by
  have hOutcome : ParseOutcome SourceWord (parse text) :=
    parse_outcome fun _ hToken _ hKind => isIdentifier_of_tokensFrom hToken hKind
  rw [h] at hOutcome
  exact hOutcome

/-- Whatever a file declares is named by an identifier, its imports apart. -/
theorem SourceFile.Formed.declared (h : file.Formed SourceWord) {decl : Declaration}
    (hDecl : decl ∈ Declaration.ofFile file) (hKind : decl.kind ≠ .import) :
    isIdentifier decl.name = true := by
  have hName := Declaration.exists_ofFile_iff.mp ⟨decl, hDecl, rfl, rfl⟩
  cases hFound : decl.kind with
  | «import» => exact absurd hFound hKind
  | type =>
      rw [hFound] at hName
      obtain ⟨found, hMem, hName⟩ := List.mem_map.mp hName
      exact hName ▸ (h.types found hMem).1
  | const =>
      rw [hFound] at hName
      obtain ⟨found, hMem, hName⟩ := List.mem_map.mp hName
      exact hName ▸ (h.consts found hMem).1
  | var =>
      rw [hFound] at hName
      obtain ⟨found, hMem, hName⟩ := List.mem_map.mp hName
      exact hName ▸ (h.vars found hMem).1
  | func =>
      rw [hFound] at hName
      obtain ⟨found, hMem, hName⟩ := List.mem_map.mp hName
      exact hName ▸ (h.funcs found hMem).1.name

/-! ## Programs -/

abbrev GlobalValue.Worded (value : GlobalValue) : Prop :=
    value.Spelled .lettered Diction.lettered.words

/-- A routine all of whose names are made of letters, digits and underscores. -/
abbrev Routine.Worded (routine : Routine) : Prop := routine.Spelled .lettered Diction.lettered.words

/-- A global with such a name; that of an import can be any text, but it does not come into C. -/
structure Global.Worded (global : Global) : Prop where
  name : global.kind ≠ .import → isWordTail global.name = true
  cName : isWordTail global.name = true → isWordTail global.cName = true
  value : ∀ value ∈ global.value, value.Worded

structure Method.Worded (method : Method) : Prop where
  cName : isWordTail method.cName = true
  type : method.type.Worded

structure Module.Worded (module : Module) : Prop where
  file : module.file.Formed SourceWord
  globals : ∀ global ∈ module.globals, global.Worded
  methods : ∀ method ∈ module.methods, method.Worded

/-- A program whose names are made of letters, digits and underscores. -/
structure Program.Lettered (program : Program) : Prop where
  modules : ∀ id module, program.module? id = some module → module.Worded
  methods : ∀ entry ∈ program.types.methods,
    isWordTail (entry.1.cName ++ "__" ++ entry.2.name) = true
  types : program.types.Worded

theorem TypeStore.Worded.bindsIn {before : TypeStore} (h : before.Worded) (hType : type.Worded)
    (hBinds : store.BindsIn before type) : store.Worded := by
  obtain ⟨hMethods, hBound⟩ := hBinds
  refine ⟨?_, hMethods ▸ h.methods⟩
  rcases hBound with hSame | ⟨handle, hNew⟩
  · exact hSame ▸ h.bound
  · rw [hNew]
    rintro entry (_ | ⟨_, hEntry⟩)
    · exact hType
    · exact h.bound entry hEntry

namespace Module.Worded

variable {module : Module}

theorem setValue (h : module.Worded) (hValue : value.Worded) :
    (module.setValue name value).Worded := by
  refine ⟨h.file, fun global' hGlobal' => ?_, h.methods⟩
  obtain ⟨global, hGlobal, rfl⟩ := Program.mem_setValue.mp hGlobal'
  have hWorded := h.globals global hGlobal
  split
  · have hGiven : ∀ found ∈ some value, found.Worded := by simpa using hValue
    exact { hWorded with value := hGiven }
  · exact hWorded

theorem addGlobal (h : module.Worded) (hGlobal : global.Worded) :
    (module.addGlobal global).Worded :=
  ⟨h.file, Grammar.forall_mem_concat h.globals hGlobal, h.methods⟩

theorem addMethod (h : module.Worded) {method : Method} (hMethod : method.Worded) :
    (module.addMethod method).Worded :=
  ⟨h.file, h.globals, Grammar.forall_mem_concat h.methods hMethod⟩

end Module.Worded

namespace Program.Lettered

variable {program : Program}

theorem spelled (h : program.Lettered) : program.Spelled .lettered Diction.lettered.words where
  values id name global hGlobal := by
    obtain ⟨module, hModule, hGet⟩ := Option.bind_eq_some_iff.mp hGlobal
    exact ((h.modules id module hModule).globals global (List.mem_of_find?_eq_some hGet)).value
  methods := h.methods
  types := fun _ => h.types

theorem updateModule (h : program.Lettered) (id : ModuleId) {update : Module → Module}
    (hUpdate : ∀ module : Module, module.Worded → (update module).Worded) :
    (program.updateModule id update).Lettered where
  modules := Program.forall_updateModule h.modules fun module hModule =>
    hUpdate module (h.modules id module hModule)
  methods := h.methods
  types := h.types

theorem withTypes (h : program.Lettered) (hStore : store.Worded)
    (hMethods : ∀ entry ∈ store.methods,
      isWordTail (entry.1.cName ++ "__" ++ entry.2.name) = true) :
    ({ program with types := store } : Program).Lettered := ⟨h.modules, hMethods, hStore⟩

theorem has (h : program.Lettered) {id : ModuleId} (hHas : program.Has id global) :
    global.Worded := by
  obtain ⟨module, hModule, hGlobal⟩ := hHas
  exact (h.modules id module hModule).globals global hGlobal

/-- The types of globals and methods, and those that they are made of. -/
theorem meets (h : program.Lettered) (hMeets : program.Meets type) : type.Worded := by
  induction hMeets with
  | given hGives =>
      rcases hGives with ⟨id, global, hHas, hType⟩ | ⟨id, module, hModule, method, hMethod, rfl⟩
      · have hValue := (h.has hHas).value
        unfold Global.type? at hType
        split at hType
        · next denoted hDenoted =>
            cases hType
            exact hValue _ hDenoted trivial
        · next e hExpr =>
            cases hType
            exact (hValue _ hExpr).type trivial
        · cases hType
      · exact ((h.modules id module hModule).methods method hMethod).type
  | member _ hFunc hMember ih =>
      have hFunc := h.types.func? ih hFunc _ rfl
      rcases List.mem_append.mp hMember with hMember | hMember
      · exact (Ty.wordedAll_iff.mp hFunc.1 _ hMember).2
      · exact (Ty.wordedAll_iff.mp hFunc.2 _ hMember).2

end Program.Lettered

/-! ## One module -/

/-- What is there while a program is compiled. -/
structure Work.Worded (work : Work) : Prop where
  program : work.session.program.Lettered
  output : ∀ item ∈ work.session.output.toList, item.Worded
  inits : work.inits.Worded
  written : ∀ type ∈ work.written, type.Worded

/-- More items are written. -/
theorem Work.Worded.writing (h : ∀ item ∈ session.output.toList, item.Worded) {items : List CItem}
    (hItems : ∀ item ∈ items, item.Worded) :
    ∀ item ∈ (session.writing items).output.toList, item.Worded := by
  intro item hItem
  rw [Session.toList_writing] at hItem
  exact (List.mem_append.mp hItem).elim (h item) (hItems item)

namespace Job

variable {job : Job} {work next : Work}

theorem env_spelled (h : session.program.Lettered) (hPackage : isWordTail job.package = true) :
    (job.env session).Spelled .lettered Diction.lettered.words :=
  ⟨h.spelled, fun _ => hPackage, nofun, nofun, nofun⟩

theorem isWordTail_global (hPackage : isWordTail job.package = true)
    (hName : isWordTail name = true) : isWordTail (Declaration.cName job.package name) = true :=
  isWordTail_append.mpr ⟨isWordTail_append.mpr ⟨hPackage, isWordTail_gaps.2⟩, hName⟩

/-- A module calls functions and methods by such names. -/
theorem Calls.worded (h : job.Calls program name) (hFile : job.file.Formed SourceWord)
    (hProgram : program.Lettered) : isWordTail name = true := by
  rcases h with ⟨global, hHas, rfl, hNamed⟩ | ⟨module, hModule, method, hMethod, rfl⟩
  · have hGlobal := hProgram.has hHas
    refine hGlobal.cName ?_
    rcases hNamed with hKind | ⟨decl, hDecl, hSame⟩
    · exact hGlobal.name hKind
    · exact isWordTail_of_isIdentifier (hSame ▸ (hFile.funcs decl hDecl).1.name)
  · exact ((hProgram.modules job.id module hModule).methods method hMethod).cName

/-- A value that is given to a name of the module. -/
theorem withValue_worded (h : session.program.Lettered) (name : String) (hValue : value.Worded) :
    (job.withValue session name value).program.Lettered :=
  h.updateModule job.id fun _ hModule => hModule.setValue hValue

/-- The C variable of a global that the file declares. -/
theorem worded_variable (h : program.Lettered)
    (hGlobal : program.global? job.id name = some global) (hName : isIdentifier name = true)
    (hType : type.Worded) : GlobalValue.Worded (.expr ⟨.global global.cName, type⟩) := by
  obtain ⟨hHas, rfl⟩ := Program.Has.of_global? hGlobal
  exact ⟨(h.has hHas).cName (isWordTail_of_isIdentifier hName), fun _ => hType⟩

/-! What the parts of a file come to. -/

section

variable {session : Session} {routine : Routine}

theorem operand_words (e : Expr) (h : e.Formed SourceWord) :
    Spells.OfOperand (.wording .lettered) (operand e) :=
  compileExpr_spells (fun _ hWord => hWord) e fun _ => h

theorem start_words (supply : Supply) : (Routine.start supply).Worded :=
  Routine.Spelled.start (d := .lettered) Diction.lettered.words supply

/-- The type of a function or method. -/
theorem worded_signature (h : session.program.Lettered) (hPackage : isWordTail job.package = true)
    {receiver : Option (Param Expr)} {signature : Signature Expr} (hReceiver : ∀ param ∈ receiver,
      OptionalWord SourceWord param.name ∧ param.type.IsType SourceWord)
    (hSignature : SignatureFormed SourceWord signature)
    (hRun : (compileSignature receiver signature).exec (job.env session) (.start session.supply) =
      (.ok func, routine)) : (Ty.func func).Worded := by
  have hSpells : Spells (.wording .lettered) Diction.lettered.words
      (compileSignature receiver signature) _ :=
    compileSignature_spells (fun _ hWord => hWord) hReceiver hSignature
  obtain ⟨hGiven, -⟩ := hSpells.words (env_spelled h hPackage) (start_words session.supply) hRun
  exact hGiven trivial

/-- The structure that a method belongs to. -/
theorem worded_record (h : session.program.Lettered) (hFunc : (Ty.func func).Worded)
    (hReceiver : session.program.types.pointeeStruct?
      ((func.inputs.head?.map (·.type)).getD (.prim .void)) = .ok (some record)) :
    (Ty.struct record).Worded := by
  refine h.types.pointeeStruct? ?_ hReceiver record rfl
  cases hInputs : func.inputs with
  | nil => trivial
  | cons input rest => exact (Ty.wordedAll_iff.mp hFunc.1 input (by simp [hInputs])).2

theorem withMethod_worded (h : session.program.Lettered) (hRecord : (Ty.struct record).Worded)
    (hName : isIdentifier name = true) (hFunc : (Ty.func func).Worded) (index : Nat) (span : Span) :
    (job.withMethod session record ⟨name, .func func⟩
      ⟨SessionM.methodName record name, .func func, index, span⟩).program.Lettered := by
  have hMethod : isWordTail (SessionM.methodName record name) = true :=
    isWordTail_append.mpr ⟨isWordTail_append.mpr ⟨hRecord.struct_cName, isWordTail_gaps.2⟩,
      isWordTail_of_isIdentifier hName⟩
  have hTypes : (session.program.types.addMethod record ⟨name, .func func⟩).Worded :=
    ⟨h.types.bound, Grammar.forall_mem_concat h.types.methods hFunc⟩
  have hLettered := h.withTypes hTypes (Grammar.forall_mem_concat h.methods hMethod)
  exact hLettered.updateModule job.id fun _ hModule =>
    hModule.addMethod (show (Method.mk _ _ index span).Worded from ⟨hMethod, hFunc⟩)

end

/-- The heading of a function or method that the module calls by its C name. -/
theorem worded_heading (h : program.Lettered) (hFile : job.file.Formed SourceWord)
    {prototype : Prototype} (hGives : program.Gives type)
    (hFunc : program.types.func? type = .ok (some func)) (hCalls : job.Calls program name)
    (hPrototype : program.types.prototype func name = .ok prototype) : prototype.Worded :=
  TypeStore.worded_prototype (h.types.func? (h.meets (.given hGives)) hFunc func rfl)
    (balanced_word (hCalls.worded hFile h)) hPrototype

/-- A step of a module that goes by a name of letters, digits and underscores. -/
theorem Step.worded (hStep : job.Step work next) (hFile : job.file.Formed SourceWord)
    (hPackage : isWordTail job.package = true) (h : work.Worded) : next.Worded := by
  have hEnv := env_spelled h.program hPackage
  have hStart := start_words work.session.supply
  cases hStep with
  | enter decl handle hMethods hBound hDecl =>
      have hTypes := h.program.withTypes
        ⟨hBound ▸ h.program.types.bound, hMethods ▸ h.program.types.methods⟩
        (hMethods ▸ h.program.methods)
      have hGlobal : (decl.toGlobal job.package handle).Worded :=
        ⟨fun hKind => isWordTail_of_isIdentifier (hFile.declared hDecl hKind),
          fun hName => isWordTail_global hPackage hName, nofun⟩
      exact { h with
        program := hTypes.updateModule job.id fun _ hModule => hModule.addGlobal hGlobal }
  | note name target => exact { h with program := withValue_worded h.program name trivial }
  | @type decl type routine store hDecl hRun hBinds =>
      obtain ⟨hName, hType⟩ := hFile.types decl hDecl
      obtain ⟨hGiven, -⟩ := (compileNamedType_spells (fun _ hWord => hWord) hName
        hType.formed).words hEnv hStart hRun
      have hStore := h.program.withTypes (h.program.types.bindsIn (hGiven trivial) hBinds)
        (hBinds.1 ▸ h.program.methods)
      exact { h with program := withValue_worded hStore decl.name hGiven }
  | @const decl value routine hDecl hRun _ =>
      have hValue := operand_words decl.value (hFile.consts decl hDecl).2
      obtain ⟨hGiven, -⟩ := (Spells.value hValue).words hEnv hStart hRun
      exact { h with program := withValue_worded h.program decl.name hGiven }
  | @var decl written type routine global hDecl hWritten hRun _ hGlobal =>
      obtain ⟨hName, hType, -⟩ := hFile.vars decl hDecl
      have hWritten := operand_words written (hType written hWritten).formed
      obtain ⟨hGiven, -⟩ := (Spells.type hWritten).words hEnv hStart hRun
      have hVariable := worded_variable h.program hGlobal hName (hGiven trivial)
      exact { h with program := withValue_worded h.program decl.name hVariable }
  | @func decl func routine hDecl hRun =>
      have hFormed := (hFile.funcs decl hDecl).1
      have hGiven := worded_signature h.program hPackage (by simp) hFormed.signature hRun
      have hName := isWordTail_global hPackage (isWordTail_of_isIdentifier hFormed.name)
      exact { h with program := withValue_worded h.program decl.name ⟨hName, fun _ => hGiven⟩ }
  | method index hDecl hRun hReceiver hSame =>
      have hFormed := (hFile.methods _ hDecl).1
      have hGiven := worded_signature h.program hPackage hFormed.receiver hFormed.signature hRun
      have hRecord := worded_record h.program hGiven hReceiver
      exact { h with
        program := withMethod_worded h.program hRecord hFormed.name hGiven index _ }
  | begin _ hWritten =>
      exact ⟨h.program, h.output, hStart, fun type hType =>
        h.program.meets (.given (hWritten type hType))⟩
  | @init decl init value middle last type global hDecl hInit hRun hType hStore hGlobal =>
      obtain ⟨hName, -, hFormed⟩ := hFile.vars decl hDecl
      have hInits : ({ work.inits with supply := work.session.supply } : Routine).Worded :=
        { h.inits with }
      obtain ⟨hValue, hMiddle⟩ :=
        (Spells.value (operand_words init (hFormed init hInit))).words hEnv hInits hRun
      have hGiven : type.Worded := by
        rcases hType with hType | rfl | ⟨rfl, -⟩
        · exact h.written type hType
        · trivial
        · exact hValue.type trivial
      have hVariable := worded_variable h.program hGlobal hName hGiven
      have hProgram : (job.withValue work.session decl.name
          (.expr ⟨.global global.cName, type⟩)).program.Lettered :=
        withValue_worded h.program decl.name hVariable
      have hStored := store_spells (g := .wording .lettered) decl type hValue.c hVariable.c
      obtain ⟨-, hLast⟩ := hStored.words (env_spelled hProgram hPackage) hMiddle hStore
      exact ⟨hProgram, h.output, hLast, h.written⟩
  | flush =>
      have hEmpty : ∀ item ∈ (#[] : Array CItem).toList, item.Worded := by simp
      exact { h with
        output := Work.Worded.writing h.output (h.inits.typedefs trivial)
        inits := { h.inits with typedefs := fun _ => hEmpty } }
  | @request type typedefs item hRequest hMeets =>
      refine { h with output := Work.Worded.writing h.output fun found hFound => ?_ }
      obtain rfl : item = some found := Option.mem_toList.mp hFound
      exact h.program.types.request (h.program.meets hMeets) _ (congrArg Prod.fst hRequest)
  | @declare type cType item global _ hHas hType _ hItem hKind =>
      refine { h with output := Work.Worded.writing h.output fun found hFound => ?_ }
      obtain rfl := List.mem_singleton.mp hFound
      have hGlobal := h.program.has hHas
      have hName := hGlobal.cName (hGlobal.name hKind)
      have hText := TypeStore.isWordTail_cType hType
      rcases hItem with rfl | rfl
      · exact ⟨hText, hName⟩
      · exact ⟨hText, hName⟩
  | prototype hPrototype hItem hGives hFunc hCalls =>
      refine { h with output := Work.Worded.writing h.output fun found hFound => ?_ }
      obtain rfl := List.mem_singleton.mp hFound
      have hWorded := worded_heading h.program hFile hGives hFunc hCalls hPrototype
      rcases hItem with rfl | rfl
      · exact hWorded
      · exact hWorded
  | inits =>
      refine { h with output := Work.Worded.writing h.output fun found hFound => ?_ }
      obtain rfl := List.mem_singleton.mp hFound
      exact ⟨hPackage, h.inits.locals trivial, h.inits.worded_body⟩
  | @define decl _ _ _ _ _ _ _ hDecl hBody hGives hFunc hPrototype hRun hCalls =>
      have hGiven := h.program.types.func? (h.program.meets (.given hGives)) hFunc _ rfl
      have hHeading := worded_heading h.program hFile hGives hFunc hCalls hPrototype
      have hSpells := compileBody_words (d := .lettered) (fun _ => hGiven)
        (fun _ => hFile.body hDecl hBody) decl.span
      obtain ⟨-, hAfter⟩ := hSpells.words hEnv hStart hRun
      refine { h with output := Work.Worded.writing h.output fun found hFound => ?_ }
      rcases List.mem_append.mp hFound with hFound | hFound
      · exact hAfter.typedefs trivial found hFound
      · obtain rfl := List.mem_singleton.mp hFound
        exact ⟨hHeading, hAfter.locals trivial, hAfter.worded_body⟩

end Job

/-! ## The whole program -/

/-- All modules that are known go by names of letters, digits and underscores. -/
def Program.NamesWorded (program : Program) : Prop :=
  ∀ id module, program.module? id = some module → isWordTail module.name = true

namespace Work

variable {work next : Work}

/-- A module that is known keeps its name. -/
theorem Step.namesWorded (hStep : work.Step next) (h : next.session.program.NamesWorded) :
    work.session.program.NamesWorded := by
  intro id module hModule
  have hKnown : (⟨id, module.name, module.file⟩ : Job).Known work.session :=
    ⟨module, hModule, rfl, rfl⟩
  obtain ⟨module', hModule', hName, -⟩ := hKnown.step hStep
  have hAfter := h id module' hModule'
  rwa [hName] at hAfter

theorem Step.worded (hStep : work.Step next) (hNames : next.session.program.NamesWorded)
    (h : work.Worded) : next.Worded := by
  have hBefore := hStep.namesWorded hNames
  cases hStep with
  | @register name text file _ hParse =>
      have hAdded : (Module.ofFile name file).Worded := ⟨formed_of_parse hParse, nofun, nofun⟩
      exact { h with program := ⟨Program.forall_register h.program.modules hAdded,
        h.program.methods, h.program.types⟩ }
  | own hKnown hOwn =>
      obtain ⟨module, hModule, hName, hFile⟩ := hKnown
      exact hOwn.worded (hFile ▸ (h.program.modules _ module hModule).file)
        (hName ▸ hBefore _ module hModule) h
  | finish => exact { h with }
  | share => exact { h with program := ⟨h.program.modules, h.program.methods, h.program.types⟩ }
  | includes =>
      refine { h with output := Worded.writing h.output fun found hFound => ?_ }
      obtain rfl := List.mem_singleton.mp hFound
      trivial

theorem start_worded : start.Worded where
  program := ⟨nofun, nofun, ⟨nofun, nofun⟩⟩
  output := nofun
  inits := .start _ _
  written := nofun

end Work

/-- A program that compiles is well nested if its modules are named by identifiers. A reader of the
text meets no bracket that closes none or the wrong one, and no bracket is open at its end; nor is
one behind any of the items that it is written as, one after another. -/
theorem compiled_text_nested {library : Library} {withBuiltin : Bool} {text : String}
    {session : Session}
    (hRun : (SessionM.compileProgram library withBuiltin text).exec .empty = (.ok (), session))
    (hNames : ∀ id module, session.program.module? id = some module →
      isIdentifier module.name = true) :
    compile library withBuiltin text = .ok session.text ∧
    CScan.start.run session.text.toList = some .start ∧
    ∀ items, items <+: session.output.toList →
      CScan.start.run (CItem.renderAll items).toList = some .start := by
  obtain ⟨last, rfl, hPasses⟩ := Work.passes_of_compileProgram hRun
  have hWorded : last.session.program.NamesWorded → last.Worded := by
    refine hPasses.keeps (fun work => work.session.program.NamesWorded → work.Worded)
      (fun _ => Work.start_worded) fun before after hBefore hStep hAfter => ?_
    exact hStep.worded hAfter (hBefore (hStep.namesWorded hAfter))
  have hItems := (hWorded fun id module hModule =>
    isWordTail_of_isIdentifier (hNames id module hModule)).output
  refine ⟨?_, CItem.run_renderAll hItems, fun items hPrefix =>
    CItem.run_renderAll fun item hItem => hItems item (hPrefix.subset hItem)⟩
  unfold compile
  change (SessionM.compileProgram library withBuiltin text).run.run .empty = _ at hRun
  rw [hRun]

/-- A module named `P`, with a variable that is set before the program starts. -/
def bracedModules : List (String × String) :=
  [("P", "var count int = 1\nfunc open(s string) int \x7b\n return len(s)\n\x7d\n")]

/-- A loop that leaves from within a branch, and a text with brackets and a comment in it. -/
def bracedSource : String :=
  "import \"P\"\nfunc main() \x7b\n for i := P.count; i < P.open(\"\x7d)//\\\"\"); i++ \x7b\n" ++
    "  if i == 2 \x7b\n   break\n  \x7d else \x7b\n   continue\n  \x7d\n \x7d\n\x7d\n"

theorem compiled_text_nested_braced : ∃ session : Session,
      (SessionM.compileProgram (.ofList bracedModules) false bracedSource).exec .empty =
        (.ok (), session) ∧
      (∀ id module, session.program.module? id = some module → isIdentifier module.name = true) ∧
      session.output.size = 7 ∧
      CScan.start.run session.text.toList = some .start ∧
      ∀ items, items <+: session.output.toList →
        CScan.start.run (CItem.renderAll items).toList = some .start := by
  have hRan : (SessionM.compileProgram (.ofList bracedModules) false bracedSource).meets
      (fun session => session.program.modules.all (isIdentifier ·.name) &&
        session.output.size == 7) = true := by
    rw [@SessionM.compileProgram_of_toList _ _ bracedSource _
      (toList_append_of String.toList_ofList String.toList_ofList)]
    decide +kernel
  obtain ⟨session, hRun, hFound⟩ := SessionM.exists_of_meets hRan
  obtain ⟨hAll, hSize⟩ := Bool.and_eq_true_iff.mp hFound
  have hNames (id : ModuleId) (module : Module)
      (hModule : session.program.module? id = some module) : isIdentifier module.name = true :=
    List.all_eq_true.mp hAll module (List.mem_of_getElem? hModule)
  obtain ⟨-, hText, hItems⟩ := compiled_text_nested hRun hNames
  exact ⟨session, hRun, hNames, by simpa using hSize, hText, hItems⟩

end GoToC
