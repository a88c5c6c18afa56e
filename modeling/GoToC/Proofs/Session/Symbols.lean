import Mathlib.Data.List.Infix
import GoToC.Proofs.Session.Locals
import GoToC.Proofs.Session.Registry

/-!
# Symbols of the C program

The variables, functions, methods and initializers of all modules share one C name space. Each
of them is one symbol, and no symbol is defined twice. The C name of a symbol is made of its
parts with two underscores between them, so it tells the parts apart only where these do not
run into the underscores.
-/

namespace GoToC

variable {structs : List String} {session : Session} {tail xs ys tail' : List Char}
  {importer : Importer} {pending : ModuleId → Prop}

/-! ## Names that are put together -/

/-- A name that can be told from what comes after it and two underscores. -/
def Separable (name : String) : Prop := ¬ ['_', '_'] <:+: name.toList ++ ['_']

/-- A name without two underscores in a row. -/
def Single (name : String) : Prop := ¬ ['_', '_'] <:+: name.toList

instance (name : String) : Decidable (Separable name) :=
  inferInstanceAs (Decidable (¬ ['_', '_'] <:+: name.toList ++ ['_']))

instance (name : String) : Decidable (Single name) :=
  inferInstanceAs (Decidable (¬ ['_', '_'] <:+: name.toList))

/-- A text that starts with an underscore, or is followed by one, has two in a row if it is
cut off before them. -/
theorem not_gap_cons {c : Char} {rest after : List Char}
    (h : '_' :: '_' :: after = c :: rest ++ '_' :: '_' :: tail) :
    ['_', '_'] <:+: c :: rest ++ ['_'] := by
  cases rest with
  | nil =>
      simp only [List.singleton_append, List.cons.injEq] at h
      rw [← h.1]
      exact List.infix_rfl
  | cons d rest =>
      simp only [List.cons_append, List.cons.injEq] at h
      rw [← h.1, ← h.2.1]
      exact ⟨[], rest ++ ['_'], rfl⟩

/-- A text that is cut off before two underscores in a row starts any other text before two. -/
theorem prefix_of_append_gap (hx : ¬ ['_', '_'] <:+: xs ++ ['_'])
    (h : xs ++ '_' :: '_' :: tail = ys ++ '_' :: '_' :: tail') : xs <+: ys := by
  induction xs generalizing ys with
  | nil => exact List.nil_prefix
  | cons c xs ih =>
      cases ys with
      | nil => exact absurd (not_gap_cons h.symm) hx
      | cons d ys =>
          simp only [List.cons_append, List.cons.injEq] at h
          rw [h.1, List.prefix_cons_inj]
          exact ih (fun hGap => hx (List.infix_cons hGap)) h.2

/-- The first two underscores in a row are where two texts were put together. -/
theorem append_gap_inj (hx : ¬ ['_', '_'] <:+: xs ++ ['_']) (hy : ¬ ['_', '_'] <:+: ys ++ ['_'])
    (h : xs ++ '_' :: '_' :: tail = ys ++ '_' :: '_' :: tail') : xs = ys ∧ tail = tail' := by
  have hFirst : xs <+: ys := prefix_of_append_gap hx h
  have hSecond : ys <+: xs := prefix_of_append_gap hy h.symm
  obtain rfl := hFirst.eq_of_length_le hSecond.length_le
  simpa using h

theorem Separable.append_inj {a b rest rest' : String} (ha : Separable a) (hb : Separable b)
    (h : a ++ "__" ++ rest = b ++ "__" ++ rest') : a = b ∧ rest = rest' := by
  have hChars : a.toList ++ '_' :: '_' :: rest.toList = b.toList ++ '_' :: '_' :: rest'.toList := by
    simpa [String.toList_append] using congrArg String.toList h
  obtain ⟨hName, hRest⟩ := append_gap_inj ha hb hChars
  exact ⟨String.toList_injective hName, String.toList_injective hRest⟩

/-! ## Symbols -/

/-- What a name of the C program is there for. -/
inductive Symbol where
  /-- A variable or function. -/
  | global (module name : String)
  | method (module struct name : String)
  /-- The routine that sets the variables of a module. -/
  | init (module : String)
  deriving Repr, DecidableEq

namespace Symbol

def module : Symbol → String
  | global module _ => module
  | method module _ _ => module
  | init module => module

/-- The name that follows the one of the module. -/
def suffix : Symbol → String
  | global _ name => name
  | method _ struct name => struct ++ "__" ++ name
  | init _ => "INIT"

def cName (symbol : Symbol) : String := symbol.module ++ "__" ++ symbol.suffix

/-- The parts of the symbol can be told from its C name. -/
def Separable : Symbol → Prop
  | global module name => GoToC.Separable module ∧ Single name ∧ name ≠ "INIT"
  | method module struct _ => GoToC.Separable module ∧ GoToC.Separable struct
  | init module => GoToC.Separable module

instance : (symbol : Symbol) → Decidable symbol.Separable
  | global _ _ => inferInstanceAs (Decidable (_ ∧ _ ∧ _))
  | method _ _ _ => inferInstanceAs (Decidable (_ ∧ _))
  | init _ => inferInstanceAs (Decidable (GoToC.Separable _))

theorem Separable.module {symbol : Symbol} (h : symbol.Separable) :
    GoToC.Separable symbol.module := by
  cases symbol with
  | global => exact h.1
  | method => exact h.1
  | init => exact h

theorem not_single_method (struct name : String) : ¬ Single (struct ++ "__" ++ name) := by
  intro hSingle
  refine hSingle ⟨struct.toList, name.toList, ?_⟩
  simp [String.toList_append]

/-- Symbols that are separable have different C names. -/
theorem Separable.cName_inj {a b : Symbol} (ha : a.Separable) (hb : b.Separable)
    (h : a.cName = b.cName) : a = b := by
  obtain ⟨hModule, hSuffix⟩ := ha.module.append_inj hb.module h
  have hInit : Single "INIT" := by decide
  cases a with
  | global m n =>
      cases b with
      | global m' n' =>
          obtain rfl : m = m' := hModule
          obtain rfl : n = n' := hSuffix
          rfl
      | method m' s k =>
          have hName : n = s ++ "__" ++ k := hSuffix
          exact absurd (hName ▸ ha.2.1) (not_single_method s k)
      | init m' => exact absurd hSuffix ha.2.2
  | method m s k =>
      cases b with
      | global m' n' =>
          have hName : s ++ "__" ++ k = n' := hSuffix
          exact absurd (hName ▸ hb.2.1) (not_single_method s k)
      | method m' s' k' =>
          obtain rfl : m = m' := hModule
          obtain ⟨rfl, rfl⟩ := ha.2.append_inj hb.2 hSuffix
          rfl
      | init m' =>
          have hName : s ++ "__" ++ k = "INIT" := hSuffix
          exact absurd (hName ▸ hInit) (not_single_method s k)
  | init m =>
      cases b with
      | global m' n' =>
          have hName : "INIT" = n' := hSuffix
          exact absurd hName.symm hb.2.2
      | method m' s k =>
          have hName : "INIT" = s ++ "__" ++ k := hSuffix
          exact absurd (hName ▸ hInit) (not_single_method s k)
      | init m' =>
          obtain rfl : m = m' := hModule
          rfl

theorem methodName_eq (record : StructType Ty) (name : String) :
    SessionM.methodName record name = (method record.package record.name name).cName := by
  simp [SessionM.methodName, StructType.cName, StructType.key, StructKey.cName, cName, module,
    suffix, String.append_assoc]

end Symbol

/-- The C name of the variable, function, method or routine that is defined under a mark. -/
def Mark.symbolName? : Mark → Option String
  | .variable cName => some cName
  | .native cName => some cName
  | .definition cName => some cName
  | .init package => some (package ++ "__INIT")
  | .type _ => none
  | .prototype _ => none

theorem FuncDecl.symbolName?_mark (decl : FuncDecl) (cName : String) :
    (decl.mark cName).symbolName? = some cName := by
  unfold FuncDecl.mark
  split <;> rfl

/-- The C name of the variable, function, method or routine that an item defines. -/
def CItem.symbolName? (item : CItem) : Option String := item.mark?.bind Mark.symbolName?

/-! ## Symbols of one module -/

namespace Module

/-- All that is written for a complete module. -/
def marks (module : Module) : List Mark :=
  module.declarations ++ module.inits ++ module.definitions

/-- A module whose names are entered and whose methods are built, under different names. -/
structure Built (module : Module) : Prop where
  entered : module.Entered
  methods : List.Forall₂ (Method.Implements module.name) module.methods module.file.methods
  distinct : (module.methods.map (·.cName)).Nodup

/-- The symbols of a module: its variables, its initializers, its functions and, with the names
of their structs, its methods. -/
def symbols (module : Module) (structs : List String) : List Symbol :=
  module.file.vars.map (fun decl => .global module.name decl.name) ++
    (if module.file.vars.all (·.init.isNone) then [] else [.init module.name]) ++
    module.file.funcs.map (fun decl => .global module.name decl.name) ++
    List.zipWith (fun struct decl => .method module.name struct decl.name) structs
      module.file.methods

/-- Some symbols among which are all of a module. -/
structure CoveredBy (module : Module) (symbols : List Symbol) : Prop where
  globals : ∀ name ∈ module.file.names .var ++ module.file.names .func,
    .global module.name name ∈ symbols
  methods : ∀ decl ∈ module.file.methods, ∃ struct, .method module.name struct decl.name ∈ symbols
  inits : (∃ decl ∈ module.file.vars, decl.init.isSome) → .init module.name ∈ symbols

variable {module : Module}

theorem CoveredBy.mono {symbols symbols' : List Symbol} (h : module.CoveredBy symbols)
    (imp : ∀ symbol ∈ symbols, symbol ∈ symbols') : module.CoveredBy symbols' where
  globals name hName := imp _ (h.globals name hName)
  methods decl hDecl := (h.methods decl hDecl).imp fun _ hMem => imp _ hMem
  inits hSome := imp _ (h.inits hSome)

theorem eq_init_of_mem {symbol : Symbol}
    (h : symbol ∈ if module.file.vars.all (·.init.isNone) then [] else [.init module.name]) :
    symbol = .init module.name := by
  split at h
  · cases h
  · exact List.mem_singleton.mp h

theorem exists_method_of_mem {symbol : Symbol}
    (h : symbol ∈ List.zipWith (fun struct decl => .method module.name struct decl.name) structs
      module.file.methods) : ∃ struct name, symbol = .method module.name struct name := by
  obtain ⟨index, hIndex⟩ := List.mem_iff_getElem?.mp h
  rw [List.getElem?_zipWith_eq_some] at hIndex
  obtain ⟨struct, decl, -, -, rfl⟩ := hIndex
  exact ⟨struct, decl.name, rfl⟩

theorem module_of_mem_symbols {symbol : Symbol} (h : symbol ∈ module.symbols structs) :
    symbol.module = module.name := by
  unfold symbols at h
  rw [List.mem_append, List.mem_append, List.mem_append] at h
  rcases h with ((hVar | hInit) | hFunc) | hMethod
  · obtain ⟨decl, -, rfl⟩ := List.mem_map.mp hVar
    rfl
  · rw [eq_init_of_mem hInit]
    rfl
  · obtain ⟨decl, -, rfl⟩ := List.mem_map.mp hFunc
    rfl
  · obtain ⟨struct, name, rfl⟩ := exists_method_of_mem hMethod
    rfl

/-- The symbols of a module are distinct, if those of its methods are. -/
theorem Entered.nodup_symbols (h : module.Entered)
    (hMethods : (List.zipWith (fun struct decl => Symbol.method module.name struct decl.name)
      structs module.file.methods).Nodup) : (module.symbols structs).Nodup := by
  have hEntered := h.distinct
  rw [Declaration.map_name_ofFile] at hEntered
  have hGlobal : Function.Injective (Symbol.global module.name) := fun a b hSame => by
    cases hSame
    rfl
  have hVars : (module.file.vars.map fun decl => Symbol.global module.name decl.name).Nodup := by
    have hMapped := (Declaration.nodup_names h.distinct .var).map hGlobal
    rwa [SourceFile.names, List.map_map] at hMapped
  have hFuncs : (module.file.funcs.map fun decl => Symbol.global module.name decl.name).Nodup := by
    have hMapped := (Declaration.nodup_names h.distinct .func).map hGlobal
    rwa [SourceFile.names, List.map_map] at hMapped
  have hInit : (if module.file.vars.all (·.init.isNone) then []
      else [Symbol.init module.name]).Nodup := by
    split
    · exact .nil
    · exact List.nodup_singleton _
  unfold symbols
  refine List.nodup_append.mpr ⟨List.nodup_append.mpr ⟨List.nodup_append.mpr ⟨hVars, hInit, ?_⟩,
    hFuncs, ?_⟩, hMethods, ?_⟩
  · intro a ha b hb hSame
    obtain ⟨decl, -, rfl⟩ := List.mem_map.mp ha
    rw [eq_init_of_mem hb] at hSame
    cases hSame
  · intro a ha b hb hSame
    obtain ⟨decl, hDecl, rfl⟩ := List.mem_map.mp hb
    rcases List.mem_append.mp ha with ha | ha
    · obtain ⟨decl', hDecl', rfl⟩ := List.mem_map.mp ha
      exact (List.nodup_append.mp hEntered).2.2 decl'.name
        (List.mem_append_right _ (List.mem_map_of_mem hDecl')) decl.name
        (List.mem_map_of_mem hDecl) (hGlobal hSame)
    · rw [eq_init_of_mem ha] at hSame
      cases hSame
  · intro a ha b hb hSame
    obtain ⟨struct, name, rfl⟩ := exists_method_of_mem hb
    rcases List.mem_append.mp ha with ha | ha
    · rcases List.mem_append.mp ha with ha | ha
      · obtain ⟨decl, -, rfl⟩ := List.mem_map.mp ha
        cases hSame
      · rw [eq_init_of_mem ha] at hSame
        cases hSame
    · obtain ⟨decl, -, rfl⟩ := List.mem_map.mp ha
      cases hSame

theorem coveredBy_symbols (hLength : structs.length = module.file.methods.length) :
    module.CoveredBy (module.symbols structs) where
  globals name hName := by
    unfold symbols
    simp only [List.mem_append, List.mem_map]
    rcases List.mem_append.mp hName with hVar | hFunc
    · obtain ⟨decl, hDecl, rfl⟩ := List.mem_map.mp hVar
      exact .inl (.inl (.inl ⟨decl, hDecl, rfl⟩))
    · obtain ⟨decl, hDecl, rfl⟩ := List.mem_map.mp hFunc
      exact .inl (.inr ⟨decl, hDecl, rfl⟩)
  methods decl hDecl := by
    obtain ⟨index, hIndex⟩ := List.mem_iff_getElem?.mp hDecl
    have hLess : index < structs.length := hLength ▸ (List.getElem?_eq_some_iff.mp hIndex).1
    refine ⟨structs[index], List.mem_append_right _ (List.mem_iff_getElem?.mpr ⟨index, ?_⟩)⟩
    rw [List.getElem?_zipWith_eq_some]
    exact ⟨structs[index], decl, List.getElem?_eq_getElem hLess, hIndex, rfl⟩
  inits hSome := by
    obtain ⟨decl, hDecl, hInit⟩ := hSome
    have hNotAll : ¬ module.file.vars.all (·.init.isNone) = true := by
      intro hAll
      have hNone := List.all_eq_true.mp hAll decl hDecl
      rw [Option.isNone_iff_eq_none.mp hNone] at hInit
      cases hInit
    unfold symbols
    rw [if_neg hNotAll]
    simp

namespace Built

/-- The methods go by the names of some structs. -/
theorem exists_structs {package : String} {methods : List Method} {decls : List FuncDecl}
    (h : List.Forall₂ (Method.Implements package) methods decls) :
    ∃ structs : List String, structs.length = decls.length ∧ methods.map (·.cName) =
        (List.zipWith (fun struct decl => Symbol.method package struct decl.name) structs decls).map
          Symbol.cName ∧
      (List.zipWith (fun method decl => decl.mark method.cName) methods decls).filterMap
          Mark.symbolName? = methods.map (·.cName) := by
  induction h with
  | nil => exact ⟨[], rfl, rfl, rfl⟩
  | @cons method decl methods decls hFirst _ ih =>
      obtain ⟨structs, hLength, hNames, hMarks⟩ := ih
      obtain ⟨record, hPackage, hName⟩ := hFirst
      refine ⟨record.name :: structs, by simp [hLength], ?_, ?_⟩
      · rw [List.map_cons, hNames, hName, Symbol.methodName_eq, hPackage]
        rfl
      · rw [List.zipWith_cons_cons, List.map_cons, ← hMarks,
          List.filterMap_cons_some (FuncDecl.symbolName?_mark decl method.cName)]

/-- What is written for a module defines its symbols. -/
theorem symbolNames_marks (hNames : module.methods.map (·.cName) =
      (List.zipWith (fun struct decl => Symbol.method module.name struct decl.name) structs
        module.file.methods).map Symbol.cName)
    (hMarks : (List.zipWith (fun method decl => decl.mark method.cName) module.methods
      module.file.methods).filterMap Mark.symbolName? = module.methods.map (·.cName)) :
    module.marks.filterMap Mark.symbolName? = (module.symbols structs).map Symbol.cName := by
  have hFuncs : (module.file.funcs.map fun decl =>
      decl.mark (Declaration.cName module.name decl.name)).filterMap Mark.symbolName? =
      module.file.funcs.map fun decl => Declaration.cName module.name decl.name := by
    rw [List.filterMap_map, ← List.filterMap_eq_map]
    exact List.filterMap_congr fun decl _ => decl.symbolName?_mark _
  have hInits : module.inits.filterMap Mark.symbolName? =
      (if module.file.vars.all (·.init.isNone) then [] else [Symbol.init module.name]).map
        Symbol.cName := by
    have hName : module.name ++ "__INIT" = (Symbol.init module.name).cName := by
      rw [Symbol.cName, Symbol.module, Symbol.suffix, String.append_assoc]
      rfl
    unfold inits
    split
    · rfl
    · rw [List.map_singleton, ← hName]
      rfl
  have hDeclared : module.declarations.filterMap Mark.symbolName? =
      module.file.vars.map fun decl => Declaration.cName module.name decl.name := by
    unfold declarations
    simp [List.filterMap_append, List.filterMap_map, Function.comp_def, Mark.symbolName?]
  unfold marks definitions symbols
  rw [List.filterMap_append, List.filterMap_append, List.filterMap_append, hDeclared, hInits,
    hFuncs, hMarks, hNames]
  simp only [List.map_append, List.map_map, List.append_assoc]
  rfl

/-- What is written for a module defines its symbols, and each of them once. -/
theorem exists_symbols (h : module.Built) :
    ∃ structs : List String, structs.length = module.file.methods.length ∧
      module.marks.filterMap Mark.symbolName? = (module.symbols structs).map Symbol.cName ∧
      (module.symbols structs).Nodup := by
  obtain ⟨structs, hLength, hNames, hMarks⟩ := exists_structs h.methods
  have hMethods : (List.zipWith (fun struct decl => Symbol.method module.name struct decl.name)
      structs module.file.methods).Nodup := by
    refine List.Nodup.of_map Symbol.cName ?_
    rw [← hNames]
    exact h.distinct
  exact ⟨structs, hLength, symbolNames_marks hNames hMarks, h.entered.nodup_symbols hMethods⟩

end Built

end Module

/-! ## Symbols of a session -/

/-- A session all of whose modules are complete, those that are `pending` apart, and whose output
is what was written for the complete ones. -/
structure Session.Accounts (pending : ModuleId → Prop) (session : Session) : Prop where
  names : (session.program.modules.map (·.name)).Nodup
  distinct : session.finished.Nodup
  complete : ∀ id ∈ session.finished, ∃ module, session.program.module? id = some module ∧
    module.Built
  all : ∀ id < session.program.modules.length, id ∈ session.finished ∨ pending id
  marks : session.output.toList.filterMap CItem.mark? =
    session.finished.flatMap fun id => ((session.program.module? id).map Module.marks).getD []

/-- An action that leaves no more modules pending, if it succeeds. -/
def SessionM.Accounting {α : Type} (action : SessionM α) : Prop :=
  ∀ pending session, session.Accounts pending →
    Runs (fun _ _ => True) session action fun _ after => after.Accounts pending

namespace Job

variable {job : Job} {start session after : Session} {pending : ModuleId → Prop}

/-- A step of a module that is not complete and writes nothing. -/
theorem Touches.accounts (hTouches : job.Touches session after) (h : session.Accounts pending)
    (hOpen : job.id ∉ session.finished) (hOutput : after.output = session.output) :
    after.Accounts pending := by
  have hSame (id : ModuleId) (hId : id ∈ session.finished) :
      after.program.module? id = session.program.module? id :=
    hTouches.others id fun hOwn => hOpen (hOwn ▸ hId)
  refine ⟨?_, ?_, ?_, ?_, ?_⟩
  · rw [hTouches.names]
    exact h.names
  · rw [hTouches.finished]
    exact h.distinct
  · intro id hId
    rw [hTouches.finished] at hId
    rw [hSame id hId]
    exact h.complete id hId
  · rw [hTouches.finished, hTouches.count]
    exact h.all
  · rw [hTouches.finished, hOutput, h.marks]
    exact List.flatMap_congr fun id hId => by rw [hSame id hId]

/-- Modules that are imported meanwhile are other ones. -/
theorem Follows.open (h : job.Follows start session) (hJob : job.id < start.program.modules.length)
    (hOpen : job.id ∉ start.finished) : job.id ∉ session.finished := by
  obtain ⟨blocks, ids, -, -, hRange, hFinished, hWritten, -⟩ := h.grows.blocks
  rw [hFinished]
  intro hMem
  rcases List.mem_append.mp hMem with hMem | hMem
  · exact hOpen hMem
  · obtain ⟨module, items, -, hBlock, -⟩ := hWritten job.id hMem
    have hLater : start.program.modules.length ≤ job.id := (hRange _ hBlock).1
    exact absurd hJob (Nat.not_lt.mpr hLater)

theorem accounts_buildImport
    (hImporter : ∀ name asking span, SessionM.Seeks name (importer name asking span))
    (hAccounting : ∀ name asking span, SessionM.Accounting (importer name asking span))
    (hJob : job.id < start.program.modules.length) (hOpen : job.id ∉ start.finished)
    (decl : ImportDecl) (hFollows : job.Follows start session) (h : session.Accounts pending) :
    Runs (fun _ _ => True) session (SessionM.buildImport importer job decl) fun _ after =>
      job.Follows start after ∧ after.Accounts pending := by
  have hNext := (hFollows.buildImport hImporter hJob decl).weaken fun _ _ _ => trivial
  suffices hAccounts : Runs (fun _ _ => True) session (SessionM.buildImport importer job decl)
      fun _ after => after.Accounts pending from hNext.both hAccounts
  refine Runs.bind ((hAccounting _ _ _ pending session h).both
    ((hImporter decl.name job.package decl.span session).weaken fun _ _ _ => trivial))
      fun target imported hImported => ?_
  obtain ⟨hAccounts, hProvides⟩ := hImported
  have hStill : job.Follows start imported := by
    obtain ⟨module, hModule, hAwaits⟩ := hFollows.awaits
    obtain ⟨same, hFound, -, hSame⟩ := hProvides.grows.modules job.id module hModule
    rw [hSame False.elim] at hFound
    refine ⟨hFollows.grows.trans (hProvides.grows.mono fun _ hId => hId.elim) fun id hId => ?_,
      module, hFound, hAwaits⟩
    exact hId ▸ hJob
  refine Runs.mono (Runs.weaken (does_setValue decl.name (.module target)) fun _ _ _ => trivial)
    fun _ after hAfter => ?_
  obtain ⟨hTouches, rfl⟩ := hAfter
  exact hTouches.accounts hAccounts (hStill.open hJob hOpen) rfl

/-- A module that is written as a whole may be noted as complete. -/
theorem Writing.accounts {module : Module} {declared init defined : List CItem}
    (h : session.Accounts fun id => pending id ∨ id = job.id) (hOpen : job.id ∉ session.finished)
    (hTouches : job.Touches session after)
    (hWriting : job.Writing (fun _ => True) module after.program declared init defined)
    (hOutput : after.output.toList = session.output.toList ++ (declared ++ init ++ defined)) :
    { after with finished := after.finished ++ [job.id] }.Accounts pending := by
  have hSame (id : ModuleId) (hId : id ∈ session.finished) :
      after.program.module? id = session.program.module? id :=
    hTouches.others id fun hOwn => hOpen (hOwn ▸ hId)
  have hBuilt : module.Built := by
    obtain ⟨done, hDone, hMethods, -⟩ := hWriting.complete.methods
    rw [List.append_nil] at hDone
    refine ⟨hWriting.complete.entered, ?_, hWriting.complete.distinct⟩
    rw [hWriting.complete.name, hWriting.complete.file, hDone]
    exact hMethods
  refine ⟨?_, ?_, ?_, ?_, ?_⟩
  · show (after.program.modules.map (·.name)).Nodup
    rw [hTouches.names]
    exact h.names
  · show (after.finished ++ [job.id]).Nodup
    rw [hTouches.finished]
    refine List.nodup_append.mpr ⟨h.distinct, List.nodup_singleton _, ?_⟩
    rintro id hId other hOther rfl
    exact hOpen (List.mem_singleton.mp hOther ▸ hId)
  · show ∀ id ∈ after.finished ++ [job.id], _
    intro id hId
    rw [hTouches.finished] at hId
    rcases List.mem_append.mp hId with hId | hId
    · obtain ⟨found, hFound, hComplete⟩ := h.complete id hId
      exact ⟨found, (hSame id hId).trans hFound, hComplete⟩
    · rw [List.mem_singleton.mp hId]
      exact ⟨module, hWriting.found, hBuilt⟩
  · show ∀ id < after.program.modules.length, id ∈ after.finished ++ [job.id] ∨ pending id
    intro id hId
    rw [hTouches.count] at hId
    rw [hTouches.finished]
    rcases h.all id hId with hDone | hPending | rfl
    · exact .inl (List.mem_append_left _ hDone)
    · exact .inr hPending
    · exact .inl (List.mem_append_right _ List.mem_cons_self)
  · show after.output.toList.filterMap CItem.mark? = (after.finished ++ [job.id]).flatMap fun id =>
      ((after.program.module? id).map Module.marks).getD []
    rw [hOutput, hTouches.finished, List.filterMap_append, List.flatMap_append, h.marks,
      List.flatMap_singleton, hWriting.found, List.filterMap_append, List.filterMap_append,
      hWriting.declares, hWriting.sets, hWriting.defines]
    refine congrArg (· ++ module.marks) ?_
    exact List.flatMap_congr fun id hId => by rw [hSame id hId]

/-- Compiling the declarations of a module that has become known. -/
theorem accounts_compileJob
    (hImporter : ∀ name asking span, SessionM.Seeks name (importer name asking span))
    (hAccounting : ∀ name asking span, SessionM.Accounting (importer name asking span))
    (hModule : start.program.module? job.id = some (Module.ofFile job.package job.file))
    (hOpen : job.id ∉ start.finished) (h : start.Accounts fun id => pending id ∨ id = job.id) :
    Runs (fun _ _ => True) start (SessionM.compileJob importer job) fun _ after =>
      { after with finished := after.finished ++ [job.id] }.Accounts pending := by
  have hJob : job.id < start.program.modules.length := (List.getElem?_eq_some_iff.mp hModule).1
  rw [SessionM.compileJob_eq]
  refine Runs.bind (Runs.weaken (does_declareAll hModule) fun _ _ _ => trivial)
    fun _ declared hDeclared => ?_
  obtain ⟨hTouches, module, hFound, hAwaits, hMethods, hOutput⟩ := hDeclared
  refine Runs.bind (Runs.forM_mem (fun now => job.Follows start now ∧
    now.Accounts fun id => pending id ∨ id = job.id) ?_ fun decl _ before hBefore =>
      accounts_buildImport hImporter hAccounting hJob hOpen decl hBefore.1 hBefore.2)
        fun _ imported hImported => ?_
  · exact ⟨⟨.of_touches hTouches hOutput, module, hFound, hAwaits⟩,
      hTouches.accounts h hOpen hOutput⟩
  · obtain ⟨hFollows, hAccounts⟩ := hImported
    have hStill := hFollows.open hJob hOpen
    obtain ⟨module, hFound, hAwaits⟩ := hFollows.awaits
    refine ((hAwaits.fills hFound .anything).compileOwn.weaken fun _ _ _ => trivial).mono
      fun _ after hAfter => ?_
    obtain ⟨hTouches, module, declared, init, defined, hWriting, hOutput⟩ := hAfter
    exact hWriting.accounts hAccounts hStill hTouches hOutput

theorem accounts_registered {name : String} {file : SourceFile} (h : session.Accounts pending)
    (hNew : session.program.find? name = none) :
    (registered session name file).Accounts fun id =>
      pending id ∨ id = session.program.modules.length := by
  have hSame (id : ModuleId) (hId : id ∈ session.finished) :
      (registered session name file).program.module? id = session.program.module? id := by
    obtain ⟨module, hModule, -⟩ := h.complete id hId
    exact List.getElem?_append_left (List.getElem?_eq_some_iff.mp hModule).1
  refine ⟨Session.names_registered hNew h.names, h.distinct, ?_, ?_, ?_⟩
  · intro id hId
    rw [hSame id hId]
    exact h.complete id hId
  · intro id hId
    have hLess : id < session.program.modules.length + 1 := by
      simpa [registered] using hId
    rcases Nat.lt_succ_iff_lt_or_eq.mp hLess with hOld | hLast
    · exact (h.all id hOld).imp_right .inl
    · exact .inr (.inr hLast)
  · rw [show (registered session name file).output = session.output from rfl, h.marks]
    exact List.flatMap_congr fun id hId => by rw [hSame id hId]

end Job

/-- Every session of a program accounts for its modules. -/
theorem SessionM.accounts_invariant : Invariant Session.Accounts where
  builtin _ _ _ h := ⟨h.names, h.distinct, h.complete, h.all, h.marks⟩
  job hImporter hAccounting _ session _ _ hNew h := by
    have hOpen : session.program.modules.length ∉ session.finished := by
      intro hMem
      obtain ⟨module, hFound, -⟩ := h.complete _ hMem
      exact Nat.lt_irrefl _ (List.getElem?_eq_some_iff.mp hFound).1
    exact Job.accounts_compileJob hImporter hAccounting List.getElem?_concat_length hOpen
      (Job.accounts_registered h hNew)

/-- A program that starts from nothing but headers. -/
theorem SessionM.accounts_compileProgram (library : Library) (withBuiltin : Bool) (text : String) :
    Runs (fun _ _ => True) Session.empty (compileProgram library withBuiltin text)
      fun _ after => after.Accounts fun _ => False := by
  refine accounts_invariant.compileProgram ⟨.nil, .nil, ?_, ?_, rfl⟩ library withBuiltin text
  · intro id hId
    cases hId
  · intro id hId
    exact absurd hId (Nat.not_lt_zero id)

namespace Session

/-- Where no name is used twice, a module is known by its name. -/
theorem Accounts.id_eq (h : session.Accounts pending) {id id' : ModuleId}
    {module module' : Module} (hModule : session.program.module? id = some module)
    (hModule' : session.program.module? id' = some module') (hName : module.name = module'.name) :
    id = id' := by
  have hFound := (Program.find?_eq_some_iff h.names).mpr ⟨module, hModule, hName⟩
  have hFound' := (Program.find?_eq_some_iff h.names).mpr ⟨module', hModule', rfl⟩
  exact Option.some.inj (hFound.symm.trans hFound')

/-- Some modules that are complete, with their symbols. -/
theorem Accounts.exists_symbols_of (h : session.Accounts pending) {ids : List ModuleId}
    (hDistinct : ids.Nodup)
    (hComplete : ∀ id ∈ ids, ∃ module, session.program.module? id = some module ∧ module.Built) :
    ∃ symbols : List Symbol, symbols.Nodup ∧
      (ids.flatMap fun id => ((session.program.module? id).map Module.marks).getD []).filterMap
          Mark.symbolName? = symbols.map Symbol.cName ∧
      (∀ symbol ∈ symbols, ∃ id ∈ ids, ∃ module, session.program.module? id = some module ∧
        symbol.module = module.name) ∧
      ∀ id ∈ ids, ∀ module, session.program.module? id = some module →
        module.CoveredBy symbols := by
  induction ids with
  | nil => exact ⟨[], .nil, rfl, by simp, by simp⟩
  | cons id ids ih =>
      obtain ⟨hFresh, hRest⟩ := List.nodup_cons.mp hDistinct
      obtain ⟨symbols, hNodup, hNames, hOwners, hCovered⟩ :=
        ih hRest (List.forall_mem_cons.mp hComplete).2
      obtain ⟨module, hModule, hBuilt⟩ := hComplete id List.mem_cons_self
      obtain ⟨structs, hLength, hMarks, hOwn⟩ := hBuilt.exists_symbols
      refine ⟨module.symbols structs ++ symbols, ?_, ?_, ?_, ?_⟩
      · refine List.nodup_append.mpr ⟨hOwn, hNodup, ?_⟩
        rintro symbol hMem _ hOther rfl
        obtain ⟨id', hId', module', hModule', hName⟩ := hOwners symbol hOther
        rw [Module.module_of_mem_symbols hMem] at hName
        exact hFresh (h.id_eq hModule hModule' hName ▸ hId')
      · rw [List.flatMap_cons, List.filterMap_append, hNames, hModule, List.map_append]
        exact congrArg (· ++ _) hMarks
      · intro symbol hMem
        rcases List.mem_append.mp hMem with hMem | hMem
        · exact ⟨id, List.mem_cons_self, module, hModule, Module.module_of_mem_symbols hMem⟩
        · obtain ⟨id', hId', hFound⟩ := hOwners symbol hMem
          exact ⟨id', List.mem_cons_of_mem id hId', hFound⟩
      · intro id' hId' module' hModule'
        rcases List.mem_cons.mp hId' with rfl | hId'
        · obtain rfl : module = module' := Option.some.inj (hModule.symm.trans hModule')
          exact (Module.coveredBy_symbols hLength).mono fun _ => List.mem_append_left _
        · exact (hCovered id' hId' module' hModule').mono fun _ => List.mem_append_right _

/-- The output of a session without pending modules defines the symbols of all of them. -/
theorem Accounts.exists_symbols (h : session.Accounts fun _ => False) :
    ∃ symbols : List Symbol, symbols.Nodup ∧
      session.output.toList.filterMap CItem.symbolName? = symbols.map Symbol.cName ∧
      ∀ module ∈ session.program.modules, module.CoveredBy symbols := by
  obtain ⟨symbols, hNodup, hNames, -, hCovered⟩ := h.exists_symbols_of h.distinct h.complete
  refine ⟨symbols, hNodup, ?_, fun module hModule => ?_⟩
  · rw [← hNames, ← h.marks, List.filterMap_filterMap]
    rfl
  · obtain ⟨id, hId⟩ := List.mem_iff_getElem?.mp hModule
    have hDone := (h.all id (List.getElem?_eq_some_iff.mp hId).1).resolve_right not_false
    exact hCovered id hDone module hId

end Session

/-! ## Methods that are accepted -/

/-- A method whose signature compiles is given to the struct that its receiver points to, unless
another method of the module goes by its C name. -/
theorem Job.buildMethod_accepted {job : Job} {module : Module} {index : Nat} {decl : FuncDecl}
    {func : FuncType Ty} {routine : Routine} {record : StructType Ty}
    (hModule : session.program.module? job.id = some module)
    (hRun : (compileSignature decl.receiver decl.signature).exec (job.env session)
      (Routine.start session.supply) = (.ok func, routine))
    (hReceiver : session.program.types.pointeeStruct?
      ((func.inputs.head?.map (·.type)).getD (.prim .void)) = .ok (some record))
    (hPackage : record.package = job.package)
    (hNew : ∀ method ∈ module.methods, method.cName ≠ SessionM.methodName record decl.name) :
    ∃ after, (SessionM.buildMethod job index decl).exec session = (.ok (), after) := by
  let next : Session := { session with supply := routine.supply }
  suffices hAccepted : Runs (fun _ _ => False) session (SessionM.buildMethod job index decl)
      fun _ _ => True by
    unfold Runs at hAccepted
    split at hAccepted
    · next after hDone => exact ⟨after, hDone⟩
    · exact hAccepted.elim
  have hIsolated : Runs (fun _ _ => False) session
      (SessionM.isolated job (compileSignature decl.receiver decl.signature)) fun found after =>
        found = func ∧ after = next := by
    rw [Runs, isolated_exec, hRun]
    exact ⟨rfl, rfl⟩
  have hStruct : Runs (fun _ _ => False) next
      (SessionM.receiverStruct? job ((func.inputs.head?.map (·.type)).getD (.prim .void)))
        fun found after => found = some record ∧ after = next := by
    have hTypes : Runs (fun _ _ => False) next (SessionM.types (·.pointeeStruct?
        ((func.inputs.head?.map (·.type)).getD (.prim .void)))) fun found after =>
          found = some record ∧ after = next := by
      refine Runs.get.bind fun now last hNow => ?_
      rw [hNow.1, hNow.2]
      show Runs _ next (SessionM.lift (session.program.types.pointeeStruct? _)) _
      rw [hReceiver]
      exact ⟨rfl, rfl⟩
    refine hTypes.bind fun found last hFound => .pure ⟨?_, hFound.2⟩
    rw [hFound.1]
    simp [hPackage]
  refine hIsolated.bind fun found last hFound => ?_
  rw [hFound.1, hFound.2]
  refine hStruct.bind fun found last hFound => ?_
  rw [hFound.1, hFound.2]
  refine Runs.get.bind fun now last hNow => ?_
  have hFree : ((((now.program.module? job.id).map (·.methods)).getD []).find?
      (·.cName == SessionM.methodName record decl.name)) = none := by
    rw [hNow.1, show next.program.module? job.id = some module from hModule]
    simpa [List.find?_eq_none] using hNew
  rw [hFree]
  exact Runs.get.bind fun _ _ _ => (Runs.changed _).bind fun _ _ _ =>
    (Runs.changed _).mono fun _ _ _ => trivial

/-! ## All symbols -/

/-- A struct beside a function that is not spelled like a method. -/
def separateSource : String :=
  "type A struct \x7b\n\x7d\nfunc f() \x7b\n\x7d\n"

/-- A method of the struct that goes by the name of the function. -/
def methodOfA : FuncDecl where
  receiver := some ⟨"a", .pointerType ⟨0, 2⟩ (.ident ⟨1, 2⟩ "A"), ⟨0, 2⟩⟩
  name := "f"
  signature := ⟨false, [], []⟩
  body := some []
  span := ⟨0, 2⟩

private theorem ok_of_toOption {ε α : Type} {result : Except ε α} {a : α}
    (h : result.toOption = some a) : result = .ok a := by
  cases result with
  | error failure => cases h
  | ok b => exact congrArg Except.ok (Option.some.inj h)

/-- A function that is spelled like a method of a struct. -/
def spelledSource : String :=
  "type A struct \x7b\n\x7d\nfunc A__m() \x7b\n\x7d\nfunc (a *A) m() \x7b\n\x7d\n"

/-- Methods of two structs that are spelled alike together with the names of their structs. -/
def dividedSource : String :=
  "type A struct \x7b\n\x7d\ntype A__b struct \x7b\n\x7d\n" ++
    "func (a *A__b) c() \x7b\n\x7d\nfunc (a *A) b__c() \x7b\n\x7d\n"

end GoToC
