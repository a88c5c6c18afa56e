import GoToC.Proofs.Grammar.Bounds
import GoToC.Proofs.Session.Compiled

/-!
# The order of modules

Modules are listed in the order in which their compilation is complete. A module that is imported
is complete before the one that imports it, unless it is still on its way, and then it has come to
that one by imports of its own. So modules are listed against the order of their imports only
where they import each other in a cycle.
-/

namespace GoToC

variable {id target : ModuleId} {job : Job} {before session : Session}

open Relation (ReflTransGen TransGen)

/-- A module of a program imports another one. -/
def Program.Imports (program : Program) (id target : ModuleId) : Prop :=
  ∃ module imported, program.module? id = some module ∧ program.module? target = some imported ∧
    ∃ decl ∈ module.file.imports, decl.name = imported.name

/-- A program that knows all modules of another one, by their names and files. -/
def Program.Embeds (before after : Program) : Prop :=
  ∀ id module, before.module? id = some module →
    ∃ module', after.module? id = some module' ∧ module'.name = module.name ∧
      module'.file = module.file

namespace Program.Embeds

variable {first second third : Program}

theorem of_modules (h : second.modules = first.modules) : first.Embeds second :=
  fun _ module hModule => ⟨module, by rwa [module?, h], rfl, rfl⟩

theorem trans (h : first.Embeds second) (h' : second.Embeds third) : first.Embeds third := by
  intro id module hModule
  obtain ⟨module', hModule', hName, hFile⟩ := h id module hModule
  obtain ⟨module'', hModule'', hName', hFile'⟩ := h' id module' hModule'
  exact ⟨module'', hModule'', hName'.trans hName, hFile'.trans hFile⟩

theorem count_le (h : first.Embeds second) : first.modules.length ≤ second.modules.length := by
  refine Nat.le_of_not_lt fun hLess => ?_
  obtain ⟨_, hFound, -⟩ := h _ _ (List.getElem?_eq_getElem hLess)
  exact Nat.lt_irrefl _ (List.getElem?_eq_some_iff.mp hFound).1

theorem imports (h : first.Embeds second) (hImports : first.Imports id target) :
    second.Imports id target := by
  obtain ⟨module, imported, hModule, hImported, decl, hDecl, hName⟩ := hImports
  obtain ⟨module', hModule', -, hFile⟩ := h id module hModule
  obtain ⟨imported', hImported', hSame, -⟩ := h target imported hImported
  exact ⟨module', imported', hModule', hImported', decl, hFile ▸ hDecl, hName.trans hSame.symm⟩

theorem reaches (h : first.Embeds second) (hReaches : ReflTransGen first.Imports id target) :
    ReflTransGen second.Imports id target := by
  have hImports : first.Imports ≤ second.Imports := fun _ _ => h.imports
  exact ReflTransGen.mono hImports _ _ hReaches

end Program.Embeds

theorem Job.Touches.embeds {after : Session} (h : job.Touches before after) :
    before.program.Embeds after.program := by
  intro id module hModule
  by_cases hId : id = job.id
  · have hOwn := h.own
    rw [← hId, hModule] at hOwn
    obtain ⟨module', hModule', hSame⟩ := Option.map_eq_some_iff.mp hOwn
    exact ⟨module', hModule', congrArg Prod.fst hSame, congrArg Prod.snd hSame⟩
  · exact ⟨module, (h.others id hId).trans hModule, rfl, rfl⟩

theorem Job.Known.embeds {after : Session} (h : job.Known before)
    (hEmbeds : before.program.Embeds after.program) : job.Known after := by
  obtain ⟨module, hModule, hName, hFile⟩ := h
  obtain ⟨module', hModule', hName', hFile'⟩ := hEmbeds job.id module hModule
  exact ⟨module', hModule', hName'.trans hName, hFile'.trans hFile⟩

/-- A module that is known but not complete. -/
def Session.Unfinished (session : Session) (id : ModuleId) : Prop :=
  id < session.program.modules.length ∧ id ∉ session.finished

theorem Session.finished_or_unfinished {module : Module}
    (h : session.program.module? id = some module) :
    id ∈ session.finished ∨ session.Unfinished id :=
  or_iff_not_imp_left.mpr fun hNew => ⟨(List.getElem?_eq_some_iff.mp h).1, hNew⟩

/-- A source of a library. -/
def Library.Offers (library : Library) (name text : String) : Prop := library.load name = .ok text

/-- A source of a library, or one more that is the source of a given name. -/
def Library.OffersWith (library : Library) (name text other content : String) : Prop :=
  other = name ∧ content = text ∨ library.load other = .ok content

/-! ## Modules that are compiled on the way -/

/-- Where an import of a module leads that was compiled on the way from one session to another: to
a module that was complete before, to one that was on its way from the start, or to one that has
come to this module by imports of its own. -/
def Session.Orders (before after : Session) (id target : ModuleId) : Prop :=
  List.Sublist [target, id] after.finished ∨ before.Unfinished target ∨
    ReflTransGen after.program.Imports target id

/-- A module that was compiled on the way from one session to another because some roots have led
to it. Its source is one of its name, and all that it imports is known. -/
structure Session.Brings (source : String → String → Prop) (roots : ModuleId → Prop)
    (before after : Session) (id : ModuleId) : Prop where
  reached : ∃ root, roots root ∧ ReflTransGen after.program.Imports root id
  module : ∃ module text, after.program.module? id = some module ∧ source module.name text ∧
    parse text = .ok module.file ∧
    ∀ decl ∈ module.file.imports, ∃ target imported, after.program.module? target = some imported ∧
      imported.name = decl.name ∧ before.Orders after id target

/-- A session that has come from another one by compiling modules, all of which are complete. -/
structure Session.Completes (source : String → String → Prop) (roots : ModuleId → Prop)
    (before after : Session) : Prop where
  embeds : before.program.Embeds after.program
  distinct : (before.program.modules.map (·.name)).Nodup →
    (after.program.modules.map (·.name)).Nodup
  added : ∃ ids : List ModuleId, after.finished = before.finished ++ ids ∧ ids.Nodup ∧
    (∀ id : Nat, id ∈ ids ↔ before.program.modules.length ≤ id ∧
      id < after.program.modules.length) ∧
    ∀ id ∈ ids, before.Brings source roots after id

namespace Session.Completes

variable {source source' : String → String → Prop} {roots roots' : ModuleId → Prop}
  {first second third : Session}

/-- Nothing is compiled. -/
theorem of_embeds (hEmbeds : first.program.Embeds second.program)
    (hNames : second.program.modules.map (·.name) = first.program.modules.map (·.name))
    (hFinished : second.finished = first.finished) : first.Completes source roots second where
  embeds := hEmbeds
  distinct hDistinct := hNames ▸ hDistinct
  added := by
    have hCount : second.program.modules.length = first.program.modules.length := by
      simpa using congrArg List.length hNames
    refine ⟨[], by simp [hFinished], List.nodup_nil, fun id => ?_, by simp⟩
    simp only [List.not_mem_nil, false_iff, hCount]
    exact fun h => Nat.lt_irrefl _ (Nat.lt_of_le_of_lt h.1 h.2)

theorem refl (session : Session) : session.Completes source roots session :=
  of_embeds (.of_modules rfl) rfl rfl

theorem of_touches (h : job.Touches first second) : first.Completes source roots second :=
  of_embeds h.embeds h.names h.finished

theorem mono (h : first.Completes source roots second)
    (hSource : ∀ name text, source name text → source' name text)
    (hRoots : ∀ root id, roots root → ReflTransGen second.program.Imports root id →
      ∃ root', roots' root' ∧ ReflTransGen second.program.Imports root' id) :
    first.Completes source' roots' second where
  embeds := h.embeds
  distinct := h.distinct
  added := by
    obtain ⟨ids, hFinished, hNodup, hIds, hBrings⟩ := h.added
    refine ⟨ids, hFinished, hNodup, hIds, fun id hId => ?_⟩
    obtain ⟨⟨root, hRoot, hReaches⟩, module, text, hModule, hText, hRest⟩ := hBrings id hId
    exact ⟨hRoots root id hRoot hReaches, module, text, hModule, hSource _ _ hText, hRest⟩

/-- Modules that are not complete in the end were not so at the start. -/
theorem unfinished (h : first.Completes source roots second) (hUnfinished : second.Unfinished id) :
    first.Unfinished id := by
  obtain ⟨ids, hFinished, -, hIds, -⟩ := h.added
  obtain ⟨hLess, hNotFinished⟩ := hUnfinished
  rw [hFinished, List.mem_append, not_or] at hNotFinished
  refine ⟨Nat.lt_of_not_le fun hLe => hNotFinished.2 ((hIds id).mpr ⟨hLe, hLess⟩), hNotFinished.1⟩

theorem trans (h : first.Completes source roots second) (h' : second.Completes source roots third) :
    first.Completes source roots third where
  embeds := h.embeds.trans h'.embeds
  distinct hDistinct := h'.distinct (h.distinct hDistinct)
  added := by
    obtain ⟨ids, hFinished, hNodup, hIds, hBrings⟩ := h.added
    obtain ⟨ids', hFinished', hNodup', hIds', hBrings'⟩ := h'.added
    have hCount := h.embeds.count_le
    have hCount' := h'.embeds.count_le
    refine ⟨ids ++ ids', by rw [hFinished', hFinished, List.append_assoc], ?_, fun id => ?_,
      fun id hId => ?_⟩
    · refine List.nodup_append.mpr ⟨hNodup, hNodup', ?_⟩
      rintro id hId _ hOther rfl
      exact Nat.lt_irrefl _ (Nat.lt_of_lt_of_le ((hIds id).mp hId).2 ((hIds' id).mp hOther).1)
    · rw [List.mem_append, hIds, hIds']
      omega
    · rcases List.mem_append.mp hId with hId | hId
      · obtain ⟨⟨root, hRoot, hReaches⟩, module, text, hModule, hText, hParse, hImports⟩ :=
          hBrings id hId
        obtain ⟨module', hModule', hName, hFile⟩ := h'.embeds id module hModule
        refine ⟨⟨root, hRoot, h'.embeds.reaches hReaches⟩, module', text, hModule', hName ▸ hText,
          hFile ▸ hParse, fun decl hDecl => ?_⟩
        obtain ⟨target, imported, hImported, hSame, hOrders⟩ := hImports decl (hFile ▸ hDecl)
        obtain ⟨imported', hImported', hSame', -⟩ := h'.embeds target imported hImported
        refine ⟨target, imported', hImported', hSame'.trans hSame, ?_⟩
        rcases hOrders with hBefore | hStart | hCycle
        · refine .inl ?_
          rw [hFinished']
          exact hBefore.trans (List.sublist_append_left _ _)
        · exact .inr (.inl hStart)
        · exact .inr (.inr (h'.embeds.reaches hCycle))
      · obtain ⟨hReached, module, text, hModule, hText, hParse, hImports⟩ := hBrings' id hId
        refine ⟨hReached, module, text, hModule, hText, hParse, fun decl hDecl => ?_⟩
        obtain ⟨target, imported, hImported, hSame, hOrders⟩ := hImports decl hDecl
        exact ⟨target, imported, hImported, hSame, hOrders.imp_right (Or.imp_left h.unfinished)⟩

end Session.Completes

/-! ## Modules with their imports -/

/-- The module of a name is known in the end, and if it is not complete then it was on its way
from the start. -/
def Session.Finds (before after : Session) (name : String) (id : ModuleId) : Prop :=
  ∃ module, after.program.module? id = some module ∧ module.name = name ∧
    (id ∈ after.finished ∨ before.Unfinished id)

theorem Session.Finds.of_find? {name : String} (h : session.program.find? name = some id) :
    session.Finds session name id := by
  obtain ⟨module, hModule, hName⟩ := Program.find?_eq_some h
  exact ⟨module, hModule, hName, finished_or_unfinished hModule⟩

namespace Session.Finds

variable {source : String → String → Prop} {roots : ModuleId → Prop} {first second third : Session}
  {name : String} {id : ModuleId}

/-- What was found stays found while more modules are compiled. -/
theorem trans (h : first.Finds second name id) (h' : second.Completes source roots third) :
    first.Finds third name id := by
  obtain ⟨module, hModule, hName, hFinished⟩ := h
  obtain ⟨module', hModule', hName', -⟩ := h'.embeds id module hModule
  obtain ⟨ids, hIds, -⟩ := h'.added
  refine ⟨module', hModule', hName'.trans hName, hFinished.imp_left fun hMem => ?_⟩
  rw [hIds]
  exact List.mem_append_left _ hMem

/-- What is found later was found from the start on. -/
theorem after (h : second.Finds third name id) (h' : first.Completes source roots second) :
    first.Finds third name id := by
  obtain ⟨module, hModule, hName, hFinished⟩ := h
  exact ⟨module, hModule, hName, hFinished.imp_right h'.unfinished⟩

end Session.Finds

/-- The module of a job imports what its declarations lead to. -/
theorem Job.Known.imports {after : Session} {decl : ImportDecl} (h : job.Known after)
    (hFound : before.Finds after decl.name target) (hDecl : decl ∈ job.file.imports) :
    after.program.Imports job.id target := by
  obtain ⟨own, hOwn, -, hFile⟩ := h
  obtain ⟨module, hModule, hName, -⟩ := hFound
  exact ⟨own, module, hOwn, hModule, decl, hFile ▸ hDecl, hName.symm⟩

/-- A module that was new is complete after all that it has led to. -/
theorem Session.Completes.register {library : Library} {session after : Session}
    {name text : String} {file : SourceFile} (hNew : session.program.find? name = none)
    (hParse : parse text = .ok file)
    (h : (Job.registered session name file).Completes library.Offers
      (· = session.program.modules.length) after) (hFinds : ∀ decl ∈ file.imports, ∃ target,
      (Job.registered session name file).Finds after decl.name target) :
    session.Finds { after with finished := after.finished ++ [session.program.modules.length] } name
        session.program.modules.length ∧
      session.Completes (library.OffersWith name text) (· = session.program.modules.length)
        { after with finished := after.finished ++ [session.program.modules.length] } := by
  let id : ModuleId := session.program.modules.length
  have hLength : (Job.registered session name file).program.modules.length =
      session.program.modules.length + 1 := List.length_append
  have hOwn : (Job.registered session name file).program.module? id =
      some (Module.ofFile name file) := List.getElem?_concat_length
  have hOld {target : ModuleId} (hTarget : (Job.registered session name file).Unfinished target) :
      session.Unfinished target ∨ target = id := by
    obtain ⟨hLess, hNotFinished⟩ := hTarget
    rw [hLength] at hLess
    rcases Nat.lt_succ_iff_lt_or_eq.mp hLess with hLess | rfl
    · exact .inl ⟨hLess, hNotFinished⟩
    · exact .inr rfl
  obtain ⟨ids, hFinished, hNodup, hIds, hBrings⟩ := h.added
  rw [hLength] at hIds
  have hCount : session.program.modules.length + 1 ≤ after.program.modules.length :=
    hLength ▸ h.embeds.count_le
  obtain ⟨module, hModule, hName, hFile⟩ := h.embeds id _ hOwn
  refine ⟨⟨module, hModule, hName, .inl (by simp)⟩, ?_,
    fun hDistinct => h.distinct (names_registered hNew hDistinct), ids ++ [id], ?_, ?_,
    fun other => ?_, fun other hOther => ?_⟩
  · intro other module hModule
    exact h.embeds other module
      ((List.getElem?_append_left (List.getElem?_eq_some_iff.mp hModule).1).trans hModule)
  · show after.finished ++ [id] = session.finished ++ (ids ++ [id])
    rw [hFinished, ← List.append_assoc]
    rfl
  · refine List.nodup_append.mpr ⟨hNodup, List.nodup_singleton id, ?_⟩
    rintro other hOther _ hSame rfl
    rw [List.mem_singleton.mp hSame] at hOther
    exact Nat.not_succ_le_self _ ((hIds id).mp hOther).1
  · show other ∈ ids ++ [session.program.modules.length] ↔
      session.program.modules.length ≤ other ∧ other < after.program.modules.length
    rw [List.mem_append, hIds, List.mem_singleton]
    omega
  · rcases List.mem_append.mp hOther with hOther | hOther
    · obtain ⟨⟨root, rfl, hReaches⟩, module, content, hModule, hContent, hRead, hImports⟩ :=
        hBrings other hOther
      refine ⟨⟨_, rfl, hReaches⟩, module, content, hModule, .inr hContent, hRead,
        fun decl hDecl => ?_⟩
      obtain ⟨target, imported, hImported, hSame, hOrders⟩ := hImports decl hDecl
      refine ⟨target, imported, hImported, hSame, ?_⟩
      rcases hOrders with hBefore | hStart | hCycle
      · exact .inl (hBefore.trans (List.sublist_append_left _ _))
      · rcases hOld hStart with hStart | rfl
        · exact .inr (.inl hStart)
        · exact .inr (.inr hReaches)
      · exact .inr (.inr hCycle)
    · obtain rfl := List.mem_singleton.mp hOther
      refine ⟨⟨id, rfl, .refl⟩, module, text, hModule, .inl ⟨hName, rfl⟩, hFile ▸ hParse,
        fun decl hDecl => ?_⟩
      rw [hFile] at hDecl
      obtain ⟨target, imported, hImported, hSame, hKnown⟩ := hFinds decl hDecl
      refine ⟨target, imported, hImported, hSame, ?_⟩
      rcases hKnown with hComplete | hStart
      · exact .inl (List.Sublist.append (List.singleton_sublist.mpr hComplete) (.refl [id]))
      · rcases hOld hStart with hStart | rfl
        · exact .inr (.inl hStart)
        · exact .inr (.inr .refl)

namespace SessionM

variable {library : Library}

mutual

/-- A source that is compiled brings all that it imports. -/
theorem Compiling.completes {name text : String} {session after : Session} {log : List String}
    {result : Except Failure ModuleId} : Compiling library name text session log result after →
      ∀ id, result = .ok id → session.Finds after name id ∧
        session.Completes (library.OffersWith name text) (· = id) after
  | .known hFound => fun id hResult => by
      cases hResult
      exact ⟨.of_find? hFound, .refl session⟩
  | .unread _ _ => nofun
  | .failed _ _ _ => nofun
  | .done hNew hParse hBuilding => fun id hResult => by
      cases hResult
      obtain ⟨hCompletes, hFinds⟩ :=
        Building.completes hBuilding ⟨_, List.getElem?_concat_length, rfl, rfl⟩ rfl
      exact hCompletes.register hNew hParse hFinds

theorem Building.completes {job : Job} {session after : Session} {log : List String}
    {result : Except Failure Unit} : Building library job session log result after →
      job.Known session → result = .ok () →
      session.Completes library.Offers (· = job.id) after ∧
        ∀ decl ∈ job.file.imports, ∃ target, session.Finds after decl.name target
  | .undeclared _ => fun _ => nofun
  | .failed _ _ => fun _ => nofun
  | .own hDeclare hFollowing hOwn => fun hKnown hResult => by
      have hTouches := Job.touches_of_goes (fun _ => Job.goes_declareAll) hDeclare
      obtain ⟨hCompletes, hFinds⟩ := Following.completes hFollowing (hKnown.touches hTouches)
        (fun _ hDecl => hDecl) rfl
      rw [hResult] at hOwn
      have hLast := Job.touches_of_goes (fun _ => Job.goes_compileOwn) hOwn
      have hFirst : session.Completes library.Offers (· = job.id) _ := .of_touches hTouches
      have hEnd : Session.Completes library.Offers (· = job.id) _ after := .of_touches hLast
      refine ⟨(hFirst.trans hCompletes).trans hEnd, fun decl hDecl => ?_⟩
      obtain ⟨target, hTarget⟩ := hFinds decl hDecl
      exact ⟨target, (hTarget.after hFirst).trans hEnd⟩

theorem Following.completes {job : Job} {imports : List ImportDecl} {session after : Session}
    {log : List String} {result : Except Failure Unit} :
    Following library job imports session log result after →
      job.Known session → (∀ decl ∈ imports, decl ∈ job.file.imports) → result = .ok () →
      session.Completes library.Offers (· = job.id) after ∧
        ∀ decl ∈ imports, ∃ target, session.Finds after decl.name target
  | .nil => fun _ _ _ => ⟨.refl session, by simp⟩
  | .failed _ => fun _ _ => nofun
  | .unset _ _ => fun _ _ => nofun
  | .cons hImporting hSet hFollowing => fun hKnown hImports hResult => by
      obtain ⟨hFound, hImported⟩ := Importing.completes hImporting _ rfl
      have hNoted := ((Job.does_setValue _ _).success hSet).1
      have hKnown' := hKnown.embeds hImported.embeds
      obtain ⟨hRest, hFinds⟩ := Following.completes hFollowing (hKnown'.touches hNoted)
        (List.forall_mem_cons.mp hImports).2 hResult
      have hSet' : Session.Completes library.Offers (· = job.id) _ _ := .of_touches hNoted
      have hLater := hSet'.trans hRest
      refine ⟨.trans (hImported.mono (fun _ _ => id) fun root id hRoot hReaches => ?_) hLater,
        fun other hOther => ?_⟩
      · have hFirst := hKnown'.imports hFound (hImports _ List.mem_cons_self)
        exact ⟨job.id, rfl, .head hFirst (hRoot ▸ hReaches)⟩
      · rcases List.mem_cons.mp hOther with rfl | hOther
        · exact ⟨_, hFound.trans hLater⟩
        · obtain ⟨found, hOthers⟩ := hFinds other hOther
          exact ⟨found, (hOthers.after hSet').after hImported⟩

theorem Importing.completes {name asking : String} {span : Span} {session after : Session}
    {log : List String} {result : Except Failure ModuleId} :
    Importing library name asking span session log result after →
      ∀ id, result = .ok id → session.Finds after name id ∧
        session.Completes library.Offers (· = id) after
  | .known hFound => fun id hResult => by
      cases hResult
      exact ⟨.of_find? hFound, .refl session⟩
  | .unloaded _ _ => nofun
  | .loaded _ hLoad hCompiling => fun id hResult => by
      obtain ⟨hFound, hCompletes⟩ := Compiling.completes hCompiling id hResult
      refine ⟨hFound, hCompletes.mono (fun other content hSource => ?_) fun root _ hRoot hReaches =>
        ⟨root, hRoot, hReaches⟩⟩
      rcases hSource with ⟨rfl, rfl⟩ | hSource
      · exact hLoad
      · exact hSource

end

/-- A program brings all modules that it has made known, from its main source or the library. -/
theorem Running.completes {text : String} {withBuiltin : Bool} {log : List String}
    {after : Session} (h : Running library text withBuiltin log (.ok ()) after) :
    (Session.empty.writing [.includes]).Completes (library.OffersWith mainName text)
      (fun _ => True) after := by
  have hMain {session : Session} {log : List String} {found : Except Failure ModuleId}
      (hCompiling : Compiling library mainName text session log found after)
      (hFound : .ok () = found.map fun _ => ()) :
      session.Completes (library.OffersWith mainName text) (fun _ => True) after := by
    cases found with
    | error failure => cases hFound
    | ok id =>
        exact (hCompiling.completes id rfl).2.mono (fun _ _ hSource => hSource)
          fun root _ _ hReaches => ⟨root, trivial, hReaches⟩
  generalize hResult : (.ok () : Except Failure Unit) = result at h
  cases h with
  | plain hCompiling => exact hMain hCompiling hResult
  | failed => cases hResult
  | @shared _ _ builtin _ loaded _ hImporting hCompiling =>
      have hLoaded : Session.Completes (library.OffersWith mainName text) (fun _ => True)
          (Session.empty.writing [.includes]) loaded :=
        (hImporting.completes builtin rfl).2.mono (fun _ _ => Or.inr)
          fun root _ _ hReaches => ⟨root, trivial, hReaches⟩
      have hShared : loaded.Completes (library.OffersWith mainName text) (fun _ => True)
          { loaded with program := { loaded.program with builtin := some builtin } } :=
        .of_embeds (.of_modules rfl) rfl rfl
      exact (hLoaded.trans hShared).trans (hMain hCompiling hResult)

end SessionM

/-- The modules of a compiled program are listed once each, and whatever a module imports is one
of them. It is listed before that module unless it imports that module in turn, directly or
through others; so without cycles the list is in the order of the imports. -/
theorem modules_follow_imports {library : Library} {withBuiltin : Bool} {text : String}
    {session : Session}
    (hRun : (SessionM.compileProgram library withBuiltin text).exec .empty = (.ok (), session)) :
    session.finished.Nodup ∧
    (∀ id : Nat, id ∈ session.finished ↔ id < session.program.modules.length) ∧
    (∀ id module, session.program.module? id = some module → ∀ decl ∈ module.file.imports,
      ∃ target, session.program.find? decl.name = some target ∧ session.program.Imports id target) ∧
    (∀ id target, session.program.Imports id target →
      List.Sublist [target, id] session.finished ∨ TransGen session.program.Imports target id) ∧
    ((∀ id, ¬ TransGen session.program.Imports id id) → ∀ id target,
      session.program.Imports id target → List.Sublist [target, id] session.finished) := by
  obtain ⟨log, hRunning⟩ := SessionM.ends_compileProgram hRun nofun
  have hCompletes := hRunning.completes
  have hDistinct := hCompletes.distinct List.nodup_nil
  obtain ⟨ids, hFinished, hNodup, hIds, hBrings⟩ := hCompletes.added
  obtain rfl : session.finished = ids := hFinished
  have hAll (id : Nat) : id ∈ session.finished ↔ id < session.program.modules.length :=
    (hIds id).trans (and_iff_right (Nat.zero_le id))
  have hOrder (id : ModuleId) (module : Module) (hModule : session.program.module? id = some module)
      (decl : ImportDecl) (hDecl : decl ∈ module.file.imports) :
      ∃ target imported, session.program.module? target = some imported ∧
        imported.name = decl.name ∧ (List.Sublist [target, id] session.finished ∨
          ReflTransGen session.program.Imports target id) := by
    have hKnown := (hAll id).mpr (List.getElem?_eq_some_iff.mp hModule).1
    obtain ⟨-, same, _, hSame, -, -, hImports⟩ := hBrings id hKnown
    obtain rfl := Option.some.inj (hModule.symm.trans hSame)
    obtain ⟨target, imported, hImported, hName, hOrders⟩ := hImports decl hDecl
    refine ⟨target, imported, hImported, hName, hOrders.imp_right fun hOrders => ?_⟩
    exact hOrders.resolve_left fun hStart => Nat.not_lt_zero _ hStart.1
  have hUnless (id target : ModuleId) (hImports : session.program.Imports id target) :
      List.Sublist [target, id] session.finished ∨ TransGen session.program.Imports target id := by
    obtain ⟨module, imported, hModule, hImported, decl, hDecl, hName⟩ := hImports
    obtain ⟨found, same, hSame, hSameName, hOrder⟩ := hOrder id module hModule decl hDecl
    obtain rfl : found = target := by
      have hFound := (Program.find?_eq_some_iff hDistinct).mpr ⟨same, hSame, hSameName⟩
      have hTarget := (Program.find?_eq_some_iff hDistinct).mpr ⟨imported, hImported, hName.symm⟩
      exact Option.some.inj (hFound.symm.trans hTarget)
    refine hOrder.imp_right fun hReaches => ?_
    rcases Relation.reflTransGen_iff_eq_or_transGen.mp hReaches with rfl | hReaches
    · exact .single ⟨module, imported, hModule, hImported, decl, hDecl, hName⟩
    · exact hReaches
  refine ⟨hNodup, hAll, fun id module hModule decl hDecl => ?_, hUnless, fun hAcyclic id target
    hImports => ?_⟩
  · obtain ⟨target, imported, hImported, hName, -⟩ := hOrder id module hModule decl hDecl
    exact ⟨target, (Program.find?_eq_some_iff hDistinct).mpr ⟨imported, hImported, hName⟩,
      module, imported, hModule, hImported, decl, hDecl, hName.symm⟩
  · refine (hUnless id target hImports).resolve_right fun hReaches => ?_
    exact hAcyclic target (hReaches.tail hImports)

/-- The order in which the modules of a program are complete, if it is compiled. -/
def orderOf (library : Library) (text : String) : Option (List ModuleId) :=
  match (SessionM.compileProgram library false text).exec Session.empty with
  | (.ok (), session) => some session.finished
  | (.error _, _) => none

/-- Two modules that import each other, and one that the second of them imports as well. -/
def cyclicLibrary : Library :=
  .ofList [("a", "import \"b\"\n"), ("b", "import \"a\"\nimport \"c\"\n"), ("c", "var x int\n")]

theorem modules_follow_imports_cyclic :
    ∃ session, (SessionM.compileProgram cyclicLibrary false "import \"a\"\n").exec Session.empty =
        (.ok (), session) ∧
      session.finished = [3, 2, 1, 0] ∧
      ∀ id target, session.program.Imports id target →
        List.Sublist [target, id] session.finished ∨
          TransGen session.program.Imports target id := by
  have hOrder : orderOf cyclicLibrary "import \"a\"\n" = some [3, 2, 1, 0] := by
    decide +kernel
  unfold orderOf at hOrder
  split at hOrder
  · next session hRun =>
      exact ⟨session, hRun, Option.some.inj hOrder, (modules_follow_imports hRun).2.2.2.1⟩
  · cases hOrder

end GoToC

/-!
## Texts are read whole

A text is read to its end or not at all, so an error among its tokens is never overlooked: no
text that holds one is read, and none stands behind a module of a compiled program.
-/

namespace GoToC

open Grammar

/-- A text with an error among its tokens is refused. The tokens of one that is read were passed
one after another up to the end of the file, and none of them is an error; and every module of a
compiled program is read from such a text. -/
theorem texts_read_whole (source : String) :
    (∀ token ∈ lex source, ∀ cause, token.kind = .error cause →
      ∃ problem, parse source = .error (.error problem)) ∧
    (∀ file, parse source = .ok file → (∀ token ∈ lex source, ∀ cause, token.kind ≠ .error cause) ∧
      ∃ decls after read,
        parseDecls (fuelFor (lex source)) SourceFile.empty ⟨Cursor.ofTokens (lex source), 0⟩ =
          .ok (decls, after) ∧
        file = { decls with exprCount := after.exprCount } ∧
        (Cursor.ofTokens (lex source)).Passes read after.cursor ∧ after.cursor.kind = .eof ∧
        lex source = read ++ [after.cursor.current]) ∧
    ∀ library withBuiltin session,
      (SessionM.compileProgram library withBuiltin source).exec .empty = (.ok (), session) →
      ∀ id module, session.program.module? id = some module →
        ∃ text, library.OffersWith SessionM.mainName source module.name text ∧
          parse text = .ok module.file ∧
          ∀ token ∈ lex text, ∀ cause, token.kind ≠ .error cause := by
  refine ⟨?_, ?_, ?_⟩
  · intro token hToken cause hKind
    cases hParse : parse source with
    | ok file => exact absurd hKind (no_error_of_parse hParse hToken cause)
    | error failure =>
        cases failure with
        | error problem => exact ⟨problem, rfl⟩
        | exhausted => exact absurd hParse (parse_ne_exhausted source)
  · intro file hParse
    exact ⟨fun token hToken => no_error_of_parse hParse hToken, parse_reads_all hParse⟩
  · intro library withBuiltin session hRun id module hModule
    obtain ⟨log, hRunning⟩ := SessionM.ends_compileProgram hRun nofun
    obtain ⟨ids, -, -, hIds, hBrings⟩ := hRunning.completes.added
    have hId : id ∈ ids := (hIds id).mpr ⟨Nat.zero_le _, (List.getElem?_eq_some_iff.mp hModule).1⟩
    obtain ⟨-, same, text, hSame, hOffers, hParse, -⟩ := hBrings id hId
    obtain rfl := Option.some.inj (hModule.symm.trans hSame)
    exact ⟨text, hOffers, hParse, fun token hToken => no_error_of_parse hParse hToken⟩

/-- A library of one module, with a blank line and a semicolon that stand for nothing. -/
def spacedLibrary : Library := .ofList [("a", "\n;\nvar x int;\n")]

theorem texts_read_whole_imported :
    ∃ session, (SessionM.compileProgram spacedLibrary false "import \"a\"\n").exec .empty =
        (.ok (), session) ∧
      ∀ id module, session.program.module? id = some module →
        ∃ text, spacedLibrary.OffersWith SessionM.mainName "import \"a\"\n" module.name text ∧
          parse text = .ok module.file ∧
          ∀ token ∈ lex text, ∀ cause, token.kind ≠ .error cause := by
  have hDone : ((SessionM.compileProgram spacedLibrary false "import \"a\"\n").exec
      .empty).1.toOption = some () := by
    decide +kernel
  cases hRun : (SessionM.compileProgram spacedLibrary false "import \"a\"\n").exec .empty with
  | mk result session =>
      rw [hRun] at hDone
      cases result with
      | error failure => cases hDone
      | ok done => exact ⟨session, rfl, (texts_read_whole _).2.2 _ _ _ hRun⟩

example : (parse "var x int\n;\n@").toOption.isNone = true := by decide +kernel

end GoToC
