import GoToC.Proofs.Session.Registry

/-!
# Names that are declared before they are mentioned

A module is written once the modules that it imports are. Its own names are declared before
any of its routines, and whatever else a routine can mention has come from a value or a method
that a module had when its own declarations were written. So each routine mentions names that
were declared before it, whichever way modules import each other.
-/

namespace GoToC

variable {items : List CItem} {x : String} {item : CItem} {module : Module} {importer : Importer}

/-- The variables, functions and methods that an item mentions other than to declare them. -/
def CItem.mentions : CItem → List String
  | .routine _ _ body => CStmt.globalsAll body
  | _ => []

/-- A variable, function or method of that C name is declared by one of the items. -/
def DeclaredIn (items : List CItem) (x : String) : Prop :=
  ∃ item ∈ items, item.mark? = some (.variable x) ∨ item.mark? = some (.prototype x)

/-- Items each of which mentions names that earlier items declare. -/
def Ordered (items : List CItem) : Prop :=
  ∀ earlier item later, items = earlier ++ item :: later → ∀ x ∈ item.mentions, DeclaredIn earlier x

theorem DeclaredIn.append_left (h : DeclaredIn items x) (others : List CItem) :
    DeclaredIn (items ++ others) x := by
  obtain ⟨item, hItem, hMark⟩ := h
  exact ⟨item, List.mem_append_left others hItem, hMark⟩

/-- New items may mention what the old ones declare. -/
theorem Ordered.append {others : List CItem} (h : Ordered items)
    (hOthers : ∀ item ∈ others, ∀ x ∈ item.mentions, DeclaredIn items x) :
    Ordered (items ++ others) := by
  intro earlier item later hSplit x hx
  rcases List.append_eq_append_iff.mp hSplit with ⟨front, hEarlier, hFront⟩ | ⟨back, hItems, hBack⟩
  · have hItem : item ∈ others := by
      rw [hFront]
      exact List.mem_append_right _ List.mem_cons_self
    rw [hEarlier]
    exact (hOthers item hItem x hx).append_left front
  · cases back with
    | nil =>
        have hItem : item ∈ others := by
          rw [← List.nil_append others, ← hBack]
          exact List.mem_cons_self
        rw [List.append_nil] at hItems
        exact hItems ▸ hOthers item hItem x hx
    | cons first back =>
        obtain ⟨rfl, -⟩ := List.cons_eq_cons.mp hBack
        exact h earlier item back hItems x hx

/-! ## What is written for one module -/

namespace Job.Writing

variable {job : Job} {known : String → Prop} {module : Module} {program : Program}
  {declared init defined : List CItem}

/-- Declarations mention nothing. -/
theorem mentions_declared (h : job.Writing known module program declared init defined)
    (hItem : item ∈ declared) : item.mentions = [] := by
  have hMark (mark : Mark) (hMark : item.mark? = some mark) : mark ∈ module.declarations := by
    rw [← h.declares]
    exact List.mem_filterMap.mpr ⟨item, hItem, hMark⟩
  cases item with
  | routine heading locals body =>
      cases heading with
      | func prototype => simpa [Module.declarations] using hMark (.definition prototype.name) rfl
      | init package => simpa [Module.declarations] using hMark (.init package) rfl
  | _ => rfl

/-- The routines of the module mention what it may mention. -/
theorem mentions_routines (h : job.Writing known module program declared init defined)
    (hItem : item ∈ init ++ defined) :
    ∀ x ∈ item.mentions, job.Vocabulary known module.methods x := by
  intro x hx
  rcases List.mem_append.mp hItem with hItem | hItem
  · obtain ⟨routine, hSpeaks, rfl⟩ := h.setting item hItem
    obtain ⟨stmt, hStmt, hx⟩ := CStmt.mem_globalsAll.mp hx
    exact hSpeaks.body stmt hStmt x hx
  · have hDerives := h.derived item hItem
    cases item with
    | routine heading locals body =>
        cases heading with
        | func prototype =>
            obtain ⟨func, stmts, span, supply, routine, hRun, rfl⟩ := hDerives
            obtain ⟨stmt, hStmt, hx⟩ := CStmt.mem_globalsAll.mp hx
            have hSpells : Spells (.wording (.speaking (job.Vocabulary known module.methods))) _
                (compileBody func stmts span) _ := compileBody_words False.elim False.elim span
            exact (hSpells.speaks h.speaks (.start _ supply) hRun).2.body stmt hStmt x hx
        | init package => exact hDerives.elim
    | _ => cases hx

/-- What the module may mention is declared with the module or was known before. -/
theorem declares_vocabulary
    (h : job.Writing (DeclaredIn items) module program declared init defined)
    (hx : job.Vocabulary (DeclaredIn items) module.methods x) :
    DeclaredIn (items ++ declared) x := by
  have hOwn (mark : Mark) (hMark : mark ∈ module.declarations) :
      ∃ item ∈ items ++ declared, item.mark? = some mark := by
    rw [← h.declares] at hMark
    obtain ⟨item, hItem, hMark⟩ := List.mem_filterMap.mp hMark
    exact ⟨item, List.mem_append_right _ hItem, hMark⟩
  rcases hx with hKnown | ⟨name, hName, rfl⟩ | ⟨method, hMethod, rfl⟩
  · exact hKnown.append_left declared
  · rw [← h.complete.name]
    rw [← h.complete.file] at hName
    rcases List.mem_append.mp hName with hName | hName
    · obtain ⟨decl, hDecl, rfl⟩ := List.mem_map.mp hName
      obtain ⟨item, hItem, hMark⟩ := hOwn (.variable (Declaration.cName module.name decl.name)) (by
        simp only [Module.declarations, List.mem_append, List.mem_map]
        exact .inl (.inl (.inr ⟨decl, hDecl, rfl⟩)))
      exact ⟨item, hItem, .inl hMark⟩
    · obtain ⟨decl, hDecl, rfl⟩ := List.mem_map.mp hName
      obtain ⟨item, hItem, hMark⟩ := hOwn (.prototype (Declaration.cName module.name decl.name)) (by
        simp only [Module.declarations, List.mem_append, List.mem_map]
        exact .inl (.inr ⟨decl, hDecl, rfl⟩))
      exact ⟨item, hItem, .inr hMark⟩
  · obtain ⟨item, hItem, hMark⟩ := hOwn (.prototype method.cName)
      (List.mem_append_right _ (List.mem_map_of_mem hMethod))
    exact ⟨item, hItem, .inr hMark⟩

end Job.Writing

/-! ## Modules with their imports -/

/-- A session in which routines, values and methods mention names that are declared. -/
structure Session.Settles (session : Session) : Prop where
  ordered : Ordered session.output.toList
  speaks : session.program.Speaks (DeclaredIn session.output.toList)

/-- An action that leaves every name declared that is mentioned, if it succeeds. -/
def SessionM.Settling {α : Type} (action : SessionM α) : Prop :=
  ∀ session : Session, session.Settles →
    Runs (fun _ _ => True) session action fun _ after => after.Settles

namespace Job

variable {job : Job} {start session after : Session}

/-- A module that becomes known has nothing yet. -/
theorem settles_registered (h : session.Settles) (name : String) (file : SourceFile) :
    (registered session name file).Settles :=
  ⟨h.ordered, Program.forall_register h.speaks.values nofun, h.speaks.methods⟩

/-- Names that are entered have no values yet. -/
theorem settles_declared (h : session.Settles) (hTouches : job.Touches session after)
    (hModule : after.program.module? job.id = some module) (hAwaits : module.Awaits job)
    (hMethods : after.program.types.methods = session.program.types.methods)
    (hOutput : after.output = session.output) : after.Settles := by
  refine ⟨hOutput ▸ h.ordered, ?_, ?_⟩
  · intro id other hOther global hGlobal e hValue
    by_cases hId : id = job.id
    · subst hId
      obtain rfl : module = other := Option.some.inj (hModule.symm.trans hOther)
      exact absurd hValue (hAwaits.values global hGlobal e)
    · rw [hTouches.others id hId] at hOther
      rw [hOutput]
      exact h.speaks.values id other hOther global hGlobal e hValue
  · rw [hMethods, hOutput]
    exact h.speaks.methods

theorem settling_buildImport
    (hImporter : ∀ name asking span, SessionM.Settling (importer name asking span))
    (decl : ImportDecl) : SessionM.Settling (SessionM.buildImport importer job decl) := by
  intro session h
  refine Runs.bind (hImporter _ _ _ session h) fun target imported hImported => ?_
  refine Runs.mono (Runs.weaken (does_setValue decl.name (.module target)) fun _ _ _ => trivial)
    fun _ after hAfter => ?_
  obtain ⟨-, rfl⟩ := hAfter
  exact ⟨hImported.ordered, hImported.speaks.setValue fun _ hValue => by cases hValue⟩

/-- A module whose imports are compiled is written after all that it mentions, and declares
its own names first. -/
theorem Writing.settles {declared init defined : List CItem}
    (hOrdered : Ordered session.output.toList) (h : job.Writing (DeclaredIn session.output.toList)
    module after.program declared init defined)
    (hOutput : after.output.toList = session.output.toList ++ (declared ++ init ++ defined)) :
    after.Settles := by
  have hDeclared : Ordered (session.output.toList ++ declared) := by
    refine hOrdered.append fun item hItem x hx => ?_
    rw [h.mentions_declared hItem] at hx
    cases hx
  have hWritten : Ordered (session.output.toList ++ declared ++ (init ++ defined)) :=
    hDeclared.append fun item hItem x hx => h.declares_vocabulary (h.mentions_routines hItem x hx)
  refine ⟨?_, h.speaks.mono fun x hx => ?_⟩
  · simpa [hOutput] using hWritten
  · have hDeclares := (h.declares_vocabulary hx).append_left (init ++ defined)
    simpa [hOutput] using hDeclares

/-- Compiling the declarations of a module that has become known. -/
theorem settles_compileJob
    (hImporter : ∀ name asking span, SessionM.Seeks name (importer name asking span))
    (hSettling : ∀ name asking span, SessionM.Settling (importer name asking span))
    (hModule : start.program.module? job.id = some (Module.ofFile job.package job.file))
    (h : start.Settles) :
    Runs (fun _ _ => True) start (SessionM.compileJob importer job) fun _ after =>
      after.Settles := by
  have hJob : job.id < start.program.modules.length := (List.getElem?_eq_some_iff.mp hModule).1
  rw [SessionM.compileJob_eq]
  refine Runs.bind (Runs.weaken (does_declareAll hModule) fun _ _ _ => trivial)
    fun _ declared hDeclared => ?_
  obtain ⟨hTouches, module, hFound, hAwaits, hMethods, hOutput⟩ := hDeclared
  refine Runs.bind (Runs.forM_mem (fun now => job.Follows start now ∧ now.Settles) ?_
    fun decl _ before hBefore => ?_) fun _ imported hImported => ?_
  · exact ⟨⟨.of_touches hTouches hOutput, module, hFound, hAwaits⟩,
      settles_declared h hTouches hFound hAwaits hMethods hOutput⟩
  · have hFollows := hBefore.1.buildImport hImporter hJob decl
    exact (hFollows.both (settling_buildImport hSettling decl before hBefore.2)).weaken
      fun _ _ _ => trivial
  · obtain ⟨hFollows, hSettles⟩ := hImported
    obtain ⟨module, hFound, hAwaits⟩ := hFollows.awaits
    refine ((hAwaits.fills hFound hSettles.speaks).compileOwn.weaken fun _ _ _ => trivial).mono
      fun _ after hAfter => ?_
    obtain ⟨-, module, declared, init, defined, hWriting, hOutput⟩ := hAfter
    exact hWriting.settles hSettles.ordered hOutput

end Job

/-- Every session of a program leaves the names declared that are mentioned. -/
theorem SessionM.settles_invariant : Invariant fun (_ : Unit) => Session.Settles where
  builtin _ _ _ h := ⟨h.ordered, h.speaks.values, h.speaks.methods⟩
  job hImporter hSettling _ _ name file _ h :=
    (Job.settles_compileJob hImporter (fun name asking span => hSettling name asking span ())
      List.getElem?_concat_length (Job.settles_registered h name file)).mono
        fun _ _ hAfter => ⟨hAfter.ordered, hAfter.speaks⟩

/-- A program that starts from nothing but headers. -/
theorem SessionM.runs_compileProgram (library : Library) (withBuiltin : Bool) (text : String) :
    Runs (fun _ _ => True) Session.empty (compileProgram library withBuiltin text)
      fun _ after => after.Settles := by
  refine @Invariant.compileProgram _ _ settles_invariant () ?_ library withBuiltin text
  have hOrdered : Ordered ([] ++ [CItem.includes]) :=
    Ordered.append (by simp [Ordered]) (by simp [CItem.mentions])
  refine ⟨hOrdered, fun id module hModule => ?_, fun entry hEntry => by cases hEntry⟩
  cases hModule

/-- Whatever modules a program is made of and however they import each other, each routine of
its output mentions variables, functions and methods that were declared before it. -/
theorem names_declared_before_use {library : Library} {withBuiltin : Bool} {text : String}
    {session : Session}
    (hRun : (SessionM.compileProgram library withBuiltin text).exec Session.empty =
      (.ok (), session)) : Ordered session.output.toList := by
  have hSettles := SessionM.runs_compileProgram library withBuiltin text
  rw [Runs, hRun] at hSettles
  exact hSettles.ordered

/-- The output of a program, if it is complete, by what is marked and mentioned there. -/
def outlineOf (library : Library) (text : String) : Option (List (Option Mark × List String)) :=
  match (SessionM.compileProgram library false text).exec Session.empty with
  | (.ok (), session) => some (session.output.toList.map fun item => (item.mark?, item.mentions))
  | (.error _, _) => none

/-- A module that imports the main module back. -/
def returningLibrary : Library :=
  .ofList [("m", "import \"main\"\nvar x int = 4\n")]

/-- A constant of another module's variable is mentioned as that variable. -/
def inliningSource : String :=
  "import \"m\"\nconst c = m.x\nfunc f() int \x7b\n return c\n\x7d\n"

theorem names_declared_before_use_inlined :
    ∃ session, (SessionM.compileProgram returningLibrary false inliningSource).exec Session.empty =
        (.ok (), session) ∧
      session.output.toList.map (fun item => (item.mark?, item.mentions)) =
        [(none, []), (some (.variable "m__x"), []), (some (.init "m"), ["m__x"]),
          (some (.prototype "main__f"), []), (some (.definition "main__f"), ["m__x"])] ∧
      Ordered session.output.toList := by
  have hOutline : outlineOf returningLibrary inliningSource =
      some [(none, []), (some (.variable "m__x"), []), (some (.init "m"), ["m__x"]),
        (some (.prototype "main__f"), []), (some (.definition "main__f"), ["m__x"])] := by
    decide +kernel
  unfold outlineOf at hOutline
  split at hOutline
  · next session hRun =>
      exact ⟨session, hRun, Option.some.inj hOutline, names_declared_before_use hRun⟩
  · cases hOutline

end GoToC
