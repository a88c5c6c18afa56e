import GoToC.Proofs.Session.ValueTwins

/-!
# Modules that are written side by side

What is written for a module, and which pointer types are handed out for it, has no bearing on
what is compiled later. It can fail only where a type is too deep to be looked at; the bodies of
functions and methods are compiled alike.
-/

namespace GoToC

variable {α β : Type} {after after' : Session} {decl decl' : FuncDecl}

variable {early : Prop} {session : Session}

/-! ## Declarations -/

namespace Session.Writes

theorem types {α : Type} {ask : TypeStore → Faulty α} (h : Mild (ask session.program.types)) :
    Runs (fun _ failure => failure.Excused early) session (SessionM.types ask) fun _ after =>
      after = session := by
  show Runs _ session (SessionM.lift (ask session.program.types)) _
  cases hAnswer : ask session.program.types with
  | ok value => exact .pure rfl
  | error fault => exact .fail (h fault hAnswer)

theorem writeTypedef (type : Ty) :
    Runs (fun _ failure => failure.Excused early) session (SessionM.writeTypedef type)
      fun _ after => session.Writes after := by
  have hMild : Mild (session.supply.typedefs.request session.program.types type).1 :=
    TypeStore.mild_request _
  refine Runs.get.bind fun now same hNow => ?_
  rw [hNow.1, hNow.2]
  cases hRequest : session.supply.typedefs.request session.program.types type with
  | mk answer typedefs =>
      rw [hRequest] at hMild
      refine (Runs.set _).bind fun _ changed hChanged => ?_
      rw [hChanged]
      cases answer with
      | error fault => exact .fail (hMild fault rfl)
      | ok item =>
          cases item with
          | none => exact .pure ⟨typedefs, session.output, rfl⟩
          | some item => exact ⟨typedefs, session.output.push item, rfl⟩

theorem writeTypedefsWithin (levels : Nat) (type : Ty) :
    Runs (fun _ failure => failure.Excused early) session
      (SessionM.writeTypedefsWithin levels type) fun _ after => session.Writes after := by
  induction levels generalizing session type with
  | zero => exact .fail (by simp [Failure.Excused, Fault.Excused])
  | succ levels ih =>
      refine (types TypeStore.mild_func?).bind fun found same hSame => ?_
      subst hSame
      cases found with
      | none => exact .pure (.refl _)
      | some func =>
          refine (forM fun (member : Member Ty) before => ih member.type).bind
            fun _ middle hMiddle => ?_
          exact (writeTypedef type).mono fun _ _ hAfter => hMiddle.trans hAfter

theorem writeTypedefs (type : Ty) :
    Runs (fun _ failure => failure.Excused early) session (SessionM.writeTypedefs type)
      fun _ after => session.Writes after := by
  refine Runs.get.bind fun now same hNow => ?_
  obtain ⟨rfl, rfl⟩ := hNow
  exact writeTypedefsWithin _ type

theorem declareFunc (cName : String) (type : Ty) :
    Runs (fun _ failure => failure.Excused early) session (SessionM.declareFunc cName type)
      fun _ after => session.Writes after := by
  refine (types TypeStore.mild_func?).bind fun found same hSame => ?_
  subst hSame
  cases found with
  | none => exact .fail (by simp [Failure.Excused, Fault.Excused])
  | some func =>
      refine (forM fun (member : Member Ty) before => writeTypedefs member.type).bind
        fun _ middle hMiddle => ?_
      refine (types (TypeStore.mild_prototype func cName)).bind fun prototype same hSame => ?_
      subst hSame
      exact (write _).mono fun _ _ hAfter => hMiddle.trans hAfter

theorem writeGlobal (global : Global) :
    Runs (fun _ failure => failure.Excused early) session (SessionM.writeGlobal global)
      fun _ after => session.Writes after := by
  have hWritten (type : Ty) (item : String → CItem) :
      Runs (fun _ failure => failure.Excused early) session (do
        SessionM.writeTypedefs type
        SessionM.write (item (← SessionM.types (·.cType type)))) fun _ after =>
          session.Writes after := by
    refine (writeTypedefs type).bind fun _ middle hMiddle => ?_
    refine (types TypeStore.mild_cType).bind fun cType same hSame => ?_
    subst hSame
    exact (write _).mono fun _ _ hAfter => hMiddle.trans hAfter
  unfold SessionM.writeGlobal
  split
  · exact .pure (.refl _)
  · next type hType =>
      split
      · exact .pure (.refl _)
      · exact .pure (.refl _)
      · exact hWritten type (.typeAlias · global.cName)
      · exact hWritten type (.globalVar · global.cName)
      · exact declareFunc global.cName type

theorem writeDeclarations (id : ModuleId) :
    Runs (fun _ failure => failure.Excused early) session (SessionM.writeDeclarations id)
      fun _ after => session.Writes after := by
  have hGlobals : Runs (fun _ failure => failure.Excused early) session (SessionM.globals id)
      fun _ after => after = session := rfl
  refine hGlobals.bind fun globals same hSame => ?_
  subst hSame
  refine (forM fun global before => writeGlobal global).bind fun _ middle hMiddle => ?_
  have hMethods : Runs (fun _ failure => failure.Excused early) middle (SessionM.methods id)
      fun _ after => after = middle := rfl
  refine hMethods.bind fun methods same hSame => ?_
  subst hSame
  exact (forM fun (method : Method) before => declareFunc method.cName method.type).mono
    fun _ _ hAfter => hMiddle.trans hAfter

theorem writeInit (job : Job) (init : Option Routine) :
    Runs (fun _ failure => failure.Excused early) session (SessionM.writeInit job init)
      fun _ after => session.Writes after := by
  cases init with
  | none => exact .pure (.refl _)
  | some routine => exact write _

end Session.Writes

/-! ## Bodies -/

/-- Questions whose answers only go into the C text. -/
theorem Reruns.mild {session' : Session} {ask : TypeStore → Faulty α}
    {ask' : TypeStore → Faulty β} (h : Mild (ask' session'.program.types)) :
    Reruns early session session' (SessionM.types ask) (SessionM.types ask') fun _ _ after after' =>
      after = session ∧ after' = session' :=
  (Reruns.types h.echoes).mono fun _ _ _ _ hAfter => hAfter.2

namespace Job

variable {job job' : Job} {ledger : Ledger} {session' : Session} {word : String → Prop}

/-- What comes of writing functions and methods: the programs stay as they are. -/
def Defines (early : Prop) (job job' : Job) (ledger : Ledger)
    (session session' after after' : Session) : Prop :=
  ∃ now, ledger.Within job.package now ∧ job.Abreast early job' now after after' ∧
    after.program = session.program ∧ after'.program = session'.program

theorem Defines.of_writes (h : job.Abreast early job' ledger session session')
    (hLeft : session.Writes after) (hRight : session'.Writes after') :
    job.Defines early job' ledger session session' after after' := by
  refine ⟨ledger, .refl _ _, h.writes hLeft hRight, ?_, ?_⟩
  · obtain ⟨_, _, rfl⟩ := hLeft
    rfl
  · obtain ⟨_, _, rfl⟩ := hRight
    rfl

namespace Abreast

/-- Writing a function whose type is known. -/
theorem writeFunc (h : job.Abreast early job' ledger session session') (cName cName' : String)
    {type type' : Option Ty}
    (hType : Option.Rel (Alike ledger session.program.types session'.program.types) type type')
    (hBare : decl.bare = decl'.bare) (hFormed : ∀ body ∈ decl.body, StmtsFormed word body) :
    Reruns early session session' (SessionM.writeFunc job cName type decl)
      (SessionM.writeFunc job' cName' type' decl')
      fun _ _ after after' => job.Defines early job' ledger session session' after after' := by
  unfold SessionM.writeFunc
  cases hType with
  | none => exact .fail
  | @some type type' hAlike =>
      refine (Reruns.types hAlike.func?).bind fun found found' _ _ hFound => ?_
      obtain ⟨hFunc, hSame, hSame'⟩ := hFound
      rw [hSame, hSame']
      cases hFunc with
      | none => exact .fail
      | @some func func' hTwin =>
          refine (Reruns.mild (TypeStore.mild_prototype _ _)).bind
            fun prototype prototype' _ _ hAsked => ?_
          rw [hAsked.1, hAsked.2]
          have hBody : bareOptStmts decl.body = bareOptStmts decl'.body :=
            (FuncDecl.mk.inj hBare).2.2.2.1
          cases hLeft : decl.body with
          | none =>
              cases hRight : decl'.body with
              | some => simp [hLeft, hRight, bareOptStmts] at hBody
              | none =>
                  exact (Reruns.of_runs (Session.Writes.write _) (Session.Writes.write _)).mono
                    fun _ _ _ _ hAfter => .of_writes h hAfter.1 hAfter.2
          | some body =>
              cases hRight : decl'.body with
              | none => simp [hLeft, hRight, bareOptStmts] at hBody
              | some body' =>
                  have hForm : bareStmts body = bareStmts body' := by
                    simpa [hLeft, hRight, bareOptStmts] using hBody
                  have hFunc : FuncType.Twin ((session.pairing session' early).alike ledger) func
                      func' := hTwin
                  refine (h.routine (compileBody_retraces hFunc (hFormed body hLeft) hForm decl.span
                    decl'.span)).bind fun found found' after after' hAfter => ?_
                  obtain ⟨now, hWithin, hAbreast, -, -, rfl, rfl⟩ := hAfter
                  have hWritten (items : Array CItem) (item : CItem) {last : Session}
                      {bad : Session → Failure → Prop} : Runs bad last (do
                        items.forM SessionM.write
                        SessionM.write item) fun _ after => last.Writes after :=
                    (Session.Writes.writeTypedefItems items).bind fun _ _ hMiddle =>
                      (Session.Writes.write item).mono fun _ _ hAfter => hMiddle.trans hAfter
                  refine (Reruns.of_runs (hWritten _ _) (hWritten _ _)).mono
                    fun _ _ last last' hLast => ?_
                  obtain ⟨later, hMore, hLater, hSame, hSame'⟩ :=
                    Defines.of_writes hAbreast hLast.1 hLast.2
                  exact ⟨later, hWithin.trans hMore, hLater, hSame, hSame'⟩

theorem writeDeclaredFunc (h : job.Abreast early job' ledger session session')
    (hBare : decl.bare = decl'.bare) (hFormed : ∀ body ∈ decl.body, StmtsFormed word body) :
    Reruns early session session' (SessionM.writeDeclaredFunc job decl)
      (SessionM.writeDeclaredFunc job' decl')
      fun _ _ after after' => job.Defines early job' ledger session session' after after' := by
  have hName : decl.name = decl'.name := (FuncDecl.mk.inj hBare).2.1
  have hType := h.type? decl.name
  unfold SessionM.writeDeclaredFunc
  rw [← hName]
  refine Reruns.global?.bind fun found found' _ _ hFound => ?_
  obtain ⟨⟨hLeft, hRight⟩, hSame, hSame'⟩ := hFound
  rw [hSame, hSame', hLeft, hRight]
  cases hGlobal : session.program.global? job.id decl.name with
  | none => exact .fail
  | some global =>
      obtain ⟨global', hGlobal', -⟩ := h.twin.exists_global hGlobal
      rw [h.id] at hGlobal'
      rw [hGlobal, hGlobal'] at hType
      rw [hGlobal']
      exact h.writeFunc _ _ hType hBare hFormed

theorem writeMethod (h : job.Abreast early job' ledger session session')
    (hMethods : job.file.methods.map FuncDecl.bare = job'.file.methods.map FuncDecl.bare)
    (hFormed : ∀ decl ∈ job.file.methods, ∀ body ∈ decl.body, StmtsFormed word body)
    {method method' : Method}
    (hMethod : method.Twin (session.pairing session' early) ledger job.package method') :
    Reruns early session session' (SessionM.writeMethod job method)
      (SessionM.writeMethod job' method')
      fun _ _ after after' => job.Defines early job' ledger session session' after after' := by
  have hFound := congrArg (·[method.decl]?) hMethods
  simp only [List.getElem?_map] at hFound
  unfold SessionM.writeMethod
  rw [← hMethod.decl]
  cases hLeft : job.file.methods[method.decl]? with
  | none => exact .fail
  | some decl =>
      cases hRight : job'.file.methods[method.decl]? with
      | none => simp [hLeft, hRight] at hFound
      | some decl' =>
          have hBare : decl.bare = decl'.bare := by simpa [hLeft, hRight] using hFound
          exact h.writeFunc _ _ (.some hMethod.type) hBare
            (hFormed decl (List.mem_of_getElem? hLeft))

/-- Several functions or methods. -/
theorem defineAll (h : job.Abreast early job' ledger session session') {items : List α}
    {items' : List β} {f : α → SessionM PUnit} {f' : β → SessionM PUnit} {same : α → β → Prop}
    (hItems : List.Forall₂ same items items')
    (hStep : ∀ item ∈ items, ∀ item' ∈ items', same item item' → ∀ now before before',
      ledger ≤ now → job.Abreast early job' now before before' →
        before.program = session.program → before'.program = session'.program →
          Reruns early before before' (f item) (f' item') fun _ _ after after' =>
            job.Defines early job' now before before' after after') :
    Reruns early session session' (items.forM f) (items'.forM f') fun _ _ after after' =>
      job.Defines early job' ledger session session' after after' := by
  refine Reruns.forM hItems (job.Defines early job' ledger session session')
    ⟨ledger, .refl _ _, h, rfl, rfl⟩ fun item hItem item' hItem' hSame before before' hBefore => ?_
  obtain ⟨now, hWithin, hAbreast, hProgram, hProgram'⟩ := hBefore
  refine (hStep item hItem item' hItem' hSame now before before' hWithin.le hAbreast hProgram
    hProgram').mono fun _ _ after after' hAfter => ?_
  obtain ⟨later, hMore, hLater, hKept, hKept'⟩ := hAfter
  exact ⟨later, hWithin.trans hMore, hLater, hKept.trans hProgram, hKept'.trans hProgram'⟩

theorem writeFuncs (h : job.Abreast early job' ledger session session')
    (hFuncs : job.file.funcs.map FuncDecl.bare = job'.file.funcs.map FuncDecl.bare)
    (hMethods : job.file.methods.map FuncDecl.bare = job'.file.methods.map FuncDecl.bare)
    (hFormed : ∀ decl, decl ∈ job.file.funcs ∨ decl ∈ job.file.methods →
      ∀ body ∈ decl.body, StmtsFormed word body) :
    Reruns early session session' (SessionM.writeFuncs job) (SessionM.writeFuncs job')
      fun _ _ after after' => job.Reaches early job' ledger after after' := by
  refine (h.defineAll (forall₂_of_map_eq hFuncs) fun decl hDecl decl' _ hBare now before before' _
    hBefore _ _ => hBefore.writeDeclaredFunc hBare (hFormed decl (.inl hDecl))).bind
      fun _ _ middle middle' hMiddle => ?_
  obtain ⟨now, hWithin, hMiddle, -⟩ := hMiddle
  refine hMiddle.methods.bind fun methods methods' _ _ hFound => ?_
  obtain ⟨hTwins, hSame, hSame'⟩ := hFound
  rw [hSame, hSame']
  refine (hMiddle.defineAll hTwins fun method _ method' _ hMethod later before before' hLe hBefore
    hProgram hProgram' => hBefore.writeMethod hMethods (fun decl hDecl => hFormed decl (.inr hDecl))
      ?_).mono fun _ _ after after' hAfter => ?_
  · refine hMethod.imp (fun a b hAlike => ?_) hLe
    rw [Session.pairing, hProgram, hProgram']
    exact hAlike.mono hLe (.refl _) (.refl _)
  · obtain ⟨later, hMore, hLater, -⟩ := hAfter
    exact ⟨later, hWithin.trans hMore, hLater⟩

end Abreast

/-! ## Modules -/

theorem Abreast.reachesOn {now : Ledger} (hWithin : ledger.Within job.package now)
    (h : job.Reaches early job' now after after') : job.Reaches early job' ledger after after' := by
  obtain ⟨later, hMore, hAbreast⟩ := h
  exact ⟨later, hWithin.trans hMore, hAbreast⟩

/-- Actions that do nothing but write. -/
theorem Abreast.writing (h : job.Abreast early job' ledger session session') {action : SessionM α}
    {action' : SessionM β}
    (hLeft : Runs (fun _ failure => failure.Excused early) session action fun _ after =>
      session.Writes after)
    (hRight : Runs (fun _ failure => failure.Excused early) session' action' fun _ after =>
      session'.Writes after) :
    Reruns early session session' action action' fun _ _ after after' =>
      job.Abreast early job' ledger after after' :=
  (Reruns.of_runs (hLeft.weaken fun _ _ _ => trivial) hRight).mono
    fun _ _ _ _ hAfter => h.writes hAfter.1 hAfter.2

/-- A module whose imports are built is compiled alike if its types are declared in another
order. -/
theorem Poised.compileOwn (h : job.Poised early job' ledger session session')
    (hFile : job.file.Rearranges job'.file) (hFormed : job.file.Formed word)
    (hPlain : ∀ decl ∈ job.file.types, ¬ Reserved decl.name) :
    Reruns early session session' (SessionM.compileOwn job) (SessionM.compileOwn job')
      fun _ _ after after' => job.Reaches early job' ledger after after' := by
  refine (h.buildTypes hFile.types (fun decl hDecl => (hFormed.types decl hDecl).2) hPlain).bind
    fun _ _ _ _ hTypes => ?_
  obtain ⟨first, hFirst, hTypes⟩ := hTypes
  refine (Abreast.forM (forall₂_of_map_eq hFile.consts) hTypes.reaches
    fun decl hDecl _ _ hBare _ _ _ hBefore =>
      hBefore.buildConst (hFormed.consts decl hDecl).2 hBare).bind fun _ _ _ _ hConsts => ?_
  obtain ⟨second, hSecond, hConsts⟩ := Abreast.reachesOn hFirst hConsts
  refine (Abreast.forM (forall₂_of_map_eq hFile.vars) hConsts.reaches
    fun decl hDecl _ _ hBare _ _ _ hBefore =>
      hBefore.buildVar (hFormed.vars decl hDecl).2.1 hBare).bind fun _ _ _ _ hVars => ?_
  obtain ⟨third, hThird, hVars⟩ := Abreast.reachesOn hSecond hVars
  refine (Abreast.forM (forall₂_of_map_eq hFile.funcs) hVars.reaches
    fun decl hDecl _ _ hBare _ _ _ hBefore =>
      hBefore.buildFunc (hFormed.funcs decl hDecl).1.signature hBare).bind fun _ _ _ _ hFuncs => ?_
  obtain ⟨fourth, hFourth, hFuncs⟩ := Abreast.reachesOn hThird hFuncs
  refine (hFuncs.buildMethods (forall₂_of_map_eq hFile.methods)
    (fun decl hDecl => (hFormed.methods decl hDecl).1) 0).bind fun _ _ _ _ hMethods => ?_
  obtain ⟨fifth, hFifth, hMethods⟩ := Abreast.reachesOn hFourth hMethods
  refine (hMethods.buildInits hFile.vars
    fun decl hDecl => (hFormed.vars decl hDecl).2.2).bind fun init init' _ _ hInits => ?_
  obtain ⟨sixth, hSixth, hInits⟩ := Abreast.reachesOn hFifth hInits
  refine (hInits.writing (Session.Writes.writeDeclarations _)
    (Session.Writes.writeDeclarations _)).bind fun _ _ _ _ hDeclared => ?_
  refine (hDeclared.writing (Session.Writes.writeInit job init)
    (Session.Writes.writeInit job' init')).bind fun _ _ _ _ hReady => ?_
  exact (hReady.writeFuncs hFile.funcs hFile.methods
    fun decl hDecl body hBody => hFormed.body hDecl hBody).mono
      fun _ _ _ _ hDone => Abreast.reachesOn hSixth hDone

end Job

end GoToC
