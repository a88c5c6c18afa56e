import GoToC.Proofs.Grammar.ReadingOrder
import GoToC.Proofs.Session.Declare

/-!
# Names that are declared twice

The names of a module are entered before anything is built, so a module in which a name is
declared twice is never compiled. The error is reported at the first declaration, in the order in
which names are entered, whose name is taken, and the label "first defined here" points at the one
that has taken it. Names are entered kind after kind: the one that was entered first need not
stand first in the text.
-/

namespace GoToC

variable {file : SourceFile}

namespace Declaration

/-- Of the declarations, in the order in which they are entered, the given one is the first whose
name is taken, and `previous` has taken it. -/
def Repeats (decls : List Declaration) (previous decl : Declaration) : Prop :=
  ∃ before between after, decls = before ++ previous :: between ++ decl :: after ∧
    previous.name = decl.name ∧ ((before ++ previous :: between).map (·.name)).Nodup

variable {previous previous' decl decl' : Declaration}

/-- Names up to the first that is taken go no further than any up to one that is taken. -/
theorem eq_nil_of_taken {first more rest rest' : List Declaration}
    (h : first ++ decl :: rest = first ++ more ++ rest') (hTaken : decl.name ∈ first.map (·.name))
    (hDistinct : ((first ++ more).map (·.name)).Nodup) : more = [] := by
  cases more with
  | nil => rfl
  | cons found others =>
      rw [List.append_assoc, List.append_cancel_left_eq, List.cons_append] at h
      obtain rfl := (List.cons.inj h).1
      rw [List.map_append] at hDistinct
      exact absurd rfl ((List.nodup_append.mp hDistinct).2.2 _ hTaken _ List.mem_cons_self)

/-- There is only one first declaration whose name is taken. -/
theorem Repeats.unique {decls : List Declaration} (h : Repeats decls previous decl)
    (h' : Repeats decls previous' decl') : previous = previous' ∧ decl = decl' := by
  obtain ⟨before, between, after, hDecls, hName, hDistinct⟩ := h
  obtain ⟨before', between', after', hDecls', hName', hDistinct'⟩ := h'
  have hMem : previous ∈ before ++ previous :: between := List.mem_append_right _ List.mem_cons_self
  have hMem' : previous' ∈ before' ++ previous' :: between' :=
    List.mem_append_right _ List.mem_cons_self
  have hTaken : decl.name ∈ (before ++ previous :: between).map (·.name) :=
    List.mem_map.mpr ⟨previous, hMem, hName⟩
  have hTaken' : decl'.name ∈ (before' ++ previous' :: between').map (·.name) :=
    List.mem_map.mpr ⟨previous', hMem', hName'⟩
  rw [hDecls] at hDecls'
  have hSame : before ++ previous :: between = before' ++ previous' :: between' := by
    rcases List.append_eq_append_iff.mp hDecls' with ⟨more, hMore, -⟩ | ⟨more, hMore, -⟩
    · rw [hMore] at hDecls' hDistinct'
      rw [hMore, eq_nil_of_taken hDecls' hTaken hDistinct', List.append_nil]
    · rw [hMore] at hDecls' hDistinct
      rw [hMore, eq_nil_of_taken hDecls'.symm hTaken' hDistinct, List.append_nil]
  rw [hSame] at hDecls' hMem hDistinct
  obtain rfl := (List.cons.inj (List.append_cancel_left hDecls')).1
  exact ⟨List.inj_on_of_nodup_map hDistinct hMem hMem' (hName.trans hName'.symm), rfl⟩

theorem Repeats.starts {bound : Nat} (h : Repeats (ofFile file) previous decl)
    (hSpread : file.Spread bound) :
    previous.span.start < decl.span.start ∨
      previous.kind.turn < decl.kind.turn ∧ decl.span.start < previous.span.start := by
  obtain ⟨before, between, after, hDecls, -⟩ := h
  have hPrevious : previous ∈ before ++ previous :: between :=
    List.mem_append_right _ List.mem_cons_self
  have hPairwise := pairwise_ofFile hSpread
  rw [hDecls] at hPairwise
  have hFirst := (List.pairwise_append.mp hPairwise).2.2 previous hPrevious decl List.mem_cons_self
  refine hFirst.starts hSpread ?_ ?_
  · rw [hDecls]
    exact List.mem_append_left _ hPrevious
  · rw [hDecls]
    exact List.mem_append_right _ List.mem_cons_self

end Declaration

namespace Job

variable {job : Job} {session : Session} {decl : Declaration} {rest : List Declaration}

/-- The names of a module are entered up to those of the given declarations. -/
def Entering (job : Job) (rest : List Declaration) (session : Session) : Prop :=
  ∃ module done, session.program.module? job.id = some module ∧
    module.globals.map (fun global => (global.name, global.span)) =
      done.map (fun decl => (decl.name, decl.span)) ∧
    (done.map (·.name)).Nodup ∧ Declaration.ofFile job.file = done ++ rest

/-- The failure that reports a declaration whose name is taken by another one. -/
def redefined (job : Job) (previous decl : Declaration) : Failure :=
  .error ⟨job.package, decl.span, .redefined decl.name previous.span⟩

/-- An action ends, if not well, in the report of the first declaration whose name is taken. -/
abbrev Reports {α : Type} (job : Job) (session : Session) (action : SessionM α)
    (good : α → Session → Prop) : Prop :=
  Runs (fun _ failure => ∃ previous decl,
    Declaration.Repeats (Declaration.ofFile job.file) previous decl ∧
      failure = job.redefined previous decl) session action good

theorem modules_newHandle {bad : Session → Failure → Prop} (decl : Declaration) :
    Runs bad session (SessionM.newHandle decl) fun _ after =>
      after.program.modules = session.program.modules := by
  unfold SessionM.newHandle
  split <;> rfl

/-- A name that is taken is reported, and any other one is entered. -/
theorem Entering.declare (h : job.Entering (decl :: rest) session) :
    job.Reports session (SessionM.declare job decl) fun _ after => job.Entering rest after := by
  obtain ⟨module, done, hModule, hGlobals, hDistinct, hDone⟩ := h
  refine Runs.global?.bind fun found after hFound => ?_
  obtain ⟨rfl, rfl⟩ := hFound
  rw [Program.global?, hModule, Option.bind_some]
  cases hTaken : module.get? decl.name with
  | some global =>
      have hName : global.name = decl.name := by simpa using List.find?_some hTaken
      have hMem := List.mem_map_of_mem (f := fun global : Global => (global.name, global.span))
        (List.mem_of_find?_eq_some hTaken)
      rw [hGlobals] at hMem
      obtain ⟨previous, hPrevious, hSame⟩ := List.mem_map.mp hMem
      obtain ⟨hSameName, hSameSpan⟩ := Prod.mk.inj hSame
      obtain ⟨before, between, rfl⟩ := List.append_of_mem hPrevious
      refine .fail ⟨previous, decl, ⟨before, between, rest, hDone, hSameName.trans hName,
        hDistinct⟩, ?_⟩
      rw [redefined, hSameSpan]
  | none =>
      refine (modules_newHandle decl).bind fun handle middle hModules => ?_
      refine (Runs.changed _).mono fun _ after hAfter => ?_
      have hAbsent : decl.name ∉ done.map (·.name) := by
        intro hMem
        obtain ⟨previous, hPrevious, hName⟩ := List.mem_map.mp hMem
        have hEntered := List.mem_map_of_mem (f := fun decl : Declaration => (decl.name, decl.span))
          hPrevious
        rw [← hGlobals] at hEntered
        obtain ⟨global, hGlobal, hSame⟩ := List.mem_map.mp hEntered
        have hFree := List.find?_eq_none.mp hTaken global hGlobal
        rw [(Prod.mk.inj hSame).1, hName] at hFree
        simp at hFree
      refine ⟨module.addGlobal (decl.toGlobal job.package handle), done ++ [decl], ?_, ?_, ?_, ?_⟩
      · rw [hAfter]
        show (middle.program.updateModule job.id _).module? job.id = _
        rw [Program.module?_updateModule, if_pos rfl, Program.module?, hModules,
          ← Program.module?, hModule]
        rfl
      · rw [Module.addGlobal, List.map_append, List.map_append, hGlobals]
        rfl
      · rw [List.map_append, List.map_singleton, ← List.concat_eq_append]
        exact List.Nodup.concat hAbsent hDistinct
      · rw [hDone, List.append_assoc, List.singleton_append]

theorem Entering.declareAll (h : job.Entering (Declaration.ofFile job.file) session) :
    job.Reports session (SessionM.declareAll job) fun _ after => job.Entering [] after :=
  Runs.forM job.Entering h fun _ _ _ hBefore => hBefore.declare

theorem entering_registered (session : Session) (name : String) (file : SourceFile) :
    (⟨session.program.modules.length, name, file⟩ : Job).Entering (Declaration.ofFile file)
      (registered session name file) :=
  ⟨Module.ofFile name file, [], List.getElem?_concat_length, rfl, .nil, rfl⟩

theorem Entering.nodup (h : job.Entering [] session) :
    ((Declaration.ofFile job.file).map (·.name)).Nodup := by
  obtain ⟨_, done, -, -, hDistinct, hDone⟩ := h
  rwa [hDone, List.append_nil]

end Job

/-- A module in which a name is declared twice is not compiled. -/
theorem compileWithin_reports (library : Library) (depth : Nat) {name text : String}
    {session : Session} (hNew : session.program.find? name = none)
    (hParse : parse text = .ok file)
    (hRepeated : ¬ ((Declaration.ofFile file).map (·.name)).Nodup) :
    (⟨session.program.modules.length, name, file⟩ : Job).Reports session
      (SessionM.compileWithin library (depth + 1) name text) fun _ _ => False := by
  rw [SessionM.compileWithin]
  refine Runs.get.bind fun found after hFound => ?_
  obtain ⟨hFound, hAfter⟩ := hFound
  rw [hFound, hAfter, hNew]
  have hRead : SessionM.readSource name text = pure file := by
    unfold SessionM.readSource
    rw [hParse]
  rw [hRead, pure_bind]
  have hRegister : (⟨session.program.modules.length, name, file⟩ : Job).Reports session
      (SessionM.register name file) fun job after =>
        job = ⟨session.program.modules.length, name, file⟩ ∧
          after = Job.registered session name file := ⟨rfl, rfl⟩
  refine hRegister.bind fun job after hJob => ?_
  obtain ⟨rfl, rfl⟩ := hJob
  have hNever : (⟨session.program.modules.length, name, file⟩ : Job).Reports
      (Job.registered session name file) (SessionM.compileJob
        (SessionM.importWith library (SessionM.compileWithin library depth))
        ⟨session.program.modules.length, name, file⟩) fun _ _ => False :=
    (Job.entering_registered session name file).declareAll.bind fun _ _ hEntered =>
      absurd hEntered.nodup hRepeated
  exact hNever.bind fun _ _ hFalse => hFalse.elim

/-- A text in which a name is declared twice, as imports, types, constants, variables or functions,
is not compiled, whether as a module that is not known yet or as a program. Reported is the first
declaration whose name is taken as names are entered, kind after kind and within a kind in the
order of the text; the label "first defined here" points at the declaration that has taken the
name. That one stands before in the text, or else it stands behind and is of a kind whose names
are entered before. -/
theorem redefinition_reported {text : String} {file : SourceFile} (hParse : parse text = .ok file)
    (hRepeated : ¬ ((Declaration.ofFile file).map (·.name)).Nodup) (library : Library) :
    ∃ previous decl, Declaration.Repeats (Declaration.ofFile file) previous decl ∧
      (∀ name depth session, session.program.find? name = none → ∃ after,
        (SessionM.compileWithin library (depth + 1) name text).exec session =
          (.error (.error ⟨name, decl.span, .redefined decl.name previous.span⟩), after)) ∧
      compile library false text =
        .error (.error ⟨SessionM.mainName, decl.span, .redefined decl.name previous.span⟩) ∧
      (∀ name, ⟨previous.span, .context, "first defined here"⟩ ∈ (CompileError.toDiagnostic
          ⟨name, decl.span, .redefined decl.name previous.span⟩).labels) ∧
      (previous.span.start < decl.span.start ∨
        previous.kind.turn < decl.kind.turn ∧ decl.span.start < previous.span.start) := by
  obtain ⟨bound, hSpread⟩ := parse_spread hParse
  have hFails (depth : Nat) {name : String} {session : Session}
      (hNew : session.program.find? name = none) : ∃ previous decl after,
        Declaration.Repeats (Declaration.ofFile file) previous decl ∧
        (SessionM.compileWithin library (depth + 1) name text).exec session =
          (.error (.error ⟨name, decl.span, .redefined decl.name previous.span⟩), after) := by
    have hReports := compileWithin_reports library depth hNew hParse hRepeated
    unfold Job.Reports Runs at hReports
    cases hRun : (SessionM.compileWithin library (depth + 1) name text).exec session with
    | mk result after =>
        rw [hRun] at hReports
        cases result with
        | ok id => exact hReports.elim
        | error failure =>
            obtain ⟨previous, decl, hRepeats, rfl⟩ := hReports
            exact ⟨previous, decl, after, hRepeats, rfl⟩
  have hMain : Session.empty.program.find? SessionM.mainName = none := rfl
  obtain ⟨previous, decl, -, hRepeats, -⟩ := hFails 0 hMain
  have hAll (name : String) (depth : Nat) (session : Session)
      (hNew : session.program.find? name = none) : ∃ after,
        (SessionM.compileWithin library (depth + 1) name text).exec session =
          (.error (.error ⟨name, decl.span, .redefined decl.name previous.span⟩), after) := by
    obtain ⟨previous', decl', after, hRepeats', hRun⟩ := hFails depth hNew
    obtain ⟨rfl, rfl⟩ := hRepeats.unique hRepeats'
    exact ⟨after, hRun⟩
  refine ⟨previous, decl, hRepeats, hAll, ?_, fun _ => ?_, hRepeats.starts hSpread⟩
  · obtain ⟨after, hRun⟩ := hAll SessionM.mainName library.bound
      (SessionM.writePreamble.exec .empty).2 rfl
    have hProgram : (SessionM.compileProgram library false text).exec .empty =
        (.error (.error ⟨SessionM.mainName, decl.span, .redefined decl.name previous.span⟩),
          after) := by
      rw [SessionM.compileProgram, SessionM.bind_exec]
      show ((SessionM.compileSource library SessionM.mainName text >>= fun _ =>
        pure ()) : SessionM Unit).exec (SessionM.writePreamble.exec .empty).2 = _
      rw [SessionM.bind_exec, SessionM.compileSource, hRun]
    unfold compile
    replace hProgram :
      (SessionM.compileProgram library false text).run.run Session.empty = _ := hProgram
    rw [hProgram]
  · simp [CompileError.toDiagnostic, CompileError.report, Diagnostic.redefinition,
      Diagnostic.withContext, Diagnostic.withSite, Diagnostic.withNote, Diagnostic.withMessage]

/-- A variable and, behind it, a type of the same name. -/
def twiceSource : String := "var x int\ntype x int\n"

/-- The type is entered first, so the variable that stands before it is reported. -/
theorem redefinition_reported_twice : ∃ previous decl : Declaration,
    compile (.ofList []) false twiceSource =
        .error (.error ⟨"main", decl.span, .redefined decl.name previous.span⟩) ∧
      (previous.span.start < decl.span.start ∨
        previous.kind.turn < decl.kind.turn ∧ decl.span.start < previous.span.start) := by
  have hNames : (parse twiceSource).toOption.any (fun file =>
      !decide ((Declaration.ofFile file).map (·.name)).Nodup) = true := by decide +kernel
  cases hParse : parse twiceSource with
  | error failure =>
      rw [hParse] at hNames
      cases hNames
  | ok file =>
      rw [hParse] at hNames
      have hRepeated : ¬ ((Declaration.ofFile file).map (·.name)).Nodup := by
        simpa [Except.toOption] using hNames
      obtain ⟨previous, decl, -, -, hFails, -, hStarts⟩ :=
        redefinition_reported hParse hRepeated (.ofList [])
      exact ⟨previous, decl, hFails, hStarts⟩

/-- What is called the first definition of a name may stand behind the one that is reported. -/
theorem redefinition_previous_behind : compile (.ofList []) false twiceSource =
        .error (.error ⟨"main", ⟨0, 9⟩, .redefined "x" ⟨10, 20⟩⟩) ∧
      ¬ (⟨10, 20⟩ : Span).start < (⟨0, 9⟩ : Span).start :=
  ⟨by decide +kernel, by decide⟩

end GoToC
