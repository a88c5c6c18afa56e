import GoToC.Proofs.Session.Modules

/-!
# Faults of the compiler

Whatever the sources of a program are, compiling it gives a C program or an error of one of
the sources, with two exceptions. A row of `maxHops` types, each defined as the next, passes
the check of types although a mention of the first one from before it was built cannot be
followed to its end. And a value whose type is written as the type of types may be converted,
which no conversion is prepared for.
-/

/-!
## Programs given by their characters

A text is stored as bytes, but a program is read character by character. What it comes to is told
here by its characters, so that it can be worked out without taking the bytes apart.
-/

namespace GoToC

theorem toList_append_of {s t : String} {a b : List Char} (hs : s.toList = a) (ht : t.toList = b) :
    (s ++ t).toList = a ++ b := by
  rw [String.toList_append, hs, ht]

/-- Reads characters. -/
def parseChars (chars : List Char) : Except Grammar.Failure SourceFile :=
  parseTokens (tokensFrom 0 0 chars)

theorem parse_of_toList {text : String} {chars : List Char} (h : text.toList = chars) :
    parse text = parseChars chars := by
  rw [← h]
  rfl

namespace SessionM

variable {library : Library}

/-- Reads the characters of a module. -/
def readChars (name : String) (chars : List Char) : SessionM SourceFile :=
  match parseChars chars with
  | .ok file => return file
  | .error (.error cause) => error name cause.span (.parse cause)
  | .error .exhausted => throw .exhausted

/-- Compiles characters as the module of a name, unless that module is known. -/
def compileChars (library : Library) (name : String) (chars : List Char) : SessionM ModuleId := do
  match (← get).program.find? name with
  | some id => return id
  | none =>
      let file ← readChars name chars
      let job ← register name file
      compileJob (importWith library (compileWithin library library.bound)) job
      finish job.id
      return job.id

/-- Compiles a program from the characters of its main module. -/
def compileProgramChars (library : Library) (withBuiltin : Bool) (chars : List Char) :
    SessionM Unit := do
  writePreamble
  if withBuiltin then
    let _ ← loadBuiltin library
  let _ ← compileChars library mainName chars

theorem compileProgram_of_toList {withBuiltin : Bool} {text : String} {chars : List Char}
    (h : text.toList = chars) :
    compileProgram library withBuiltin text = compileProgramChars library withBuiltin chars := by
  have hSource : compileSource library mainName text = compileChars library mainName chars := by
    rw [← h]
    rfl
  unfold compileProgram compileProgramChars
  rw [hSource]

end SessionM

/-- The C program that an action writes. -/
def SessionM.written (program : SessionM Unit) : Except Failure String :=
  match program.run.run Session.empty with
  | (.ok _, session) => .ok session.text
  | (.error failure, _) => .error failure

theorem compile_of_toList {library : Library} {withBuiltin : Bool} {text : String}
    {chars : List Char} (h : text.toList = chars) :
    compile library withBuiltin text =
      (SessionM.compileProgramChars library withBuiltin chars).written := by
  show (SessionM.compileProgram library withBuiltin text).written = _
  rw [SessionM.compileProgram_of_toList h]

end GoToC

/-!
## What compilation comes to

The faults that are left are told by the sources of a program and by the types that it knows.
-/

namespace GoToC

variable {modules : List (String × String)}

/-- A source that mentions the type of types. -/
def MentionsMetatype (source : String) : Prop :=
  ∃ token ∈ lex source, token.kind = .ident Prim.type.name

/-- The sources of a program: that of its main module and those of a library. -/
def Sources.ofProgram (modules : List (String × String)) (text : String) : Sources where
  module name source := (name, source) ∈ (SessionM.mainName, text) :: modules
  metatype := ∃ entry ∈ (SessionM.mainName, text) :: modules, MentionsMetatype entry.2
  strict := ∀ entry ∈ (SessionM.mainName, text) :: modules, NamesGlobals entry.1
  mentions name source hSource token hToken hKind := ⟨(name, source), hSource, token, hToken, hKind⟩
  names hStrict name source hSource := hStrict (name, source) hSource

/-- What a library of modules loads is one of them. -/
theorem Library.mem_of_load {name source : String}
    (h : (Library.ofList modules).load name = .ok source) : (name, source) ∈ modules := by
  unfold Library.ofList at h
  dsimp only at h
  split at h
  · next found hFound =>
      cases h
      obtain ⟨before, after, rfl, -⟩ := List.lookup_eq_some_iff.mp hFound
      simp
  · cases h

theorem Library.within_ofList (modules : List (String × String)) (text : String) :
    (Library.ofList modules).Within (Sources.ofProgram modules text) :=
  ⟨fun _ _ h => List.mem_cons_of_mem _ (mem_of_load h), modules.map (·.1), by simp [ofList],
    fun _ _ h => List.mem_map_of_mem (mem_of_load h)⟩

/-- What the compilation of a program comes to. -/
theorem compileProgram_ofList (modules : List (String × String)) (withBuiltin : Bool)
    (text : String) :
    Runs (Sources.ofProgram modules text).Excuses Session.empty
      (SessionM.compileProgram (Library.ofList modules) withBuiltin text)
      fun _ after => after.Idle (Sources.ofProgram modules text) :=
  compileProgram_runs (Library.within_ofList modules text) withBuiltin List.mem_cons_self

/-- Every routine of a compiled program comes from a declaration of one of its sources. -/
theorem compileProgram_accounts {withBuiltin : Bool} {text : String} {session : Session}
    (hRun : (SessionM.compileProgram (.ofList modules) withBuiltin text).exec Session.empty =
      (.ok (), session)) {item : CItem} (hItem : item ∈ session.output.toList) :
    (Sources.ofProgram modules text).Accounts item := by
  have hIdle := compileProgram_ofList modules withBuiltin text
  rw [Runs, hRun] at hIdle
  obtain ⟨handle, function, hSound⟩ := hIdle
  exact hSound.items item hItem

/-- Compiling a program gives a C program or an error, unless a row of `maxHops` types, each
defined as the next, is followed from its first handle, or a value of the type of types, which
a source mentions, is converted. -/
theorem compile_outcome (modules : List (String × String)) (withBuiltin : Bool) (text : String) :
    (∃ output, compile (.ofList modules) withBuiltin text = .ok output) ∨
    (∃ cause, compile (.ofList modules) withBuiltin text = .error (.error cause)) ∨
    ∃ fault session,
      (SessionM.compileProgram (.ofList modules) withBuiltin text).exec Session.empty =
        (.error (.fault fault), session) ∧
      compile (.ofList modules) withBuiltin text = .error (.fault fault) ∧
      ((∃ name, fault = .unresolved (.tooDeep name)) ∧ session.program.types.HasChain ∨
        fault = .notConvertible .castFrom Prim.type.name ∧
          ∃ entry ∈ (SessionM.mainName, text) :: modules, MentionsMetatype entry.2) := by
  have hRun := compileProgram_ofList modules withBuiltin text
  have hCompile : compile (.ofList modules) withBuiltin text =
      match (SessionM.compileProgram (.ofList modules) withBuiltin text).exec Session.empty with
      | (.ok _, session) => .ok session.text
      | (.error failure, _) => .error failure := rfl
  rw [Runs] at hRun
  cases hExec : (SessionM.compileProgram (.ofList modules) withBuiltin text).exec Session.empty with
  | mk result session =>
      rw [hExec] at hRun hCompile
      cases result with
      | ok value => exact .inl ⟨session.text, hCompile⟩
      | error failure =>
          cases failure with
          | error cause => exact .inr (.inl ⟨cause, hCompile⟩)
          | fault fault => exact .inr (.inr ⟨fault, session, rfl, hCompile, hRun⟩)
          | exhausted => exact hRun.elim

/-- A function that is said to return a type can be called for a value to convert. -/
theorem compile_type_conversion :
    compile (.ofList []) false "func f() _type_\nfunc g() int \x7b return int(f()) \x7d\n" =
      .error (.fault (.notConvertible .castFrom "_type_")) := by
  rw [compile_of_toList String.toList_ofList]
  decide +kernel

/-- A field was given its type when the first of sixteen types was not built. -/
example : compile (.ofList []) false
      ("type S struct \x7b f T0 \x7d\ntype T0 T1\ntype T1 T2\ntype T2 T3\ntype T3 T4\n" ++
        "type T4 T5\ntype T5 T6\ntype T6 T7\ntype T7 T8\ntype T8 T9\ntype T9 T10\n" ++
        "type T10 T11\ntype T11 T12\ntype T12 T13\ntype T13 T14\ntype T14 T15\n" ++
        "type T15 int\nfunc g(s *S) \x7b s.f = 1 \x7d\n") =
      .error (.fault (.unresolved (.tooDeep "T0"))) := by
  rw [compile_of_toList (toList_append_of (toList_append_of (toList_append_of
    String.toList_ofList String.toList_ofList) String.toList_ofList)
    String.toList_ofList)]
  decide +kernel

end GoToC
