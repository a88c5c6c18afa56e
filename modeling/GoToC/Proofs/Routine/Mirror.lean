import GoToC.Compile.Module
import GoToC.Proofs.C.Reading
import GoToC.Proofs.Routine.Forms

/-!
# Fragments mirror expressions

The tree of C operators that a source expression is to become. Operators keep their
operands, and what stands in between is told rule by rule: conversions are unary nodes,
what is written ahead is the temporary that holds it, and a constant is the tree of its
initializer. Names are told apart by where they are declared, and of the sources of a
program only which file a module may have been read from is known here.
-/

namespace GoToC

variable {args : List Expr} {id : ModuleId} {name : String} {receiver e : Expr}

/-- Whether a file declares a name. -/
def SourceFile.Declares (file : SourceFile) (name : String) : Prop :=
  ∃ decl ∈ Declaration.ofFile file, decl.name = name

/-- Where an expression stands: in a module, and in blocks that bind some names to
variables. -/
structure Point where
  package : String
  file : SourceFile
  locals : String → Option CExpr

namespace Point

/-- A point outside of all functions. -/
def outside (package : String) (file : SourceFile) : Point := ⟨package, file, fun _ => none⟩

/-- A name that stands for a global of a module: the own one or, unless that declares the
name too, the one that all modules see. -/
inductive Sees (files : String → SourceFile → Prop) (point : Point) (name : String) :
    String → SourceFile → Prop
  | own : point.locals name = none → point.file.Declares name →
      Sees files point name point.package point.file
  | shared {file} : point.locals name = none → ¬ point.file.Declares name →
      files SessionM.builtinName file → Sees files point name SessionM.builtinName file

/-- An expression that stands for the module of a name. -/
inductive NamesModule (files : String → SourceFile → Prop) (point : Point) : Expr → String → Prop
  | ident {span name owner file} :
      Sees files point name owner file → (∃ decl ∈ file.imports, decl.name = name) →
        NamesModule files point (.ident span name) name
  | dot {span receiver owner name file} :
      NamesModule files point receiver owner → files owner file →
        (∃ decl ∈ file.imports, decl.name = name) →
          NamesModule files point (.dot span receiver name) name

/-- An expression that stands for a type. -/
inductive NamesType (files : String → SourceFile → Prop) (point : Point) : Expr → Prop
  | known {span name type} :
      point.locals name = none → ¬ point.file.Declares name →
        primValue? name = some (.type type) → NamesType files point (.ident span name)
  | ident {span name owner file} :
      Sees files point name owner file → (∃ decl ∈ file.types, decl.name = name) →
        NamesType files point (.ident span name)
  | dot {span receiver owner name file} :
      NamesModule files point receiver owner → files owner file →
        (∃ decl ∈ file.types, decl.name = name) → NamesType files point (.dot span receiver name)
  | pointer {span inner} : NamesType files point (.pointerType span inner)
  | slice {span elem} : NamesType files point (.sliceType span elem)
  | map {span key value} : NamesType files point (.mapType span key value)
  | struct {span fields} : NamesType files point (.structType span fields)
  | interface {span specs} :
      NamesType files point (.interfaceType span specs)

end Point

/-- What a conversion makes of a tree. -/
inductive CTree.Converted (tree : CTree) : CTree → Prop
  | keep : Converted tree tree
  | toInterface : Converted tree (.call (.name "HandleToInterface") [tree])
  | castTo (prim : Prim) : Converted tree (.cast prim.cType tree)

/-- The temporary that holds what was written ahead. -/
def CTree.IsTemp (tree : CTree) : Prop := ∃ serial, tree = .name (RoutineM.tempName serial)

/-- The address of a temporary for one of several results. -/
def CTree.IsResult (tree : CTree) : Prop :=
  ∃ serial index, tree = .unary "&" (.name (RoutineM.multiName serial index))

/-- What a call passes for the arguments that are left over: nothing if none are, or the
slice that they are collected in. -/
inductive CTree.Packs (spread : Bool) : List Expr → List CTree → Prop
  | nothing : Packs spread [] []
  | slice {rest tree} : spread = false → tree.IsTemp →
      Packs spread rest [tree]

mutual

/-- The tree of an expression, read at a point. -/
inductive Mirrors (files : String → SourceFile → Prop) : Point → Expr → CTree → Prop
  | int {point span value} :
      Mirrors files point (.int span value) (.number (toString value))
  | str {point span text} : Mirrors files point (.str span text)
        (.call (.name "MakeStringFromC") [.string (String.ofList (CText.escape text.toList))])
  | bound {point span name c} :
      point.locals name = some c → Mirrors files point (.ident span name) c.tree
  | known {point span name e} :
      point.locals name = none → ¬ point.file.Declares name → primValue? name = some (.expr e) →
        Mirrors files point (.ident span name) e.c.tree
  | global {point span name owner file tree} :
      point.Sees files name owner file → GlobalMirrors files owner file name tree →
        Mirrors files point (.ident span name) tree
  | imported {point span receiver name owner file tree} :
      point.NamesModule files receiver owner → files owner file →
        GlobalMirrors files owner file name tree →
          Mirrors files point (.dot span receiver name) tree
  | unary {point span op operand tree} :
      Mirrors files point operand tree →
        Mirrors files point (.unary span op operand) (.unary op.cSign tree)
  | binary {point span op left right l r} :
      Mirrors files point left l → Mirrors files point right r →
        Mirrors files point (.binary span op left right)
          (.binary op.cSign l (if op = .andNot then .unary "~" r else r))
  | field {point span receiver name tree} :
      Mirrors files point receiver tree →
        Mirrors files point (.dot span receiver name) (.member tree name)
  | index {point span receiver position r p} :
      Mirrors files point receiver r → Mirrors files point position p →
        Mirrors files point (.index span receiver position) (.index r p)
  | slice {point span receiver lo hi tree} :
      tree.IsTemp → Mirrors files point (.slice span receiver lo hi) tree
  | ctor {point span type fields tree} : tree.IsTemp →
      Mirrors files point (.ctor span type fields) tree
  | append {point span inner args spread tree} :
      point.locals "append" = none → ¬ point.file.Declares "append" → tree.IsTemp →
        Mirrors files point (.call span (.ident inner "append") args spread) tree
  | byteCount {point span inner arg spread tree} :
      point.locals "len" = none → ¬ point.file.Declares "len" → Mirrors files point arg tree →
        Mirrors files point (.call span (.ident inner "len") [arg] spread) (.member tree "len")
  | elementCount {point span inner arg spread tree elem} :
      point.locals "len" = none → ¬ point.file.Declares "len" → Mirrors files point arg tree →
        Mirrors files point (.call span (.ident inner "len") [arg] spread)
          (.binary "/" (.member tree "len") (.sizeof elem))
  | conversion {point span type arg spread tree out} :
      point.NamesType files type → Mirrors files point arg tree → tree.Converted out →
        Mirrors files point (.call span type [arg] spread) out
  | call {point span callee spread passed rest tree trees packed results} :
      Mirrors files point callee tree → ArgsMirror files point passed trees →
        CTree.Packs spread rest packed → (∀ result ∈ results, result.IsResult) →
          Mirrors files point (.call span callee (passed ++ rest) spread)
            (.call tree (trees ++ packed ++ results))
  | method {point span inner receiver name owner spread passed rest tree trees packed results} :
      Mirrors files point receiver tree → ArgsMirror files point passed trees →
        CTree.Packs spread rest packed → (∀ result ∈ results, result.IsResult) →
          Mirrors files point (.call span (.dot inner receiver name) (passed ++ rest) spread)
            (.call (.name (owner ++ name)) (tree :: trees ++ packed ++ results))

/-- The trees of arguments, each converted to the type that is wanted. -/
inductive ArgsMirror (files : String → SourceFile → Prop) :
    Point → List Expr → List CTree → Prop
  | nil {point} : ArgsMirror files point [] []
  | cons {point arg rest tree out trees} :
      Mirrors files point arg tree → tree.Converted out → ArgsMirror files point rest trees →
        ArgsMirror files point (arg :: rest) (out :: trees)

/-- The tree of a global of a file: a name, or that of the initializer if it is a constant. -/
inductive GlobalMirrors (files : String → SourceFile → Prop) :
    String → SourceFile → String → CTree → Prop
  | const {owner file decl tree} :
      decl ∈ file.consts → Mirrors files (.outside owner file) decl.value tree →
        GlobalMirrors files owner file decl.name tree
  | var {owner file decl} : decl ∈ file.vars →
      GlobalMirrors files owner file decl.name (.name (Declaration.cName owner decl.name))
  | func {owner file decl} : decl ∈ file.funcs →
      GlobalMirrors files owner file decl.name (.name (Declaration.cName owner decl.name))

end

/-! ## Programs that keep to their sources -/

/-- What a global may have become of a declaration of its file. -/
structure Global.Faithful (files : String → SourceFile → Prop) (program : Program)
    (owner : String) (file : SourceFile) (global : Global) : Prop where
  declared : file.Declares global.name
  expr : ∀ e, global.value = some (.expr e) → GlobalMirrors files owner file global.name e.c.tree
  type : (∃ type, global.value = some (.type type)) ∨ (∃ handle, global.handle = some handle) →
    ∃ decl ∈ file.types, decl.name = global.name
  module : ∀ id, global.value = some (.module id) →
    (∃ decl ∈ file.imports, decl.name = global.name) ∧
      ∃ module, program.module? id = some module ∧ module.name = global.name

/-- Modules whose globals keep to the files that they were read from. -/
structure Program.Faithful (files : String → SourceFile → Prop) (program : Program) : Prop where
  file : ∀ id module, program.module? id = some module → files module.name module.file
  globals : ∀ id module, program.module? id = some module → ∀ global ∈ module.globals,
    global.Faithful files program module.name module.file
  builtin : ∀ id, program.builtin = some id →
    ∃ module, program.module? id = some module ∧ module.name = SessionM.builtinName

/-- A faithful program together with a module of it all of whose names are entered. -/
structure Env.Faithful (files : String → SourceFile → Prop) (file : SourceFile) (env : Env) :
    Prop where
  program : env.program.Faithful files
  own : ∃ module, env.program.module? env.module = some module ∧ module.name = env.package ∧
    module.file = file
  entered : ∀ name, file.Declares name → (env.program.global? env.module name).isSome = true

/-- The point of an expression that is compiled in the given blocks. -/
def Env.point (env : Env) (file : SourceFile) (scopes : List Scope) : Point :=
  ⟨env.package, file, fun name => (scopes.findSome? (·.lookup name)).map (·.c)⟩

/-- What an expression stands for, as far as its tree is concerned. -/
def Value.Mirrors (files : String → SourceFile → Prop) (program : Program) (point : Point) :
    Expr → Value → Prop
  | e, .expr found => GoToC.Mirrors files point e found.c.tree
  | _, .global id name => (program.global? id name).bind (·.value) = none
  | e, .type _ => point.NamesType files e
  | e, .module id => ∃ module, program.module? id = some module ∧
      point.NamesModule files e module.name
  | e, .element container position => ∃ span receiver index, e = .index span receiver index ∧
      container.Mirrors files program point receiver ∧ position.Mirrors files program point index
  | e, .method bound => ∃ span receiver name owner, e = .dot span receiver name ∧
      GoToC.Mirrors files point receiver bound.receiver.tree ∧
        bound.callee.tree = .name (owner ++ name)

/-! ## Names -/

section

variable {files : String → SourceFile → Prop} {program : Program}

theorem Value.IsTemp.mirrors {value : Value} (h : value.IsTemp) {point : Point}
    (hTree : ∀ tree : CTree, tree.IsTemp → GoToC.Mirrors files point e tree) :
    value.Mirrors files program point e := by
  obtain ⟨serial, type, rfl⟩ := h
  exact hTree _ ⟨serial, rfl⟩

theorem Program.Faithful.of_global? (h : program.Faithful files) {global : Global}
    (hGlobal : program.global? id name = some global) :
    ∃ module, program.module? id = some module ∧ global.name = name ∧
      global.Faithful files program module.name module.file := by
  obtain ⟨module, hModule, hGet⟩ := Option.bind_eq_some_iff.mp hGlobal
  have hName : global.name = name := by simpa using List.find?_some hGet
  exact ⟨module, hModule, hName, h.globals id module hModule global
    (List.mem_of_find?_eq_some hGet)⟩

theorem primValue?_cases {value : Value} (h : primValue? name = some value) :
    (∃ e, value = .expr e) ∨ ∃ type, value = .type type := by
  unfold primValue? at h
  split at h
  · exact .inl ⟨_, (Option.some.inj h).symm⟩
  · split at h
    · exact .inl ⟨_, (Option.some.inj h).symm⟩
    · split at h
      · exact .inl ⟨_, (Option.some.inj h).symm⟩
      · obtain ⟨prim, -, rfl⟩ := Option.map_eq_some_iff.mp h
        exact .inr ⟨_, rfl⟩

/-- What a global of a module stands for: a value, a type or a module, as it is declared, or nothing
yet. -/
inductive Program.Holds (files : String → SourceFile → Prop) (program : Program) (id : ModuleId)
    (module : Module) (name : String) : Value → Prop
  | expr {e : Typed} : GlobalMirrors files module.name module.file name e.c.tree →
      Holds files program id module name (.expr e)
  | type {type} : (∃ decl ∈ module.file.types, decl.name = name) →
      Holds files program id module name (.type type)
  | module {target found} : (∃ decl ∈ module.file.imports, decl.name = name) →
      program.module? target = some found → found.name = name →
      Holds files program id module name (.module target)
  | waiting : (program.global? id name).bind (·.value) = none →
      Holds files program id module name (.global id name)

theorem Program.Faithful.holds (h : program.Faithful files) {value : Value}
    (hValue : program.globalValue? id name = some value) :
    ∃ module, program.module? id = some module ∧ module.file.Declares name ∧
      program.Holds files id module name value := by
  obtain ⟨global, hGlobal, hValue⟩ := Option.map_eq_some_iff.mp hValue
  obtain ⟨module, hFound, rfl, hFaithful⟩ := h.of_global? hGlobal
  refine ⟨module, hFound, hFaithful.declared, ?_⟩
  split at hValue
  · next built hBuilt =>
      subst hValue
      cases built with
      | expr found => exact .expr (hFaithful.expr found hBuilt)
      | type type => exact .type (hFaithful.type (.inl ⟨type, hBuilt⟩))
      | module target =>
          obtain ⟨hImport, found, hTarget, hName⟩ := hFaithful.module target hBuilt
          exact .module hImport hTarget hName
  · next handle _ hHandle =>
      subst hValue
      exact .type (hFaithful.type (.inr ⟨handle, hHandle⟩))
  · next hNone _ =>
      subst hValue
      refine .waiting ?_
      rw [hGlobal]
      exact hNone

/-- A global mirrors an expression that names it, whatever way the expression names it. -/
theorem Program.Holds.mirrors {module : Module} {value : Value} {point : Point}
    (h : program.Holds files id module name value)
    (hTree : ∀ tree, GlobalMirrors files module.name module.file name tree →
      Mirrors files point e tree)
    (hType : (∃ decl ∈ module.file.types, decl.name = name) → point.NamesType files e)
    (hModule : (∃ decl ∈ module.file.imports, decl.name = name) → point.NamesModule files e name) :
    value.Mirrors files program point e := by
  cases h with
  | expr hMirrors => exact hTree _ hMirrors
  | type hDeclared => exact hType hDeclared
  | module hDeclared hFound hName => exact ⟨_, hFound, hName ▸ hModule hDeclared⟩
  | waiting hNone => exact hNone

end

/-- Where an identifier is found: in a block, in the module, in the module that all others see, or
among what is known without a declaration. -/
inductive Env.Finds (env : Env) (scopes : List Scope) (name : String) : Value → Prop
  | bound {found} : scopes.findSome? (·.lookup name) = some found →
      Finds env scopes name (.expr found)
  | own {value} : scopes.findSome? (·.lookup name) = none →
      env.program.globalValue? env.module name = some value → Finds env scopes name value
  | shared {value builtin} : scopes.findSome? (·.lookup name) = none →
      env.program.globalValue? env.module name = none → env.program.builtin = some builtin →
      env.program.globalValue? builtin name = some value → Finds env scopes name value
  | known {value} : scopes.findSome? (·.lookup name) = none →
      env.program.globalValue? env.module name = none → primValue? name = some value →
      Finds env scopes name value

namespace Yields

variable {files : String → SourceFile → Prop} {file : SourceFile} {env : Env}
  {scopes : List Scope} {quiet : Prop}

theorem finds (name : String) (span : Span) :
    Yields env scopes quiet (RoutineM.lookup name span) (env.Finds scopes name) := by
  refine .asks (.lookup name span) fun routine value after hScopes hRun => ?_
  unfold RoutineM.lookup at hRun
  obtain ⟨_, _, hRead, hRun⟩ := RoutineM.bind_eq_ok.mp hRun
  cases hRead
  obtain ⟨_, _, hGet, hRun⟩ := RoutineM.bind_eq_ok.mp hRun
  cases hGet
  rw [Routine.binding?, hScopes] at hRun
  split at hRun
  · next found hBound =>
      cases hRun
      exact .bound hBound
  · next hFree =>
      split at hRun
      · next found hOwn =>
          cases hRun
          exact .own hFree hOwn
      · next hNone =>
          dsimp only at hRun
          split at hRun
          · next found hFound =>
              cases hRun
              rw [Option.orElse_eq_orElse, Option.orElse_eq_or] at hFound
              rcases Option.or_eq_some_iff.mp hFound with hShared | ⟨-, hKnown⟩
              · obtain ⟨builtin, hBuiltin, hShared⟩ := Option.bind_eq_some_iff.mp hShared
                split at hShared
                · cases hShared
                · exact .shared hFree hNone hBuiltin hShared
              · exact .known hFree hNone hKnown
          · cases hRun

end Yields

section

variable {files : String → SourceFile → Prop} {file : SourceFile} {env : Env} {scopes : List Scope}
  {name : String}

theorem Env.point_free (h : scopes.findSome? (·.lookup name) = none) :
    (env.point file scopes).locals name = none := by
  show (scopes.findSome? (·.lookup name)).map (·.c) = _
  rw [h]
  rfl

/-- All declared names are entered, so what is not found in the module is not declared there. -/
theorem Env.Faithful.undeclared (h : env.Faithful files file)
    (hNone : env.program.globalValue? env.module name = none) : ¬ file.Declares name := by
  intro hDeclares
  have hEntered := h.entered name hDeclares
  rw [Program.globalValue?, Option.map_eq_none_iff] at hNone
  rw [hNone] at hEntered
  cases hEntered

/-- A global of the module that is found is seen. -/
theorem Env.Faithful.own_seen (h : env.Faithful files file) {value : Value}
    (hFree : scopes.findSome? (·.lookup name) = none)
    (hValue : env.program.globalValue? env.module name = some value) :
    ∃ module, env.program.module? env.module = some module ∧
      (env.point file scopes).Sees files name module.name module.file ∧
      env.program.Holds files env.module module name value := by
  obtain ⟨own, hOwn, hPackage, rfl⟩ := h.own
  obtain ⟨module, hModule, hDeclares, hHolds⟩ := h.program.holds hValue
  obtain rfl : own = module := Option.some.inj (hOwn.symm.trans hModule)
  refine ⟨own, hOwn, ?_, hHolds⟩
  rw [hPackage]
  exact .own (Env.point_free hFree) hDeclares

/-- So is a global of the module that all others see, unless the module declares the name. -/
theorem Env.Faithful.shared_seen (h : env.Faithful files file) {value : Value} {builtin : ModuleId}
    (hFree : scopes.findSome? (·.lookup name) = none)
    (hNone : env.program.globalValue? env.module name = none)
    (hBuiltin : env.program.builtin = some builtin)
    (hValue : env.program.globalValue? builtin name = some value) :
    ∃ module, env.program.module? builtin = some module ∧
      (env.point file scopes).Sees files name module.name module.file ∧
      env.program.Holds files builtin module name value := by
  obtain ⟨shared, hShares, hName⟩ := h.program.builtin builtin hBuiltin
  obtain ⟨module, hModule, -, hHolds⟩ := h.program.holds hValue
  obtain rfl : shared = module := Option.some.inj (hShares.symm.trans hModule)
  refine ⟨shared, hShares, ?_, hHolds⟩
  have hRead := h.program.file builtin shared hShares
  rw [hName] at hRead ⊢
  exact .shared (Env.point_free hFree) (h.undeclared hNone) hRead

end

namespace Yields

variable {files : String → SourceFile → Prop} {file : SourceFile} {env : Env}
  {scopes : List Scope} {quiet : Prop}

/-- What an identifier stands for. -/
theorem lookup (h : env.Faithful files file) (name : String) (span : Span) :
    Yields env scopes quiet (RoutineM.lookup name span)
      (Value.Mirrors files env.program (env.point file scopes) (.ident span name)) := by
  refine (finds name span).mono fun value hFinds => ?_
  cases hFinds with
  | bound hBound =>
      refine Mirrors.bound ?_
      show (scopes.findSome? (·.lookup name)).map (·.c) = _
      rw [hBound]
      rfl
  | own hFree hValue =>
      obtain ⟨module, -, hSees, hHolds⟩ := h.own_seen hFree hValue
      exact hHolds.mirrors (fun _ => .global hSees) (.ident hSees) (.ident hSees)
  | shared hFree hNone hBuiltin hValue =>
      obtain ⟨module, -, hSees, hHolds⟩ := h.shared_seen hFree hNone hBuiltin hValue
      exact hHolds.mirrors (fun _ => .global hSees) (.ident hSees) (.ident hSees)
  | known hFree hNone hKnown =>
      have hLocals : (env.point file scopes).locals name = none := Env.point_free hFree
      rcases primValue?_cases hKnown with ⟨e, rfl⟩ | ⟨type, rfl⟩
      · exact Mirrors.known hLocals (h.undeclared hNone) hKnown
      · exact Point.NamesType.known hLocals (h.undeclared hNone) hKnown

/-- A function that is compiled in place is named, and neither a block nor the module declares
it. -/
theorem intrinsicFree (hEnv : env.Faithful files file) (callee : Expr) :
    Yields env scopes quiet (Call.intrinsic? callee) fun found => ∀ intrinsic ∈ found,
      ∃ inner, callee = .ident inner intrinsic.name ∧
        (env.point file scopes).locals intrinsic.name = none ∧ ¬ file.Declares intrinsic.name := by
  refine (Yields.intrinsic? callee).mono fun found hFound intrinsic hSome => ?_
  obtain ⟨hIdent, hFree, hGlobal⟩ := hFound intrinsic hSome
  have hLocals : (env.point file scopes).locals intrinsic.name = none := Env.point_free hFree
  have hDeclares : ¬ file.Declares intrinsic.name := by
    intro hDeclares
    have hEntered := hEnv.entered _ hDeclares
    rw [hGlobal] at hEntered
    cases hEntered
  unfold Expr.ident? at hIdent
  split at hIdent
  · next inner name =>
      obtain rfl := Option.some.inj hIdent
      exact ⟨inner, rfl, hLocals, hDeclares⟩
  · cases hIdent

/-! ## Values -/

variable {point : Point} {e : Expr}

theorem single (found : Typed) (span : Span) :
    Yields env scopes quiet (RoutineM.single found span) (· = found) := by
  refine .bind (.types _) fun several _ => ?_
  split
  · exact .error _ _
  · exact .pure rfl

theorem toExpr (span : Span) {value : Value} (h : value.Mirrors files env.program point e) :
    Yields env scopes quiet (RoutineM.toExpr span value) fun found =>
      Mirrors files point e found.c.tree := by
  induction value generalizing e with
  | expr found => exact .pure h
  | global id name =>
      rw [RoutineM.toExpr]
      refine .bind .read fun found hFound => ?_
      rw [hFound, show (env.program.global? id name).bind (·.value) = none from h]
      exact .error _ _
  | element container index hContainer hIndex =>
      obtain ⟨span, receiver, position, rfl, hReceiver, hPosition⟩ := h
      rw [RoutineM.toExpr]
      refine .bind (hContainer hReceiver) fun c hc => .bind (.single c _) fun c' hc' =>
        .bind (hIndex hPosition) fun i hi => .bind (.single i _) fun i' hi' =>
          .bind (.types _) fun found _ => ?_
      split
      · refine .pure ?_
        rw [CExpr.tree, hc', hi']
        exact .index hc hi
      · exact .error _ _
  | type denoted => exact .error _ _
  | module id => exact .error _ _
  | method bound => exact .error _ _

theorem toSingle (span : Span) {value : Value} (h : value.Mirrors files env.program point e) :
    Yields env scopes quiet (RoutineM.toSingle span value) fun found =>
      Mirrors files point e found.c.tree :=
  .bind (.toExpr span h) fun found hFound => (Yields.single found span).mono fun same hSame => by
    rw [hSame]
    exact hFound

theorem converted (conversion : Conversion) (c : CExpr) :
    c.tree.Converted (conversion.apply c).tree := by
  cases conversion with
  | keep => exact .keep
  | toInterface =>
      rw [Conversion.apply, CExpr.tree]
      exact .toInterface
  | castTo prim =>
      rw [Conversion.apply, CExpr.tree]
      exact .castTo prim

end Yields

/-! ## Calls -/

theorem CExpr.trees_eq_map (es : List CExpr) : CExpr.trees es = es.map CExpr.tree := by
  induction es with
  | nil => rfl
  | cons e rest ih => rw [CExpr.trees, ih, List.map_cons]

/-- An expression whose fragment is known to mirror it. -/
abbrev Expr.Mirrored (files : String → SourceFile → Prop) (env : Env) (scopes : List Scope)
    (point : Point) (e : Expr) : Prop :=
  Yields env scopes False (compileExpr e) (Value.Mirrors files env.program point e)

namespace Expr.Mirrored

variable {files : String → SourceFile → Prop} {env : Env} {scopes : List Scope} {point : Point}
  {e : Expr}

theorem value (h : e.Mirrored files env scopes point) :
    Yields env scopes False (operand e).value fun found => Mirrors files point e found.c.tree :=
  .bind h fun _ hValue => .toSingle _ hValue

/-- Arguments that are passed are the converted trees of what was given. -/
theorem argsMirror {cs : List CExpr} (h : List.Forall₂ (CExpr.PassedFor fun arg found => Mirrors
    files point arg found.c.tree) args cs) : ArgsMirror files point args (cs.map CExpr.tree) := by
  induction h with
  | nil => exact .nil
  | cons hFirst _ ih =>
      obtain ⟨found, hFound, conversion, rfl⟩ := hFirst
      exact .cons hFound (Yields.converted conversion found.c) ih

theorem packs {spread : Bool} {rest : List Expr} {packed : List CExpr}
    (h : CExpr.Packs spread rest packed) : CTree.Packs spread rest (packed.map CExpr.tree) := by
  cases h with
  | nothing => exact .nothing
  | slice hSpread => exact .slice hSpread ⟨_, rfl⟩

/-- What a call of a C function comes to: its name with the arguments that it is passed. -/
theorem apply (callee : CExpr) (func : FuncType Ty) (leading : List CExpr)
    (inputs : List (Member Ty)) (spread : Bool) (span : Span)
    (h : ∀ arg ∈ args, arg.Mirrored files env scopes point) :
    Yields env scopes False
      (Call.apply callee func leading inputs (args.map operand) spread span) fun value =>
        ∃ passed rest trees packed results c type, args = passed ++ rest ∧
          ArgsMirror files point passed trees ∧ CTree.Packs spread rest packed ∧
          (∀ result ∈ results, CTree.IsResult result) ∧ value = .expr ⟨c, type⟩ ∧
          c.tree = .call callee.tree (leading.map CExpr.tree ++ trees ++ packed ++ results) := by
  refine (Yields.apply callee func leading inputs spread span fun arg hArg =>
    (h arg hArg).value).mono ?_
  rintro _ ⟨passed, rest, cs, packed, results, type, rfl, hPassed, hPacked, hResults, rfl⟩
  refine ⟨passed, rest, _, _, results.map CExpr.tree, _, type, rfl, argsMirror hPassed,
    packs hPacked, fun result hResult => ?_, rfl, ?_⟩
  · obtain ⟨address, hAddress, rfl⟩ := List.mem_map.mp hResult
    obtain ⟨serial, index, rfl⟩ := hResults address hAddress
    exact ⟨serial, index, by rw [CExpr.tree]⟩
  · rw [CExpr.tree, CExpr.trees_eq_map]
    simp only [List.map_append]

theorem conversion {type : Expr} (denoted : Ty) (spread : Bool) (span : Span)
    (hType : point.NamesType files type) (h : ∀ arg ∈ args, arg.Mirrored files env scopes point) :
    Yields env scopes False (Call.conversion denoted (args.map operand) span)
      (Value.Mirrors files env.program point (.call span type args spread)) := by
  refine (Yields.converts denoted span fun arg hArg => (h arg hArg).value).mono ?_
  rintro _ ⟨arg, _, rfl, ⟨found, hFound, conversion, rfl⟩, rfl⟩
  exact Mirrors.conversion hType hFound (Yields.converted _ _)

theorem lengthOf (spread : Bool) (span inner : Span) (hLocals : point.locals "len" = none)
    (hDeclares : ¬ point.file.Declares "len")
    (h : ∀ arg ∈ args, arg.Mirrored files env scopes point) :
    Yields env scopes False (Call.lengthOf (args.map operand) spread span)
      (Value.Mirrors files env.program point (.call span (.ident inner "len") args spread)) := by
  refine (Yields.counts spread span fun arg hArg => (h arg hArg).value).mono ?_
  rintro _ ⟨arg, found, rfl, hFound, rfl | ⟨elem, rfl⟩⟩
  · rw [Value.Mirrors, CExpr.tree]
    exact .byteCount hLocals hDeclares hFound
  · rw [Value.Mirrors, CExpr.tree]
    exact .elementCount hLocals hDeclares hFound

variable {file : SourceFile}

theorem call (hEnv : env.Faithful files file) {callee : Expr} (spread : Bool) (span : Span)
    (hCallee : callee.Mirrored files env scopes (env.point file scopes))
    (h : ∀ arg ∈ args, arg.Mirrored files env scopes (env.point file scopes)) :
    Yields env scopes False (Call.call (operand callee) (args.map operand) spread span)
      (Value.Mirrors files env.program (env.point file scopes)
        (.call span callee args spread)) := by
  refine .bind (.intrinsicFree hEnv callee) fun found hFree => ?_
  split
  · obtain ⟨inner, rfl, hLocals, hDeclares⟩ := hFree .len rfl
    exact lengthOf spread span inner hLocals hDeclares h
  · obtain ⟨inner, rfl, hLocals, hDeclares⟩ := hFree .append rfl
    exact (Yields.appended args spread span).mono fun _ hTemp =>
      hTemp.mirrors fun _ hTree => .append hLocals hDeclares hTree
  · refine .bind hCallee fun value hValue => ?_
    split
    · exact conversion _ spread span hValue h
    · next bound =>
        obtain ⟨inner, receiver, name, owner, rfl, hReceiver, hName⟩ := hValue
        refine (apply _ _ _ _ spread span h).mono ?_
        rintro _ ⟨passed, rest, trees, packed, results, c, type, rfl, hTrees, hPacked,
          hResults, rfl, hTree⟩
        rw [hName] at hTree
        rw [Value.Mirrors, hTree]
        exact .method hReceiver hTrees hPacked hResults
    · refine .bind (.toSingle span hValue) fun e hTree => .bind (.types _) fun func _ => ?_
      split
      · refine (apply _ _ _ _ spread span h).mono ?_
        rintro _ ⟨passed, rest, trees, packed, results, c, type, rfl, hTrees, hPacked,
          hResults, rfl, hCall⟩
        rw [Value.Mirrors, hCall]
        exact .call hTree hTrees hPacked hResults
      · exact .error _ _

/-! ## Members -/

theorem moduleMember (hEnv : env.Faithful files file) (member : String) (span : Span)
    (h : Value.Mirrors files env.program point receiver (.module id)) :
    Yields env scopes False (ExprRule.moduleMember id member span)
      (Value.Mirrors files env.program point (.dot span receiver member)) := by
  obtain ⟨module, hModule, hNames⟩ := h
  have hFile := hEnv.program.file id module hModule
  refine (Yields.moduleMember id member span).mono fun value hValue => ?_
  obtain ⟨found, hFound, -, hHolds⟩ := hEnv.program.holds hValue
  obtain rfl : module = found := Option.some.inj (hModule.symm.trans hFound)
  exact hHolds.mirrors (fun _ => .imported hNames hFile) (.dot hNames hFile) (.dot hNames hFile)

theorem boundMethod? {callee c : CExpr} {owner member : String} (span : Span)
    (method : Option (Member Ty)) (hCallee : callee.tree = .name (owner ++ member))
    (h : Mirrors files point receiver c.tree) :
    Yields env scopes False (ExprRule.boundMethod? callee c method) fun found =>
      ∀ value ∈ found, value.Mirrors files env.program point (.dot span receiver member) := by
  cases method with
  | none => exact .pure (by simp)
  | some method =>
      refine .bind (.types _) fun func _ => .pure ?_
      rintro _ hValue
      obtain ⟨func, -, rfl⟩ := Option.map_eq_some_iff.mp hValue
      exact ⟨span, receiver, member, owner, rfl, h, hCallee⟩

theorem valueMember {found : Typed} (member : String) (span : Span)
    (h : Mirrors files point receiver found.c.tree) :
    Yields env scopes False (ExprRule.valueMember found member span)
      (Value.Mirrors files env.program point (.dot span receiver member)) := by
  have hMethod (method : Option Value)
      (hGood : ∀ value ∈ method, value.Mirrors files env.program point
        (.dot span receiver member)) :
      Yields env scopes False (ExprRule.foundMethod found member span method)
        (Value.Mirrors files env.program point (.dot span receiver member)) := by
    cases method with
    | some value => exact .pure (hGood value rfl)
    | none => exact .error _ _
  refine .bind (.types _) fun pointee _ => ?_
  split
  · split
    · refine .pure ?_
      rw [Value.Mirrors, CExpr.tree]
      exact .field h
    · exact .bind (.asked .read) fun _ _ =>
        .bind (boundMethod? _ _ (by rw [CExpr.tree]) h) hMethod
  · refine .bind (.types _) fun record _ => ?_
    split
    · exact .bind (boundMethod? _ _ (by rw [CExpr.tree]) h) hMethod
    · exact .error _ _

end Expr.Mirrored

section

variable {files : String → SourceFile → Prop} {env : Env} {file : SourceFile}

mutual

/-- The fragment of an expression mirrors it. -/
theorem compileExpr_mirrored (hEnv : env.Faithful files file) (scopes : List Scope) :
    (e : Expr) → e.Mirrored files env scopes (env.point file scopes)
  | .int _ value => by
      rw [Expr.Mirrored, compileExpr]
      refine .pure ?_
      rw [Value.Mirrors, CExpr.tree]
      exact .int
  | .str _ text => by
      rw [Expr.Mirrored, compileExpr]
      refine .pure ?_
      rw [Value.Mirrors, CExpr.tree]
      exact .str
  | .ident span name => by
      rw [Expr.Mirrored, compileExpr]
      exact .lookup hEnv name span
  | .unary _ op operand => by
      rw [Expr.Mirrored, compileExpr]
      refine .bind (compileExpr_mirrored hEnv scopes operand).value fun value hValue => .pure ?_
      rw [Value.Mirrors, CExpr.tree]
      exact .unary hValue
  | .binary _ op left right => by
      rw [Expr.Mirrored, compileExpr]
      refine .bind (compileExpr_mirrored hEnv scopes left).value fun l hLeft =>
        .bind (compileExpr_mirrored hEnv scopes right).value fun r hRight => .pure ?_
      rw [Value.Mirrors, CExpr.tree]
      exact .binary hLeft hRight
  | .call span callee args spread => by
      rw [Expr.Mirrored, compileExpr, operands_eq_map]
      exact Expr.Mirrored.call hEnv spread span (compileExpr_mirrored hEnv scopes callee)
        (compileExprs_mirrored hEnv scopes args)
  | .dot span receiver member => by
      rw [Expr.Mirrored, compileExpr]
      refine .bind (compileExpr_mirrored hEnv scopes receiver) fun value hValue => ?_
      split
      · exact Expr.Mirrored.moduleMember hEnv member span hValue
      · exact .bind (.toSingle span hValue) fun _ hFound =>
          Expr.Mirrored.valueMember member span hFound
  | .index span receiver index => by
      rw [Expr.Mirrored, compileExpr]
      exact .bind (compileExpr_mirrored hEnv scopes receiver) fun container hContainer =>
        .bind (compileExpr_mirrored hEnv scopes index) fun position hPosition =>
          .pure ⟨span, receiver, index, rfl, hContainer, hPosition⟩
  | .slice span receiver lo hi => by
      rw [Expr.Mirrored, compileExpr]
      exact (Yields.slice span receiver lo hi).mono fun _ hTemp => hTemp.mirrors fun _ => .slice
  | .ctor span type fields => by
      rw [Expr.Mirrored, compileExpr]
      exact (Yields.ctor span type fields).mono fun _ hTemp => hTemp.mirrors fun _ => .ctor
  | .pointerType _ inner => by
      rw [Expr.Mirrored, compileExpr]
      exact .bind ((Yields.composed_type inner).yields env scopes) fun _ _ => .pure .pointer
  | .sliceType _ elem => by
      rw [Expr.Mirrored, compileExpr]
      exact .bind ((Yields.composed_type elem).yields env scopes) fun _ _ => .pure .slice
  | .mapType _ key value => by
      rw [Expr.Mirrored, compileExpr]
      exact .bind ((Yields.composed_type key).yields env scopes) fun _ _ =>
        .bind ((Yields.composed_type value).yields env scopes) fun _ _ => .pure .map
  | .structType _ fields => by
      rw [Expr.Mirrored, compileExpr]
      have hFields : Composed .expr .any (Operand.anonymousStruct (paramOperands fields)) :=
        .anonymousStruct (paramOperands_composed .expr fields)
      exact .bind (hFields.yields env scopes) fun _ _ => .pure .struct
  | .interfaceType _ specs => by
      rw [Expr.Mirrored, compileExpr]
      have hSpecs : Composed .expr .any (Operand.anonymousInterface (specOperands specs)) :=
        .anonymousInterface (specOperands_composed .expr specs)
      exact .bind (hSpecs.yields env scopes) fun _ _ => .pure .interface

theorem compileExprs_mirrored (hEnv : env.Faithful files file) (scopes : List Scope) :
    (es : List Expr) → ∀ e ∈ es, e.Mirrored files env scopes (env.point file scopes)
  | [], e, h => by simp at h
  | first :: rest, e, h => by
      rcases List.mem_cons.mp h with hFirst | h
      · rw [hFirst]
        exact compileExpr_mirrored hEnv scopes first
      · exact compileExprs_mirrored hEnv scopes rest e h

end

end

end GoToC
