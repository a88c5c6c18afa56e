import GoToC.Proofs.C.Evaluation
import GoToC.Proofs.Session.Declare

/-!
# What constants are made of

The value of a constant is compiled while no variable and no function of its module has a value, and
its fragment names no variable of a routine. So it is made of literals, names, operators and
conversions, where a name stands for a constant, and of what other modules have besides: their
variables and functions, and what calls, members and elements make of these.
-/

namespace GoToC

variable {c : CExpr} {args : List Expr} {name : String} {receiver e : Expr} {point : Point}

mutual

/-- The fragment of an expression that is made of literals, constants, operators and conversions,
read at a point. If others are read too, the expression may name variables and functions of other
modules, and have calls, members and elements. -/
inductive Folds (files : String → SourceFile → Prop) (others : Prop) : Point → Expr → CExpr → Prop
  | int {point span value} :
      Folds files others point (.int span value) (.int value)
  | str {point span text} :
      Folds files others point (.str span text) (.string text)
  | known {point span name e} :
      point.locals name = none → ¬ point.file.Declares name → primValue? name = some (.expr e) →
        Folds files others point (.ident span name) e.c
  | global {point span name owner source c} :
      point.Sees files name owner source →
        GlobalFolds files others point.package owner source name c →
          Folds files others point (.ident span name) c
  | imported {point span receiver name owner source c} :
      point.NamesModule files receiver owner → files owner source →
        GlobalFolds files others point.package owner source name c →
          Folds files others point (.dot span receiver name) c
  | unary {point span op operand c} :
      Folds files others point operand c →
        Folds files others point (.unary span op operand) (.unary op c)
  | binary {point span op left right l r} :
      Folds files others point left l → Folds files others point right r →
        Folds files others point (.binary span op left right) (.binary op l r)
  | conversion {point span type arg spread c}
      (how : Conversion) : point.NamesType files type → Folds files others point arg c →
        Folds files others point (.call span type [arg] spread) (how.apply c)
  | member {point span receiver name c} :
      others → Folds files others point receiver c →
        Folds files others point (.dot span receiver name) (.field c name)
  | index {point span receiver position r p} :
      others → Folds files others point receiver r → Folds files others point position p →
        Folds files others point (.index span receiver position) (.subscript r p)
  | byteCount {point span inner arg spread c} :
      others → point.locals "len" = none → ¬ point.file.Declares "len" →
        Folds files others point arg c →
          Folds files others point (.call span (.ident inner "len") [arg] spread) (.byteCount c)
  | elementCount {point span inner arg spread c elem} :
      others → point.locals "len" = none → ¬ point.file.Declares "len" →
        Folds files others point arg c →
          Folds files others point (.call span (.ident inner "len") [arg] spread)
            (.elementCount c elem)
  | call {point span callee args spread f passed} :
      others → Folds files others point callee f → ArgsFold files others point args passed →
        Folds files others point (.call span callee args spread) (.call f passed)
  | method {point span inner receiver name args spread f r passed} :
      others → Folds files others point receiver r → ArgsFold files others point args passed →
        Folds files others point (.call span (.dot inner receiver name) args spread)
          (.call f (r :: passed))

/-- The fragments of arguments, each converted to the type that is wanted. -/
inductive ArgsFold (files : String → SourceFile → Prop) (others : Prop) :
    Point → List Expr → List CExpr → Prop
  | nil {point : Point} : ArgsFold files others point [] []
  | cons {point arg args c passed}
      (how : Conversion) : Folds files others point arg c →
        ArgsFold files others point args passed →
        ArgsFold files others point (arg :: args) (how.apply c :: passed)

/-- The fragment of a global of a file, read in a module: that of its initializer if it is a
constant. If others are read too, it may be a variable or a function of another module. -/
inductive GlobalFolds (files : String → SourceFile → Prop) (others : Prop) :
    String → String → SourceFile → String → CExpr → Prop
  | const {package owner source decl c} :
      decl ∈ source.consts → Folds files others (.outside owner source) decl.value c →
        GlobalFolds files others package owner source decl.name c
  | other {package owner name source c} :
      others → owner ≠ package → name ∈ source.names .var ∨ name ∈ source.names .func →
        c.tree = .name (Declaration.cName owner name) →
          GlobalFolds files others package owner source name c

end

/-- What a global of the module itself folds to is the fragment of a constant. -/
theorem GlobalFolds.own {files : String → SourceFile → Prop} {others : Prop} {package : String}
    {source : SourceFile} (h : GlobalFolds files others package package source name c) :
    ∃ decl ∈ source.consts, decl.name = name ∧
      Folds files others (.outside package source) decl.value c := by
  cases h with
  | const hDecl hFolds => exact ⟨_, hDecl, rfl, hFolds⟩
  | other _ hOther => exact absurd rfl hOther

/-! ## Fragments that read nothing -/

theorem primValue?_fixed {e : Typed} (h : primValue? name = some (.expr e)) : e.c.Fixed := by
  unfold primValue? at h
  split at h
  · cases h
    trivial
  · split at h
    · cases h
      trivial
    · split at h
      · cases h
        trivial
      · obtain ⟨prim, -, hPrim⟩ := Option.map_eq_some_iff.mp h
        cases hPrim

theorem CExpr.fixed_converted (how : Conversion) : (how.apply c).Fixed ↔ c.Fixed := by
  cases how <;> exact Iff.rfl

/-- A name is read. -/
theorem CExpr.not_fixed_of_name (h : c.tree = .name name) : ¬ c.Fixed := by
  cases c <;> simp_all [CExpr.tree, CExpr.Fixed]

section

variable {files : String → SourceFile → Prop} {others : Prop}

mutual

theorem Folds.fixed {point : Point} {e : Expr} {c : CExpr} : Folds files False point e c → c.Fixed
  | .int | .str => trivial
  | .known _ _ hKnown => primValue?_fixed hKnown
  | .global _ hGlobal => hGlobal.fixed
  | .imported _ _ hGlobal => hGlobal.fixed
  | .unary h => h.fixed
  | .binary h h' => ⟨h.fixed, h'.fixed⟩
  | .conversion how _ h => (CExpr.fixed_converted how).mpr h.fixed
  | .member hNone .. | .index hNone .. | .byteCount hNone .. | .elementCount hNone ..
  | .call hNone .. | .method hNone .. => hNone.elim

theorem GlobalFolds.fixed {package owner name : String} {source : SourceFile} {c : CExpr} :
    GlobalFolds files False package owner source name c → c.Fixed
  | .const _ h => h.fixed
  | .other hNone .. => hNone.elim

end

mutual

theorem Folds.of_fixed {point : Point} {e : Expr} {c : CExpr} :
    Folds files others point e c → c.Fixed → Folds files False point e c
  | .int, _ => .int
  | .str, _ => .str
  | .known hLocals hDeclares hKnown, _ => .known hLocals hDeclares hKnown
  | .global hSees hGlobal, h => .global hSees (hGlobal.of_fixed h)
  | .imported hNames hFile hGlobal, h => .imported hNames hFile (hGlobal.of_fixed h)
  | .unary hOperand, h => .unary (hOperand.of_fixed h)
  | .binary hLeft hRight, h => .binary (hLeft.of_fixed h.1) (hRight.of_fixed h.2)
  | .conversion how hType hArg, h =>
      .conversion how hType (hArg.of_fixed ((CExpr.fixed_converted how).mp h))
  | .member .., h | .index .., h | .byteCount .., h | .elementCount .., h | .call .., h
  | .method .., h => h.elim

theorem GlobalFolds.of_fixed {package owner name : String} {source : SourceFile} {c : CExpr} :
    GlobalFolds files others package owner source name c → c.Fixed →
      GlobalFolds files False package owner source name c
  | .const hDecl hFolds, h => .const hDecl (hFolds.of_fixed h)
  | .other _ _ _ hName, h => absurd h (CExpr.not_fixed_of_name hName)

end

/-- What reads nothing is made of literals, constants, operators and conversions, and the other way
round. -/
theorem Folds.fixed_iff (h : Folds files others point e c) :
    c.Fixed ↔ Folds files False point e c := ⟨h.of_fixed, Folds.fixed⟩

end

/-! ## Modules that are built -/

/-- A program in which all that stands for a C value folds. Of a module of the given name only
constants do. -/
def Program.Early (files : String → SourceFile → Prop) (package : String)
    (program : Program) : Prop :=
  ∀ id module name e, program.module? id = some module →
    program.globalValue? id name = some (.expr e) →
      GlobalFolds files True package module.name module.file name e.c

/-- A module of a program of which only constants have a value yet. -/
structure Env.Early (files : String → SourceFile → Prop) (file : SourceFile) (env : Env) :
    Prop where
  faithful : env.Faithful files file
  folds : env.program.Early files env.package

/-- What an expression stands for, as far as constants are concerned. A fragment that names a
variable of a routine is none for a constant. -/
def Value.Folds (files : String → SourceFile → Prop) (program : Program) (point : Point) :
    Expr → Value → Prop
  | e, .expr found => found.c.Closed ∅ → GoToC.Folds files True point e found.c
  | _, .global id name => (program.global? id name).bind (·.value) = none
  | e, .type _ => point.NamesType files e
  | e, .module id => ∃ module, program.module? id = some module ∧
      point.NamesModule files e module.name
  | e, .element container position => ∃ span receiver index, e = .index span receiver index ∧
      container.Folds files program point receiver ∧ position.Folds files program point index
  | e, .method bound => ∃ span receiver name, e = .dot span receiver name ∧
      (bound.receiver.Closed ∅ → GoToC.Folds files True point receiver bound.receiver)

variable {files : String → SourceFile → Prop} {file : SourceFile} {env : Env}

/-- A temporary of the routine is no value for a constant. -/
theorem Value.IsTemp.folds {value : Value} (h : value.IsTemp) {program : Program} :
    value.Folds files program point e := by
  obtain ⟨serial, type, rfl⟩ := h
  intro hClosed
  exact absurd (CExpr.closed_localVar.mp hClosed) (Set.notMem_empty _)

/-- An expression that stands for what a constant can be made of. -/
abbrev Expr.Folded (files : String → SourceFile → Prop) (env : Env) (point : Point)
    (e : Expr) : Prop :=
  Yields env [[]] False (compileExpr e) (Value.Folds files env.program point e)

namespace Yields

/-- What an identifier stands for. -/
theorem lookup_folds (h : env.Early files file) (name : String) (span : Span) :
    Yields env [[]] False (RoutineM.lookup name span)
      (Value.Folds files env.program (env.point file [[]]) (.ident span name)) := by
  have hFaithful := h.faithful
  have finds : Yields env [[]] False (RoutineM.lookup name span) (env.Finds [[]] name) :=
    .finds name span
  have mirrors : Yields env [[]] False (RoutineM.lookup name span)
      (Value.Mirrors files env.program (env.point file [[]]) (.ident span name)) :=
    .lookup hFaithful name span
  intro routine value after hScopes hRun
  obtain ⟨hFinds, hAfter⟩ := finds routine value after hScopes hRun
  have hMirrors := (mirrors routine value after hScopes hRun).1
  refine ⟨?_, hAfter⟩
  cases value with
  | expr e =>
      intro _
      cases hFinds with
      | bound hBound => cases hBound
      | own hFree hValue =>
          obtain ⟨own, hOwn, hSees, -⟩ := hFaithful.own_seen hFree hValue
          exact .global hSees (h.folds env.module own name e hOwn hValue)
      | shared hFree hNone hBuiltin hValue =>
          obtain ⟨shared, hShared, hSees, -⟩ := hFaithful.shared_seen hFree hNone hBuiltin hValue
          exact .global hSees (h.folds _ shared name e hShared hValue)
      | known hFree hNone hKnown =>
          exact .known (Env.point_free hFree) (hFaithful.undeclared hNone) hKnown
  | «global» id name => exact hMirrors
  | type denoted => exact hMirrors
  | module id => exact hMirrors
  | element container index =>
      obtain ⟨span, receiver, position, hSame, -⟩ := hMirrors
      cases hSame
  | method bound =>
      obtain ⟨span, receiver, name, owner, hSame, -⟩ := hMirrors
      cases hSame

variable {point : Point} {e : Expr}

theorem toExpr_folds (span : Span) {value : Value} (h : value.Folds files env.program point e) :
    Yields env [[]] False (RoutineM.toExpr span value) fun found =>
      found.c.Closed ∅ → Folds files True point e found.c := by
  induction value generalizing e with
  | expr found => exact .pure h
  | «global» id name =>
      rw [RoutineM.toExpr]
      refine .bind .read fun found hFound => ?_
      rw [hFound, show (env.program.global? id name).bind (·.value) = none from h]
      exact .error _ _
  | element container index hContainer hIndex =>
      obtain ⟨span, receiver, position, rfl, hReceiver, hPosition⟩ := h
      rw [RoutineM.toExpr]
      refine .bind (hContainer hReceiver) fun c hc => .bind (.single c _) fun c' hc' =>
        .bind (hIndex hPosition) fun i hi => .bind (.single i _) fun i' hi' =>
          .bind (.types _) fun found _ => ?_
      split
      · refine .pure fun hClosed => ?_
        rw [hc', hi'] at hClosed ⊢
        obtain ⟨hLeft, hRight⟩ := CExpr.closed_subscript.mp hClosed
        exact .index trivial (hc hLeft) (hi hRight)
      · exact .error _ _
  | type denoted => exact .error _ _
  | module id => exact .error _ _
  | method bound => exact .error _ _

theorem toSingle_folds (span : Span) {value : Value} (h : value.Folds files env.program point e) :
    Yields env [[]] False (RoutineM.toSingle span value) fun found =>
      found.c.Closed ∅ → Folds files True point e found.c :=
  .bind (.toExpr_folds span h) fun found hFound =>
    (Yields.single found span).mono fun same hSame => by
    rw [hSame]
    exact hFound

end Yields

namespace Expr.Folded

variable {point : Point} {e : Expr}

theorem value (h : e.Folded files env point) : Yields env [[]] False (operand e).value fun found =>
      found.c.Closed ∅ → Folds files True point e found.c :=
  .bind h fun _ hValue => .toSingle_folds _ hValue

/-! ## Calls -/

/-- Arguments fold if what they are passed as names no variable of the routine. -/
theorem argsFold {cs : List CExpr} (h : List.Forall₂ (CExpr.PassedFor fun arg found =>
      found.c.Closed ∅ → Folds files True point arg found.c) args cs)
    (hClosed : ∀ c ∈ cs, c.Closed ∅) : ArgsFold files True point args cs := by
  induction h with
  | nil => exact .nil
  | cons hFirst _ ih =>
      obtain ⟨found, hFound, conversion, rfl⟩ := hFirst
      simp only [List.forall_mem_cons, CExpr.closed_converted] at hClosed
      exact .cons conversion (hFound hClosed.1) (ih hClosed.2)

/-- A call that names no variable of the routine collects nothing and has no more than one result,
so it passes its arguments one by one and nothing else. -/
theorem apply (callee : CExpr) (func : FuncType Ty) (leading : List CExpr)
    (inputs : List (Member Ty)) (spread : Bool) (span : Span)
    (h : ∀ arg ∈ args, arg.Folded files env point) :
    Yields env [[]] False (Call.apply callee func leading inputs (args.map operand) spread span)
      fun value => ∃ c type, value = .expr ⟨c, type⟩ ∧ (c.Closed ∅ → callee.Closed ∅ ∧
        (∀ first ∈ leading, first.Closed ∅) ∧ ∃ passed, c = .call callee (leading ++ passed) ∧
          ArgsFold files True point args passed) := by
  refine (Yields.apply callee func leading inputs spread span fun arg hArg =>
    (h arg hArg).value).mono ?_
  rintro _ ⟨passed, rest, cs, packed, results, type, rfl, hPassed, hPacked, hResults, rfl⟩
  refine ⟨_, type, rfl, fun hClosed => ?_⟩
  obtain ⟨hCallee, hAll⟩ := CExpr.closed_call.mp hClosed
  simp only [List.forall_mem_append] at hAll
  obtain ⟨⟨⟨hLeading, hCs⟩, hPacks⟩, hAddresses⟩ := hAll
  have hPacked : rest = [] ∧ packed = [] := by
    cases hPacked with
    | nothing => exact ⟨rfl, rfl⟩
    | slice => exact absurd (CExpr.closed_localVar.mp
        (hPacks _ List.mem_cons_self)) (Set.notMem_empty _)
  have hNone : results = [] := by
    refine List.eq_nil_iff_forall_not_mem.mpr fun result hResult => ?_
    obtain ⟨serial, index, rfl⟩ := hResults result hResult
    exact absurd (CExpr.closed_addressOf.mp (hAddresses _ hResult)) (Set.notMem_empty _)
  rw [hPacked.1, hPacked.2, hNone, List.append_nil, List.append_nil, List.append_nil]
  exact ⟨hCallee, hLeading, cs, rfl, argsFold hPassed hCs⟩

theorem conversion {type : Expr} (denoted : Ty) (spread : Bool) (span : Span)
    (hType : point.NamesType files type) (h : ∀ arg ∈ args, arg.Folded files env point) :
    Yields env [[]] False (Call.conversion denoted (args.map operand) span)
      (Value.Folds files env.program point (.call span type args spread)) := by
  refine (Yields.converts denoted span fun arg hArg => (h arg hArg).value).mono ?_
  rintro _ ⟨arg, _, rfl, ⟨found, hFound, conversion, rfl⟩, rfl⟩ hClosed
  exact .conversion conversion hType (hFound (CExpr.closed_converted conversion |>.mp hClosed))

theorem lengthOf (spread : Bool) (span inner : Span) (hLocals : point.locals "len" = none)
    (hDeclares : ¬ point.file.Declares "len") (h : ∀ arg ∈ args, arg.Folded files env point) :
    Yields env [[]] False (Call.lengthOf (args.map operand) spread span)
      (Value.Folds files env.program point (.call span (.ident inner "len") args spread)) := by
  refine (Yields.counts spread span fun arg hArg => (h arg hArg).value).mono ?_
  rintro _ ⟨arg, found, rfl, hFound, rfl | ⟨elem, rfl⟩⟩ hClosed
  · exact .byteCount trivial hLocals hDeclares (hFound (CExpr.closed_byteCount.mp hClosed))
  · exact .elementCount trivial hLocals hDeclares (hFound (CExpr.closed_elementCount.mp hClosed))

variable {file : SourceFile}

theorem call (hEnv : env.Faithful files file) {callee : Expr} (spread : Bool) (span : Span)
    (hCallee : callee.Folded files env (env.point file [[]]))
    (h : ∀ arg ∈ args, arg.Folded files env (env.point file [[]])) :
    Yields env [[]] False (Call.call (operand callee) (args.map operand) spread span)
      (Value.Folds files env.program (env.point file [[]]) (.call span callee args spread)) := by
  refine .bind (.intrinsicFree hEnv callee) fun found hFree => ?_
  split
  · obtain ⟨inner, rfl, hLocals, hDeclares⟩ := hFree .len rfl
    exact lengthOf spread span inner hLocals hDeclares h
  · exact (Yields.appended args spread span).mono fun _ hTemp => hTemp.folds
  · refine .bind hCallee fun value hValue => ?_
    split
    · exact conversion _ spread span hValue h
    · next bound =>
        obtain ⟨inner, receiver, name, rfl, hReceiver⟩ := hValue
        refine (apply _ _ _ _ spread span h).mono ?_
        rintro _ ⟨c, type, rfl, hCalled⟩ hClosed
        obtain ⟨-, hLeading, passed, rfl, hArgs⟩ := hCalled hClosed
        exact .method trivial (hReceiver (hLeading _ List.mem_cons_self)) hArgs
    · refine .bind (.toSingle_folds span hValue) fun e hFold => .bind (.types _) fun func _ => ?_
      split
      · refine (apply _ _ _ _ spread span h).mono ?_
        rintro _ ⟨c, type, rfl, hCalled⟩ hClosed
        obtain ⟨hCallee, -, passed, rfl, hArgs⟩ := hCalled hClosed
        exact .call trivial (hFold hCallee) hArgs
      · exact .error _ _

/-! ## Members -/

theorem moduleMember (h : env.Early files file) {id : ModuleId} (member : String) (span : Span)
    (hReceiver : Value.Folds files env.program (env.point file [[]]) receiver (.module id)) :
    Yields env [[]] False (ExprRule.moduleMember id member span)
      (Value.Folds files env.program (env.point file [[]]) (.dot span receiver member)) := by
  obtain ⟨module, hModule, hNames⟩ := hReceiver
  have hFile := h.faithful.program.file id module hModule
  refine (Yields.moduleMember id member span).mono fun value hValue => ?_
  obtain ⟨found, hFound, -, hHolds⟩ := h.faithful.program.holds hValue
  obtain rfl : module = found := Option.some.inj (hModule.symm.trans hFound)
  cases hHolds with
  | expr => exact fun _ => .imported hNames hFile (h.folds id module member _ hModule hValue)
  | type hDeclared => exact .dot hNames hFile hDeclared
  | module hDeclared hFound hName =>
      refine ⟨_, hFound, ?_⟩
      rw [hName]
      exact .dot hNames hFile hDeclared
  | waiting hNone => exact hNone

theorem boundMethod? (callee : CExpr) (member : String) (span : Span)
    (method : Option (Member Ty)) (h : c.Closed ∅ → Folds files True point receiver c) :
    Yields env [[]] False (ExprRule.boundMethod? callee c method) fun found =>
      ∀ value ∈ found, value.Folds files env.program point (.dot span receiver member) := by
  cases method with
  | none => exact .pure (by simp)
  | some method =>
      refine .bind (.types _) fun func _ => .pure ?_
      rintro _ hValue
      obtain ⟨func, -, rfl⟩ := Option.map_eq_some_iff.mp hValue
      exact ⟨span, receiver, member, rfl, h⟩

theorem valueMember {found : Typed} (member : String) (span : Span)
    (h : found.c.Closed ∅ → Folds files True point receiver found.c) :
    Yields env [[]] False (ExprRule.valueMember found member span)
      (Value.Folds files env.program point (.dot span receiver member)) := by
  have hMethod (method : Option Value)
      (hGood : ∀ value ∈ method, value.Folds files env.program point (.dot span receiver member)) :
      Yields env [[]] False (ExprRule.foundMethod found member span method)
        (Value.Folds files env.program point (.dot span receiver member)) := by
    cases method with
    | some value => exact .pure (hGood value rfl)
    | none => exact .error _ _
  refine .bind (.types _) fun pointee _ => ?_
  split
  · split
    · exact .pure fun hClosed => .member trivial (h (CExpr.closed_field.mp hClosed))
    · exact .bind (.asked .read) fun _ _ => .bind (boundMethod? _ _ _ _ h) hMethod
  · refine .bind (.types _) fun record _ => ?_
    split
    · exact .bind (boundMethod? _ _ _ _ h) hMethod
    · exact .error _ _

end Expr.Folded

mutual

/-- The fragment of an expression that names no variable of a routine folds. -/
theorem compileExpr_folded (h : env.Early files file) :
    (e : Expr) → e.Folded files env (env.point file [[]])
  | .int _ value => by
      rw [Expr.Folded, compileExpr]
      exact .pure fun _ => .int
  | .str _ text => by
      rw [Expr.Folded, compileExpr]
      exact .pure fun _ => .str
  | .ident span name => by
      rw [Expr.Folded, compileExpr]
      exact .lookup_folds h name span
  | .unary _ op operand => by
      rw [Expr.Folded, compileExpr]
      refine .bind (compileExpr_folded h operand).value fun value hValue => .pure fun hClosed => ?_
      exact .unary (hValue (CExpr.closed_unary.mp hClosed))
  | .binary _ op left right => by
      rw [Expr.Folded, compileExpr]
      refine .bind (compileExpr_folded h left).value fun l hLeft =>
        .bind (compileExpr_folded h right).value fun r hRight => .pure fun hClosed => ?_
      obtain ⟨hl, hr⟩ := CExpr.closed_binary.mp hClosed
      exact .binary (hLeft hl) (hRight hr)
  | .call span callee args spread => by
      rw [Expr.Folded, compileExpr, operands_eq_map]
      exact Expr.Folded.call h.faithful spread span (compileExpr_folded h callee)
        (compileExprs_folded h args)
  | .dot span receiver member => by
      rw [Expr.Folded, compileExpr]
      refine .bind (compileExpr_folded h receiver) fun value hValue => ?_
      split
      · exact Expr.Folded.moduleMember h member span hValue
      · exact .bind (.toSingle_folds span hValue) fun _ hFound =>
          Expr.Folded.valueMember member span hFound
  | .index span receiver index => by
      rw [Expr.Folded, compileExpr]
      exact .bind (compileExpr_folded h receiver) fun container hContainer =>
        .bind (compileExpr_folded h index) fun position hPosition =>
          .pure ⟨span, receiver, index, rfl, hContainer, hPosition⟩
  | .slice span receiver lo hi => by
      rw [Expr.Folded, compileExpr]
      exact (Yields.slice span receiver lo hi).mono fun _ hTemp => hTemp.folds
  | .ctor span type fields => by
      rw [Expr.Folded, compileExpr]
      exact (Yields.ctor span type fields).mono fun _ hTemp => hTemp.folds
  | .pointerType _ inner => by
      rw [Expr.Folded, compileExpr]
      exact .bind ((Yields.composed_type inner).yields env _) fun _ _ => .pure .pointer
  | .sliceType _ elem => by
      rw [Expr.Folded, compileExpr]
      exact .bind ((Yields.composed_type elem).yields env _) fun _ _ => .pure .slice
  | .mapType _ key value => by
      rw [Expr.Folded, compileExpr]
      exact .bind ((Yields.composed_type key).yields env _) fun _ _ =>
        .bind ((Yields.composed_type value).yields env _) fun _ _ => .pure .map
  | .structType _ fields => by
      rw [Expr.Folded, compileExpr]
      have hFields : Composed .expr .any (Operand.anonymousStruct (paramOperands fields)) :=
        .anonymousStruct (paramOperands_composed .expr fields)
      exact .bind (hFields.yields env _) fun _ _ => .pure .struct
  | .interfaceType _ specs => by
      rw [Expr.Folded, compileExpr]
      have hSpecs : Composed .expr .any (Operand.anonymousInterface (specOperands specs)) :=
        .anonymousInterface (specOperands_composed .expr specs)
      exact .bind (hSpecs.yields env _) fun _ _ => .pure .interface

theorem compileExprs_folded (h : env.Early files file) :
    (es : List Expr) → ∀ e ∈ es, e.Folded files env (env.point file [[]])
  | [], e, hMem => by simp at hMem
  | first :: rest, e, hMem => by
      rcases List.mem_cons.mp hMem with hFirst | hMem
      · rw [hFirst]
        exact compileExpr_folded h first
      · exact compileExprs_folded h rest e hMem

end

end GoToC
