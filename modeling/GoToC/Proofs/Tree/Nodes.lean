import Mathlib.Logic.Relation
import Mathlib.Tactic.Tauto
import GoToC.Proofs.Tree.Placed

/-!
# Nodes of trees

Whatever has a place of its own in a source file is a node: declarations, statements, the arms of
switches, expressions and the fields of struct literals. A node is nested if its place holds the
places of all nodes below it, and binary operands stand next to each other in the order of the text.
-/

namespace GoToC

variable {fits' : Span → Prop}

/-- Something with a place of its own. -/
inductive SourceNode where
  | expr (e : Expr)
  | init (field : FieldInit Expr)
  | stmt (stmt : Stmt)
  | arm (case : SwitchCase Stmt)
  | importDecl (decl : ImportDecl)
  | constDecl (decl : ConstDecl)
  | varDecl (decl : VarDecl)
  | typeDecl (decl : TypeDecl)
  | funcDecl (decl : FuncDecl)

/-- The types of inputs and outputs. -/
def Signature.types (signature : Signature Expr) : List Expr :=
  (signature.inputs ++ signature.outputs).map (·.type)

/-- The nodes right below an expression. Types that several parameters share are listed once for
each of them. -/
def Expr.children : Expr → List SourceNode
  | .int _ _ | .str _ _ | .ident _ _ => []
  | .unary _ _ operand => [.expr operand]
  | .binary _ _ left right => [.expr left, .expr right]
  | .call _ callee args _ => .expr callee :: args.map .expr
  | .dot _ receiver _ => [.expr receiver]
  | .index _ receiver subscript => [.expr receiver, .expr subscript]
  | .slice _ receiver lo hi => .expr receiver :: (lo.toList ++ hi.toList).map .expr
  | .ctor _ type fields => .expr type :: fields.map .init
  | .pointerType _ inner => [.expr inner]
  | .sliceType _ elem => [.expr elem]
  | .mapType _ key value => [.expr key, .expr value]
  | .structType _ fields => (fields.map (·.type)).map .expr
  | .interfaceType _ methods => (methods.flatMap (·.signature.types)).map .expr

/-- The nodes right below a statement. -/
def Stmt.children : Stmt → List SourceNode
  | .assign _ _ targets values => (targets ++ values).map .expr
  | .var _ _ type => [.expr type]
  | .ret _ values => values.map .expr
  | .breakLoop _ _ | .continueLoop _ _ => []
  | .whileLoop _ cond body => cond.toList.map .expr ++ body.map .stmt
  | .forLoop _ init cond post body =>
      cond.toList.map .expr ++ (init.toList ++ post.toList ++ body).map .stmt
  | .rangeLoop _ _ _ collection body => .expr collection :: body.map .stmt
  | .ifElse _ cond thenBody elseBody =>
      .expr cond :: (thenBody ++ elseBody.getD []).map .stmt
  | .switch _ subject cases fallback =>
      subject.toList.map .expr ++ cases.map .arm ++ (fallback.getD []).map .stmt
  | .block _ body => body.map .stmt

namespace SourceNode

def span : SourceNode → Span
  | expr e => e.span
  | init field => field.span
  | stmt found => found.span
  | arm case => case.span
  | importDecl decl => decl.span
  | constDecl decl => decl.span
  | varDecl decl => decl.span
  | typeDecl decl => decl.span
  | funcDecl decl => decl.span

/-- The nodes right below a node. -/
def children : SourceNode → List SourceNode
  | expr e => e.children
  | init field => [.expr field.value]
  | stmt found => found.children
  | arm case => case.tests.map .expr ++ case.body.map .stmt
  | importDecl _ => []
  | constDecl decl => decl.type.toList.map .expr ++ [.expr decl.value]
  | varDecl decl => (decl.type.toList ++ decl.init.toList).map .expr
  | typeDecl decl => [.expr decl.type]
  | funcDecl decl =>
      (decl.receiver.toList.map (·.type) ++ decl.signature.types).map .expr
        ++ (decl.body.getD []).map .stmt

/-- A node and the nodes below it, at any depth. -/
def Below : SourceNode → SourceNode → Prop :=
  Relation.ReflTransGen fun node child => child ∈ node.children

end SourceNode

/-- The declarations of a file. -/
def SourceFile.roots (file : SourceFile) : List SourceNode :=
  file.imports.map .importDecl ++ file.consts.map .constDecl ++ file.vars.map .varDecl
    ++ file.types.map .typeDecl ++ file.funcs.map .funcDecl ++ file.methods.map .funcDecl

/-- A declaration of a file or anything below one. -/
def SourceFile.Holds (file : SourceFile) (node : SourceNode) : Prop :=
  ∃ root ∈ file.roots, root.Below node

/-! ## Nested nodes -/

/-- A span that is not turned round and lies between two offsets. -/
abbrev Span.Between (lo hi : Nat) (span : Span) : Prop :=
  lo ≤ span.start ∧ span.start ≤ span.stop ∧ span.stop ≤ hi

/-- A span that lies in another one. -/
abbrev Span.Contains (outer inner : Span) : Prop :=
  outer.start ≤ inner.start ∧ inner.stop ≤ outer.stop

/-- A signature whose parameters stand at places of a kind. -/
def Signature.NamedAt (fits : Span → Prop) (signature : Signature Expr) : Prop :=
  ∀ param ∈ signature.inputs ++ signature.outputs, fits param.span

variable {fits : Span → Prop} {lo hi lo' hi' : Nat}

namespace SourceNode

/-- The left operand of a binary expression ends before the right one starts, and names that a node
declares stand at places of a kind. -/
def Tidy (fits : Span → Prop) : SourceNode → Prop
  | expr (.binary _ _ left right) => left.span.stop ≤ right.span.start
  | expr (.structType _ fields) => ∀ field ∈ fields, fits field.span
  | expr (.interfaceType _ specs) => ∀ spec ∈ specs, fits spec.span ∧ spec.signature.NamedAt fits
  | funcDecl decl => (∀ param ∈ decl.receiver.toList, fits param.span) ∧ decl.signature.NamedAt fits
  | _ => True

/-- A node at a place of a kind that holds the places of the nodes below it, which are nested as
well. -/
inductive Nested (fits : Span → Prop) : SourceNode → Prop
  | mk {node : SourceNode} (place : fits node.span) (tidy : node.Tidy fits)
      (contains : ∀ child ∈ node.children, node.span.Contains child.span)
      (below : ∀ child ∈ node.children, Nested fits child) : Nested fits node

/-- A nested node that lies between two offsets. -/
abbrev Lies (fits : Span → Prop) (lo hi : Nat) (node : SourceNode) : Prop :=
  node.span.Between lo hi ∧ node.Nested fits

/-- Nested nodes between two offsets. -/
def AllLie (fits : Span → Prop) (lo hi : Nat) (nodes : List SourceNode) : Prop :=
  ∀ node ∈ nodes, node.Lies fits lo hi

variable {node below : SourceNode} {nodes more : List SourceNode}

theorem Nested.place (h : node.Nested fits) : fits node.span := by
  cases h with
  | mk place => exact place

theorem Nested.tidy (h : node.Nested fits) : node.Tidy fits := by
  cases h with
  | mk _ tidy => exact tidy

theorem Nested.of_below (h : node.Nested fits) (hBelow : node.Below below) :
    node.span.Contains below.span ∧ below.Nested fits := by
  induction hBelow with
  | refl => exact ⟨⟨Nat.le_refl _, Nat.le_refl _⟩, h⟩
  | tail _ hChild ih =>
      obtain ⟨⟨hStart, hStop⟩, hNested⟩ := ih
      cases hNested with
      | mk _ _ contains below =>
          have hInner := contains _ hChild
          exact ⟨⟨Nat.le_trans hStart hInner.1, Nat.le_trans hInner.2 hStop⟩, below _ hChild⟩

theorem Lies.mono (h : node.Lies fits lo hi) (hLo : lo' ≤ lo) (hHi : hi ≤ hi') :
    node.Lies fits lo' hi' :=
  ⟨⟨Nat.le_trans hLo h.1.1, h.1.2.1, Nat.le_trans h.1.2.2 hHi⟩, h.2⟩

/-- A node is nested that holds its nodes from the first to the last of two spans. -/
theorem lies_of_merge {first last : Span} (hSpan : node.span = first.merge last)
    (hPlace : fits (first.merge last)) (hBetween : first.Between lo hi ∧ last.Between lo hi)
    (hChildren : AllLie fits first.start last.stop node.children) (hTidy : node.Tidy fits) :
    node.Lies fits lo hi := by
  have hStart : node.span.start = min first.start last.start := by rw [hSpan, Span.merge]
  have hStop : node.span.stop = max first.stop last.stop := by rw [hSpan, Span.merge]
  refine ⟨⟨by omega, by omega, by omega⟩, .mk (hSpan ▸ hPlace) hTidy (fun child hChild => ?_)
    fun child hChild => (hChildren child hChild).2⟩
  have hLies := (hChildren child hChild).1
  exact ⟨by omega, by omega⟩

/-- A node without others below it is nested. -/
theorem lies_leaf (hPlace : fits node.span) (hSpan : node.span.Between lo hi)
    (hLeaf : node.children = []) (hTidy : node.Tidy fits) : node.Lies fits lo hi :=
  ⟨hSpan, .mk hPlace hTidy (by simp [hLeaf]) (by simp [hLeaf])⟩

namespace AllLie

theorem mono (h : AllLie fits lo hi nodes) (hLo : lo' ≤ lo) (hHi : hi ≤ hi') :
    AllLie fits lo' hi' nodes :=
  fun node hNode => (h node hNode).mono hLo hHi

theorem nil : AllLie fits lo hi [] := List.forall_mem_nil _

theorem cons (h : node.Lies fits lo hi) (hRest : AllLie fits lo hi nodes) :
    AllLie fits lo hi (node :: nodes) :=
  List.forall_mem_cons.mpr ⟨h, hRest⟩

theorem single (h : node.Lies fits lo hi) : AllLie fits lo hi [node] := cons h nil

theorem append (h : AllLie fits lo hi nodes) (hMore : AllLie fits lo hi more) :
    AllLie fits lo hi (nodes ++ more) :=
  List.forall_mem_append.mpr ⟨h, hMore⟩

end AllLie

end SourceNode

/-! ### Expressions -/

namespace Expr

/-- A nested expression between two offsets. -/
abbrev Lies (fits : Span → Prop) (lo hi : Nat) (e : Expr) : Prop :=
  e.span.Between lo hi ∧ (SourceNode.expr e).Nested fits

variable {e : Expr} {es : List Expr}

theorem Lies.place (h : e.Lies fits lo hi) : fits e.span := h.2.place

/-- A nested expression lies between any two offsets around it. -/
theorem Lies.within (h : e.Lies fits lo hi) (hLo : lo' ≤ e.span.start) (hHi : e.span.stop ≤ hi') :
    e.Lies fits lo' hi' :=
  ⟨⟨hLo, h.1.2.1, hHi⟩, h.2⟩

theorem lies_of_merge {first last : Span} (hSpan : e.span = first.merge last)
    (hPlace : fits (first.merge last)) (hBetween : first.Between lo hi ∧ last.Between lo hi)
    (hChildren : SourceNode.AllLie fits first.start last.stop e.children)
    (hTidy : (SourceNode.expr e).Tidy fits) : e.Lies fits lo hi :=
  @SourceNode.lies_of_merge fits lo hi (.expr e) first last hSpan hPlace hBetween hChildren hTidy

theorem lies_leaf (hPlace : fits e.span) (hSpan : e.span.Between lo hi) (hLeaf : e.children = [])
    (hTidy : (SourceNode.expr e).Tidy fits) : e.Lies fits lo hi :=
  @SourceNode.lies_leaf fits lo hi (.expr e) hPlace hSpan hLeaf hTidy

/-- Nested expressions between two offsets. -/
abbrev AllLie (fits : Span → Prop) (lo hi : Nat) (es : List Expr) : Prop :=
  SourceNode.AllLie fits lo hi (es.map .expr)

theorem AllLie.append {more : List Expr} (h : AllLie fits lo hi es)
    (hMore : AllLie fits lo hi more) : AllLie fits lo hi (es ++ more) := by
  rw [AllLie, List.map_append]
  exact SourceNode.AllLie.append h hMore

end Expr

/-- A parameter at a place of a kind whose type is nested between two offsets. -/
abbrev Param.Lies (fits : Span → Prop) (lo hi : Nat) (param : Param Expr) : Prop :=
  fits param.span ∧ param.type.Lies fits lo hi

/-- Parameters whose types are nested between two offsets. -/
def Param.AllLie (fits : Span → Prop) (lo hi : Nat) (params : List (Param Expr)) : Prop :=
  ∀ param ∈ params, param.Lies fits lo hi

namespace Param.AllLie

variable {params more : List (Param Expr)}

theorem mono (h : AllLie fits lo hi params) (hLo : lo' ≤ lo) (hHi : hi ≤ hi') :
    AllLie fits lo' hi' params :=
  fun param hParam => (h param hParam).imp_right fun hType =>
    ⟨⟨Nat.le_trans hLo hType.1.1, hType.1.2.1, Nat.le_trans hType.1.2.2 hHi⟩, hType.2⟩

theorem append (h : AllLie fits lo hi params) (hMore : AllLie fits lo hi more) :
    AllLie fits lo hi (params ++ more) :=
  List.forall_mem_append.mpr ⟨h, hMore⟩

theorem named (h : AllLie fits lo hi params) : ∀ param ∈ params, fits param.span :=
  fun param hParam => (h param hParam).1

theorem types (h : AllLie fits lo hi params) : Expr.AllLie fits lo hi (params.map (·.type)) :=
  List.forall_mem_map.mpr (List.forall_mem_map.mpr fun param hParam => (h param hParam).2)

end Param.AllLie

/-- Methods at places of a kind whose types are nested between two offsets. -/
def MethodSpec.AllLie (fits : Span → Prop) (lo hi : Nat) (specs : List (MethodSpec Expr)) : Prop :=
  ∀ spec ∈ specs, fits spec.span ∧
    Param.AllLie fits lo hi (spec.signature.inputs ++ spec.signature.outputs)

namespace MethodSpec.AllLie

variable {specs : List (MethodSpec Expr)}

theorem mono (h : AllLie fits lo hi specs) (hLo : lo' ≤ lo) (hHi : hi ≤ hi') :
    AllLie fits lo' hi' specs :=
  fun spec hSpec => (h spec hSpec).imp_right fun hParams => hParams.mono hLo hHi

theorem named (h : AllLie fits lo hi specs) :
    ∀ spec ∈ specs, fits spec.span ∧ spec.signature.NamedAt fits :=
  fun spec hSpec => (h spec hSpec).imp_right fun hParams => hParams.named

theorem types (h : AllLie fits lo hi specs) :
    Expr.AllLie fits lo hi (specs.flatMap (·.signature.types)) := by
  refine List.forall_mem_map.mpr fun type hType => ?_
  obtain ⟨spec, hSpec, hType⟩ := List.mem_flatMap.mp hType
  exact (h spec hSpec).2.types _ (List.mem_map_of_mem hType)

end MethodSpec.AllLie

/-! ## Places of nodes -/

namespace SourceNode

/-- A node whose span and those of all nodes below it are of a kind. -/
def Placed (fits : Span → Prop) : SourceNode → Prop
  | expr e => e.Placed fits
  | init field => fits field.span ∧ field.value.Placed fits
  | stmt found => found.Placed fits
  | arm case => fits case.span ∧ ExprsPlaced fits case.tests ∧ StmtsPlaced fits case.body
  | importDecl decl => fits decl.span
  | constDecl decl => decl.Placed fits
  | varDecl decl => decl.Placed fits
  | typeDecl decl => decl.Placed fits
  | funcDecl decl => decl.Placed fits

end SourceNode

/-! ### Lists of parts -/

theorem exprsPlaced_forall {es : List Expr} : ExprsPlaced fits es ↔ ∀ e ∈ es, e.Placed fits := by
  induction es with
  | nil => simp [ExprsPlaced]
  | cons e rest ih => simp [ExprsPlaced, ih]

theorem optExprPlaced_forall {e : Option Expr} :
    OptExprPlaced fits e ↔ ∀ found ∈ e.toList, found.Placed fits := by
  cases e <;> simp [OptExprPlaced]

theorem initsPlaced_forall {fields : List (FieldInit Expr)} :
    InitsPlaced fits fields ↔ ∀ field ∈ fields, fits field.span ∧ field.value.Placed fits := by
  induction fields with
  | nil => simp [InitsPlaced]
  | cons field rest ih => simp [InitsPlaced, ih]

theorem SignaturePlaced.of_types {signature : Signature Expr} (hNames : signature.NamedAt fits)
    (hTypes : ∀ type ∈ signature.types, type.Placed fits) : SignaturePlaced fits signature := by
  have hParam (param : Param Expr) (h : param ∈ signature.inputs ++ signature.outputs) :
      fits param.span ∧ param.type.Placed fits :=
    ⟨hNames param h, hTypes _ (List.mem_map_of_mem h)⟩
  rw [SignaturePlaced, paramsPlaced_iff, paramsPlaced_iff]
  exact List.forall_mem_append.mp hParam

theorem specsPlaced_forall {specs : List (MethodSpec Expr)} : SpecsPlaced fits specs ↔
      ∀ spec ∈ specs, fits spec.span ∧ SignaturePlaced fits spec.signature := by
  induction specs with
  | nil => simp [SpecsPlaced]
  | cons spec rest ih => simp [SpecsPlaced, ih]

theorem stmtsPlaced_forall {stmts : List Stmt} :
    StmtsPlaced fits stmts ↔ ∀ stmt ∈ stmts, stmt.Placed fits := by
  induction stmts with
  | nil => simp [StmtsPlaced]
  | cons stmt rest ih => simp [StmtsPlaced, ih]

theorem optStmtPlaced_forall {stmt : Option Stmt} :
    OptStmtPlaced fits stmt ↔ ∀ found ∈ stmt.toList, found.Placed fits := by
  cases stmt <;> simp [OptStmtPlaced]

theorem optStmtsPlaced_forall {body : Option (List Stmt)} :
    OptStmtsPlaced fits body ↔ ∀ stmt ∈ body.getD [], stmt.Placed fits := by
  cases body <;> simp [OptStmtsPlaced, stmtsPlaced_forall]

theorem casesPlaced_forall {cases : List (SwitchCase Stmt)} :
    CasesPlaced fits cases ↔ ∀ case ∈ cases, (SourceNode.arm case).Placed fits := by
  induction cases with
  | nil => simp [CasesPlaced]
  | cons case rest ih => simp [CasesPlaced, ih, SourceNode.Placed]

/-- An expression is placed if it is and all that is right below it. -/
theorem Expr.placed_of_children {e : Expr} (hPlace : fits e.span)
    (hTidy : (SourceNode.expr e).Tidy fits) (h : ∀ child ∈ e.children, child.Placed fits) :
    e.Placed fits := by
  cases e with
  | int | str | ident =>
      rw [Expr.Placed]
      exact hPlace
  | interfaceType span specs =>
      rw [Expr.children, List.forall_mem_map] at h
      rw [Expr.Placed, specsPlaced_forall]
      refine ⟨hPlace, fun spec hSpec => ⟨(hTidy spec hSpec).1, .of_types (hTidy spec hSpec).2 ?_⟩⟩
      exact fun type hType => h type (List.mem_flatMap.mpr ⟨spec, hSpec, hType⟩)
  | structType span fields =>
      rw [Expr.children, List.forall_mem_map, List.forall_mem_map] at h
      rw [Expr.Placed, paramsPlaced_iff]
      exact ⟨hPlace, fun field hField => ⟨hTidy field hField, h field hField⟩⟩
  | _ =>
      simp only [Expr.children, List.map_append, List.forall_mem_cons, List.forall_mem_append,
        List.forall_mem_map, List.not_mem_nil, false_implies, implies_true, and_true,
        SourceNode.Placed] at h
      simp only [Expr.Placed, exprsPlaced_forall, optExprPlaced_forall, initsPlaced_forall]
      exact ⟨hPlace, h⟩

/-- A statement is placed if it is and all that is right below it. -/
theorem Stmt.placed_of_children {stmt : Stmt} (hPlace : fits stmt.span)
    (h : ∀ child ∈ stmt.children, child.Placed fits) : stmt.Placed fits := by
  cases stmt with
  | breakLoop | continueLoop =>
      rw [Stmt.Placed]
      exact hPlace
  | _ =>
      simp only [Stmt.children, List.map_append, List.forall_mem_cons, List.forall_mem_append,
        List.forall_mem_map, List.not_mem_nil, false_implies, implies_true, and_true,
        SourceNode.Placed] at h
      simp only [Stmt.Placed, exprsPlaced_forall, optExprPlaced_forall, stmtsPlaced_forall,
        optStmtPlaced_forall, optStmtsPlaced_forall, casesPlaced_forall]
      exact ⟨hPlace, by tauto⟩

/-- A node is placed if it is and all that is right below it. -/
theorem SourceNode.placed_of_children {node : SourceNode} (hPlace : fits node.span)
    (hTidy : node.Tidy fits) (h : ∀ child ∈ node.children, child.Placed fits) :
    node.Placed fits := by
  cases node with
  | expr e => exact Expr.placed_of_children hPlace hTidy h
  | stmt found => exact Stmt.placed_of_children hPlace h
  | importDecl decl => exact hPlace
  | init field => exact ⟨hPlace, h (.expr field.value) List.mem_cons_self⟩
  | typeDecl decl => exact ⟨hPlace, h (.expr decl.type) List.mem_cons_self⟩
  | arm case =>
      rw [children, List.forall_mem_append, List.forall_mem_map, List.forall_mem_map] at h
      exact ⟨hPlace, exprsPlaced_forall.mpr h.1, stmtsPlaced_forall.mpr h.2⟩
  | constDecl decl =>
      rw [children, List.forall_mem_append, List.forall_mem_map] at h
      exact ⟨hPlace, optExprPlaced_forall.mpr h.1, h.2 (.expr decl.value) List.mem_cons_self⟩
  | varDecl decl =>
      rw [children, List.forall_mem_map, List.forall_mem_append] at h
      exact ⟨hPlace, optExprPlaced_forall.mpr h.1, optExprPlaced_forall.mpr h.2⟩
  | funcDecl decl =>
      rw [children, List.forall_mem_append, List.forall_mem_map, List.forall_mem_append,
        List.forall_mem_map, List.forall_mem_map] at h
      obtain ⟨⟨hReceiver, hTypes⟩, hBody⟩ := h
      exact ⟨hPlace, paramsPlaced_iff.mpr fun param hParam =>
        ⟨hTidy.1 param hParam, hReceiver param hParam⟩, .of_types hTidy.2 hTypes,
        optStmtsPlaced_forall.mpr hBody⟩

theorem SourceNode.Tidy.imp {node : SourceNode} (h : node.Tidy fits)
    (imp : ∀ span, fits span → fits' span) : node.Tidy fits' := by
  unfold Tidy at h ⊢
  split
  · exact h
  · exact fun field hField => imp _ (h field hField)
  · exact fun spec hSpec =>
      ⟨imp _ (h spec hSpec).1, fun param hParam => imp _ ((h spec hSpec).2 param hParam)⟩
  · exact ⟨fun param hParam => imp _ (h.1 param hParam), fun param hParam =>
      imp _ (h.2 param hParam)⟩
  · trivial

/-- All places in a nested node are of the kind of its own. -/
theorem SourceNode.Nested.placed {node : SourceNode} (h : node.Nested fits)
    (imp : ∀ span, fits span → fits' span) : node.Placed fits' := by
  induction h with
  | mk place tidy _ _ ih => exact placed_of_children (imp _ place) (tidy.imp imp) ih

end GoToC
