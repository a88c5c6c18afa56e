import GoToC.Tree.Basic

/-!
# Names of a function

Which names a function declares, and what each use of a name refers to.
-/

/-!
## The variables of a function

The names that the statements of a function declare, and those of its outputs that are
variables too.
-/

namespace GoToC

mutual

/-- The variables that a statement declares, those of inner blocks included. -/
def Stmt.variables : Stmt → List String
  | .assign _ .define targets _ => targets.filterMap (·.ident?)
  | .assign _ _ _ _ => []
  | .var _ name _ => [name]
  | .ret _ _ => []
  | .breakLoop _ _ => []
  | .continueLoop _ _ => []
  | .whileLoop _ _ body => variablesOf body
  | .forLoop _ init _ post body => optVariables init ++ optVariables post ++ variablesOf body
  | .rangeLoop _ key value _ body => key.toList ++ value.toList ++ variablesOf body
  | .ifElse _ _ thenBody elseBody => variablesOf thenBody ++ optVariablesOf elseBody
  | .switch _ _ cases fallback => caseVariables cases ++ optVariablesOf fallback
  | .block _ body => variablesOf body

def variablesOf : List Stmt → List String
  | [] => []
  | stmt :: rest => stmt.variables ++ variablesOf rest

def optVariables : Option Stmt → List String
  | none => []
  | some stmt => stmt.variables

def optVariablesOf : Option (List Stmt) → List String
  | none => []
  | some body => variablesOf body

def caseVariables : List (SwitchCase Stmt) → List String
  | [] => []
  | ⟨_, body, _⟩ :: rest => variablesOf body ++ caseVariables rest

end

/-- The variables of a function: what its body declares and, if there is only one, the
name of its output. -/
def FuncDecl.variables (decl : FuncDecl) : List String :=
  (match decl.signature.outputs with
    | [output] => [output.name]
    | _ => []) ++ (decl.body.map variablesOf).getD []

end GoToC

/-!
## Lexical scoping

What each use of an identifier in a function refers to, told from the tree alone. A block sees
the declarations around it and its own earlier ones, and what it declares ends with it. The
right side of a definition and the collection of a range do not see the names that are being
declared; those of the first statement of a loop are seen in its condition, its body and its
last statement. Names are listed in the order in which expressions are evaluated.
-/

namespace GoToC

/-- A declaration of a function: how many came before it, and how deep its block is. -/
@[ext]
structure Site where
  name : String
  number : Nat
  depth : Nat
  deriving Repr, DecidableEq

/-- A use of an identifier with the declarations that are visible there, or a declaration. -/
inductive Naming where
  | use (name : String) (span : Span) (visible : List Site)
  | declare (site : Site)
  deriving Repr, DecidableEq

/-- The declaration that a name refers to: the latest one in the innermost block that has
one. -/
structure Refers (visible : List Site) (name : String) (site : Site) : Prop where
  mem : site ∈ visible
  named : site.name = name
  innermost : ∀ other ∈ visible, other.name = name → other.depth ≤ site.depth
  latest : ∀ other ∈ visible, other.name = name → other.depth = site.depth →
    other.number ≤ site.number

/-- No visible declaration has the name. -/
def Undeclared (visible : List Site) (name : String) : Prop := ∀ site ∈ visible, site.name ≠ name

/-! ### Expressions -/

/-- Whether a call is compiled in place: it names `len` or `append`, and no declaration that is
visible and none of the module, which `hides` tells, has that name. -/
def Expr.isInPlace (hides : String → Bool) (visible : List Site) (callee : Expr) : Bool :=
  callee.ident?.any fun name =>
    (name == "len" || name == "append") && !visible.any (·.name == name) && !hides name

section

variable (hides : String → Bool) (visible : List Site)

mutual

/-- The uses of identifiers in an expression. -/
def Expr.namings : Expr → List Naming
  | .int _ _ => []
  | .str _ _ => []
  | .ident span name => [.use name span visible]
  | .unary _ _ operand => operand.namings
  | .binary _ _ left right => left.namings ++ right.namings
  | .call _ callee args _ =>
      (if callee.isInPlace hides visible then [] else callee.namings) ++ namingsAll args
  | .dot _ receiver _ => receiver.namings
  | .index _ receiver index => receiver.namings ++ index.namings
  | .slice _ receiver lo hi => receiver.namings ++ namingsOpt lo ++ namingsOpt hi
  | .ctor _ type fields => type.namings ++ namingsInits fields
  | .pointerType _ inner => inner.namings
  | .sliceType _ elem => elem.namings
  | .mapType _ key value => key.namings ++ value.namings
  | .structType _ fields => namingsParams fields
  | .interfaceType _ specs => namingsSpecs specs

def namingsAll : List Expr → List Naming
  | [] => []
  | e :: rest => e.namings ++ namingsAll rest

def namingsOpt : Option Expr → List Naming
  | none => []
  | some e => e.namings

def namingsInits : List (FieldInit Expr) → List Naming
  | [] => []
  | ⟨_, value, _⟩ :: rest => value.namings ++ namingsInits rest

def namingsParams : List (Param Expr) → List Naming
  | [] => []
  | ⟨_, type, _⟩ :: rest => type.namings ++ namingsParams rest

def namingsSpecs : List (MethodSpec Expr) → List Naming
  | [] => []
  | ⟨_, ⟨_, inputs, outputs⟩, _⟩ :: rest =>
      namingsParams inputs ++ namingsParams outputs ++ namingsSpecs rest

end

end

theorem namingsAll_append (hides : String → Bool) (visible : List Site) (es es' : List Expr) :
    namingsAll hides visible (es ++ es') =
      namingsAll hides visible es ++ namingsAll hides visible es' := by
  induction es with
  | nil => rw [namingsAll]; rfl
  | cons e rest ih => rw [List.cons_append, namingsAll, namingsAll, ih, List.append_assoc]

theorem namingsAll_singleton (hides : String → Bool) (visible : List Site) (e : Expr) :
    namingsAll hides visible [e] = e.namings hides visible := by
  rw [namingsAll, namingsAll, List.append_nil]

/-! ### Statements -/

/-- What is known at a point of a function: the declarations that are visible, the latest first,
the depth of the innermost block, and the number of declarations so far. -/
structure Outlook where
  visible : List Site
  depth : Nat
  next : Nat
  deriving Repr, DecidableEq

/-- The names that a part of a function uses and declares, and what is known after it. -/
structure Walk where
  namings : List Naming
  outlook : Outlook

namespace Walk

/-- One part after another. -/
def andThen (walk : Walk) (next : Outlook → Walk) : Walk :=
  ⟨walk.namings ++ (next walk.outlook).namings, (next walk.outlook).outlook⟩

theorem andThen_assoc (walk : Walk) (next last : Outlook → Walk) :
    (walk.andThen next).andThen last = walk.andThen fun outlook => (next outlook).andThen last := by
  simp only [andThen, List.append_assoc]

theorem andThen_nil (walk : Walk) : walk.andThen (fun outlook => ⟨[], outlook⟩) = walk := by
  simp only [andThen, List.append_nil]

end Walk

namespace Outlook

def start : Outlook := ⟨[], 0, 0⟩

/-- The next declaration. -/
def site (outlook : Outlook) (name : String) : Site := ⟨name, outlook.next, outlook.depth⟩

def declare (outlook : Outlook) (name : String) : Walk :=
  ⟨[.declare (outlook.site name)],
    ⟨outlook.site name :: outlook.visible, outlook.depth, outlook.next + 1⟩⟩

/-- Declares all but blank names. -/
def declareAll (outlook : Outlook) : List String → Walk
  | [] => ⟨[], outlook⟩
  | name :: rest =>
      if name = "_" then outlook.declareAll rest
      else (outlook.declare name).andThen (·.declareAll rest)

theorem declareAll_append (outlook : Outlook) (names names' : List String) :
    outlook.declareAll (names ++ names') =
      (outlook.declareAll names).andThen (·.declareAll names') := by
  induction names generalizing outlook with
  | nil => rfl
  | cons name rest ih =>
      rw [List.cons_append, declareAll, declareAll]
      split
      · exact ih outlook
      · simp only [Walk.andThen_assoc, ih]

theorem declareAll_singleton (outlook : Outlook) {name : String} (h : name ≠ "_") :
    outlook.declareAll [name] = outlook.declare name := by
  rw [declareAll, if_neg h]
  exact Walk.andThen_nil _

/-- A block of its own. -/
def block (outlook : Outlook) (inner : Outlook → Walk) : Walk :=
  let walk := inner ⟨outlook.visible, outlook.depth + 1, outlook.next⟩
  ⟨walk.namings, ⟨outlook.visible, outlook.depth, walk.outlook.next⟩⟩

variable (hides : String → Bool)

/-- Expressions one after another. -/
def look (outlook : Outlook) (es : List Expr) : Walk :=
  ⟨namingsAll hides outlook.visible es, outlook⟩

theorem look_singleton (outlook : Outlook) (e : Expr) :
    outlook.look hides [e] = ⟨e.namings hides outlook.visible, outlook⟩ := by
  rw [look, namingsAll_singleton]

/-- Targets that are assigned to; a blank one is not looked up. -/
def lookTargets (outlook : Outlook) (targets : List Expr) : Walk :=
  outlook.look hides (targets.filter (·.ident? ≠ some "_"))

theorem lookTargets_cons (outlook : Outlook) (target : Expr) (targets : List Expr) :
    outlook.lookTargets hides (target :: targets) =
      (outlook.lookTargets hides [target]).andThen (·.lookTargets hides targets) := by
  simp only [lookTargets, look, Walk.andThen]
  rw [← namingsAll_append, ← List.filter_append, List.singleton_append]

/-- Assignments one after another, the value before the target in each. -/
def lookPairs (outlook : Outlook) : List Expr → List Expr → Walk
  | target :: targets, value :: values =>
      ((outlook.look hides [value]).andThen (·.lookTargets hides [target])).andThen
        (·.lookPairs targets values)
  | _, _ => ⟨[], outlook⟩

/-- An assignment in one of its forms. -/
def assign (outlook : Outlook) (op : AssignOp) (targets values : List Expr) : Walk :=
  match op with
  | .inc => outlook.look hides targets
  | .dec => outlook.look hides targets
  | .lone => outlook.look hides values
  | .compound _ => (outlook.look hides targets).andThen (·.look hides values)
  | .set =>
      match targets, values with
      | _ :: _ :: _, [call] => (outlook.look hides [call]).andThen (·.lookTargets hides targets)
      | _, _ => outlook.lookPairs hides targets values
  | .define => (outlook.look hides values).andThen (·.declareAll (targets.filterMap (·.ident?)))

end Outlook

section

variable (hides : String → Bool)

mutual

def Stmt.walk : Stmt → Outlook → Walk
  | .assign _ op targets values, outlook => outlook.assign hides op targets values
  | .var _ name type, outlook => (outlook.look hides [type]).andThen (·.declare name)
  | .ret _ values, outlook => outlook.look hides values
  | .breakLoop _ _, outlook => ⟨[], outlook⟩
  | .continueLoop _ _, outlook => ⟨[], outlook⟩
  | .whileLoop _ cond body, outlook =>
      (outlook.look hides cond.toList).andThen (·.block (walkAll body))
  | .forLoop _ init cond post body, outlook =>
      outlook.block fun inner => (((walkOpt init inner).andThen (·.look hides cond.toList)).andThen
        (·.block (walkAll body))).andThen (walkOpt post)
  | .rangeLoop _ key value collection body, outlook =>
      outlook.block fun inner => ((inner.look hides [collection]).andThen
        (·.declareAll (key.toList ++ value.toList))).andThen (·.block (walkAll body))
  | .ifElse _ cond thenBody elseBody, outlook =>
      ((outlook.look hides [cond]).andThen (·.block (walkAll thenBody))).andThen (walkElse elseBody)
  | .switch _ subject cases fallback, outlook =>
      (((outlook.look hides subject.toList).andThen
        (·.look hides (cases.flatMap (·.tests)))).andThen (walkCases cases)).andThen
        (walkElse fallback)
  | .block _ body, outlook => outlook.block (walkAll body)

def walkAll : List Stmt → Outlook → Walk
  | [], outlook => ⟨[], outlook⟩
  | stmt :: rest, outlook => (stmt.walk outlook).andThen (walkAll rest)

def walkOpt : Option Stmt → Outlook → Walk
  | none, outlook => ⟨[], outlook⟩
  | some stmt, outlook => stmt.walk outlook

def walkElse : Option (List Stmt) → Outlook → Walk
  | none, outlook => ⟨[], outlook⟩
  | some body, outlook => outlook.block (walkAll body)

/-- The arms of a switch; their tests come before all of them. -/
def walkCases : List (SwitchCase Stmt) → Outlook → Walk
  | [], outlook => ⟨[], outlook⟩
  | ⟨_, body, _⟩ :: rest, outlook => (outlook.block (walkAll body)).andThen (walkCases rest)

end

/-- The body of a function, whose named inputs and outputs are declared around it. -/
def walkBody (names : List String) (body : List Stmt) : Walk :=
  (Outlook.start.declareAll names).andThen (·.block (walkAll hides body))

end

-- The right side of a definition sees the input, and what follows sees the variable.
example (s : Span) :
    (walkBody (fun _ => false) ["x"] [.assign s .define [.ident s "x"] [.ident s "x"],
      .ret s [.ident s "x"]]).namings =
    [.declare ⟨"x", 0, 0⟩, .use "x" s [⟨"x", 0, 0⟩], .declare ⟨"x", 1, 1⟩,
      .use "x" s [⟨"x", 1, 1⟩, ⟨"x", 0, 0⟩]] := rfl

end GoToC
