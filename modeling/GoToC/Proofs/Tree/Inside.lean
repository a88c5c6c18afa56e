import GoToC.Proofs.Tree.Formed
import GoToC.Proofs.Tree.Scoping

/-!
# Statements inside statements

What a file or a body is made of at any depth: all statements with those inside of them, and the
names that they declare.
-/

/-!
## All statements of a file

The statements of a file are found through its functions and methods: in their bodies and, at any
depth, in the parts of statements. Each of them is listed as often as it is found. What a list
holds is told apart from the order in which it holds it: the parts of a statement are its lists as
they stand in the text, but for the default of a switch, which may stand anywhere among its cases.
-/

namespace GoToC

mutual

/-- The statements inside a statement, at any depth. -/
def Stmt.inner : Stmt → List Stmt
  | .assign _ _ _ _ => []
  | .var _ _ _ => []
  | .ret _ _ => []
  | .breakLoop _ _ => []
  | .continueLoop _ _ => []
  | .whileLoop _ _ body => allOf body
  | .forLoop _ init _ post body => optAll init ++ optAll post ++ allOf body
  | .rangeLoop _ _ _ _ body => allOf body
  | .ifElse _ _ thenBody elseBody => allOf thenBody ++ optAllOf elseBody
  | .switch _ _ cases fallback => casesAll cases ++ optAllOf fallback
  | .block _ body => allOf body

/-- Statements and all that is inside of them. -/
def allOf : List Stmt → List Stmt
  | [] => []
  | stmt :: rest => stmt :: stmt.inner ++ allOf rest

def optAll : Option Stmt → List Stmt
  | none => []
  | some stmt => stmt :: stmt.inner

def optAllOf : Option (List Stmt) → List Stmt
  | none => []
  | some body => allOf body

def casesAll : List (SwitchCase Stmt) → List Stmt
  | [] => []
  | ⟨_, body, _⟩ :: rest => allOf body ++ casesAll rest

end

/-- The statements that a statement holds in its lists: those of one list are in the order of the
text, if the statement is as it was read. -/
def Stmt.parts : Stmt → List (List Stmt)
  | .assign _ _ _ _ => []
  | .var _ _ _ => []
  | .ret _ _ => []
  | .breakLoop _ _ => []
  | .continueLoop _ _ => []
  | .whileLoop _ _ body => [body]
  | .forLoop _ init _ post body => [init.toList ++ post.toList ++ body]
  | .rangeLoop _ _ _ _ body => [body]
  | .ifElse _ _ thenBody elseBody => [thenBody ++ elseBody.getD []]
  | .switch _ _ cases fallback => [cases.flatMap (·.body), fallback.getD []]
  | .block _ body => [body]

/-- The statements in the body of a function. -/
def FuncDecl.statements (decl : FuncDecl) : List Stmt := optAllOf decl.body

/-- The statements in the bodies of functions and methods. -/
def SourceFile.statements (file : SourceFile) : List Stmt :=
  (file.funcs ++ file.methods).flatMap (·.statements)

end GoToC

/-!
## Parts and names

The parts of a statement that hold others, and the names that it declares for those that come after
it.
-/

namespace GoToC

/-- Names as a block holds them: no blank ones, and the latest first. -/
def blockNames (names : List String) : List String := (names.filter (· ≠ "_")).reverse

theorem blockNames_append (names names' : List String) :
    blockNames (names ++ names') = blockNames names' ++ blockNames names := by
  simp [blockNames]

/-- The names that a statement declares for those that come after it in its block. -/
def Stmt.declares : Stmt → List String
  | .assign _ .define targets _ => blockNames (targets.filterMap (·.ident?))
  | .var _ name _ => [name]
  | _ => []

/-- A part of a statement that holds others. -/
inductive StmtPart where
  | thenBody
  | elseBody
  | block
  /-- The rounds of a loop. -/
  | round
  /-- What a loop does between its rounds. -/
  | between
  | rangeRound
  | arm (index : Nat)
  | fallback
  deriving DecidableEq

/-- Whether a part is come to again and again. -/
def StmtPart.repeats : StmtPart → Bool
  | round | between | rangeRound => true
  | _ => false

/-! ### Names at a point of a walk -/

/-- The names that are visible at a point, the latest first. -/
def Outlook.names (outlook : Outlook) : List String := outlook.visible.map (·.name)

theorem Outlook.names_declareAll (outlook : Outlook) (names : List String) :
    (outlook.declareAll names).outlook.names = blockNames names ++ outlook.names := by
  induction names generalizing outlook with
  | nil => rfl
  | cons name rest ih =>
      by_cases hBlank : name = "_"
      · rw [Outlook.declareAll, if_pos hBlank, ih]
        simp [blockNames, hBlank]
      · rw [Outlook.declareAll, if_neg hBlank]
        show ((outlook.declare name).outlook.declareAll rest).outlook.names = _
        rw [ih]
        simp [blockNames, hBlank, Outlook.names, Outlook.declare, Outlook.site]

namespace Outlook

variable {hides : String → Bool}

theorem outlook_lookPairs (outlook : Outlook) (targets values : List Expr) :
    (outlook.lookPairs hides targets values).outlook = outlook := by
  induction targets generalizing values outlook with
  | nil => rfl
  | cons target rest ih =>
      cases values with
      | nil => rfl
      | cons value others => exact ih outlook others

/-- What is declared in a part of a statement is not visible behind it. -/
theorem names_walkElse (outlook : Outlook) (body : Option (List Stmt)) :
    (walkElse hides body outlook).outlook.names = outlook.names := by
  cases body <;> rw [walkElse]
  rfl

theorem names_walkCases (outlook : Outlook) (cases : List (SwitchCase Stmt)) :
    (walkCases hides cases outlook).outlook.names = outlook.names := by
  induction cases generalizing outlook with
  | nil => rw [walkCases]
  | cons case rest ih =>
      obtain ⟨tests, body, span⟩ := case
      rw [walkCases]
      exact ih _

end Outlook

/-- After a statement the names are visible that it declares, besides those from before. -/
theorem Stmt.names_walk (hides : String → Bool) (stmt : Stmt) (outlook : Outlook) :
    (stmt.walk hides outlook).outlook.names = stmt.declares ++ outlook.names := by
  cases stmt with
  | assign span op targets values =>
      rw [Stmt.walk]
      cases op with
      | define => exact outlook.names_declareAll _
      | set =>
          unfold Outlook.assign
          dsimp only
          split
          · rfl
          · rw [Outlook.outlook_lookPairs]
            rfl
      | _ => rfl
  | ifElse span cond thenBody elseBody =>
      rw [Stmt.walk]
      exact Outlook.names_walkElse _ elseBody
  | switch span subject cases fallback =>
      rw [Stmt.walk]
      exact (Outlook.names_walkElse _ fallback).trans (Outlook.names_walkCases _ cases)
  | _ =>
      rw [Stmt.walk]
      rfl

variable {word : String → Prop}

theorem exprsFormed_iff {es : List Expr} : ExprsFormed word es ↔ ∀ e ∈ es, e.Formed word := by
  induction es with
  | nil => simp [ExprsFormed]
  | cons e rest ih => simp [ExprsFormed, ih]

theorem casesFormed_append {cases others : List (SwitchCase Stmt)} :
    CasesFormed word (cases ++ others) ↔ CasesFormed word cases ∧ CasesFormed word others := by
  induction cases with
  | nil => simp [CasesFormed]
  | cons case rest ih =>
      obtain ⟨tests, body, span⟩ := case
      rw [List.cons_append, CasesFormed, CasesFormed, ih]
      exact and_assoc.symm

end GoToC
