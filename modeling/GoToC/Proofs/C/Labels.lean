import GoToC.C.Item

/-!
# Loops, labels and jumps

How loops and jumps lie in each other, in a tree and in the C statements that are written for it.
-/

/-!
## Loops and jumps of a tree

What is left of statements when all but loops and jumps is dropped: how loops lie in each other,
and which jumps lie in which of them. The first statement of a loop with three clauses and what
it does between its rounds belong to what is around the loop.
-/

namespace GoToC

/-- A loop or a jump, which carries a tag. -/
inductive Outline (τ : Type) where
  | jump (tag : τ)
  /-- A loop, by what its rounds and what is done between them are made of. -/
  | loop (body post : List (Outline τ))

namespace Outline

variable {σ τ : Type}

mutual

def map (f : σ → τ) : Outline σ → Outline τ
  | .jump tag => .jump (f tag)
  | .loop body post => .loop (mapAll f body) (mapAll f post)

def mapAll (f : σ → τ) : List (Outline σ) → List (Outline τ)
  | [] => []
  | part :: rest => part.map f :: mapAll f rest

end

mutual

/-- The jumps that no loop is around. -/
def strays : Outline τ → List τ
  | .jump tag => [tag]
  | .loop _ post => straysOf post

def straysOf : List (Outline τ) → List τ
  | [] => []
  | part :: rest => part.strays ++ straysOf rest

end

theorem mapAll_append (f : σ → τ) (parts others : List (Outline σ)) :
    mapAll f (parts ++ others) = mapAll f parts ++ mapAll f others := by
  induction parts with
  | nil => rfl
  | cons part rest ih => rw [List.cons_append, mapAll, mapAll, ih, List.cons_append]

@[simp] theorem straysOf_append (parts others : List (Outline τ)) :
    straysOf (parts ++ others) = straysOf parts ++ straysOf others := by
  induction parts with
  | nil => rfl
  | cons part rest ih => rw [List.cons_append, straysOf, straysOf, ih, List.append_assoc]

end Outline

/-- The jump that a source has in a place. -/
abbrev SourceJump := JumpKind × Span

mutual

/-- The loops and jumps of a statement. -/
def Stmt.outline : Stmt → List (Outline SourceJump)
  | .assign _ _ _ _ => []
  | .var _ _ _ => []
  | .ret _ _ => []
  | .breakLoop span _ => [.jump (.leave, span)]
  | .continueLoop span _ => [.jump (.again, span)]
  | .whileLoop _ _ body => [.loop (outlinesOf body) []]
  | .forLoop _ init _ post body =>
      optOutline init ++ [.loop (outlinesOf body) (optOutline post)]
  | .rangeLoop _ _ _ _ body => [.loop (outlinesOf body) []]
  | .ifElse _ _ thenBody elseBody => outlinesOf thenBody ++ optOutlinesOf elseBody
  | .switch _ _ cases fallback => caseOutlines cases ++ optOutlinesOf fallback
  | .block _ body => outlinesOf body

def outlinesOf : List Stmt → List (Outline SourceJump)
  | [] => []
  | stmt :: rest => stmt.outline ++ outlinesOf rest

def optOutline : Option Stmt → List (Outline SourceJump)
  | none => []
  | some stmt => stmt.outline

def optOutlinesOf : Option (List Stmt) → List (Outline SourceJump)
  | none => []
  | some body => outlinesOf body

def caseOutlines : List (SwitchCase Stmt) → List (Outline SourceJump)
  | [] => []
  | ⟨_, body, _⟩ :: rest => outlinesOf body ++ caseOutlines rest

end

/-- The jumps among statements that no loop is around, in the order in which they are met. -/
def strayJumps (body : List Stmt) : List SourceJump := Outline.straysOf (outlinesOf body)

mutual

/-- The statement with every jump that no loop is around replaced by a block that is empty. -/
def Stmt.mended : Stmt → Stmt
  | .assign span op targets values => .assign span op targets values
  | .var span name type => .var span name type
  | .ret span values => .ret span values
  | .breakLoop span _ => .block span []
  | .continueLoop span _ => .block span []
  | .whileLoop span cond body => .whileLoop span cond body
  | .forLoop span init cond post body =>
      .forLoop span (optMended init) cond (optMended post) body
  | .rangeLoop span key value collection body => .rangeLoop span key value collection body
  | .ifElse span cond thenBody elseBody =>
      .ifElse span cond (mendedOf thenBody) (optMendedOf elseBody)
  | .switch span subject cases fallback =>
      .switch span subject (caseMended cases) (optMendedOf fallback)
  | .block span body => .block span (mendedOf body)

def mendedOf : List Stmt → List Stmt
  | [] => []
  | stmt :: rest => stmt.mended :: mendedOf rest

def optMended : Option Stmt → Option Stmt
  | none => none
  | some stmt => some stmt.mended

def optMendedOf : Option (List Stmt) → Option (List Stmt)
  | none => none
  | some body => some (mendedOf body)

def caseMended : List (SwitchCase Stmt) → List (SwitchCase Stmt)
  | [] => []
  | ⟨tests, body, span⟩ :: rest => ⟨tests, mendedOf body, span⟩ :: caseMended rest

end

open Outline (straysOf strays straysOf_append)

mutual

/-- Nothing stray is left of a statement that is mended. -/
theorem Stmt.strays_mended : (stmt : Stmt) → straysOf stmt.mended.outline = []
  | .assign _ _ _ _ | .var _ _ _ | .ret _ _ | .breakLoop _ _ | .continueLoop _ _
  | .whileLoop _ _ _ | .rangeLoop _ _ _ _ _ => rfl
  | .forLoop _ init _ post body => by
      rw [Stmt.mended, Stmt.outline, straysOf_append, strays_optMended init, straysOf, strays,
        strays_optMended post]
      rfl
  | .ifElse _ _ thenBody elseBody => by
      rw [Stmt.mended, Stmt.outline, straysOf_append, strays_mendedOf thenBody,
        strays_optMendedOf elseBody]
      rfl
  | .switch _ _ cases fallback => by
      rw [Stmt.mended, Stmt.outline, straysOf_append, strays_caseMended cases,
        strays_optMendedOf fallback]
      rfl
  | .block _ body => by
      rw [Stmt.mended, Stmt.outline, strays_mendedOf body]

theorem strays_mendedOf : (body : List Stmt) → straysOf (outlinesOf (mendedOf body)) = []
  | [] => rfl
  | stmt :: rest => by
      rw [mendedOf, outlinesOf, straysOf_append, stmt.strays_mended, strays_mendedOf rest]
      rfl

theorem strays_optMended : (stmt : Option Stmt) → straysOf (optOutline (optMended stmt)) = []
  | none => rfl
  | some stmt => by
      rw [optMended, optOutline, stmt.strays_mended]

theorem strays_optMendedOf : (body : Option (List Stmt)) →
    straysOf (optOutlinesOf (optMendedOf body)) = []
  | none => rfl
  | some body => by
      rw [optMendedOf, optOutlinesOf, strays_mendedOf body]

theorem strays_caseMended : (cases : List (SwitchCase Stmt)) →
    straysOf (caseOutlines (caseMended cases)) = []
  | [] => rfl
  | ⟨_, body, _⟩ :: rest => by
      rw [caseMended, caseOutlines, straysOf_append, strays_mendedOf body, strays_caseMended rest]
      rfl

end

/-- A body that is mended has no stray jumps. -/
theorem strayJumps_mendedOf (body : List Stmt) : strayJumps (mendedOf body) = [] :=
  strays_mendedOf body

end GoToC

/-!
## Labels and jumps in C

Every loop of a routine defines two labels, which tell its number. Here the loops, labels and
jumps of C statements are collected, and it is said when all jumps lead to the innermost loops
around them.
-/

namespace GoToC

variable {loop : Option Nat}

namespace CStmt

mutual

/-- All statements that a statement holds, at any depth, in the order in which they stand. -/
def inside : CStmt → List CStmt
  | .ifElse _ thenBody elseBody => insideAll thenBody ++ insideElse elseBody
  | .block body => insideAll body
  | .loop _ test _ body post => insideAll test ++ insideAll body ++ insideAll post
  | .rangeLoop _ _ _ fetch body => insideAll fetch ++ insideAll body
  | .switch _ arms fallback => insideAll arms ++ insideAll fallback
  | .arm _ body => insideAll body
  | _ => []

/-- Statements with all that they hold. -/
def insideAll : List CStmt → List CStmt
  | [] => []
  | stmt :: rest => stmt :: (stmt.inside ++ insideAll rest)

def insideElse : Option (List CStmt) → List CStmt
  | none => []
  | some body => insideAll body

end

/-- The number of a loop. -/
def loopNumber? : CStmt → Option Nat
  | .loop number _ _ _ _ => some number
  | .rangeLoop number _ _ _ _ => some number
  | _ => none

/-- Where a jump leads to. -/
def target? : CStmt → Option (JumpKind × Nat)
  | .jump kind number => some (kind, number)
  | _ => none

/-- The numbers of the loops among statements and in them. -/
def loops (stmts : List CStmt) : List Nat := (insideAll stmts).filterMap loopNumber?

/-- The labels that a loop defines. -/
def labelsOf (number : Nat) : List String :=
  [JumpKind.again.label number, JumpKind.leave.label number]

/-- The labels that are defined among statements and in them. -/
def labels (stmts : List CStmt) : List String := (loops stmts).flatMap labelsOf

/-- The labels that are jumped to. -/
def gotos (stmts : List CStmt) : List String :=
  ((insideAll stmts).filterMap target?).map fun (kind, number) => kind.label number

mutual

/-- The loops and jumps of a statement. -/
def outline : CStmt → List (Outline JumpKind)
  | .jump kind _ => [.jump kind]
  | .ifElse _ thenBody elseBody => outlineAll thenBody ++ outlineElse elseBody
  | .block body => outlineAll body
  | .loop _ test _ body post => outlineAll test ++ [.loop (outlineAll body) (outlineAll post)]
  | .rangeLoop _ _ _ fetch body => outlineAll fetch ++ [.loop (outlineAll body) []]
  | .switch _ arms fallback => outlineAll arms ++ outlineAll fallback
  | .arm _ body => outlineAll body
  | _ => []

def outlineAll : List CStmt → List (Outline JumpKind)
  | [] => []
  | stmt :: rest => stmt.outline ++ outlineAll rest

def outlineElse : Option (List CStmt) → List (Outline JumpKind)
  | none => []
  | some body => outlineAll body

end

mutual

/-- Every jump leads to the loop whose rounds it lies in, the innermost one; around the whole
there may be a loop too. -/
def Targets (loop : Option Nat) : CStmt → Prop
  | .jump _ number => loop = some number
  | .ifElse _ thenBody elseBody => TargetsAll loop thenBody ∧ TargetsElse loop elseBody
  | .block body => TargetsAll loop body
  | .loop number test _ body post =>
      TargetsAll loop test ∧ TargetsAll (some number) body ∧ TargetsAll loop post
  | .rangeLoop number _ _ fetch body => TargetsAll loop fetch ∧ TargetsAll (some number) body
  | .switch _ arms fallback => TargetsAll loop arms ∧ TargetsAll loop fallback
  | .arm _ body => TargetsAll loop body
  | _ => True

def TargetsAll (loop : Option Nat) : List CStmt → Prop
  | [] => True
  | stmt :: rest => stmt.Targets loop ∧ TargetsAll loop rest

def TargetsElse (loop : Option Nat) : Option (List CStmt) → Prop
  | none => True
  | some body => TargetsAll loop body

end

/-! ### Statements one after another -/

theorem insideAll_append (stmts others : List CStmt) :
    insideAll (stmts ++ others) = insideAll stmts ++ insideAll others := by
  induction stmts with
  | nil => rfl
  | cons stmt rest ih => simp only [List.cons_append, insideAll, ih, List.append_assoc]

@[simp] theorem loops_append (stmts others : List CStmt) :
    loops (stmts ++ others) = loops stmts ++ loops others := by
  simp only [loops, insideAll_append, List.filterMap_append]

theorem outlineAll_append (stmts others : List CStmt) :
    outlineAll (stmts ++ others) = outlineAll stmts ++ outlineAll others := by
  induction stmts with
  | nil => rfl
  | cons stmt rest ih => simp only [List.cons_append, outlineAll, ih, List.append_assoc]

theorem targetsAll_append {stmts others : List CStmt} :
    TargetsAll loop (stmts ++ others) ↔ TargetsAll loop stmts ∧ TargetsAll loop others := by
  induction stmts with
  | nil => simp [TargetsAll]
  | cons stmt rest ih => simp only [List.cons_append, TargetsAll, ih, and_assoc]

theorem insideElse_eq (body : Option (List CStmt)) :
    insideElse body = insideAll (body.getD []) := by
  cases body <;> rfl

theorem outlineElse_eq (body : Option (List CStmt)) :
    outlineElse body = outlineAll (body.getD []) := by
  cases body <;> rfl

theorem targetsElse_iff {body : Option (List CStmt)} :
    TargetsElse loop body ↔ TargetsAll loop (body.getD []) := by
  cases body <;> exact Iff.rfl

/-! ### Where jumps lead to -/

/-- All jumps among statements lead to known loops or to loops among them. -/
def Lead (known : Nat → Prop) (stmts : List CStmt) : Prop :=
  ∀ entry ∈ stmts.filterMap target?, known entry.2 ∨ entry.2 ∈ stmts.filterMap loopNumber?

namespace Lead

variable {known known' : Nat → Prop} {stmts others : List CStmt} {stmt : CStmt}

theorem nil : Lead known [] := by simp [Lead]

theorem append (h : Lead known stmts) (h' : Lead known others) : Lead known (stmts ++ others) := by
  intro entry hEntry
  rw [List.filterMap_append, List.mem_append] at hEntry ⊢
  rcases hEntry with hEntry | hEntry
  · exact (h entry hEntry).imp_right .inl
  · exact (h' entry hEntry).imp_right .inr

theorem mono (h : Lead known stmts) (imp : ∀ number, known number → known' number) :
    Lead known' stmts :=
  fun entry hEntry => (h entry hEntry).imp_left (imp entry.2)

/-- A statement that does not jump itself. -/
theorem cons (hTarget : stmt.target? = none)
    (h : Lead (fun number => known number ∨ stmt.loopNumber? = some number) stmts) :
    Lead known (stmt :: stmts) := by
  intro entry hEntry
  rw [List.filterMap_cons, hTarget] at hEntry
  rw [← List.singleton_append, List.filterMap_append, List.mem_append]
  rcases h entry hEntry with (hKnown | hNumber) | hInner
  · exact .inl hKnown
  · refine .inr (.inl ?_)
    rw [List.mem_filterMap]
    exact ⟨stmt, List.mem_cons_self, hNumber⟩
  · exact .inr (.inr hInner)

/-- A statement that holds others but is no loop. -/
theorem holder (h : Lead known stmts) (hTarget : stmt.target? = none) :
    Lead known (stmt :: stmts) :=
  cons hTarget (h.mono fun _ => .inl)

end Lead

mutual

/-- A jump that leads to the innermost loop around it leads to a loop that is around it. -/
theorem Targets.lead {loop : Option Nat} : (stmt : CStmt) → stmt.Targets loop →
    Lead (fun number => loop = some number) (stmt :: stmt.inside)
  | .jump kind number, h => by
      rw [Targets] at h
      intro entry hEntry
      obtain rfl : entry = (kind, number) := List.mem_singleton.mp hEntry
      exact .inl h
  | .ifElse _ thenBody elseBody, h => by
      rw [Targets] at h
      exact ((TargetsAll.lead thenBody h.1).append (TargetsElse.lead elseBody h.2)).holder rfl
  | .block body, h => by
      rw [Targets] at h
      exact (TargetsAll.lead body h).holder rfl
  | .loop _ test _ body post, h => by
      rw [Targets] at h
      exact .cons rfl <| .append (.append ((TargetsAll.lead test h.1).mono fun _ => .inl)
          ((TargetsAll.lead body h.2.1).mono fun _ => .inr))
        ((TargetsAll.lead post h.2.2).mono fun _ => .inl)
  | .rangeLoop _ _ _ fetch body, h => by
      rw [Targets] at h
      exact .cons rfl <| .append ((TargetsAll.lead fetch h.1).mono fun _ => .inl)
        ((TargetsAll.lead body h.2).mono fun _ => .inr)
  | .switch _ arms fallback, h => by
      rw [Targets] at h
      exact ((TargetsAll.lead arms h.1).append (TargetsAll.lead fallback h.2)).holder rfl
  | .arm _ body, h => by
      rw [Targets] at h
      exact (TargetsAll.lead body h).holder rfl
  | .eval _, _ | .discard _, _ | .copy _ _, _ | .store _ _ _, _ | .setField _ _ _, _
  | .alloc _ _, _ | .nilSlice _, _ | .append _ _, _ | .appendAll _ _ _ _, _ | .narrow _ _, _
  | .update _ _ _, _ | .increment _, _ | .decrement _, _ | .ret _, _ | .setResult _ _, _
  | .beforeFirst _, _ | .stringGet _ _ _, _ | .sliceGet _ _ _ _, _ => Lead.nil.holder rfl

theorem TargetsAll.lead {loop : Option Nat} : (stmts : List CStmt) → TargetsAll loop stmts →
    Lead (fun number => loop = some number) (insideAll stmts)
  | [], _ => .nil
  | stmt :: rest, h => by
      rw [TargetsAll] at h
      exact (Targets.lead stmt h.1).append (TargetsAll.lead rest h.2)

theorem TargetsElse.lead {loop : Option Nat} : (body : Option (List CStmt)) →
    TargetsElse loop body →
    Lead (fun number => loop = some number) (insideElse body)
  | none, _ => .nil
  | some body, h => by
      rw [TargetsElse] at h
      exact TargetsAll.lead body h

end

end CStmt

end GoToC
