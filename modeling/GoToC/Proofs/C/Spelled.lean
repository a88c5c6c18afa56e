import Mathlib.Tactic.Tauto
import GoToC.Proofs.C.Closed
import GoToC.Proofs.C.Identifier

/-!
# Words of fragments

What C fragments and statements are spelled with: names that their routine declares, C names of the
program, and other words, such as those of fields and types.
-/

namespace GoToC

variable {stmts : List CStmt}

/-! ## Names of the program -/

mutual

/-- The variables and functions of the program that a fragment mentions. -/
def CExpr.globals : CExpr → List String
  | .global name => [name]
  | .unary _ operand => operand.globals
  | .binary _ left right => left.globals ++ right.globals
  | .field receiver _ => receiver.globals
  | .subscript receiver index => receiver.globals ++ index.globals
  | .call callee args => callee.globals ++ CExpr.globalsAll args
  | .toInterface operand => operand.globals
  | .cast _ operand => operand.globals
  | .byteCount operand => operand.globals
  | .elementCount operand _ => operand.globals
  | _ => []

def CExpr.globalsAll : List CExpr → List String
  | [] => []
  | e :: rest => e.globals ++ CExpr.globalsAll rest

end

mutual

/-- The variables and functions of the program that a statement mentions. -/
def CStmt.globals : CStmt → List String
  | .eval e => e.globals
  | .discard e => e.globals
  | .copy _ value => value.globals
  | .store target _ value => target.globals ++ value.globals
  | .setField _ _ value => value.globals
  | .update target _ value => target.globals ++ value.globals
  | .increment target => target.globals
  | .decrement target => target.globals
  | .ret (some value) => value.globals
  | .setResult _ value => value.globals
  | .ifElse cond thenBody elseBody =>
      cond.globals ++ CStmt.globalsAll thenBody ++ CStmt.globalsElse elseBody
  | .block body => CStmt.globalsAll body
  | .loop _ test cond body post =>
      CStmt.globalsAll test ++ (cond.map CExpr.globals).getD [] ++ CStmt.globalsAll body ++
        CStmt.globalsAll post
  | .rangeLoop _ _ _ fetch body => CStmt.globalsAll fetch ++ CStmt.globalsAll body
  | .switch subject arms fallback =>
      subject.globals ++ CStmt.globalsAll arms ++ CStmt.globalsAll fallback
  | .arm tests body => CExpr.globalsAll tests ++ CStmt.globalsAll body
  | _ => []

def CStmt.globalsAll : List CStmt → List String
  | [] => []
  | s :: rest => s.globals ++ CStmt.globalsAll rest

def CStmt.globalsElse : Option (List CStmt) → List String
  | none => []
  | some body => CStmt.globalsAll body

end

theorem CStmt.mem_globalsAll {x : String} :
    x ∈ globalsAll stmts ↔ ∃ stmt ∈ stmts, x ∈ stmt.globals := by
  induction stmts with
  | nil => simp [globalsAll]
  | cons stmt rest ih => simp [globalsAll, ih]

/-- A fragment that mentions given names only. -/
def CExpr.Speaks (names : String → Prop) (e : CExpr) : Prop := ∀ x ∈ e.globals, names x

def CStmt.Speaks (names : String → Prop) (stmt : CStmt) : Prop := ∀ x ∈ stmt.globals, names x

/-! ## Spelling -/

/-- The names that C text is written with. -/
structure Diction where
  /-- The C names of variables, functions and methods of the program. -/
  globals : String → Prop
  /-- Whether all other names are made of letters, digits and underscores. -/
  strict : Prop

/-- The name itself. -/
def OwnName.text : OwnName → String
  | .variable name => name
  | .parameter name => name

namespace Diction

/-- A name of anything but a global. -/
def Word (d : Diction) (name : String) : Prop := d.strict → isWordTail name = true

/-- All names of a routine that are such words. -/
def words (d : Diction) : Set OwnName := {n | d.Word n.text}

/-- All names are made of letters, digits and underscores. -/
def lettered : Diction := ⟨(isWordTail · = true), True⟩

/-- Only the names of globals matter. -/
def speaking (names : String → Prop) : Diction := ⟨names, False⟩

/-- Only the names of the routine matter. -/
abbrev free : Diction := speaking fun _ => True

theorem word_speaking {names : String → Prop} (name : String) : (speaking names).Word name :=
  False.elim

end Diction

section

variable (d : Diction) (known : Set OwnName)

mutual

/-- A fragment that is spelled with such names, and with given names of its routine. -/
def CExpr.Spelled : CExpr → Prop
  | .int _ => True
  | .nil => True
  | .string _ => True
  | .localVar name => .variable name ∈ known
  | .param name => .parameter name ∈ known
  | .result name => .parameter name ∈ known
  | .global name => d.globals name
  | .dispatch method => d.Word method
  | .unary _ operand => operand.Spelled
  | .binary _ left right => left.Spelled ∧ right.Spelled
  | .field receiver name => receiver.Spelled ∧ d.Word name
  | .subscript receiver index => receiver.Spelled ∧ index.Spelled
  | .call callee args => callee.Spelled ∧ CExpr.SpelledAll args
  | .addressOf name => .variable name ∈ known
  | .toInterface operand => operand.Spelled
  | .cast _ operand => operand.Spelled
  | .byteCount operand => operand.Spelled
  | .elementCount operand elem => operand.Spelled ∧ d.Word elem

def CExpr.SpelledAll : List CExpr → Prop
  | [] => True
  | e :: rest => e.Spelled ∧ CExpr.SpelledAll rest

end

/-- Bounds with such names. -/
structure SliceBounds.Spelled (bounds : SliceBounds) : Prop where
  elem : ∀ elem ∈ bounds.elem, d.Word elem
  lo : ∀ lo ∈ bounds.lo, .variable lo ∈ known
  hi : ∀ hi ∈ bounds.hi, .variable hi ∈ known

mutual

/-- A statement with such names. -/
def CStmt.Spelled : CStmt → Prop
  | .eval e => e.Spelled d known
  | .discard e => e.Spelled d known
  | .copy name value => .variable name ∈ known ∧ value.Spelled d known
  | .store target type value => target.Spelled d known ∧ d.Word type ∧ value.Spelled d known
  | .setField handle field value =>
      .variable handle ∈ known ∧ d.Word field ∧ value.Spelled d known
  | .alloc handle struct => .variable handle ∈ known ∧ d.Word struct
  | .nilSlice slice => .variable slice ∈ known
  | .append slice item => .variable slice ∈ known ∧ .variable item ∈ known
  | .appendAll slice source elem item =>
      .variable slice ∈ known ∧ .variable source ∈ known ∧ d.Word elem ∧ .variable item ∈ known
  | .narrow slice bounds => .variable slice ∈ known ∧ bounds.Spelled d known
  | .update target _ value => target.Spelled d known ∧ value.Spelled d known
  | .increment target => target.Spelled d known
  | .decrement target => target.Spelled d known
  | .ret none => True
  | .ret (some value) => value.Spelled d known
  | .setResult name value => .parameter name ∈ known ∧ value.Spelled d known
  | .jump _ _ => True
  | .ifElse cond thenBody elseBody =>
      cond.Spelled d known ∧ CStmt.SpelledAll thenBody ∧ CStmt.SpelledElse elseBody
  | .block body => CStmt.SpelledAll body
  | .loop _ test cond body post =>
      CStmt.SpelledAll test ∧ (∀ c ∈ cond, c.Spelled d known) ∧ CStmt.SpelledAll body ∧
        CStmt.SpelledAll post
  | .beforeFirst index => .variable index ∈ known
  | .stringGet source index target =>
      .variable source ∈ known ∧ .variable index ∈ known ∧ .variable target ∈ known
  | .sliceGet source elem index target =>
      .variable source ∈ known ∧ d.Word elem ∧ .variable index ∈ known ∧ .variable target ∈ known
  | .rangeLoop _ index limit fetch body =>
      .variable index ∈ known ∧ .variable limit ∈ known ∧ CStmt.SpelledAll fetch ∧
        CStmt.SpelledAll body
  | .switch subject arms fallback =>
      subject.Spelled d known ∧ CStmt.SpelledAll arms ∧ CStmt.SpelledAll fallback
  | .arm tests body => CExpr.SpelledAll d known tests ∧ CStmt.SpelledAll body

def CStmt.SpelledAll : List CStmt → Prop
  | [] => True
  | stmt :: rest => stmt.Spelled ∧ CStmt.SpelledAll rest

def CStmt.SpelledElse : Option (List CStmt) → Prop
  | none => True
  | some body => CStmt.SpelledAll body

end

end

variable {d : Diction} {known known' : Set OwnName}

theorem CExpr.spelledAll_iff {es : List CExpr} :
    SpelledAll d known es ↔ ∀ e ∈ es, e.Spelled d known := by
  induction es with
  | nil => simp [SpelledAll]
  | cons e rest ih => simp [SpelledAll, ih]

theorem CStmt.spelledAll_iff : SpelledAll d known stmts ↔ ∀ stmt ∈ stmts, stmt.Spelled d known := by
  induction stmts with
  | nil => simp [SpelledAll]
  | cons stmt rest ih => simp [SpelledAll, ih]

theorem CStmt.SpelledElse.of_forall {body : Option (List CStmt)}
    (h : ∀ stmts ∈ body, SpelledAll d known stmts) : SpelledElse d known body := by
  cases body with
  | none => trivial
  | some stmts => exact h stmts rfl

/-! ## More names -/

mutual

/-- Whatever is spelled with some names is spelled with more. -/
theorem CExpr.Spelled.mono (le : known ⊆ known') : {e : CExpr} → e.Spelled d known →
    e.Spelled d known'
  | .int _, _ | .nil, _ | .string _, _ => trivial
  | .global _, h | .dispatch _, h => h
  | .localVar _, h | .param _, h | .result _, h | .addressOf _, h => le h
  | .unary _ operand, h | .toInterface operand, h | .cast _ operand, h | .byteCount operand, h =>
      CExpr.Spelled.mono le (e := operand) h
  | .field _ _, h | .elementCount _ _, h => ⟨h.1.mono le, h.2⟩
  | .binary _ _ _, h | .subscript _ _, h | .call _ _, h => ⟨h.1.mono le, h.2.mono le⟩

theorem CExpr.SpelledAll.mono (le : known ⊆ known') : {es : List CExpr} → SpelledAll d known es →
    SpelledAll d known' es
  | [], _ => trivial
  | _ :: _, h => ⟨h.1.mono le, h.2.mono le⟩

end

mutual

theorem CStmt.Spelled.mono (le : known ⊆ known') : {stmt : CStmt} → stmt.Spelled d known →
    stmt.Spelled d known'
  | .eval _, h | .discard _, h | .increment _, h | .decrement _, h | .ret (some _), h =>
      CExpr.Spelled.mono le h
  | .copy _ _, h | .setResult _ _, h => ⟨le h.1, h.2.mono le⟩
  | .store _ _ _, h => ⟨h.1.mono le, h.2.1, h.2.2.mono le⟩
  | .setField _ _ _, h => ⟨le h.1, h.2.1, h.2.2.mono le⟩
  | .alloc _ _, h => ⟨le h.1, h.2⟩
  | .nilSlice _, h | .beforeFirst _, h => le h
  | .append _ _, h => ⟨le h.1, le h.2⟩
  | .appendAll _ _ _ _, h => ⟨le h.1, le h.2.1, h.2.2.1, le h.2.2.2⟩
  | .narrow _ _, h => ⟨le h.1, h.2.elem, fun lo hLo => le (h.2.lo lo hLo),
      fun hi hHi => le (h.2.hi hi hHi)⟩
  | .update _ _ _, h => ⟨h.1.mono le, h.2.mono le⟩
  | .ret none, _ | .jump _ _, _ => trivial
  | .ifElse _ _ _, h => ⟨h.1.mono le, h.2.1.mono le, h.2.2.mono le⟩
  | .block body, h => @CStmt.SpelledAll.mono le body h
  | .loop _ _ _ _ _, h =>
      ⟨h.1.mono le, fun c hc => (h.2.1 c hc).mono le, h.2.2.1.mono le, h.2.2.2.mono le⟩
  | .stringGet _ _ _, h => ⟨le h.1, le h.2.1, le h.2.2⟩
  | .sliceGet _ _ _ _, h => ⟨le h.1, h.2.1, le h.2.2.1, le h.2.2.2⟩
  | .rangeLoop _ _ _ _ _, h => ⟨le h.1, le h.2.1, h.2.2.1.mono le, h.2.2.2.mono le⟩
  | .switch _ _ _, h => ⟨h.1.mono le, h.2.1.mono le, h.2.2.mono le⟩
  | .arm _ _, h => ⟨h.1.mono le, h.2.mono le⟩

theorem CStmt.SpelledAll.mono (le : known ⊆ known') : {stmts : List CStmt} →
    SpelledAll d known stmts → SpelledAll d known' stmts
  | [], _ => trivial
  | _ :: _, h => ⟨h.1.mono le, h.2.mono le⟩

theorem CStmt.SpelledElse.mono (le : known ⊆ known') : {body : Option (List CStmt)} →
    SpelledElse d known body → SpelledElse d known' body
  | none, _ => trivial
  | some body, h => @CStmt.SpelledAll.mono le body h

end

/-! ## Names of one kind -/

variable {names : String → Prop}

mutual

/-- Where other words do not matter, it is two kinds of names that do. -/
theorem CExpr.spelled_speaking : (e : CExpr) →
    (e.Spelled (.speaking names) known ↔ e.Closed known ∧ e.Speaks names)
  | .int _ | .nil | .string _ | .localVar _ | .param _ | .result _ | .dispatch
      _ | .addressOf _ => by
      simp [Spelled, Diction.word_speaking, Speaks, globals]
  | .global _ => by simp [Spelled, Diction.speaking, Speaks, globals]
  | .unary _ operand | .toInterface operand | .cast _ operand | .byteCount operand => by
      rw [Spelled, spelled_speaking operand]
      simp [Speaks, globals]
  | .field operand _ | .elementCount operand _ => by
      rw [Spelled, spelled_speaking operand]
      simp [Diction.word_speaking, Speaks, globals]
  | .binary _ left right | .subscript left right => by
      rw [Spelled, spelled_speaking left, spelled_speaking right, and_and_and_comm]
      simp [Speaks, globals, or_imp, forall_and]
  | .call callee args => by
      rw [Spelled, spelled_speaking callee, spelled_speakingAll args, and_and_and_comm]
      simp [Speaks, globals, or_imp, forall_and]

theorem CExpr.spelled_speakingAll : (es : List CExpr) → (SpelledAll (.speaking names) known es ↔
    (∀ e ∈ es, e.Closed known) ∧ ∀ x ∈ globalsAll es, names x)
  | [] => by simp [SpelledAll, globalsAll]
  | e :: rest => by
      rw [SpelledAll, spelled_speaking e, spelled_speakingAll rest, and_and_and_comm]
      simp [Speaks, globalsAll, or_imp, forall_and]

end

theorem SliceBounds.spelled_speaking (bounds : SliceBounds) :
    bounds.Spelled (.speaking names) known ↔
      (∀ lo ∈ bounds.lo, .variable lo ∈ known) ∧ ∀ hi ∈ bounds.hi, .variable hi ∈ known :=
  ⟨fun h => ⟨h.lo, h.hi⟩, fun h => ⟨fun elem _ => Diction.word_speaking elem, h.1, h.2⟩⟩

namespace CStmt

mutual

theorem spelled_speaking : (stmt : CStmt) →
    (stmt.Spelled (.speaking names) known ↔ stmt.Closed known ∧ stmt.Speaks names)
  | .alloc _ _ | .nilSlice _ | .append _ _ | .appendAll _ _ _ _ | .narrow _ _ | .ret
      none | .jump _ _
  | .beforeFirst _ | .stringGet _ _ _ | .sliceGet _ _ _ _ => by
      simp [Spelled, Diction.word_speaking, SliceBounds.spelled_speaking, Speaks, globals]
  | .eval e | .discard e | .increment e | .decrement e | .ret (some e) => by
      simp [Spelled, e.spelled_speaking, Speaks, CExpr.Speaks, globals]
  | .copy _ e | .setField _ _ e | .setResult _ e => by
      simp [Spelled, Diction.word_speaking, e.spelled_speaking, Speaks, CExpr.Speaks, globals,
        and_assoc]
  | .store target _ value | .update target _ value => by
      simp [Spelled, Diction.word_speaking, target.spelled_speaking, value.spelled_speaking, Speaks,
        CExpr.Speaks, globals, or_imp, forall_and]
      tauto
  | .ifElse cond thenBody elseBody => by
      simp [Spelled, cond.spelled_speaking, spelled_speakingAll thenBody,
        spelled_speakingElse elseBody, Speaks, CExpr.Speaks, globals, or_imp, forall_and]
      tauto
  | .block body => by
      rw [Spelled, spelled_speakingAll body, Speaks, globals]
      exact Iff.rfl
  | .loop _ test cond body post => by
      cases cond with
      | none =>
          simp [Spelled, spelled_speakingAll test, spelled_speakingAll body,
            spelled_speakingAll post, Speaks, globals, or_imp, forall_and]
          tauto
      | some c =>
          simp [Spelled, spelled_speakingAll test, spelled_speakingAll body,
            spelled_speakingAll post, c.spelled_speaking, Speaks, CExpr.Speaks, globals, or_imp,
            forall_and]
          tauto
  | .rangeLoop _ _ _ fetch body => by
      simp [Spelled, spelled_speakingAll fetch, spelled_speakingAll body, Speaks, globals, or_imp,
        forall_and]
      tauto
  | .switch subject arms fallback => by
      simp [Spelled, subject.spelled_speaking, spelled_speakingAll arms,
        spelled_speakingAll fallback, Speaks, CExpr.Speaks, globals, or_imp, forall_and]
      tauto
  | .arm tests body => by
      rw [Spelled, CExpr.spelled_speakingAll tests, spelled_speakingAll body, and_and_and_comm]
      simp [Speaks, globals, or_imp, forall_and]

theorem spelled_speakingAll : (stmts : List CStmt) → (SpelledAll (.speaking names) known stmts ↔
      ClosedAll known stmts ∧ ∀ x ∈ globalsAll stmts, names x)
  | [] => by simp [SpelledAll, globalsAll]
  | stmt :: rest => by
      rw [SpelledAll, spelled_speaking stmt, spelled_speakingAll rest, and_and_and_comm]
      simp [Speaks, globalsAll, or_imp, forall_and]

theorem spelled_speakingElse : (body : Option (List CStmt)) →
    (SpelledElse (.speaking names) known body ↔
      (∀ stmts ∈ body, ClosedAll known stmts) ∧ ∀ x ∈ globalsElse body, names x)
  | none => by simp [SpelledElse, globalsElse]
  | some stmts => by simp [SpelledElse, spelled_speakingAll stmts, globalsElse]

end

end CStmt

end GoToC
