import Mathlib.Data.Set.Insert
import GoToC.C.Item
import GoToC.Proofs.Tree.Inside

/-!
# Names of fragments

The names that C fragments and statements mention, and fragments that mention none but given ones.
-/

/-!
## The names of a routine

A C routine declares variables and parameters of its own. These are the names of that kind
that fragments and statements hold, and those that a routine declares.
-/

namespace GoToC

/-- A name that a C routine declares. -/
inductive OwnName where
  | variable (name : String)
  | parameter (name : String)
  deriving Repr, DecidableEq

mutual

/-- The variables and parameters of its routine that a fragment names. -/
def CExpr.ownNames : CExpr → List OwnName
  | .localVar name => [.variable name]
  | .addressOf name => [.variable name]
  | .param name => [.parameter name]
  | .result name => [.parameter name]
  | .unary _ operand => operand.ownNames
  | .binary _ left right => left.ownNames ++ right.ownNames
  | .field receiver _ => receiver.ownNames
  | .subscript receiver index => receiver.ownNames ++ index.ownNames
  | .call callee args => callee.ownNames ++ CExpr.ownNamesAll args
  | .toInterface operand => operand.ownNames
  | .cast _ operand => operand.ownNames
  | .byteCount operand => operand.ownNames
  | .elementCount operand _ => operand.ownNames
  | .int _ => []
  | .nil => []
  | .string _ => []
  | .global _ => []
  | .dispatch _ => []

def CExpr.ownNamesAll : List CExpr → List OwnName
  | [] => []
  | e :: rest => e.ownNames ++ CExpr.ownNamesAll rest

end

/-- The variables that hold the bounds of a slice expression. -/
def SliceBounds.ownNames (bounds : SliceBounds) : List OwnName :=
  (bounds.lo.toList ++ bounds.hi.toList).map .variable

mutual

/-- The variables and parameters of its routine that a statement names. -/
def CStmt.ownNames : CStmt → List OwnName
  | .eval e => e.ownNames
  | .discard e => e.ownNames
  | .copy name value => .variable name :: value.ownNames
  | .store target _ value => target.ownNames ++ value.ownNames
  | .setField handle _ value => .variable handle :: value.ownNames
  | .alloc handle _ => [.variable handle]
  | .nilSlice slice => [.variable slice]
  | .append slice item => [.variable slice, .variable item]
  | .appendAll slice source _ item => [.variable slice, .variable source, .variable item]
  | .narrow slice bounds => .variable slice :: bounds.ownNames
  | .update target _ value => target.ownNames ++ value.ownNames
  | .increment target => target.ownNames
  | .decrement target => target.ownNames
  | .ret none => []
  | .ret (some value) => value.ownNames
  | .setResult name value => .parameter name :: value.ownNames
  | .jump _ _ => []
  | .ifElse cond thenBody elseBody =>
      cond.ownNames ++ CStmt.ownNamesAll thenBody ++ CStmt.ownNamesElse elseBody
  | .block body => CStmt.ownNamesAll body
  | .loop _ test cond body post =>
      CStmt.ownNamesAll test ++ (cond.map CExpr.ownNames).getD [] ++ CStmt.ownNamesAll body ++
        CStmt.ownNamesAll post
  | .beforeFirst index => [.variable index]
  | .stringGet source index target => [.variable source, .variable index, .variable target]
  | .sliceGet source _ index target => [.variable source, .variable index, .variable target]
  | .rangeLoop _ index limit fetch body =>
      .variable index :: .variable limit :: (CStmt.ownNamesAll fetch ++ CStmt.ownNamesAll body)
  | .switch subject arms fallback =>
      subject.ownNames ++ CStmt.ownNamesAll arms ++ CStmt.ownNamesAll fallback
  | .arm tests body => CExpr.ownNamesAll tests ++ CStmt.ownNamesAll body

def CStmt.ownNamesAll : List CStmt → List OwnName
  | [] => []
  | s :: rest => s.ownNames ++ CStmt.ownNamesAll rest

def CStmt.ownNamesElse : Option (List CStmt) → List OwnName
  | none => []
  | some body => CStmt.ownNamesAll body

end

/-- The parameters of a function under their C names. -/
def Prototype.ownNames (prototype : Prototype) : List OwnName :=
  prototype.params.map fun param => .parameter param.name

/-- The parameters that a heading declares. -/
def Heading.ownNames : Heading → List OwnName
  | .func prototype => prototype.ownNames
  | .init _ => []

/-- The names that a routine declares: its parameters and its variables. -/
def Heading.declares (heading : Heading) (locals : List CLocal) : List OwnName :=
  heading.ownNames ++ locals.map fun var => .variable var.name

theorem CExpr.mem_ownNamesAll {es : List CExpr} {n : OwnName} :
    n ∈ ownNamesAll es ↔ ∃ e ∈ es, n ∈ e.ownNames := by
  induction es with
  | nil => simp [ownNamesAll]
  | cons e rest ih => simp [ownNamesAll, ih]

theorem CStmt.mem_ownNamesAll {stmts : List CStmt} {n : OwnName} :
    n ∈ ownNamesAll stmts ↔ ∃ stmt ∈ stmts, n ∈ stmt.ownNames := by
  induction stmts with
  | nil => simp [ownNamesAll]
  | cons stmt rest ih => simp [ownNamesAll, ih]

@[simp] theorem CExpr.ownNames_converted (e : CExpr) (conversion : Conversion) :
    (conversion.apply e).ownNames = e.ownNames := by
  cases conversion <;> simp [Conversion.apply, CExpr.ownNames]

end GoToC

/-!
## Closed fragments

A fragment or statement is closed under a set of names if it names no other variables and
parameters of its routine. A larger set closes whatever a smaller one does.
-/

namespace GoToC

variable {name slice index elem source handle item : String}
  {operand value target e receiver : CExpr} {body rest : List CStmt} {op : BinaryOp} {number : Nat}

/-- A fragment that names none but given names of its routine. -/
def CExpr.Closed (known : Set OwnName) (e : CExpr) : Prop := ∀ n ∈ e.ownNames, n ∈ known

def CStmt.Closed (known : Set OwnName) (stmt : CStmt) : Prop := ∀ n ∈ stmt.ownNames, n ∈ known

/-- Statements that are all closed under the same names. -/
def CStmt.ClosedAll (known : Set OwnName) (stmts : List CStmt) : Prop :=
  ∀ n ∈ ownNamesAll stmts, n ∈ known

section Lists

variable {α : Type} {p : α → Prop}

private theorem forall_mem_triple {a b c : α} : (∀ n ∈ [a, b, c], p n) ↔ p a ∧ p b ∧ p c := by
  simp

private theorem forall_mem_append_append {xs ys zs : List α} : (∀ n ∈ xs ++ ys ++ zs, p n) ↔
      (∀ n ∈ xs, p n) ∧ (∀ n ∈ ys, p n) ∧ ∀ n ∈ zs, p n := by
  simp only [List.forall_mem_append, and_assoc]

private theorem forall_mem_optional {β : Type} {f : β → List α} {part : Option β} :
    (∀ n ∈ (part.map f).getD [], p n) ↔ ∀ b ∈ part, ∀ n ∈ f b, p n := by
  cases part <;> simp

end Lists

namespace CExpr

variable {known : Set OwnName}

theorem Closed.mono {known' : Set OwnName} {e : CExpr} (h : e.Closed known)
    (le : known ⊆ known') : e.Closed known' := fun n hn => le (h n hn)

theorem ownNamesAll_closed {es : List CExpr} :
    (∀ n ∈ ownNamesAll es, n ∈ known) ↔ ∀ e ∈ es, e.Closed known := by
  simp only [mem_ownNamesAll, Closed]
  exact ⟨fun h e he n hn => h n ⟨e, he, hn⟩, fun h n ⟨e, he, hn⟩ => h e he n hn⟩

/-! What closes a fragment closes its parts. -/

@[simp] theorem closed_int (value : Nat) : (int value).Closed known := List.forall_mem_nil _

@[simp] theorem closed_nil : nil.Closed known := List.forall_mem_nil _

@[simp] theorem closed_string (text : String) : (string text).Closed known :=
  List.forall_mem_nil _

@[simp] theorem closed_global (name : String) : (global name).Closed known :=
  List.forall_mem_nil _

@[simp] theorem closed_dispatch (method : String) : (dispatch method).Closed known :=
  List.forall_mem_nil _

@[simp] theorem closed_localVar :
    (localVar name).Closed known ↔ .variable name ∈ known := List.forall_mem_singleton

@[simp] theorem closed_addressOf :
    (addressOf name).Closed known ↔ .variable name ∈ known := List.forall_mem_singleton

@[simp] theorem closed_param :
    (param name).Closed known ↔ .parameter name ∈ known := List.forall_mem_singleton

@[simp] theorem closed_result :
    (result name).Closed known ↔ .parameter name ∈ known := List.forall_mem_singleton

@[simp] theorem closed_unary {op : UnaryOp} :
    (unary op operand).Closed known ↔ operand.Closed known := Iff.rfl

@[simp] theorem closed_binary {left right : CExpr} :
    (binary op left right).Closed known ↔ left.Closed known ∧ right.Closed known :=
  List.forall_mem_append

@[simp] theorem closed_field : (field receiver name).Closed known ↔ receiver.Closed known := Iff.rfl

@[simp] theorem closed_subscript {index : CExpr} :
    (subscript receiver index).Closed known ↔ receiver.Closed known ∧ index.Closed known :=
  List.forall_mem_append

@[simp] theorem closed_call {callee : CExpr} {args : List CExpr} :
    (call callee args).Closed known ↔ callee.Closed known ∧ ∀ arg ∈ args, arg.Closed known :=
  List.forall_mem_append.trans (and_congr_right' ownNamesAll_closed)

@[simp] theorem closed_toInterface :
    (toInterface operand).Closed known ↔ operand.Closed known := Iff.rfl

@[simp] theorem closed_cast {prim : Prim} :
    (cast prim operand).Closed known ↔ operand.Closed known := Iff.rfl

@[simp] theorem closed_byteCount :
    (byteCount operand).Closed known ↔ operand.Closed known := Iff.rfl

@[simp] theorem closed_elementCount :
    (elementCount operand elem).Closed known ↔ operand.Closed known := Iff.rfl

@[simp] theorem closed_converted (conversion : Conversion) :
    (conversion.apply e).Closed known ↔ e.Closed known := by simp [Closed]

end CExpr

namespace CStmt

variable {known : Set OwnName}

theorem ClosedAll.mono {known' : Set OwnName} {stmts : List CStmt} (h : ClosedAll known stmts)
    (le : known ⊆ known') : ClosedAll known' stmts := fun n hn => le (h n hn)

theorem closedAll_iff {stmts : List CStmt} :
    ClosedAll known stmts ↔ ∀ stmt ∈ stmts, stmt.Closed known := by
  simp only [ClosedAll, mem_ownNamesAll, Closed]
  exact ⟨fun h stmt hStmt n hn => h n ⟨stmt, hStmt, hn⟩,
    fun h n ⟨stmt, hStmt, hn⟩ => h stmt hStmt n hn⟩

@[simp] theorem closedAll_nil : ClosedAll known [] := by simp [closedAll_iff]

@[simp] theorem closedAll_cons {stmt : CStmt} :
    ClosedAll known (stmt :: rest) ↔ stmt.Closed known ∧ ClosedAll known rest := by
  simp [closedAll_iff]

@[simp] theorem closedAll_append {first : List CStmt} :
    ClosedAll known (first ++ rest) ↔ ClosedAll known first ∧ ClosedAll known rest := by
  simp [closedAll_iff, or_imp, forall_and]

/-! What closes a statement closes its parts and holds the variables that it sets. -/

@[simp] theorem closed_eval : (eval e).Closed known ↔ e.Closed known := Iff.rfl

@[simp] theorem closed_discard : (discard e).Closed known ↔ e.Closed known := Iff.rfl

@[simp] theorem closed_copy :
    (copy name value).Closed known ↔ .variable name ∈ known ∧ value.Closed known :=
  List.forall_mem_cons

@[simp] theorem closed_store {type : String} :
    (store target type value).Closed known ↔ target.Closed known ∧ value.Closed known :=
  List.forall_mem_append

@[simp] theorem closed_setField {field : String} : (setField handle field value).Closed known ↔
      .variable handle ∈ known ∧ value.Closed known := List.forall_mem_cons

@[simp] theorem closed_alloc {struct : String} :
    (alloc handle struct).Closed known ↔ .variable handle ∈ known := List.forall_mem_singleton

@[simp] theorem closed_nilSlice :
    (nilSlice slice).Closed known ↔ .variable slice ∈ known := List.forall_mem_singleton

@[simp] theorem closed_append :
    (append slice item).Closed known ↔ .variable slice ∈ known ∧ .variable item ∈ known :=
  List.forall_mem_cons.trans (and_congr_right' List.forall_mem_singleton)

@[simp] theorem closed_appendAll : (appendAll slice source elem item).Closed known ↔
      .variable slice ∈ known ∧ .variable source ∈ known ∧ .variable item ∈ known :=
  forall_mem_triple

@[simp] theorem closed_narrow {bounds : SliceBounds} : (narrow slice bounds).Closed known ↔
      .variable slice ∈ known ∧ (∀ lo ∈ bounds.lo, .variable lo ∈ known) ∧
        ∀ hi ∈ bounds.hi, .variable hi ∈ known := by
  refine List.forall_mem_cons.trans (and_congr_right' ?_)
  simp [SliceBounds.ownNames, or_imp, forall_and]

@[simp] theorem closed_update :
    (update target op value).Closed known ↔ target.Closed known ∧ value.Closed known :=
  List.forall_mem_append

@[simp] theorem closed_increment : (increment target).Closed known ↔ target.Closed known := Iff.rfl

@[simp] theorem closed_decrement : (decrement target).Closed known ↔ target.Closed known := Iff.rfl

@[simp] theorem closed_ret {value : Option CExpr} :
    (ret value).Closed known ↔ ∀ c ∈ value, c.Closed known := by
  have hNames : (ret value).ownNames = (value.map CExpr.ownNames).getD [] := by
    cases value <;> rfl
  rw [Closed, hNames, forall_mem_optional]
  exact Iff.rfl

@[simp] theorem closed_setResult :
    (setResult name value).Closed known ↔ .parameter name ∈ known ∧ value.Closed known :=
  List.forall_mem_cons

@[simp] theorem closed_jump (kind : JumpKind) (number : Nat) : (jump kind number).Closed known :=
  List.forall_mem_nil _

@[simp] theorem closed_ifElse {cond : CExpr} {thenBody : List CStmt}
    {elseBody : Option (List CStmt)} :
    (ifElse cond thenBody elseBody).Closed known ↔
      cond.Closed known ∧ ClosedAll known thenBody ∧ ∀ body ∈ elseBody, ClosedAll known body := by
  have hNames : ownNamesElse elseBody = (elseBody.map ownNamesAll).getD [] := by
    cases elseBody <;> rfl
  refine forall_mem_append_append.trans (and_congr_right' (and_congr_right' ?_))
  rw [hNames, forall_mem_optional]
  exact Iff.rfl

@[simp] theorem closed_block : (block body).Closed known ↔ ClosedAll known body := Iff.rfl

@[simp] theorem closed_loop {test post : List CStmt} {cond : Option CExpr} :
    (loop number test cond body post).Closed known ↔
      ClosedAll known test ∧ (∀ c ∈ cond, c.Closed known) ∧ ClosedAll known body ∧
        ClosedAll known post := by
  refine (List.forall_mem_append.trans (and_congr_left' forall_mem_append_append)).trans ?_
  rw [forall_mem_optional, and_assoc, and_assoc]
  exact Iff.rfl

@[simp] theorem closed_beforeFirst :
    (beforeFirst index).Closed known ↔ .variable index ∈ known := List.forall_mem_singleton

@[simp] theorem closed_stringGet {target : String} : (stringGet source index target).Closed known ↔
      .variable source ∈ known ∧ .variable index ∈ known ∧ .variable target ∈ known :=
  forall_mem_triple

@[simp] theorem closed_sliceGet {target : String} :
    (sliceGet source elem index target).Closed known ↔
      .variable source ∈ known ∧ .variable index ∈ known ∧ .variable target ∈ known :=
  forall_mem_triple

@[simp] theorem closed_rangeLoop {limit : String} {fetch : List CStmt} :
    (rangeLoop number index limit fetch body).Closed known ↔
      .variable index ∈ known ∧ .variable limit ∈ known ∧ ClosedAll known fetch ∧
        ClosedAll known body :=
  List.forall_mem_cons.trans (and_congr_right'
    (List.forall_mem_cons.trans (and_congr_right' List.forall_mem_append)))

@[simp] theorem closed_switch {subject : CExpr} {arms fallback : List CStmt} :
    (switch subject arms fallback).Closed known ↔
      subject.Closed known ∧ ClosedAll known arms ∧ ClosedAll known fallback :=
  forall_mem_append_append

@[simp] theorem closed_arm {tests : List CExpr} : (arm tests body).Closed known ↔
      (∀ test ∈ tests, test.Closed known) ∧ ClosedAll known body :=
  List.forall_mem_append.trans (and_congr_left' CExpr.ownNamesAll_closed)

end CStmt

end GoToC

/-!
## Places in C statements

A place lies between two statements of a list, or in a part of a statement that holds others. What
is ahead of a place is all that can run before the place is come to for the first time.
-/

namespace GoToC

/-- What is around a part of a statement that holds others. -/
inductive CFrame where
  | ifThen (cond : CExpr) (elseBody : Option (List CStmt))
  | ifElse (cond : CExpr) (thenBody : List CStmt)
  | block
  /-- The rounds of a loop. -/
  | round (number : Nat) (test : List CStmt) (cond : Option CExpr) (post : List CStmt)
  /-- What a loop does between its rounds. -/
  | between (number : Nat) (test : List CStmt) (cond : Option CExpr) (body : List CStmt)
  | rangeRound (number : Nat) (index limit : String) (fetch : List CStmt)
  | arm (subject : CExpr) (earlier : List CStmt) (tests : List CExpr) (later fallback : List CStmt)
  | otherwise (subject : CExpr) (arms : List CStmt)

namespace CFrame

/-- The statement with its part filled in. -/
def fill (part : List CStmt) : CFrame → CStmt
  | ifThen cond elseBody => .ifElse cond part elseBody
  | ifElse cond thenBody => .ifElse cond thenBody (some part)
  | block => .block part
  | round number test cond post => .loop number test cond part post
  | between number test cond body => .loop number test cond body part
  | rangeRound number index limit fetch => .rangeLoop number index limit fetch part
  | arm subject earlier tests later fallback =>
      .switch subject (earlier ++ .arm tests part :: later) fallback
  | otherwise subject arms => .switch subject arms part

/-- Which part it is. -/
def part : CFrame → StmtPart
  | ifThen .. => .thenBody
  | ifElse .. => .elseBody
  | block => .block
  | round .. => .round
  | between .. => .between
  | rangeRound .. => .rangeRound
  | arm _ earlier _ _ _ => .arm earlier.length
  | otherwise .. => .fallback

/-- What of the statement can run ahead of a first run of the part names only given names. -/
def Ahead (known : Set OwnName) : CFrame → Prop
  | ifThen cond _ => cond.Closed known
  | ifElse cond _ => cond.Closed known
  | block => True
  | round _ test cond _ => CStmt.ClosedAll known test ∧ ∀ c ∈ cond, c.Closed known
  | between _ test cond body =>
      (CStmt.ClosedAll known test ∧ ∀ c ∈ cond, c.Closed known) ∧ CStmt.ClosedAll known body
  | rangeRound _ index limit fetch =>
      (.variable index ∈ known ∧ .variable limit ∈ known) ∧ CStmt.ClosedAll known fetch
  | arm subject earlier tests _ _ =>
      (subject.Closed known ∧ CStmt.ClosedAll known earlier) ∧ ∀ test ∈ tests, test.Closed known
  | otherwise subject arms => subject.Closed known ∧ CStmt.ClosedAll known arms

theorem Ahead.mono {known known' : Set OwnName} {frame : CFrame} (h : frame.Ahead known)
    (le : known ⊆ known') : frame.Ahead known' := by
  cases frame with
  | ifThen | ifElse => exact CExpr.Closed.mono h le
  | block => trivial
  | round => exact ⟨h.1.mono le, fun c hc => (h.2 c hc).mono le⟩
  | between => exact ⟨⟨h.1.1.mono le, fun c hc => (h.1.2 c hc).mono le⟩, h.2.mono le⟩
  | rangeRound => exact ⟨⟨le h.1.1, le h.1.2⟩, h.2.mono le⟩
  | arm => exact ⟨⟨h.1.1.mono le, h.1.2.mono le⟩, fun test hTest => (h.2 test hTest).mono le⟩
  | otherwise => exact ⟨h.1.mono le, h.2.mono le⟩

end CFrame

/-- A place among statements. -/
inductive CPlace where
  | here (before after : List CStmt)
  | within (before : List CStmt) (frame : CFrame) (place : CPlace) (after : List CStmt)

namespace CPlace

/-- The statements with those of the place filled in. -/
def fill (written : List CStmt) : CPlace → List CStmt
  | here before after => before ++ written ++ after
  | within before frame place after => before ++ frame.fill (place.fill written) :: after

/-- The parts around the place, the outermost first. -/
def path : CPlace → List StmtPart
  | here _ _ => []
  | within _ frame place _ => frame.part :: place.path

/-- What can run ahead of a first arrival at the place names only given names. -/
def Ahead (known : Set OwnName) : CPlace → Prop
  | here before _ => CStmt.ClosedAll known before
  | within before frame place _ =>
      CStmt.ClosedAll known before ∧ frame.Ahead known ∧ place.Ahead known

/-- The place when more statements stand before and after it. -/
def widen (earlier later : List CStmt) : CPlace → CPlace
  | here before after => .here (earlier ++ before) (after ++ later)
  | within before frame place after => .within (earlier ++ before) frame place (after ++ later)

@[simp] theorem fill_widen (place : CPlace) (earlier later written : List CStmt) :
    (place.widen earlier later).fill written = earlier ++ place.fill written ++ later := by
  cases place <;> simp [widen, fill]

@[simp] theorem path_widen (place : CPlace) (earlier later : List CStmt) :
    (place.widen earlier later).path = place.path := by
  cases place <;> rfl

theorem Ahead.widen {known : Set OwnName} {place : CPlace} (h : place.Ahead known)
    {earlier : List CStmt} (hEarlier : CStmt.ClosedAll known earlier) (later : List CStmt) :
    (place.widen earlier later).Ahead known := by
  cases place with
  | here => exact CStmt.closedAll_append.mpr ⟨hEarlier, h⟩
  | within => exact ⟨CStmt.closedAll_append.mpr ⟨hEarlier, h.1⟩, h.2⟩

end CPlace

end GoToC
