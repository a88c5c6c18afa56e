import GoToC.C.Expr

/-!
# C statements

The statements that source statements become, and the ones that evaluate parts of
expressions ahead of time. A statement is written as one or more lines.
-/

namespace GoToC

/-- The two places of a loop that a jump can lead to. -/
inductive JumpKind where
  | leave
  | again
  deriving Repr, DecidableEq, Inhabited

/-- The label of a place in a loop; the number is that of the loop. -/
def JumpKind.label : JumpKind → Nat → String
  | leave, loop => s!"Break_{loop}"
  | again, loop => s!"Cont_{loop}"

/-- The bounds that a copy of a string or slice is narrowed to. -/
structure SliceBounds where
  /-- The C type of the elements; none for a string. -/
  elem : Option String
  /-- The variables that hold the bounds, counted in elements. -/
  lo : Option String
  hi : Option String
  deriving Repr, Inhabited

namespace SliceBounds

/-- A number of elements in bytes. -/
def bytes (bounds : SliceBounds) (count : String) : String :=
  match bounds.elem with
  | some elem => "(" ++ count ++ " * sizeof(" ++ elem ++ "))"
  | none => count

def loBytes (bounds : SliceBounds) : String :=
  match bounds.lo with
  | some lo => bounds.bytes lo
  | none => "0"

def hiBytes (bounds : SliceBounds) (copy : String) : String :=
  match bounds.hi with
  | some hi => bounds.bytes hi
  | none => "(" ++ copy ++ ").len"

/-- Checks the bounds of a copy, then narrows it. -/
def lines (bounds : SliceBounds) (copy : String) : List String :=
  let lo := bounds.loBytes
  let hi := bounds.hiBytes copy
  let length := "(" ++ copy ++ ").len"
  let check := "assert(0 <= " ++ lo ++ " && " ++ lo ++ " <= " ++ hi ++ " && " ++ hi ++ " <= "
    ++ length ++ ");"
  match bounds.lo with
  | some _ =>
      [check, "(" ++ copy ++ ").offset += " ++ lo ++ ";",
        length ++ " = " ++ hi ++ " - " ++ lo ++ ";"]
  | none => [check, length ++ " = " ++ hi ++ ";"]

end SliceBounds

inductive CStmt where
  /-- Evaluates an expression for its effects. -/
  | eval (e : CExpr)
  /-- Evaluates an expression and drops its value. -/
  | discard (e : CExpr)
  /-- Sets a local variable. -/
  | copy (name : String) (value : CExpr)
  /-- Sets a place to a value cast to the C type of the place. -/
  | store (target : CExpr) (type : String) (value : CExpr)
  | setField (handle field : String) (value : CExpr)
  /-- Allocates a struct. -/
  | alloc (handle struct : String)
  | nilSlice (slice : String)
  /-- Appends a variable to a slice. -/
  | append (slice item : String)
  /-- Appends the elements of one slice to another, each by way of a variable. -/
  | appendAll (slice source elem item : String)
  | narrow (slice : String) (bounds : SliceBounds)
  | update (target : CExpr) (op : BinaryOp) (value : CExpr)
  | increment (target : CExpr)
  | decrement (target : CExpr)
  | ret (value : Option CExpr)
  /-- Hands back an output through its pointer. -/
  | setResult (name : String) (value : CExpr)
  | jump (kind : JumpKind) (number : Nat)
  | ifElse (cond : CExpr) (thenBody : List CStmt) (elseBody : Option (List CStmt))
  | block (body : List CStmt)
  /-- A loop whose condition, after the statements it needs, is checked first. -/
  | loop (number : Nat) (test : List CStmt) (cond : Option CExpr) (body post : List CStmt)
  /-- Sets the index of a range to before its first element. -/
  | beforeFirst (index : String)
  | stringGet (source index target : String)
  | sliceGet (source elem index target : String)
  /-- A loop over the indices below a limit; `fetch` sets the variables of a round. -/
  | rangeLoop (number : Nat) (index limit : String) (fetch body : List CStmt)
  /-- Runs the first of its arms that fits, else the last part. -/
  | switch (subject : CExpr) (arms fallback : List CStmt)
  /-- An arm of a switch, which ends where the next arm begins. -/
  | arm (tests : List CExpr) (body : List CStmt)
  deriving Inhabited

namespace CStmt

/-- The statement that appends a variable to a slice. -/
def appendLine (slice item : String) : String :=
  slice ++ " = SliceAppend(" ++ slice ++ ", &" ++ item ++ ", sizeof(" ++ item ++ "), 1);"

/-- The lines that leave a loop when its condition fails. -/
def condLines : Option CExpr → List String
  | none => []
  | some cond => ["t_bool _while_ = (t_bool)(" ++ cond.render ++ ");", "if (!_while_) break;"]

/-- A place in a loop that a jump can lead to. -/
def labelLine (kind : JumpKind) (number : Nat) : String := kind.label number ++ ": \x7b\x7d"

mutual

def lines : CStmt → List String
  | .eval e => [e.render ++ ";"]
  | .discard e => ["(void)(" ++ e.render ++ ");"]
  | .copy name value => [name ++ " = " ++ value.render ++ ";"]
  | .store target type value =>
      [target.render ++ " = (" ++ type ++ ")(" ++ value.render ++ ");"]
  | .setField handle field value =>
      ["(" ++ handle ++ ")." ++ field ++ " = " ++ value.render ++ ";"]
  | .alloc handle struct =>
      [handle ++ " = oalloc(sizeof(struct " ++ struct ++ "), CLASS_" ++ struct ++ ");"]
  | .nilSlice slice => [slice ++ " = NilSlice;"]
  | .append slice item => [appendLine slice item]
  | .appendAll slice source elem item =>
      let int := Prim.int.cType
      ["\x7b " ++ int ++ " _n_ = " ++ (CExpr.elementCount (.localVar source) elem).render ++ ";",
        "for (" ++ int ++ " _i_ = 0; _i_ < _n_; _i_++) \x7b",
        "SliceGet(" ++ source ++ ", sizeof(" ++ item ++ "), _i_, &" ++ item ++ ");",
        appendLine slice item,
        "\x7d\x7d"]
  | .narrow source bounds => bounds.lines source
  | .update target op value =>
      ["(" ++ target.render ++ ") " ++ op.cSign ++ "= (" ++ value.render ++ ");"]
  | .increment target => ["(" ++ target.render ++ ")++;"]
  | .decrement target => ["(" ++ target.render ++ ")--;"]
  | .ret none => ["return;"]
  | .ret (some value) => ["return " ++ value.render ++ ";"]
  | .setResult name value => ["*" ++ name ++ " = " ++ value.render ++ ";"]
  | .jump kind number => ["goto " ++ kind.label number ++ ";"]
  | .ifElse cond thenBody elseBody =>
      ["\x7b t_bool _if_ = " ++ cond.render ++ ";", "if( _if_ ) \x7b"]
        ++ linesAll thenBody ++ linesElse elseBody ++ ["\x7d\x7d"]
  | .block body => ["\x7b"] ++ linesAll body ++ ["\x7d"]
  | .loop number test cond body post =>
      ["while(1) \x7b"] ++ linesAll test ++ condLines cond ++ linesAll body
        ++ [labelLine .again number] ++ linesAll post ++ ["\x7d", labelLine .leave number]
  | .beforeFirst index => [index ++ " = -1;"]
  | .stringGet source index target =>
      ["StringGet(" ++ source ++ ", " ++ index ++ ", &" ++ target ++ ");"]
  | .sliceGet source elem index target =>
      ["SliceGet(" ++ source ++ ", sizeof(" ++ elem ++ "), " ++ index ++ ", &" ++ target ++ ");"]
  | .rangeLoop number index limit fetch body =>
      ["while(1) \x7b " ++ labelLine .again number, index ++ "++;",
          "if (" ++ index ++ " >= " ++ limit ++ ") break;"]
        ++ linesAll fetch ++ linesAll body ++ ["\x7d", labelLine .leave number]
  | .switch subject arms fallback =>
      ["\x7b t_int _switch_ = " ++ subject.render ++ ";"] ++ linesAll arms
        ++ ["\x7b"] ++ linesAll fallback ++ ["\x7d", "\x7d"]
  | .arm tests body =>
      ["if ("] ++ tests.map (fun test => "_switch_ == " ++ test.render ++ " ||")
        ++ ["0 ) \x7b"] ++ linesAll body ++ ["\x7d else "]

def linesAll : List CStmt → List String
  | [] => []
  | s :: rest => s.lines ++ linesAll rest

def linesElse : Option (List CStmt) → List String
  | none => []
  | some body => ["\x7d else \x7b"] ++ linesAll body

end

end CStmt

end GoToC
