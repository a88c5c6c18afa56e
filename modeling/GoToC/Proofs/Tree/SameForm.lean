import GoToC.Proofs.Tree.Bare

/-!
# What trees have in common that differ in places only

Two expressions, or two statements, that are the same once their places are forgotten are built by
the same rule from parts of which that holds again. An induction over one of two such trees finds
here what the other is made of.
-/

namespace GoToC

variable {e e' : Expr}

/-- Expressions of one form whose parts are the same apart from their places. -/
inductive Expr.SameForm : Expr → Expr → Prop
  | int (span span' : Span) (value : Nat) : SameForm (.int span value) (.int span' value)
  | str (span span' : Span) (text : String) : SameForm (.str span text) (.str span' text)
  | ident (span span' : Span) (name : String) : SameForm (.ident span name) (.ident span' name)
  | unary (span span' : Span) (op : UnaryOp) {operand operand' : Expr} :
      operand.bare = operand'.bare → SameForm (.unary span op operand) (.unary span' op operand')
  | binary (span span' : Span) (op : BinaryOp) {left left' right right' : Expr} :
      left.bare = left'.bare → right.bare = right'.bare →
      SameForm (.binary span op left right) (.binary span' op left' right')
  | call (span span' : Span) {callee callee' : Expr} {args args' : List Expr} (spread : Bool) :
      callee.bare = callee'.bare → bareExprs args = bareExprs args' →
      SameForm (.call span callee args spread) (.call span' callee' args' spread)
  | dot (span span' : Span) {receiver receiver' : Expr} (member : String) :
      receiver.bare = receiver'.bare →
      SameForm (.dot span receiver member) (.dot span' receiver' member)
  | index (span span' : Span) {receiver receiver' index index' : Expr} :
      receiver.bare = receiver'.bare → index.bare = index'.bare →
      SameForm (.index span receiver index) (.index span' receiver' index')
  | slice (span span' : Span) {receiver receiver' : Expr} {lo lo' hi hi' : Option Expr} :
      receiver.bare = receiver'.bare → bareOptExpr lo = bareOptExpr lo' →
      bareOptExpr hi = bareOptExpr hi' →
      SameForm (.slice span receiver lo hi) (.slice span' receiver' lo' hi')
  | ctor (span span' : Span) {type type' : Expr} {fields fields' : List (FieldInit Expr)} :
      type.bare = type'.bare → bareInits fields = bareInits fields' →
      SameForm (.ctor span type fields) (.ctor span' type' fields')
  | pointerType (span span' : Span) {inner inner' : Expr} :
      inner.bare = inner'.bare → SameForm (.pointerType span inner) (.pointerType span' inner')
  | sliceType (span span' : Span) {elem elem' : Expr} :
      elem.bare = elem'.bare → SameForm (.sliceType span elem) (.sliceType span' elem')
  | mapType (span span' : Span) {key key' value value' : Expr} :
      key.bare = key'.bare → value.bare = value'.bare →
      SameForm (.mapType span key value) (.mapType span' key' value')
  | structType (span span' : Span) {fields fields' : List (Param Expr)} :
      bareParams fields = bareParams fields' →
      SameForm (.structType span fields) (.structType span' fields')
  | interfaceType (span span' : Span) {specs specs' : List (MethodSpec Expr)} :
      bareSpecs specs = bareSpecs specs' →
      SameForm (.interfaceType span specs) (.interfaceType span' specs')

/-- Statements of one form whose parts are the same apart from their places. -/
inductive Stmt.SameForm : Stmt → Stmt → Prop
  | assign (span span' : Span) (op : AssignOp) {targets targets' values values' : List Expr} :
      bareExprs targets = bareExprs targets' → bareExprs values = bareExprs values' →
      SameForm (.assign span op targets values) (.assign span' op targets' values')
  | var (span span' : Span) (name : String) {type type' : Expr} :
      type.bare = type'.bare → SameForm (.var span name type) (.var span' name type')
  | ret (span span' : Span) {values values' : List Expr} :
      bareExprs values = bareExprs values' → SameForm (.ret span values) (.ret span' values')
  | breakLoop (span span' : Span) (label : Option String) :
      SameForm (.breakLoop span label) (.breakLoop span' label)
  | continueLoop (span span' : Span) (label : Option String) :
      SameForm (.continueLoop span label) (.continueLoop span' label)
  | whileLoop (span span' : Span) {cond cond' : Option Expr} {body body' : List Stmt} :
      bareOptExpr cond = bareOptExpr cond' → bareStmts body = bareStmts body' →
      SameForm (.whileLoop span cond body) (.whileLoop span' cond' body')
  | forLoop (span span' : Span) {init init' : Option Stmt} {cond cond' : Option Expr}
      {post post' : Option Stmt} {body body' : List Stmt} :
      bareOptStmt init = bareOptStmt init' → bareOptExpr cond = bareOptExpr cond' →
      bareOptStmt post = bareOptStmt post' → bareStmts body = bareStmts body' →
      SameForm (.forLoop span init cond post body) (.forLoop span' init' cond' post' body')
  | rangeLoop (span span' : Span) (key value : Option String) {collection collection' : Expr}
      {body body' : List Stmt} :
      collection.bare = collection'.bare → bareStmts body = bareStmts body' →
      SameForm (.rangeLoop span key value collection body)
        (.rangeLoop span' key value collection' body')
  | ifElse (span span' : Span) {cond cond' : Expr} {thenBody thenBody' : List Stmt}
      {elseBody elseBody' : Option (List Stmt)} :
      cond.bare = cond'.bare → bareStmts thenBody = bareStmts thenBody' →
      bareOptStmts elseBody = bareOptStmts elseBody' →
      SameForm (.ifElse span cond thenBody elseBody) (.ifElse span' cond' thenBody' elseBody')
  | switch (span span' : Span) {subject subject' : Option Expr}
      {arms arms' : List (SwitchCase Stmt)} {fallback fallback' : Option (List Stmt)} :
      bareOptExpr subject = bareOptExpr subject' → bareCases arms = bareCases arms' →
      bareOptStmts fallback = bareOptStmts fallback' →
      SameForm (.switch span subject arms fallback) (.switch span' subject' arms' fallback')
  | block (span span' : Span) {body body' : List Stmt} :
      bareStmts body = bareStmts body' → SameForm (.block span body) (.block span' body')

theorem Expr.sameForm_of_bare (h : e.bare = e'.bare) : e.SameForm e' := by
  -- Unlike forms are ruled out; like ones leave one equation for each part.
  cases e <;> cases e' <;> simp [Expr.bare] at h
  all_goals grind [Expr.SameForm]

theorem Expr.ident?_congr (h : e.bare = e'.bare) : e.ident? = e'.ident? := by
  cases Expr.sameForm_of_bare h <;> rfl

theorem Expr.isCall_congr (h : e.bare = e'.bare) : e.isCall = e'.isCall := by
  cases Expr.sameForm_of_bare h <;> rfl

theorem Stmt.sameForm_of_bare {stmt stmt' : Stmt} (h : stmt.bare = stmt'.bare) :
    stmt.SameForm stmt' := by
  cases stmt <;> cases stmt' <;> simp [Stmt.bare] at h
  all_goals grind [Stmt.SameForm]

end GoToC
