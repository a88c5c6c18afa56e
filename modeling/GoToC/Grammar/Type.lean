import GoToC.Grammar.Parser

/-!
# Types and signatures

The rules for type expressions and for the signatures of functions and methods. In a
parameter list `a, b int` gives both names the one type: an entry that stands alone is
a name if some entry of the list has a name of its own, and a type otherwise.
-/

namespace GoToC.Grammar

/-- An entry of a parameter list, before it is known which lone entries are names. -/
inductive Entry where
  | named (name : String) (span : Span) (type : Expr)
  | lone (expr : Expr)
  deriving Inhabited

namespace Entry

def isNamed : Entry → Bool
  | named .. => true
  | lone _ => false

/-- Reads an expression as the name of a parameter. -/
def asName (expr : Expr) : Except ParseError (String × Span) :=
  match expr with
  | .ident span name => .ok (name, span)
  | _ => .error ⟨.expectedIdentifier, "expected parameter name", expr.span, none⟩

/-- Parameters without names: every entry is a type. -/
def unnamedParam : Entry → Param Expr
  | named name span type => ⟨name, type, span⟩
  | lone expr => ⟨"", expr, expr.span⟩

/-- Parameters with names; `pending` holds the names that wait for the next type. -/
def settleNamed (pending : List (String × Span)) :
    List Entry → Except ParseError (List (Param Expr))
  | [] =>
      match pending with
      | [] => .ok []
      | (_, span) :: _ => .error ⟨.expectedType, "parameter is missing a type", span, none⟩
  | lone expr :: rest => do
      let name ← asName expr
      settleNamed (pending ++ [name]) rest
  | named name span type :: rest => do
      let others ← settleNamed [] rest
      return pending.map (fun waiting => ⟨waiting.1, type, waiting.2⟩)
        ++ ⟨name, type, span⟩ :: others

/-- The parameters that the entries of a list stand for. -/
def settle (entries : List Entry) : Except ParseError (List (Param Expr)) :=
  if entries.any isNamed then settleNamed [] entries else .ok (entries.map unnamedParam)

end Entry

/-- Whether a token can begin a type expression. -/
def startsType : TokenKind → Bool
  | .ident _ | .punct .star | .punct .lbracket => true
  | .keyword .map | .keyword .struct | .keyword .interface => true
  | _ => false

/-- Whether a token ends an entry that consists of one expression. -/
def endsEntry : TokenKind → Bool
  | .punct .comma | .punct .rparen | .newline => true
  | _ => false

mutual

def parseType : Nat → Parser Expr
  | 0 => exhausted
  | fuel + 1 => do
      let start ← span
      match ← kind with
      | .ident name =>
          let _ ← advance
          let base ← node (.ident start name)
          if ← eatSign .dot then
            let (member, stop) ← expectIdent
            node (.dot (start.merge stop) base member)
          else return base
      | .punct .star =>
          let _ ← advance
          let inner ← parseType fuel
          node (.pointerType (start.merge inner.span) inner)
      | .punct .lbracket =>
          let _ ← advance
          let _ ← expectSign .rbracket
          let elem ← parseType fuel
          node (.sliceType (start.merge elem.span) elem)
      | .keyword .map =>
          let _ ← advance
          let _ ← expectSign .lbracket
          let key ← parseType fuel
          let _ ← expectSign .rbracket
          let value ← parseType fuel
          node (.mapType (start.merge value.span) key value)
      | .keyword .struct =>
          let _ ← advance
          let _ ← expectSign .lbrace
          let fields ← parseFields fuel
          let stop ← expectSign .rbrace
          node (.structType (start.merge stop) fields)
      | .keyword .interface =>
          let _ ← advance
          let _ ← expectSign .lbrace
          let methods ← parseMethodSpecs fuel
          let stop ← expectSign .rbrace
          node (.interfaceType (start.merge stop) methods)
      | .punct .lparen =>
          let _ ← advance
          let inner ← parseType fuel
          let _ ← expectSign .rparen
          return inner
      | .error cause => fail (ParseError.lexical cause start)
      | found => fail ⟨.expectedType, "expected type, found " ++ found.describe, start, none⟩

/-- The fields of a struct type, up to its closing brace. -/
def parseFields : Nat → Parser (List (Param Expr))
  | 0 => exhausted
  | fuel + 1 => do
      skipTerminators
      if ← checkSign .rbrace then return []
      let (name, nameSpan) ← expectIdent
      let type ← parseType fuel
      expectTerminator
      let others ← parseFields fuel
      return ⟨name, type, nameSpan⟩ :: others

/-- The methods of an interface type, up to its closing brace. -/
def parseMethodSpecs : Nat → Parser (List (MethodSpec Expr))
  | 0 => exhausted
  | fuel + 1 => do
      skipTerminators
      if ← checkSign .rbrace then return []
      let (name, nameSpan) ← expectIdent
      let signature ← parseSignature fuel
      let stop ← previousSpan
      expectTerminator
      let others ← parseMethodSpecs fuel
      return ⟨name, signature, nameSpan.merge stop⟩ :: others

/-- Inputs in parentheses, then nothing, one output type, or outputs in parentheses. -/
def parseSignature : Nat → Parser (Signature Expr)
  | 0 => exhausted
  | fuel + 1 => do
      let (inputs, variadic) ← parseParams fuel true
      if ← checkSign .lparen then
        let (outputs, _) ← parseParams fuel false
        return ⟨variadic, inputs, outputs⟩
      else if startsType (← kind) then
        let type ← parseType fuel
        return ⟨variadic, inputs, [⟨"", type, type.span⟩]⟩
      else return ⟨variadic, inputs, []⟩

/-- A parameter list in parentheses, and whether its last entry is variadic. -/
def parseParams : Nat → Bool → Parser (List (Param Expr) × Bool)
  | 0, _ => exhausted
  | fuel + 1, allowVariadic => do
      let _ ← expectSign .lparen
      let (entries, variadic) ← parseEntries fuel allowVariadic false
      match Entry.settle entries with
      | .ok params => return (params, variadic)
      | .error cause => fail cause

/-- The entries of a parameter list and its closing parenthesis. -/
def parseEntries : Nat → Bool → Bool → Parser (List Entry × Bool)
  | 0, _, _ => exhausted
  | fuel + 1, allowVariadic, variadic => do
      skipNewlines
      if ← eatSign .rparen then return ([], variadic)
      if variadic then unexpected (.token "`)` after variadic parameter")
      let (entry, isVariadic) ← parseEntry fuel allowVariadic
      skipNewlines
      if ← eatSign .comma then
        let (others, variadic) ← parseEntries fuel allowVariadic isVariadic
        return (entry :: others, variadic)
      else
        skipNewlines
        let _ ← expectSign .rparen
        return ([entry], isVariadic)

/-- One entry of a parameter list, and whether it is variadic. -/
def parseEntry : Nat → Bool → Parser (Entry × Bool)
  | 0, _ => exhausted
  | fuel + 1, allowVariadic => do
      if ← checkSign .ellipsis then
        let type ← parseVariadic fuel allowVariadic
        return (.lone type, true)
      let first ← parseType fuel
      if endsEntry (← kind) then return (.lone first, false)
      match Entry.asName first with
      | .error cause => fail cause
      | .ok (name, nameSpan) =>
          if ← checkSign .ellipsis then
            let type ← parseVariadic fuel allowVariadic
            return (.named name nameSpan type, true)
          else
            let type ← parseType fuel
            return (.named name nameSpan type, false)

/-- Three dots and a type, which stand for a slice of that type. -/
def parseVariadic : Nat → Bool → Parser Expr
  | 0, _ => exhausted
  | fuel + 1, allowVariadic => do
      let start ← expectSign .ellipsis
      if !allowVariadic then
        fail ⟨.unexpectedToken, "variadic `...` is only allowed on the last input", start, none⟩
      let elem ← parseType fuel
      node (.sliceType (start.merge elem.span) elem)

end

end GoToC.Grammar
