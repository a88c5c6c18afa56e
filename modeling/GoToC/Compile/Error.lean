import GoToC.Grammar.Error
import GoToC.Types.Fault

/-!
# Compilation errors

Everything that can be wrong with a program that is compiled, by cause. The first error
ends the compilation. It names the module that its span points into.
-/

namespace GoToC

/-- What is wrong with the number of arguments of a call. -/
inductive ArgumentProblem where
  /-- An argument is spread in a call to a function that is not variadic. -/
  | spread
  | count (got wanted : Nat) (atLeast : Bool)
  | lenCount (got : Nat)
  | lenSpread
  | appendNothing
  | appendSpreadCount (got : Nat)
  | conversionCount (type : String) (got : Nat)
  deriving Repr, DecidableEq, Inhabited

def ArgumentProblem.message : ArgumentProblem → String
  | spread => "cannot use `...` in call to non-variadic function"
  | count got wanted atLeast =>
      s!"got {got} args for func call, wanted " ++ (if atLeast then "at least " else "")
        ++ s!"{wanted} args"
  | lenCount got => s!"`len` takes 1 argument, got {got}"
  | lenSpread => "cannot use `...` in call to `len`"
  | appendNothing => "`append` needs a slice to append to"
  | appendSpreadCount got => s!"`append` with `...` takes 2 arguments, got {got}"
  | conversionCount type got => s!"conversion to `{type}` takes 1 argument, got {got}"

/-- What is wrong with the number of values somewhere. -/
inductive ResultProblem where
  /-- A call with several results stands where one value is wanted. -/
  | several (count : Nat)
  | returnNothing
  | returnOne (wanted : Nat)
  | returnCount (got wanted : Nat)
  | assignCount (left right : Nat)
  | callCount (wanted got : Nat)
  deriving Repr, DecidableEq, Inhabited

def ResultProblem.message : ResultProblem → String
  | several count => s!"expected 1 value, but the call returns {count}"
  | returnNothing => "Got 0 return values, but needs 1"
  | returnOne wanted => s!"Got 1 return value, but needs {wanted}"
  | returnCount got wanted => s!"Got {got} return values, but needs {wanted}"
  | assignCount left right =>
      s!"wrong number of values in assign: left has {left}, right has {right}"
  | callCount wanted got => s!"expected call with {wanted} results, but got {got}"

/-- Why a statement makes no sense. -/
inductive StatementProblem where
  | notConstant (name : String)
  | untypedVar (name : String)
  | breakOutside
  | continueOutside
  | returnOutside
  | stepOperands
  | loneNotCall
  | compoundSides (sign : String)
  | untypedNil (name : String)
  deriving Repr, DecidableEq, Inhabited

def StatementProblem.message : StatementProblem → String
  | notConstant name => s!"initializer of constant `{name}` is not constant"
  | untypedVar name => s!"variable `{name}` needs a type or an initializer"
  | breakOutside => "cannot break from here"
  | continueOutside => "cannot continue from here"
  | returnOutside => "return outside of a function"
  | stepOperands => "`++` and `--` take exactly one operand"
  | loneNotCall => "Lone expr is not a function call"
  | compoundSides sign => s!"`{sign}` takes one value on each side"
  | untypedNil name => s!"use of untyped nil in definition of `{name}`"

/-- Why something cannot be assigned to. -/
inductive TargetProblem where
  | notAName
  | notAssignable
  deriving Repr, DecidableEq, Inhabited

def TargetProblem.message : TargetProblem → String
  | notAName => "non-name on left side of `:=`"
  | notAssignable => "cannot assign to this expression"

/-- Where a member was looked for. -/
inductive Container where
  | module (name : String)
  | value (type : String)
  | struct (name : String)
  deriving Repr, DecidableEq, Inhabited

def Container.text : Container → String
  | module name => "module " ++ name
  | value type => s!"`{type}`"
  | struct name => s!"struct `{name}`"

inductive Problem where
  | parse (cause : ParseError)
  | moduleNotFound (name : String)
  | moduleUnreadable (name reason : String)
  | redefined (name : String) (previous : Span)
  | unknownIdent (name : String)
  | notYetResolved (name : String)
  | notAType (found : String)
  | notAValue (found : String)
  | mismatch (expected found context : String)
  | argCount (cause : ArgumentProblem)
  | resultCount (cause : ResultProblem)
  | unknownMember (member : String) (container : Container)
  | badType (cause : ResolveError)
  | notCallable (type : String)
  | badReceiver (type : String)
  | invalidStatement (cause : StatementProblem)
  | typedConst (name : String)
  | invalidTarget (cause : TargetProblem)
  | notStorable (type : String)
  deriving Repr, DecidableEq, Inhabited

namespace Problem

def message : Problem → String
  | parse cause => cause.message
  | moduleNotFound name => s!"module `{name}` not found"
  | moduleUnreadable name reason => s!"cannot read module `{name}`: {reason}"
  | redefined name _ => "redefined global name: " ++ name
  | unknownIdent name => s!"unknown identifier `{name}`"
  | notYetResolved name => s!"`{name}` is used before its definition is resolved"
  | notAType found => "expected a type, found " ++ found
  | notAValue found => "expected a value, found " ++ found
  | mismatch expected found _ => s!"type mismatch: expected `{expected}`, found `{found}`"
  | argCount cause => cause.message
  | resultCount cause => cause.message
  | unknownMember member container => s!"cannot find member {member} in " ++ container.text
  | badType cause => cause.message
  | notCallable type => s!"cannot call a value of type `{type}`"
  | badReceiver type => s!"expected *STRUCT receiver, found `{type}`"
  | invalidStatement cause => cause.message
  | typedConst name => s!"constant `{name}` cannot declare a type"
  | invalidTarget cause => cause.message
  | notStorable type => s!"cannot store a value of type `{type}` in a variable"

def code : Problem → ErrorCode
  | parse cause => cause.code
  | moduleNotFound _ => .moduleNotFound
  | moduleUnreadable _ _ => .moduleUnreadable
  | redefined _ _ => .redefinition
  | unknownIdent _ => .unknownIdentifier
  | notYetResolved _ => .unresolvedType
  | notAType _ => .notAType
  | notAValue _ => .notAValue
  | mismatch _ _ _ => .typeMismatch
  | argCount _ => .argumentCount
  | resultCount _ => .resultCount
  | unknownMember _ _ => .unknownMember
  | badType _ => .unresolvedType
  | notCallable _ => .notCallable
  | badReceiver _ => .invalidReceiver
  | invalidStatement _ => .invalidStatement
  | typedConst _ => .typedConstant
  | invalidTarget _ => .invalidTarget
  | notStorable _ => .notStorable

end Problem

/-- The error that ends a compilation. -/
structure CompileError where
  /-- The module whose source the span points into. -/
  module : String
  span : Span
  problem : Problem
  deriving Repr, DecidableEq, Inhabited

namespace CompileError

def message (error : CompileError) : String := error.problem.message

def code (error : CompileError) : ErrorCode := error.problem.code

/-- The report of an error of the given cause, without the note on its module. -/
def report (error : CompileError) : Diagnostic :=
  match error.problem with
  | .unknownIdent name => Diagnostic.unknownIdentifier error.span name
  | .mismatch expected found context =>
      Diagnostic.typeMismatch error.span expected found context
  | .redefined name previous => Diagnostic.redefinition error.span name previous
  | .typedConst _ =>
      (Diagnostic.ofCode error.code).withMessage error.message
        |>.withSite error.span "declared here"
        |>.withHelp "remove the type; constants take the type of their value"
  | _ =>
      (Diagnostic.ofCode error.code).withMessage error.message
        |>.withSite error.span error.code.description

def toDiagnostic (error : CompileError) : Diagnostic :=
  match error.problem with
  | .parse cause => cause.toDiagnostic
  | _ => error.report.withNote s!"in module `{error.module}`"

end CompileError

/-- Why a compilation gives no result. -/
inductive Failure where
  | error (cause : CompileError)
  | fault (cause : Fault)
  /-- A bound on the number of steps was too low. -/
  | exhausted
  deriving Repr, DecidableEq, Inhabited

end GoToC
