import GoToC.Diagnostic.Code
import GoToC.Source.Span

/-!
# Diagnostics

The report of one error: a code, a headline, the spans it is about, and any number
of notes and hints after them.
-/

namespace GoToC

/-- Whether a labelled span is where the error is or only explains it. -/
inductive LabelKind where
  | site
  | context
  deriving Repr, DecidableEq, Inhabited

/-- A span with a remark on it. -/
structure Label where
  span : Span
  kind : LabelKind
  text : String
  deriving Repr, DecidableEq, Inhabited

/-- The report of one error. -/
structure Diagnostic where
  code : ErrorCode
  message : String
  labels : List Label
  notes : List String
  help : List String
  deriving Repr, DecidableEq, Inhabited

namespace Diagnostic

/-- A report whose headline is the meaning of its code. -/
def ofCode (code : ErrorCode) : Diagnostic := ⟨code, code.description, [], [], []⟩

def withMessage (diagnostic : Diagnostic) (message : String) : Diagnostic :=
  { diagnostic with message := message }

/-- Adds the span where the error is. -/
def withSite (diagnostic : Diagnostic) (span : Span) (text : String) : Diagnostic :=
  { diagnostic with labels := diagnostic.labels ++ [⟨span, .site, text⟩] }

/-- Adds a span that explains the error. -/
def withContext (diagnostic : Diagnostic) (span : Span) (text : String) : Diagnostic :=
  { diagnostic with labels := diagnostic.labels ++ [⟨span, .context, text⟩] }

def withNote (diagnostic : Diagnostic) (note : String) : Diagnostic :=
  { diagnostic with notes := diagnostic.notes ++ [note] }

def withHelp (diagnostic : Diagnostic) (help : String) : Diagnostic :=
  { diagnostic with help := diagnostic.help ++ [help] }

/-- Where the error is: the first span labelled as its site. -/
def site? (diagnostic : Diagnostic) : Option Span :=
  (diagnostic.labels.find? (·.kind == .site)).map (·.span)

/-- One labelled span in the plain form of a report. -/
def renderLabel (label : Label) : String :=
  let lead := match label.kind with
    | .site => "at"
    | .context => "see"
  "\n  " ++ lead ++ " " ++ label.span.render ++ ": " ++ label.text

/-- The plain form of a report, without an excerpt of the source. -/
def render (diagnostic : Diagnostic) : String :=
  "error[" ++ diagnostic.code.text ++ "]: " ++ diagnostic.message
    ++ String.join (diagnostic.labels.map renderLabel)
    ++ String.join (diagnostic.notes.map ("\n  note: " ++ ·))
    ++ String.join (diagnostic.help.map ("\n  help: " ++ ·))

/-- A value of one type stands where another is wanted; `context` ends the remark on it. -/
def typeMismatch (span : Span) (expected found context : String) : Diagnostic :=
  let wanted := s!"expected `{expected}`"
  let remark := if context.isEmpty then wanted else s!"{wanted} {context}"
  ofCode .typeMismatch
    |>.withMessage s!"cannot use `{found}` as `{expected}`"
    |>.withSite span remark

def unknownIdentifier (span : Span) (name : String) : Diagnostic :=
  ofCode .unknownIdentifier
    |>.withMessage s!"undefined: `{name}`"
    |>.withSite span "not declared in this module or scope"

/-- A global or a method is defined a second time in its module. -/
def redefinition (span : Span) (name : String) (previous : Span) : Diagnostic :=
  ofCode .redefinition
    |>.withMessage s!"`{name}` is already defined in this module"
    |>.withSite span "redefined here"
    |>.withContext previous "first defined here"

end Diagnostic

end GoToC
