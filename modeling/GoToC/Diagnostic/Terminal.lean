import GoToC.Diagnostic.Basic
import GoToC.Source.Lines

/-!
# Diagnostics on a terminal

The form of a report that people read. With the source text at hand, each labelled
span is shown with its place and the line it starts on, underlined:

    error[E2006]: `x` is already defined in this module
      --> prog.go:3:5
      |
    3 | var x int
      |     ^ redefined here

Without the source text a label shows its byte range.
-/

namespace GoToC

/-- When to use colours. -/
inductive ColorMode where
  | auto
  | always
  | never
  deriving Repr, DecidableEq, Inhabited

/-- Whether colours are used; `auto` leaves it to the kind of output. -/
def ColorMode.usesColors (mode : ColorMode) (isTerminal : Bool) : Bool :=
  match mode with
  | .auto => isTerminal
  | .always => true
  | .never => false

/-- The colours of a report, by what they mark. -/
inductive Paint where
  | error
  | note
  | help
  | bold
  | context
  deriving Repr, DecidableEq, Inhabited

namespace Paint

/-- The control sequence that switches a colour on. -/
def start : Paint → String
  | error => "\x1b[1;31m"
  | note => "\x1b[1;36m"
  | help => "\x1b[1;32m"
  | bold => "\x1b[1m"
  | context => "\x1b[1;34m"

/-- The control sequence that ends any colour. -/
def reset : String := "\x1b[0m"

end Paint

/-- How reports are written: with or without colours, source text and file name. -/
structure Terminal where
  colors : Bool
  source : Option String
  path : Option String
  deriving Repr, Inhabited

namespace Terminal

/-- A terminal without colours that knows neither source nor file. -/
def plain : Terminal := ⟨false, none, none⟩

def paint (terminal : Terminal) (color : Paint) (text : String) : String :=
  if terminal.colors then color.start ++ text ++ Paint.reset else text

def spaces (count : Nat) : String := String.ofList (List.replicate count ' ')

/-- A number set flush right in a column. -/
def flushRight (width number : Nat) : String :=
  let digits := toString number
  spaces (width - digits.length) ++ digits

/-- The width of the column for line numbers: that of the largest one a label needs. -/
def gutter (lines : Option LineIndex) (labels : List Label) : Nat :=
  match lines with
  | none => 1
  | some lines =>
      let largest := labels.foldl (fun line label => max line (lines.position label.span.start).1) 1
      (toString largest).length

/-- The number of marks under a line: at least one, and none past the end of the line. -/
def underlineWidth (span : Span) (column : Nat) (line : List Char) : Nat :=
  max 1 (min span.length (byteLength line - (column - 1)))

/-- The arrow, the mark and the colour of a label. -/
def labelStyle : LabelKind → String × Char × Paint
  | .site => ("-->", '^', .error)
  | .context => (":::", '-', .context)

/-- A label without an excerpt. -/
def renderBareLabel (terminal : Terminal) (width : Nat) (label : Label) : String :=
  let (arrow, _, color) := labelStyle label.kind
  spaces width ++ " " ++ arrow ++ " " ++ label.span.render ++ ": "
    ++ terminal.paint color label.text ++ "\n"

/-- A label with the line that it starts on. -/
def renderExcerpt (terminal : Terminal) (lines : LineIndex) (width : Nat) (label : Label) :
    String :=
  let (arrow, mark, color) := labelStyle label.kind
  let (line, column) := lines.position label.span.start
  let text := lines.text line
  let place := s!"{line}:{column}"
  let location := match terminal.path with
    | some path => path ++ ":" ++ place
    | none => place
  let marks := String.ofList (List.replicate (underlineWidth label.span column text) mark)
  spaces width ++ " " ++ arrow ++ " " ++ location ++ "\n"
    ++ spaces width ++ " |\n"
    ++ flushRight width line ++ " | " ++ String.ofList text ++ "\n"
    ++ spaces width ++ " | " ++ spaces (column - 1)
    ++ terminal.paint color (marks ++ " " ++ label.text) ++ "\n"

def renderLabel (terminal : Terminal) (lines : Option LineIndex) (width : Nat) (label : Label) :
    String :=
  match lines with
  | none => terminal.renderBareLabel width label
  | some lines => terminal.renderExcerpt lines width label

/-- A line after the labels: a note or a hint. -/
def renderTrailer (terminal : Terminal) (width : Nat) (kind : String) (color : Paint)
    (text : String) : String :=
  spaces width ++ " = " ++ terminal.paint color kind ++ ": " ++ text ++ "\n"

/-- A report with an empty line after it. -/
def render (terminal : Terminal) (diagnostic : Diagnostic) : String :=
  let lines := terminal.source.map LineIndex.ofText
  let width := gutter lines diagnostic.labels
  terminal.paint .error "error" ++ terminal.paint .bold ("[" ++ diagnostic.code.text ++ "]")
    ++ ": " ++ diagnostic.message ++ "\n"
    ++ String.join (diagnostic.labels.map (terminal.renderLabel lines width))
    ++ String.join (diagnostic.notes.map (terminal.renderTrailer width "note" .note))
    ++ String.join (diagnostic.help.map (terminal.renderTrailer width "help" .help))
    ++ "\n"

/-- The closing line after a number of errors; nothing if there was none. -/
def summary (terminal : Terminal) : Nat → String
  | 0 => ""
  | 1 => terminal.paint .error "error" ++ ": aborting due to previous error\n"
  | count => terminal.paint .error "error" ++ s!": aborting due to {count} previous errors\n"

end Terminal

end GoToC
