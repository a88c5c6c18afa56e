import GoToC.Source.Span

/-!
# Lines of a source text

A text is cut at its line feeds. Positions are counted from one: the line, and in
the line the byte column. A carriage return belongs to the line break, so it is
not part of the text that an excerpt shows.
-/

namespace GoToC

/-- Cuts at every line feed; `line` holds, last character first, what was read of the
current line. -/
def splitLinesAux (line : List Char) : List Char → List (List Char)
  | [] => [line.reverse]
  | c :: rest =>
      if c = '\n' then line.reverse :: splitLinesAux [] rest else splitLinesAux (c :: line) rest

/-- The lines of a text, without the line feeds between them. -/
def splitLines (text : List Char) : List (List Char) := splitLinesAux [] text

/-- The lines of one source text, each with the byte offset it starts at. -/
structure LineIndex where
  lines : List (Nat × List Char)
  deriving Repr

namespace LineIndex

/-- Puts in front of each line the offset where it starts; a line feed takes one byte. -/
def place : Nat → List (List Char) → List (Nat × List Char)
  | _, [] => []
  | start, line :: lines => (start, line) :: place (start + byteLength line + 1) lines

def ofText (text : String) : LineIndex := ⟨place 0 (splitLines text.toList)⟩

def count (index : LineIndex) : Nat := index.lines.length

/-- The line number and the start of the last line that starts at or before `offset`. -/
def find (offset : Nat) : Nat → Nat → List (Nat × List Char) → Nat × Nat
  | number, start, [] => (number, start)
  | number, start, (next, _) :: lines =>
      if next ≤ offset then find offset (number + 1) next lines else (number, start)

/-- Line and byte column of an offset, both from one. -/
def position (index : LineIndex) (offset : Nat) : Nat × Nat :=
  let (number, start) := find offset 1 0 (index.lines.drop 1)
  (number, offset - start + 1)

/-- The offsets that the lines start at. -/
def starts (index : LineIndex) : List Nat := index.lines.map (·.1)

/-- Looks for an offset among ascending ones, of which those before `lo` and from `hi` on are left
out: where it stands, or else where it would have to be put. -/
def search (starts : List Nat) (offset lo hi : Nat) : Except Nat Nat :=
  if lo < hi then
    let middle := (lo + hi) / 2
    match compare (starts.getD middle 0) offset with
    | .lt => search starts offset (middle + 1) hi
    | .eq => .ok middle
    | .gt => search starts offset lo middle
  else .error lo
termination_by hi - lo

/-- The line that a search comes to: where an offset would have to be put, it is in the line
before. -/
def lineOf : Except Nat Nat → Nat
  | .ok exact => exact
  | .error insert => insert - 1

/-- Line and byte column of an offset by a search among the starts. -/
def searchPosition (index : LineIndex) (offset : Nat) : Nat × Nat :=
  let line := lineOf (search index.starts offset 0 index.count)
  (line + 1, offset - index.starts.getD line 0 + 1)

/-- The text of a line without its line break; line zero stands for the first. -/
def text (index : LineIndex) (number : Nat) : List Char :=
  match index.lines[number - 1]? with
  | none => []
  | some (_, line) => (line.reverse.dropWhile (· == '\r')).reverse

end LineIndex

end GoToC
