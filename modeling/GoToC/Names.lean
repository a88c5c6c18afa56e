/-!
# Name table

Identifiers and string values are numbered in the order in which they first occur.
The empty text has number zero from the start, so it never takes a new one. A number has
32 bits: a table that has given out all of them takes no new text.
-/

namespace GoToC

/-- The number of a text in a name table. -/
structure Name where
  number : UInt32
  deriving Repr, DecidableEq, Inhabited

namespace Name

/-- The name of the empty text. -/
def empty : Name := ⟨0⟩

def index (name : Name) : Nat := name.number.toNat

def isEmpty (name : Name) : Bool := name.number == 0

end Name

/-- Why a text is not entered. -/
inductive NameFault where
  | full
  deriving Repr, DecidableEq, Inhabited

def NameFault.message : NameFault → String
  | full => "string interner exceeded u32::MAX entries"

/-- The distinct texts seen so far: the number of each, and each at the position that is its
number. -/
structure NameTable where
  numbers : List (String × UInt32)
  texts : Array String
  deriving Repr

namespace NameTable

def empty : NameTable := ⟨[("", 0)], #[""]⟩

instance : Inhabited NameTable := ⟨empty⟩

def size (table : NameTable) : Nat := table.texts.size

/-- Whether the table holds nothing but the empty text. -/
def onlyEmpty (table : NameTable) : Bool := table.size ≤ 1

/-- The number of a text; one that is new is put at the end. -/
def intern (table : NameTable) (text : String) : Except NameFault (Name × NameTable) :=
  match table.numbers.lookup text with
  | some number => .ok (⟨number⟩, table)
  | none =>
      if table.size < UInt32.size then
        let number := UInt32.ofNat table.size
        .ok (⟨number⟩, ⟨(text, number) :: table.numbers, table.texts.push text⟩)
      else .error .full

/-- Interns texts one after another and keeps their names in that order. -/
def internAll (table : NameTable) : List String → Except NameFault (List Name × NameTable)
  | [] => .ok ([], table)
  | text :: rest => do
      let (name, table) ← table.intern text
      let (names, table) ← table.internAll rest
      return (name :: names, table)

def text? (table : NameTable) (name : Name) : Option String := table.texts[name.index]?

end NameTable

end GoToC
