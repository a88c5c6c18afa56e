/-!
# Spans

Half-open byte ranges of a source text. Every token, tree node and error carries
one, so that a report can point back at the text it is about.
-/

namespace GoToC

/-- The number of bytes that a run of characters takes in UTF-8. -/
def byteLength (text : List Char) : Nat := text.foldr (fun c total => c.utf8Size + total) 0

/-- The bytes from `start` up to, not including, `stop`. -/
structure Span where
  start : Nat
  stop : Nat
  deriving Repr, DecidableEq, Inhabited

namespace Span

/-- The span of something that stands nowhere in a source text. -/
def nowhere : Span := ⟨0, 0⟩

/-- The empty span at an offset. -/
def point (offset : Nat) : Span := ⟨offset, offset⟩

def length (span : Span) : Nat := span.stop - span.start

def isEmpty (span : Span) : Bool := span.start == span.stop

/-- The smallest span that covers both. -/
def merge (a b : Span) : Span := ⟨min a.start b.start, max a.stop b.stop⟩

/-- A span as `start..stop`. -/
def render (span : Span) : String := s!"{span.start}..{span.stop}"

@[simp] theorem merge_self (a : Span) : a.merge a = a := by
  simp [merge]

end Span

end GoToC
