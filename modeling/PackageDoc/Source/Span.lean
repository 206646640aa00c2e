namespace PackageDoc

/-!
# Spans and lines

A span names a stretch of a source text by its UTF-8 byte offsets.  Sources are limited to the size
that 32-bit words can count, and in such a text every offset is the word that it is kept in.

* `Span.text` — the text that a span covers;
* `lineOf` — the line that holds a byte offset.
-/

/-- The bytes from `start` up to, and not including, `stop`. -/
structure Span where
  start : Nat
  stop : Nat
  deriving Repr, DecidableEq, Inhabited

namespace Span

/-- The number of bytes, counted as a 32-bit word. -/
def length (s : Span) : Nat :=
  (s.stop + UInt32.size - s.start) % UInt32.size

/-- A span of no bytes. -/
def isEmpty (s : Span) : Bool :=
  s.start == s.stop

/-- The smallest span that covers both. -/
def cover (s t : Span) : Span :=
  ⟨min s.start t.start, max s.stop t.stop⟩

end Span

/-- The characters of `cs` whose first byte lies in the span, where `cs` begins at byte `offset`. -/
def Span.chars (s : Span) : (offset : Nat) → List Char → List Char
  | _, [] => []
  | offset, c :: cs =>
    if s.stop ≤ offset then []
    else
      let rest := s.chars (offset + c.utf8Size) cs
      if s.start ≤ offset then c :: rest else rest

/-- The text of `source` that a span covers. -/
def Span.text (s : Span) (source : List Char) : String :=
  String.ofList (s.chars 0 source)

/-! ### Line numbers -/

/-- The number of `\n` in the first `offset` bytes of `cs`. -/
def lineBreaksBefore : (offset : Nat) → (cs : List Char) → Nat
  | _, [] => 0
  | offset, c :: cs =>
    if c.utf8Size ≤ offset then
      (if c = '\n' then 1 else 0) + lineBreaksBefore (offset - c.utf8Size) cs
    else 0

/-- The line, counted from 1, that holds a byte offset. -/
def lineOf (source : List Char) (offset : Nat) : Nat :=
  1 + lineBreaksBefore offset source

end PackageDoc
