/-!
# Byte positions and spans

Places in a source text are counted in bytes from its start.  A position holds at most
`maxOffset`; a place further on is recorded as that greatest position.
-/

namespace MonkeySyntax

/-- The greatest byte offset that a position can hold, `2 ^ 32 - 1`. -/
def maxOffset : Nat := 4294967295

/-- A place in a source text. -/
structure Position where
  /-- Number of bytes before the place. -/
  offset : Nat := 0
  /-- The offset lies in the representable range. -/
  offset_le : offset ≤ maxOffset := by decide
deriving DecidableEq, Repr

namespace Position

/-- The place before the first byte. -/
def origin : Position := {}

/-- The position of a byte offset, or the greatest position for an offset out of range. -/
def ofOffset (offset : Nat) : Position :=
  ⟨min offset maxOffset, Nat.min_le_right offset maxOffset⟩

@[simp]
theorem offset_ofOffset (offset : Nat) : (ofOffset offset).offset = min offset maxOffset := rfl

instance : Ord Position where
  compare left right := compare left.offset right.offset

instance : LE Position where
  le left right := left.offset ≤ right.offset

instance : LT Position where
  lt left right := left.offset < right.offset

instance (left right : Position) : Decidable (left ≤ right) :=
  inferInstanceAs (Decidable (left.offset ≤ right.offset))

instance (left right : Position) : Decidable (left < right) :=
  inferInstanceAs (Decidable (left.offset < right.offset))

instance : ToString Position where
  toString position := toString position.offset

end Position

/-- A stretch of source text.  Its ends need not be in order. -/
structure Span where
  /-- Place of the first byte. -/
  start : Position := .origin
  /-- Place just after the last byte. -/
  stop : Position := .origin
deriving DecidableEq, Repr

namespace Span

/-- The span between two byte offsets, each brought into range. -/
def ofOffsets (start stop : Nat) : Span :=
  ⟨.ofOffset start, .ofOffset stop⟩

/-- Whether the two ends are the same place. -/
def isEmpty (span : Span) : Bool :=
  span.start = span.stop

/-- The number of bytes between the ends, or `none` if they are reversed. -/
def length? (span : Span) : Option Nat :=
  if span.start ≤ span.stop then some (span.stop.offset - span.start.offset) else none

end Span

end MonkeySyntax
