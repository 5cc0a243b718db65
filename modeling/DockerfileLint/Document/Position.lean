/-!
# Positions and ranges

A position is a line and a column within it, both counted from zero.  Columns
count UTF-16 code units.  Positions are compared line first.
-/

namespace DockerfileLint

/-- A line and a column, counted from zero. -/
structure Position where
  line : Int
  character : Int
deriving DecidableEq, Repr

namespace Position

/-- An earlier line comes first, and on one line the earlier column. -/
instance : LT Position where
  lt a b := a.line < b.line ∨ a.line = b.line ∧ a.character < b.character

/-- The order of positions, ends included. -/
instance : LE Position where
  le a b := a.line < b.line ∨ a.line = b.line ∧ a.character ≤ b.character

/-- Unfolds the strict order. -/
theorem lt_iff {a b : Position} :
    a < b ↔ a.line < b.line ∨ a.line = b.line ∧ a.character < b.character :=
  Iff.rfl

/-- Unfolds the order. -/
theorem le_iff {a b : Position} :
    a ≤ b ↔ a.line < b.line ∨ a.line = b.line ∧ a.character ≤ b.character :=
  Iff.rfl

instance (a b : Position) : Decidable (a < b) :=
  decidable_of_iff _ lt_iff.symm

instance (a b : Position) : Decidable (a ≤ b) :=
  decidable_of_iff _ le_iff.symm

end Position

/-- The stretch between two positions. -/
structure Range where
  start : Position
  stop : Position
deriving DecidableEq, Repr

namespace Range

/-- A range holds a position that lies between its ends, both included. -/
def contains (r : Range) (p : Position) : Bool :=
  r.start ≤ p && p ≤ r.stop

/-- A range whose ends coincide is empty. -/
def isEmpty (r : Range) : Bool :=
  r.start == r.stop

end Range

end DockerfileLint
