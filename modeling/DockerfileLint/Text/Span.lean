/-!
# Spans and indices

A span is a stretch of offsets, half open: it holds the characters from `start`
up to but not including `stop`.  Inside a document offsets are natural numbers;
what a caller computes may be any integers, in any order, so a span does not
promise that its start comes first.

Whatever is counted out in memory is counted in 64 bits with a sign.  A number
beyond that is no index at all, which is another fault than an index that points
at nothing.
-/

namespace DockerfileLint

/-- A number fits into 64 bits, its sign included. -/
def isIndex (n : Int) : Bool :=
  -0x8000000000000000 ≤ n && n < 0x8000000000000000

/-- Why an index gives nothing. -/
inductive IndexFault
  /-- Nothing has that index. -/
  | outOfRange
  /-- The number is no index. -/
  | notAnIndex
deriving DecidableEq, Repr

/-- The fault of a number that points at nothing. -/
def IndexFault.ofMissing (n : Int) : IndexFault :=
  if isIndex n then outOfRange else notAnIndex

/-- The offsets from `start` up to but not including `stop`. -/
structure Span (Offset : Type) where
  start : Offset
  stop : Offset
deriving DecidableEq, Repr

namespace Span

/-- A span of a document, among all integer offsets. -/
def toInt (s : Span Nat) : Span Int :=
  ⟨s.start, s.stop⟩

/-- A span touches an offset up to and including its end: a caret just behind a
word still touches the word. -/
def touches (s : Span Int) (offset : Int) : Bool :=
  s.start ≤ offset && offset ≤ s.stop

/-- The first span ends where the second starts, or earlier. -/
def isBefore (s t : Span Int) : Bool :=
  s.stop ≤ t.start

/-- The first span starts where the second ends, or later. -/
def isAfter (s t : Span Int) : Bool :=
  t.stop ≤ s.start

/-- Why a span has no length. -/
inductive LengthFault
  /-- Its end comes before its start. -/
  | negative
  /-- The length is more than anything can hold. -/
  | notAnIndex
deriving DecidableEq, Repr

/-- The number of offsets in a span. -/
def length (s : Span Int) : Except LengthFault Nat :=
  if s.stop < s.start then .error .negative
  else if isIndex (s.stop - s.start) then .ok (s.stop - s.start).toNat
  else .error .notAnIndex

end Span

end DockerfileLint
