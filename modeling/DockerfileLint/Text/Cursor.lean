import DockerfileLint.Text.Continuation
import DockerfileLint.Text.Quoted
import DockerfileLint.Text.Span

/-!
# Cursors

A cursor is the same movement along a text addressed by offsets: it stands at an
offset of a text and reads up to a bound.  Within the bound it goes past
continuations just as `readWhile` does on what is left of the text.

The bound may lie past the end of the text.  Then nothing tells the cursor to
stop, and a reading that needs the character behind the last one overruns the
text.  An overrun keeps where the cursor was left, because a step that fails
half way has moved it.
-/

namespace DockerfileLint

/-- A text, the escape character as it was given, the offset where the cursor
stands, and the offset where reading ends. -/
structure Cursor where
  text : List Char
  escape : String
  offset : Nat
  stop : Nat

/-- A character was needed that the text does not have, and the cursor was left
at `left`. -/
structure Overrun where
  left : Nat
  fault : IndexFault
deriving DecidableEq, Repr

namespace Cursor

/-- The escape character of a cursor, if what was given is one character. -/
def esc (c : Cursor) : Escape :=
  Escape.ofString c.escape

/-- The cursor has reached its bound. -/
def done (c : Cursor) : Bool :=
  c.stop ≤ c.offset

/-- The character at an offset of the text, whatever the bound. -/
def read (c : Cursor) (offset : Nat) : Except Overrun Char :=
  match c.text[offset]? with
  | some ch => .ok ch
  | none => .error ⟨c.offset, .ofMissing offset⟩

/-- The character at the cursor. -/
def char (c : Cursor) : Except Overrun Char :=
  c.read c.offset

/-- The character `ahead` of the cursor, if it lies within the bound. -/
def peek (c : Cursor) (ahead : Nat) : Except Overrun (Option Char) :=
  if c.offset + ahead < c.stop then
    (c.read (c.offset + ahead)).map some
  else
    .ok none

/-- Moves the cursor forward by `count` characters, bound or not. -/
def advance (c : Cursor) (count : Nat) : Cursor :=
  { c with offset := c.offset + count }

/-- Puts the cursor somewhere else. -/
def seek (c : Cursor) (offset : Nat) : Cursor :=
  { c with offset := offset }

/-- Moves the cursor by a distance that may lead back, to the head of the text at
most. -/
def move (c : Cursor) (distance : Int) : Cursor :=
  c.seek (c.offset + distance).toNat

/-- The character at a distance that may lead back, if it lies within the bound.
Before the head of the text characters are counted from its end. -/
def peekAround (c : Cursor) (distance : Int) : Except Overrun (Option Char) :=
  let index := c.offset + distance
  if c.stop ≤ index then
    .ok none
  else
    let resolved := if index < 0 then index + c.text.length else index
    if resolved < 0 then
      .error ⟨c.offset, .ofMissing index⟩
    else
      (c.read resolved.toNat).map some

/-- A line break starts, or goes on, at the cursor. -/
def atLineBreak (c : Cursor) : Except Overrun Bool :=
  if c.done then .ok false else c.char.map isBreak

/-- A continuation starts at the cursor.  An escape character right before the
bound continues nothing. -/
def atContinuation (c : Cursor) : Except Overrun Bool :=
  if c.offset + 1 < c.stop then do
    let ch ← c.char
    if c.esc = some ch then
      return isBreak (← c.read (c.offset + 1))
    else
      return false
  else
    .ok false

/-- Moves past a line break, which is two characters if a line feed follows a
carriage return within the bound. -/
def skipLineBreak (c : Cursor) : Except Overrun Cursor := do
  if (← c.char) = '\r' then
    if (← c.peek 1) = some '\n' then
      return c.advance 2
    else
      return c.advance 1
  else
    return c.advance 1

/-- Moves past a continuation, if one starts at the cursor, and says whether it
did. -/
def skipContinuation (c : Cursor) : Except Overrun (Bool × Cursor) := do
  if ← c.atContinuation then
    return (true, ← (c.advance 1).skipLineBreak)
  else
    return (false, c)

/-- A line break skipped moves the cursor on under the same bound. -/
theorem skipLineBreak_ok {c d : Cursor} (h : c.skipLineBreak = .ok d) :
    c.offset < d.offset ∧ d.stop = c.stop := by
  unfold skipLineBreak at h
  cases hc : c.char with
  | error e => simp [hc, bind, Except.bind] at h
  | ok ch =>
    simp only [hc, bind, Except.bind, pure, Except.pure] at h
    split at h
    · cases hp : c.peek 1 with
      | error e => simp [hp] at h
      | ok next =>
        simp only [hp] at h
        split at h <;> cases h <;> simp [advance]
    · cases h
      simp [advance]

/-- A continuation skipped moves the cursor on under the same bound. -/
theorem skipContinuation_ok {c d : Cursor} (h : c.skipContinuation = .ok (true, d)) :
    c.offset < d.offset ∧ d.stop = c.stop := by
  unfold skipContinuation at h
  cases hc : c.atContinuation with
  | error e => simp [hc, bind, Except.bind] at h
  | ok yes =>
    cases yes with
    | false => simp [hc, bind, Except.bind, pure, Except.pure] at h
    | true =>
      cases hs : (c.advance 1).skipLineBreak with
      | error e => simp [hc, hs, bind, Except.bind] at h
      | ok d' =>
        simp only [hc, hs, bind, Except.bind, pure, Except.pure, if_true] at h
        cases h
        have := skipLineBreak_ok hs
        simp only [advance] at this
        omega

/-- Moves past every continuation that follows another, and says whether there
was one. -/
def skipContinuations (c : Cursor) : Except Overrun (Bool × Cursor) :=
  match _h : c.skipContinuation with
  | .error e => .error e
  | .ok (false, _) => .ok (false, c)
  | .ok (true, d) =>
    if d.stop ≤ d.offset then
      .ok (true, d)
    else
      match d.skipContinuations with
      | .error e => .error e
      | .ok (_, d) => .ok (true, d)
termination_by c.stop - c.offset
decreasing_by
  have := skipContinuation_ok _h
  omega

/-- Reads past continuations as long as the characters satisfy `keep`. -/
def readWhile (keep : Char → Bool) (c : Cursor) : Except Overrun (List (Char × Nat) × Cursor) :=
  if c.stop ≤ c.offset then
    .ok ([], c)
  else
    match _h : c.skipContinuation with
    | .error e => .error e
    | .ok (true, d) => d.readWhile keep
    | .ok (false, _) =>
      match c.char with
      | .error e => .error e
      | .ok ch =>
        if keep ch then
          match (c.advance 1).readWhile keep with
          | .error e => .error e
          | .ok (taken, d) => .ok ((ch, c.offset) :: taken, d)
        else
          .ok ([], c)
termination_by c.stop - c.offset
decreasing_by
  · have := skipContinuation_ok _h
    omega
  · simp only [advance]
    omega

/-- Moves past spaces, tabs and continuations, up to a line break that is part of
none. -/
def skipBlanks (c : Cursor) : Except Overrun Cursor :=
  (c.readWhile isBlank).map Prod.snd

/-- Moves to the next line break that is not part of a continuation. -/
def skipToLineBreak (c : Cursor) : Except Overrun Cursor :=
  (c.readWhile fun ch => !isBreak ch).map Prod.snd

/-- Reads a word and says where it ends, just past its last character: behind a
word no continuation counts.  An empty word ends where reading started. -/
def readWord (c : Cursor) : Except Overrun ((String × Nat) × Cursor) :=
  (c.readWhile fun ch => !isSpace ch).map fun (taken, d) =>
    let stop := match taken.getLast? with
      | some (_, offset) => offset + 1
      | none => c.offset
    ((String.ofList (taken.map Prod.fst), stop), d)

/-- What identifies a cursor on its text. -/
def describe (c : Cursor) : String :=
  "Cursor(offset=" ++ toString c.offset ++ ", end=" ++ toString c.stop ++
    ", escape=" ++ quoted c.escape ++ ")"

end Cursor

end DockerfileLint
