import DockerfileLint.Text.Reading

/-!
# Bracketed lists of strings

The body of a `VOLUME` instruction can be a bracketed list of strings in double
quotes, separated by commas, on one logical line.  The recogniser walks the list
character by character and reports the first place where it breaks that shape;
it is no parser of JSON and knows no escapes within strings.

Continuations count between the strings only.  Inside a string an escape
character is a character like any other, so a line break ends the walk.
-/

namespace DockerfileLint

/-- What the walk along a list remembers. -/
structure ArrayState where
  /-- The walk is inside a string. -/
  inString : Bool := false
  /-- A string has closed and no comma has come since. -/
  commaDue : Bool := false
  /-- A closing bracket has been seen outside strings. -/
  closed : Bool := false
  /-- The place reported, if one was. -/
  fault : Option Nat := none
  /-- The last character that is not blank. -/
  last : Nat
deriving DecidableEq, Repr

namespace ArrayState

/-- The place to report when the walk ends at a line break: a list that has not
closed breaks off behind its last character. -/
def faultAtBreak (s : ArrayState) : Option Nat :=
  s.fault.or (if s.closed then none else some s.last)

/-- The place to report when the walk ends with the text.  There a string left
open breaks the list off even behind a closing bracket. -/
def faultAtEnd (s : ArrayState) : Option Nat :=
  s.fault.or (if s.inString || !s.closed then some s.last else none)

/-- The state behind a character of a string. -/
def insideString (s : ArrayState) (off : Nat) (c : Char) : ArrayState :=
  if c = '"' then
    { s with inString := false, commaDue := true, last := off }
  else if isBlank c then
    s
  else
    { s with last := off }

/-- The state behind a character between the strings. -/
def betweenStrings (s : ArrayState) (off : Nat) (c : Char) : ArrayState :=
  if c = '"' then
    { s with inString := true, commaDue := false, last := off }
  else if isBlank c then
    s
  else if c = ']' then
    { s with closed := true, last := off }
  else if c = ',' then
    { s with commaDue := false, last := off }
  else
    { s with last := off, fault := s.fault.or (some off) }

/-- The continuation to go past, outside strings only. -/
def continuation? (s : ArrayState) (esc : Escape) (cs : List Char) : Option (Nat × List Char) :=
  if s.inString then none else DockerfileLint.continuation? esc cs

/-- What follows a continuation is shorter than the text it stands in. -/
theorem length_lt_of_continuation? {s : ArrayState} {esc : Escape} {cs rest : List Char}
    {n : Nat} (h : s.continuation? esc cs = some (n, rest)) : rest.length < cs.length := by
  unfold continuation? at h
  split at h
  · cases h
  · exact DockerfileLint.length_lt_of_continuation? h

end ArrayState

/-- The place that breaks the shape of a list, if there is one, and where the
walk stopped. -/
structure ArrayVerdict where
  fault : Option Nat
  stop : Nat
  rest : List Char
deriving DecidableEq, Repr

/-- Walks on along a list.  A string that opens where a comma is due ends the
walk at its quote, unless a place was reported before. -/
def walkArray (esc : Escape) (s : ArrayState) (off : Nat) (cs : List Char) : ArrayVerdict :=
  match _h : s.continuation? esc cs with
  | some (n, rest) => walkArray esc s (off + n) rest
  | none =>
    match cs with
    | [] => ⟨s.faultAtEnd, off, []⟩
    | c :: cs =>
      if isBreak c then
        ⟨s.faultAtBreak, off, c :: cs⟩
      else if s.inString then
        walkArray esc (s.insideString off c) (off + 1) cs
      else if c = '"' ∧ s.commaDue ∧ s.fault = none then
        ⟨some off, off, c :: cs⟩
      else
        walkArray esc (s.betweenStrings off c) (off + 1) cs
termination_by cs.length
decreasing_by
  · exact ArrayState.length_lt_of_continuation? _h
  · simp
  · simp

/-- Walks the list whose bracket stands at `bracket` and is followed by `cs`. -/
def checkArray (esc : Escape) (bracket : Nat) (cs : List Char) : ArrayVerdict :=
  walkArray esc { last := bracket } (bracket + 1) cs

/-- Checks the body of an instruction.  A body that opens with anything but a
bracket is in shell form and is not checked; `opening` says that nothing but
blanks has come so far. -/
def checkArrayBody (esc : Escape) (opening : Bool) (off : Nat) (cs : List Char) :
    ArrayVerdict :=
  match _h : continuation? esc cs with
  | some (n, rest) => checkArrayBody esc opening (off + n) rest
  | none =>
    match cs with
    | [] => ⟨none, off, []⟩
    | c :: cs =>
      if isBreak c then
        ⟨none, off, c :: cs⟩
      else if c = '[' ∧ opening then
        checkArray esc off cs
      else
        checkArrayBody esc (opening && isBlank c) (off + 1) cs
termination_by cs.length
decreasing_by
  · exact length_lt_of_continuation? _h
  · simp

/-- A walk leaves no more than it found. -/
theorem walkArray_rest_length_le (esc : Escape) (s : ArrayState) (off : Nat) (cs : List Char) :
    (walkArray esc s off cs).rest.length ≤ cs.length := by
  fun_induction walkArray esc s off cs with
  | case1 s off cs n rest h ih =>
    exact Nat.le_trans ih (Nat.le_of_lt (ArrayState.length_lt_of_continuation? h))
  | case2 => simp
  | case3 => simp
  | case4 s off c cs _ _ _ ih => simp only [List.length_cons]; omega
  | case5 => simp
  | case6 s off c cs _ _ _ _ ih => simp only [List.length_cons]; omega

/-- The check of a body leaves no more than it found. -/
theorem checkArrayBody_rest_length_le (esc : Escape) (opening : Bool) (off : Nat)
    (cs : List Char) : (checkArrayBody esc opening off cs).rest.length ≤ cs.length := by
  fun_induction checkArrayBody esc opening off cs with
  | case1 opening off cs n rest h ih =>
    exact Nat.le_trans ih (Nat.le_of_lt (length_lt_of_continuation? h))
  | case2 => simp
  | case3 => simp
  | case4 opening off c cs =>
    exact Nat.le_succ_of_le (walkArray_rest_length_le ..)
  | case5 opening off c cs _ _ _ ih => simp only [List.length_cons]; omega

end DockerfileLint
