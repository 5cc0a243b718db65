import DockerfileLint.Text.Integer

/-!
# Numerals

An integer in plain form is a minus sign or none and decimal digits, the first
of which is no zero unless it stands alone.  A variable may write its integer
more loosely: with white space around it, a plus sign, zeros that lead it,
underscores between its digits and a fraction of nothing but zeros.  What is
loose is taken away first, and what is left has to be plain.

Too many digits are not read, whatever follows them.  They are refused for their
number only where the numeral starts with them: one that has to be tidied first
is then malformed like any other.
-/

namespace DockerfileLint.Numeral

/-- Why a numeral is not read. -/
inductive Fault
  | malformed
  | tooLong
deriving DecidableEq, Repr

/-- How many digits an integer can have. -/
def maxDigits : Nat := 4300

/-- Reads a natural number in plain form. -/
def readDigits (cs : List Char) : Except Fault Nat :=
  if cs = ['0'] then
    .ok 0
  else
    let digits := cs.takeWhile isDigit
    if digits.isEmpty || digits.head? = some '0' then
      .error .malformed
    else if maxDigits < digits.length then
      .error .tooLong
    else if digits.length < cs.length then
      .error .malformed
    else
      .ok (naturalOf digits)

/-- Reads an integer in plain form. -/
def readPlain (cs : List Char) : Except Fault Int :=
  match cs with
  | '-' :: cs => (readDigits cs).map fun n => -(n : Int)
  | cs => (readDigits cs).map fun n => (n : Int)

/-- Drops zeros and underscores up to another digit or a minus sign.  Behind
nothing else the last of them is left, `last` if there are none, and in front of
a fraction as well. -/
def dropZeros (last : Char) : List Char → Option (List Char)
  | [] => some [last]
  | c :: cs =>
    if c = '0' || c = '_' then
      dropZeros c cs
    else if isDigit c || c = '-' then
      some (c :: cs)
    else if c = '.' then
      some (last :: c :: cs)
    else
      none

/-- Drops the zeros that lead a numeral, which has to start with a digit. -/
def withoutLeadingZeros? : List Char → Option (List Char)
  | [] => none
  | c :: cs =>
    if c = '0' then dropZeros c cs
    else if isDigit c then some (c :: cs)
    else none

/-- Drops a point and the zeros behind it, of which there has to be one. -/
def withoutZeroFraction (cs : List Char) : List Char :=
  match cs.dropWhile (· != '.') with
  | '.' :: zeros =>
    if !zeros.isEmpty && zeros.all (· == '0') then cs.takeWhile (· != '.') else cs
  | _ => cs

/-- Two underscores stand side by side. -/
def hasDoubleUnderscore : List Char → Bool
  | '_' :: '_' :: _ => true
  | _ :: cs => hasDoubleUnderscore cs
  | [] => false

/-- Drops the underscores, if each of them separates two other characters. -/
def withoutUnderscores (cs : List Char) : List Char :=
  if cs.head? = some '_' || cs.getLast? = some '_' || hasDoubleUnderscore cs then
    cs
  else
    cs.filter (· != '_')

/-- Takes away from a numeral without a sign what is loose in it. -/
def tidyUnsigned? (cs : List Char) : Option (List Char) :=
  (withoutLeadingZeros? cs).map fun cs => withoutUnderscores (withoutZeroFraction cs)

/-- Takes away from a numeral what is loose in it.  A minus sign stays. -/
def tidy? (cs : List Char) : Option (List Char) :=
  match trimBoth isWhiteSpace cs with
  | '+' :: cs => if cs.head? = some '-' then none else tidyUnsigned? cs
  | '-' :: cs => (tidyUnsigned? cs).map ('-' :: ·)
  | cs => tidyUnsigned? cs

/-- Reads an integer, loosely written or not.  Too many digits at its head are
refused at once. -/
def read (cs : List Char) : Except Fault Int :=
  match readPlain cs with
  | .ok n => .ok n
  | .error .tooLong => .error .tooLong
  | .error .malformed =>
    match tidy? cs with
    | some plain => (readPlain plain).mapError fun _ => .malformed
    | none => .error .malformed

end DockerfileLint.Numeral
