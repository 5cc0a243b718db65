import DockerfileLint.Unicode.Printable

/-!
# Quoted texts

A message that shows a text of unknown content quotes it: between apostrophes,
or between double quotes if the text holds an apostrophe and no double quote.
What cannot be printed is written by its code point in hexadecimal.
-/

namespace DockerfileLint

/-- The hexadecimal digits of a number, filled up with zeros to `width`. -/
def hexDigits (width n : Nat) : List Char :=
  let digits := Nat.toDigits 16 n
  List.replicate (width - digits.length) '0' ++ digits

/-- How a character is written between quotation marks `mark`. -/
def quotedChar (mark c : Char) : List Char :=
  if c == mark || c == '\\' then
    ['\\', c]
  else if c == '\t' then
    ['\\', 't']
  else if c == '\n' then
    ['\\', 'n']
  else if c == '\r' then
    ['\\', 'r']
  else if Unicode.isPrintable c then
    [c]
  else if c.toNat ≤ 0xFF then
    '\\' :: 'x' :: hexDigits 2 c.toNat
  else if c.toNat ≤ 0xFFFF then
    '\\' :: 'u' :: hexDigits 4 c.toNat
  else
    '\\' :: 'U' :: hexDigits 8 c.toNat

/-- The mark that quotes a text with the fewest escapes, an apostrophe if both
serve as well. -/
def quotationMark (cs : List Char) : Char :=
  if cs.contains '\'' && !cs.contains '"' then '"' else '\''

/-- A text between quotation marks. -/
def quoted (s : String) : String :=
  let mark := quotationMark s.toList
  String.ofList (mark :: s.toList.flatMap (quotedChar mark) ++ [mark])

end DockerfileLint
