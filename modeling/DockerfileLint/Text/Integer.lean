import DockerfileLint.Unicode.Decimal

/-!
# Integers in texts

Integers that people write have a sign or none, and decimal digits of any script,
which single underscores may group.  White space around them does not count.
Integers that people read group their digits by threes with commas.
-/

namespace DockerfileLint

/-- Unicode white space. -/
def isWhiteSpace (c : Char) : Bool :=
  let n := c.toNat
  (9 ≤ n && n ≤ 13) || n == 0x20 || n == 0x85 || n == 0xA0 || n == 0x1680 ||
    (0x2000 ≤ n && n ≤ 0x200A) || n == 0x2028 || n == 0x2029 || n == 0x202F ||
    n == 0x205F || n == 0x3000

/-- Drops from both ends of a text the characters that satisfy `p`. -/
def trimBoth (p : Char → Bool) (cs : List Char) : List Char :=
  ((cs.dropWhile p).reverse.dropWhile p).reverse

/-- A decimal digit of ASCII. -/
def isDigit (c : Char) : Bool :=
  '0' ≤ c && c ≤ '9'

/-- The value of a decimal digit of ASCII. -/
def digitValue (c : Char) : Nat :=
  c.toNat - '0'.toNat

/-- The value of decimal digits of ASCII. -/
def naturalOf (digits : List Char) : Nat :=
  digits.foldl (fun value c => value * 10 + digitValue c) 0

/-- The most digits that an integer is read with. -/
def maxIntegerDigits : Nat := 4300

/-- The number that digits of these values write. -/
def numberOf (digits : List Nat) : Nat :=
  digits.foldl (fun value digit => value * 10 + digit) 0

/-- The values of decimal digits.  An underscore may stand between two of them;
`pending` says that a digit has to come next. -/
def digitValues? (pending : Bool) : List Char → Option (List Nat)
  | [] => if pending then none else some []
  | c :: cs =>
    match Unicode.decimalValue? c with
    | some digit => (digitValues? false cs).map (digit :: ·)
    | none => if c = '_' ∧ pending = false then digitValues? true cs else none

/-- The number that digits and underscores write, unless the digits are too many. -/
def naturalValue? (cs : List Char) : Option Nat :=
  (digitValues? true cs).bind fun digits =>
    if maxIntegerDigits < digits.length then none else some (numberOf digits)

/-- The integer that a sign or none and digits write. -/
def signedValue? : List Char → Option Int
  | '-' :: cs => (naturalValue? cs).map fun n : Nat => -(n : Int)
  | '+' :: cs => (naturalValue? cs).map Int.ofNat
  | cs => (naturalValue? cs).map Int.ofNat

/-- The integer that a text writes. -/
def integerValue? (cs : List Char) : Option Int :=
  signedValue? (trimBoth isWhiteSpace cs)

/-- Separates digits, given last digit first, into groups of three. -/
def groupThrees : List Char → List Char
  | a :: b :: c :: d :: cs => a :: b :: c :: ',' :: groupThrees (d :: cs)
  | cs => cs

/-- An integer with commas between its groups of three digits. -/
def grouped (n : Int) : String :=
  let digits := (groupThrees (Nat.toDigits 10 n.natAbs).reverse).reverse
  String.ofList (if n < 0 then '-' :: digits else digits)

end DockerfileLint
