import DockerfileLint.Document.Position
import DockerfileLint.Text.Layout
import DockerfileLint.Text.Span

/-!
# Documents

A document is a text together with the offsets at which its lines start.
Offsets count characters of the text; positions count lines, and within a line
UTF-16 code units, of which a character beyond the basic plane takes two.

`positionAt` takes an offset to its position and `offsetAt` takes a position
back.  Both answer everywhere: an offset outside the text stands for the nearest
end of it, a line past the last one for the end of the text, and a column past
the content of its line for the end of that content.
-/

namespace DockerfileLint

/-- The UTF-16 code units that a character takes. -/
def utf16Width (c : Char) : Nat :=
  if 0xFFFF < c.toNat then 2 else 1

/-- The UTF-16 code units that a text takes. -/
def utf16Length (cs : List Char) : Nat :=
  cs.foldr (fun c units => utf16Width c + units) 0

/-- The starts of the lines behind the first, after those already found, which
are given in reverse. -/
def lineStartsFrom (found : List Nat) (off : Nat) : List Char → List Nat
  | '\r' :: '\n' :: cs => lineStartsFrom ((off + 2) :: found) (off + 2) cs
  | '\r' :: cs => lineStartsFrom ((off + 1) :: found) (off + 1) cs
  | '\n' :: cs => lineStartsFrom ((off + 1) :: found) (off + 1) cs
  | _ :: cs => lineStartsFrom found (off + 1) cs
  | [] => found.reverse

/-- A line starts at the head of a text and behind every line break. -/
def lineStartsOf (cs : List Char) : List Nat :=
  lineStartsFrom [0] 0 cs

/-- How many characters from the head of a line come before its column `units`.
A column in the middle of a character counts as behind it. -/
def charactersBefore (units : Int) : List Char → Nat
  | [] => 0
  | c :: cs => if 0 < units then charactersBefore (units - utf16Width c) cs + 1 else 0

/-- A text and the offsets where its lines start. -/
structure Document where
  text : List Char
  lineStarts : List Nat := lineStartsOf text
  lineStarts_eq : lineStarts = lineStartsOf text := by rfl

namespace Document

/-- The document that holds a text. -/
def ofText (text : List Char) : Document where
  text := text

/-- The document that holds a string. -/
def ofString (s : String) : Document :=
  ofText s.toList

/-- There is always one line, and one more for every line break. -/
def lineCount (d : Document) : Nat :=
  d.lineStarts.length

/-- The nearest offset inside the text. -/
def clamp (d : Document) (offset : Int) : Nat :=
  min offset.toNat d.text.length

/-- The line that holds an offset: the last one that starts there or before. -/
def lineAt (d : Document) (offset : Nat) : Nat :=
  d.lineStarts.countP (· ≤ offset) - 1

/-- The offset where a line starts, the end of the text for a line past the
last. -/
def lineStart (d : Document) (line : Nat) : Nat :=
  d.lineStarts.getD line d.text.length

/-- The position of an offset. -/
def positionAt (d : Document) (offset : Int) : Position :=
  let offset := d.clamp offset
  let line := d.lineAt offset
  let start := d.lineStart line
  ⟨line, utf16Length ((d.text.drop start).take (offset - start))⟩

/-- The range between the positions of two offsets, in the order given. -/
def rangeAt (d : Document) (start stop : Int) : Range :=
  ⟨d.positionAt start, d.positionAt stop⟩

/-- The text from one offset to another. -/
def slice (d : Document) (start stop : Nat) : List Char :=
  (d.text.drop start).take (stop - start)

/-- The content of a line: its text less the break that ends it.  The last line
ends with the text and has no break. -/
def lineContent (d : Document) (line : Nat) : List Char :=
  if line + 1 < d.lineCount then
    trimEnd isBreak (d.slice (d.lineStart line) (d.lineStart (line + 1)))
  else
    d.text.drop (d.lineStart line)

/-- The offset of a position. -/
def offsetAt (d : Document) (p : Position) : Nat :=
  if p.line < 0 then
    0
  else if d.lineCount ≤ p.line then
    d.text.length
  else
    let line := p.line.toNat
    d.lineStart line + charactersBefore p.character (d.lineContent line)

/-- The line that an index stands for.  A negative index counts from the end of
the document, -1 being the last line. -/
def resolveLine (d : Document) (line : Int) : Except IndexFault Nat :=
  let resolved := if line < 0 then line + d.lineCount else line
  if 0 ≤ resolved ∧ resolved < d.lineCount then
    .ok resolved.toNat
  else
    .error (.ofMissing line)

/-- The text of a line without its break.  The line that follows index -1 is
line 0, so that index quotes nothing. -/
def lineText (d : Document) (line : Int) : Except IndexFault (List Char) := do
  let resolved ← d.resolveLine line
  return if line = -1 then [] else d.lineContent resolved

end Document

end DockerfileLint
