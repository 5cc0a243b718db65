import DockerfileLint.Proofs.RoundTrips

/-!
# The order of offsets and of positions

Both ways between offsets and positions keep the order.  Later offsets have later
positions, without exception (`positionAt_strictMono`): the offset within a line break is a
column further on than the content of its line, and still on that line.  Later positions
stand for no earlier offsets, whatever integers their lines and columns are; many of them
stand for the same one.

On a line of the document the two ways are a pair of rounding functions: a column stands
for the first offset of the line that reaches it (`charactersBefore_le_iff`), and for the
end of the content if none does.

* `charactersBefore_mono`, `content_stop_lt_lineStart`: within a line, and from line to line;
* `offsetAt_mono`: the way back keeps the order;
* `leastReaching_offsetAt`: which offset a column stands for;
* `positions_ordered`: all of it.
-/

namespace DockerfileLint

variable {cs text : List Char} {line later start start' k m : Nat} {units units' : Int}

/-! ## Columns -/

/-- As many characters come before a column as it takes to reach it, and no more. -/
theorem charactersBefore_le_iff (hk : k < cs.length) :
    charactersBefore units cs ≤ k ↔ units ≤ utf16Length (cs.take k) := by
  induction cs generalizing units k with
  | nil => simp at hk
  | cons c cs ih =>
      unfold charactersBefore
      by_cases hunits : 0 < units
      · rw [if_pos hunits]
        cases k with
        | zero => simp; omega
        | succ k =>
            have hrest : charactersBefore (units - utf16Width c) cs ≤ k ↔
                units - utf16Width c ≤ utf16Length (cs.take k) :=
              ih (by simpa using hk)
            rw [List.take_succ_cons, utf16Length_cons]
            omega
      · rw [if_neg hunits]
        constructor
        · intro _
          omega
        · intro _
          exact Nat.zero_le k

/-- No fewer characters come before a later column. -/
theorem charactersBefore_mono (cs : List Char) (h : units ≤ units') :
    charactersBefore units cs ≤ charactersBefore units' cs := by
  have hbound := charactersBefore_le_length units cs
  rcases Nat.lt_or_ge (charactersBefore units' cs) cs.length with hlt | hall
  · have hreach := (charactersBefore_le_iff hlt).mp (Nat.le_refl _)
    exact (charactersBefore_le_iff hlt).mpr (Int.le_trans h hreach)
  · exact Nat.le_trans hbound hall

/-! ## Lines -/

/-- A later line starts no further up. -/
theorem lineStart_mono (hget : (lineStartsOf text)[line]? = some start)
    (hget' : (lineStartsOf text)[later]? = some start') (h : line ≤ later) : start ≤ start' := by
  obtain ⟨hlt, rfl⟩ := List.getElem?_eq_some_iff.mp hget
  obtain ⟨hlt', rfl⟩ := List.getElem?_eq_some_iff.mp hget'
  rcases Nat.eq_or_lt_of_le h with rfl | hbefore
  · exact Nat.le_refl _
  · exact Nat.le_of_lt
      (List.pairwise_iff_getElem.mp (lineStartsOf_pairwise text) line later hlt hlt' hbefore)

/-- The content of a line ends in front of every later line. -/
theorem content_stop_lt_lineStart (hget : (lineStartsOf text)[line]? = some start)
    (hget' : (lineStartsOf text)[later]? = some start') (h : line < later) :
    start + (firstLine (text.drop start)).length < start' := by
  have hlater : later < (lineStartsOf text).length := (List.getElem?_eq_some_iff.mp hget').1
  have hnext := List.getElem?_eq_getElem (Nat.lt_of_le_of_lt h hlater)
  have hle := lineStart_mono hnext hget' h
  rw [lineStartsOf_next hget] at hnext
  obtain ⟨n, hn, hstart⟩ := Option.map_eq_some_iff.mp hnext
  have hcontent := firstLine_length_lt_nextLine? hn
  omega

/-- A position on a line of the document, with the line it is on. -/
theorem exists_lineStart (text : List Char) (p : Position) (hline : 0 ≤ p.line)
    (hcount : p.line < (Document.ofText text).lineCount) :
    ∃ line start : Nat, p.line = line ∧ (lineStartsOf text)[line]? = some start ∧
      (Document.ofText text).offsetAt p =
        start + charactersBefore p.character (firstLine (text.drop start)) := by
  obtain ⟨line, character⟩ := p
  obtain ⟨line, rfl⟩ := Int.eq_ofNat_of_zero_le hline
  have hlt : line < (lineStartsOf text).length := Int.ofNat_lt.mp hcount
  have hget := List.getElem?_eq_getElem hlt
  exact ⟨line, _, rfl, hget, offsetAt_onLine hget character⟩

/-! ## Both ways keep the order -/

/-- A line past the last one stands for the end of the text. -/
theorem offsetAt_of_lineCount_le {p : Position} (hline : ¬ p.line < 0)
    (hcount : (Document.ofText text).lineCount ≤ p.line) :
    (Document.ofText text).offsetAt p = text.length := by
  unfold Document.offsetAt
  rw [if_neg hline, if_pos hcount]
  rfl

/-- Every position stands for an offset of the text. -/
theorem offsetAt_le_length (p : Position) : (Document.ofText text).offsetAt p ≤ text.length := by
  by_cases hline : p.line < 0
  · simp [Document.offsetAt, hline]
  by_cases hcount : (Document.ofText text).lineCount ≤ p.line
  · exact Nat.le_of_eq (offsetAt_of_lineCount_le hline (by omega))
  obtain ⟨line, start, -, hget, hoffset⟩ :=
    exists_lineStart text p (by omega) (by omega)
  have hbefore := charactersBefore_le_length p.character (firstLine (text.drop start))
  have hstop := content_stop_le_length hget
  omega

/-- Later positions stand for no earlier offsets. -/
theorem offsetAt_mono {p q : Position} (h : p ≤ q) :
    (Document.ofText text).offsetAt p ≤ (Document.ofText text).offsetAt q := by
  rw [Position.le_iff] at h
  by_cases hline : p.line < 0
  · simp [Document.offsetAt, hline]
  by_cases hcount : (Document.ofText text).lineCount ≤ q.line
  · rw [offsetAt_of_lineCount_le (by omega) hcount]
    exact offsetAt_le_length p
  obtain ⟨line, start, hp, hget, hoffset⟩ :=
    exists_lineStart text p (by omega) (by omega)
  obtain ⟨line', start', hq, hget', hoffset'⟩ :=
    exists_lineStart text q (by omega) (by omega)
  rw [hoffset, hoffset']
  rcases h with hlt | ⟨heq, hcharacter⟩
  · -- The content of the line in front has ended where the other line starts.
    have hbefore := charactersBefore_le_length p.character (firstLine (text.drop start))
    have hstop := content_stop_lt_lineStart hget hget' (by omega)
    omega
  · obtain rfl : line = line' := by
      omega
    obtain rfl : start = start' := by
      rw [hget] at hget'
      exact Option.some.inj hget'
    exact Nat.add_le_add_left (charactersBefore_mono _ hcharacter) start

/-! ## Which offset a column stands for -/

namespace Document

/-- The offset where the content of a line ends. -/
def contentStop (d : Document) (line : Nat) : Nat :=
  d.lineStart line + (d.lineContent line).length

/-- An offset lies in the content of a line, or where it ends, and its column is
`character` or further on. -/
structure Reaches (d : Document) (line : Nat) (character : Int) (offset : Nat) : Prop where
  start_le : d.lineStart line ≤ offset
  le_stop : offset ≤ d.contentStop line
  column : character ≤ (d.positionAt offset).character

/-- An offset is the first of the content of a line that reaches a column, or the end of
the content if none reaches it. -/
structure LeastReaching (d : Document) (line : Nat) (character : Int) (offset : Nat) : Prop where
  least : (∃ other, d.Reaches line character other) →
    d.Reaches line character offset ∧ ∀ other, d.Reaches line character other → offset ≤ other
  stop : (¬ ∃ other, d.Reaches line character other) → offset = d.contentStop line

end Document

/-- An offset of the content of a line reaches a column if what comes before it on the line
is as wide. -/
theorem reaches_iff (hget : (lineStartsOf text)[line]? = some start) {offset : Nat} :
    (Document.ofText text).Reaches line units offset ↔
      ∃ k, offset = start + k ∧ k ≤ (firstLine (text.drop start)).length ∧
        units ≤ utf16Length ((firstLine (text.drop start)).take k) := by
  have hstart := lineStart_eq hget
  have hstop : (Document.ofText text).contentStop line =
      start + (firstLine (text.drop start)).length := by
    unfold Document.contentStop
    rw [hstart, lineContent_eq_firstLine hget]
  constructor
  · rintro ⟨hle, hend, hcolumn⟩
    rw [hstart] at hle
    rw [hstop] at hend
    obtain ⟨k, rfl⟩ := Nat.exists_eq_add_of_le hle
    have hk : k ≤ (firstLine (text.drop start)).length := Nat.le_of_add_le_add_left hend
    rw [positionAt_content hget hk] at hcolumn
    exact ⟨k, rfl, hk, hcolumn⟩
  · rintro ⟨k, rfl, hk, hcolumn⟩
    refine ⟨hstart ▸ Nat.le_add_right _ _, hstop ▸ Nat.add_le_add_left hk start, ?_⟩
    rwa [positionAt_content hget hk]

/-- A column on a line of the document stands for the first offset that reaches it. -/
theorem leastReaching_offsetAt (hget : (lineStartsOf text)[line]? = some start)
    (character : Int) :
    (Document.ofText text).LeastReaching line character
      ((Document.ofText text).offsetAt ⟨line, character⟩) := by
  have hbound := charactersBefore_le_length character (firstLine (text.drop start))
  rw [offsetAt_onLine hget]
  constructor
  · rintro ⟨offset, hoffset⟩
    obtain ⟨k, -, hk, hcolumn⟩ := (reaches_iff hget).mp hoffset
    refine ⟨(reaches_iff hget).mpr ⟨_, rfl, hbound, ?_⟩, fun other hother => ?_⟩
    · rcases Nat.lt_or_eq_of_le hbound with hlt | hall
      · exact (charactersBefore_le_iff hlt).mp (Nat.le_refl _)
      · -- All of the content comes before the column, so its end is what reaches it.
        have hmono := utf16Length_take_mono (firstLine (text.drop start)) hk
        rw [hall]
        omega
    · obtain ⟨j, rfl, hj, hreach⟩ := (reaches_iff hget).mp hother
      apply Nat.add_le_add_left
      rcases Nat.lt_or_eq_of_le hj with hlt | rfl
      · exact (charactersBefore_le_iff hlt).mpr hreach
      · exact hbound
  · intro hnone
    have hall : charactersBefore character (firstLine (text.drop start)) =
        (firstLine (text.drop start)).length := by
      apply Nat.le_antisymm hbound
      apply Nat.le_of_not_lt
      intro hlt
      have hreach := (charactersBefore_le_iff hlt).mp (Nat.le_refl _)
      exact hnone ⟨_, (reaches_iff hget).mpr ⟨_, rfl, hbound, hreach⟩⟩
    unfold Document.contentStop
    rw [hall, lineStart_eq hget, lineContent_eq_firstLine hget]

/-- **Order.**  Later offsets of a text have later positions.  Every position stands for an
offset of the text, and later positions, with any integers for line and column, for no
earlier offsets.  A position on a line of the document stands for the first offset of the
content of that line whose column is the one asked for or further on, and for the end of
the content if there is none. -/
theorem positions_ordered (text : List Char) :
    let d := Document.ofText text
    (∀ a b : Int, 0 ≤ a → a < b → b ≤ text.length → d.positionAt a < d.positionAt b) ∧
      (∀ p q : Position, p ≤ q → d.offsetAt p ≤ d.offsetAt q) ∧
      (∀ p : Position, d.offsetAt p ≤ text.length) ∧
      ∀ p : Position, 0 ≤ p.line → p.line < d.lineCount →
        d.LeastReaching p.line.toNat p.character (d.offsetAt p) := by
  intro d
  refine ⟨fun a b ha hab hb => ?_, fun p q => offsetAt_mono, offsetAt_le_length,
    fun p hline hcount => ?_⟩
  · obtain ⟨a, rfl⟩ := Int.eq_ofNat_of_zero_le ha
    obtain ⟨b, rfl⟩ := Int.eq_ofNat_of_zero_le (by omega : 0 ≤ b)
    exact positionAt_strictMono (Int.ofNat_lt.mp hab) (Int.ofNat_le.mp hb)
  · obtain ⟨line, character⟩ := p
    obtain ⟨line, rfl⟩ := Int.eq_ofNat_of_zero_le hline
    have hlt : line < (lineStartsOf text).length := Int.ofNat_lt.mp hcount
    exact leastReaching_offsetAt (List.getElem?_eq_getElem hlt) character

/-- A character of two columns in front of a line break of two characters. -/
def wideBeforeBreak : List Char := "a😀\r\nb".toList

/-- In `wideBeforeBreak` the offset within the line break comes behind the content of its
line, a column far to the right stands for no later offset than one on the next line, and
the column within the wide character stands for the offset behind it. -/
theorem positions_ordered_wideBeforeBreak :
    let d := Document.ofText wideBeforeBreak
    (0 : Int) ≤ 2 ∧ (2 : Int) < 3 ∧ (3 : Int) ≤ wideBeforeBreak.length ∧
      d.positionAt 3 = ⟨0, 4⟩ ∧ d.positionAt 2 < d.positionAt 3 ∧
      (⟨0, 9⟩ : Position) ≤ ⟨1, -5⟩ ∧ d.offsetAt ⟨0, 9⟩ ≤ d.offsetAt ⟨1, -5⟩ ∧
      d.offsetAt ⟨0, 9⟩ ≤ wideBeforeBreak.length ∧
      (0 : Int) < d.lineCount ∧ d.offsetAt ⟨0, 2⟩ = 2 ∧
      d.LeastReaching 0 2 (d.offsetAt ⟨0, 2⟩) := by
  intro d
  obtain ⟨hpositions, hoffsets, hbound, hleast⟩ := positions_ordered wideBeforeBreak
  have hcount : (0 : Int) < d.lineCount := by
    decide +kernel
  have horder : (⟨0, 9⟩ : Position) ≤ ⟨1, -5⟩ := by
    decide
  exact ⟨by decide, by decide, by decide +kernel, by decide +kernel,
    hpositions 2 3 (by decide) (by decide) (by decide +kernel), horder, hoffsets _ _ horder,
    hbound _, hcount, by decide +kernel, hleast ⟨0, 2⟩ (by decide) hcount⟩

end DockerfileLint
