import DockerfileLint.Proofs.Positions

/-!
# A text as lines and the breaks between them

The lines of a document and the line breaks that end them, one behind the other, are the
text again.  The starts of the lines are found forward and the contents of the lines are
trimmed from behind; that the two agree is `lineBreak_between`: behind the content of a
line there is a whole line break, neither more nor less, and the next line starts behind it.

* `length_laterLineStarts`: there is one line more than there are line breaks;
* `linesBefore_eq_take`: the lines in front of a line, with their breaks, are the text up to
  the start of that line;
* `lines_compose`: nothing is lost.
-/

namespace DockerfileLint

variable {cs text : List Char} {line start next : Nat}

/-! ## How many lines there are -/

/-- A line break ends with a character: a line feed does, and a carriage return with no
line feed behind it. -/
def endsBreak (c : Char) (behind : List Char) : Bool :=
  c == '\n' || (c == '\r' && behind.head? != some '\n')

/-- The line breaks of a text.  Each of them has one last character, and is counted there. -/
def breakCount : List Char → Nat
  | [] => 0
  | c :: cs => (if endsBreak c cs then 1 else 0) + breakCount cs

/-- A line break counts once, whether it is two characters or one. -/
theorem breakCount_of_lineBreak? {n : Nat} {rest : List Char}
    (h : lineBreak? cs = some (n, rest)) : breakCount cs = breakCount rest + 1 := by
  rcases lineBreak?_cases h with ⟨-, rfl⟩ | ⟨-, rfl, hhead⟩ | ⟨-, rfl⟩
  · simp [breakCount, endsBreak, Nat.add_comm]
  · simp [breakCount, endsBreak, hhead, Nat.add_comm]
  · simp [breakCount, endsBreak, Nat.add_comm]

/-- No other character counts. -/
theorem breakCount_cons {c : Char} (h : isBreak c = false) (cs : List Char) :
    breakCount (c :: cs) = breakCount cs := by
  have hends : endsBreak c cs = false := by
    simp only [isBreak, Bool.or_eq_false_iff] at h
    simp [endsBreak, h.1, h.2]
  simp [breakCount, hends]

/-- A line starts behind every line break. -/
theorem length_laterLineStarts (off : Nat) (cs : List Char) :
    (laterLineStarts off cs).length = breakCount cs := by
  induction off, cs using lines_induction with
  | nil off => rfl
  | lineBreak off cs n rest h ih =>
      rw [laterLineStarts_of_lineBreak? h, List.length_cons, ih, breakCount_of_lineBreak? h]
  | char off c cs h ih => rw [laterLineStarts_cons h, ih, breakCount_cons h]

/-! ## What ends a line -/

/-- What a text goes on with behind its first characters. -/
theorem head?_drop_of_leads {k : Nat} {c : Char} (h : cs.take k ++ [c] <+: cs) :
    (cs.drop k).head? = some c := by
  obtain ⟨more, hmore⟩ := h
  rw [List.append_assoc] at hmore
  have hdrop := List.append_cancel_left (hmore.trans (List.take_append_drop k cs).symm)
  rw [← hdrop]
  rfl

/-- The three line breaks. -/
def lineBreaks : List (List Char) := [['\r', '\n'], ['\r'], ['\n']]

/-- The first line of a text runs to a line break, and a carriage return alone is none in
front of a line feed. -/
theorem take_eq_firstLine_append {n : Nat} (h : nextLine? cs = some n) :
    ∃ ending ∈ lineBreaks, cs.take n = firstLine cs ++ ending ∧
      (ending = ['\r'] → (cs.drop n).head? ≠ some '\n') := by
  obtain ⟨⟨k, rest⟩, hk, rfl⟩ := Option.map_eq_some_iff.mp h
  have hall := firstLine_append_afterFirstLine cs
  generalize firstLine cs = line at hall ⊢
  generalize afterFirstLine cs = after at hall hk
  subst hall
  rcases lineBreak?_cases hk with ⟨rfl, rfl⟩ | ⟨rfl, rfl, hhead⟩ | ⟨rfl, rfl⟩
  · exact ⟨['\r', '\n'], by simp [lineBreaks],
      by simp [List.take_append, List.take_of_length_le], by simp⟩
  · exact ⟨['\r'], by simp [lineBreaks], by simp [List.take_append, List.take_of_length_le],
      fun _ => by simpa [List.drop_append] using hhead⟩
  · exact ⟨['\n'], by simp [lineBreaks],
      by simp [List.take_append, List.take_of_length_le], by simp⟩

/-- What stands from the start of a line up to the start of the next one. -/
theorem lineBreak_between (hget : (lineStartsOf text)[line]? = some start)
    (hnext : (lineStartsOf text)[line + 1]? = some next) :
    ∃ n, next = start + n ∧ ∃ ending ∈ lineBreaks,
      (text.drop start).take n = firstLine (text.drop start) ++ ending ∧
      (ending = ['\r'] → (text.drop next).head? ≠ some '\n') := by
  rw [lineStartsOf_next hget] at hnext
  obtain ⟨n, hn, rfl⟩ := Option.map_eq_some_iff.mp hnext
  obtain ⟨ending, hmem, htake, hreturn⟩ := take_eq_firstLine_append hn
  rw [List.drop_drop] at hreturn
  exact ⟨n, rfl, ending, hmem, htake, hreturn⟩

namespace Document

/-- What stands between the content of a line and the start of the next one. -/
def lineEnd (d : Document) (line : Nat) : List Char :=
  (d.slice (d.lineStart line) (d.lineStart (line + 1))).drop (d.lineContent line).length

/-- The lines in front of a line, each with what ends it. -/
def linesBefore (d : Document) (line : Nat) : List Char :=
  (List.range line).flatMap fun above => d.lineContent above ++ d.lineEnd above

/-- One more line comes with its content and what ends it. -/
theorem linesBefore_succ (d : Document) (line : Nat) :
    d.linesBefore (line + 1) = d.linesBefore line ++ (d.lineContent line ++ d.lineEnd line) := by
  simp [linesBefore, List.range_succ]

/-- A line and what ends it are the text up to the next line. -/
theorem lineEnd_eq {n : Nat} {ending : List Char}
    (hget : (lineStartsOf text)[line]? = some start)
    (hnext : (lineStartsOf text)[line + 1]? = some (start + n))
    (htake : (text.drop start).take n = firstLine (text.drop start) ++ ending) :
    (ofText text).lineEnd line = ending := by
  have hslice : (ofText text).slice start (start + n) = firstLine (text.drop start) ++ ending := by
    unfold slice
    rw [Nat.add_sub_cancel_left]
    exact htake
  unfold lineEnd
  rw [lineStart_eq hget, lineStart_eq hnext, lineContent_eq_firstLine hget, hslice, List.drop_left]

/-- The lines in front of a line, with their breaks, are the text up to its start. -/
theorem linesBefore_eq_take {line start : Nat} (hget : (lineStartsOf text)[line]? = some start) :
    (ofText text).linesBefore line = text.take start := by
  induction line generalizing start with
  | zero =>
      rw [lineStartsOf_eq] at hget
      obtain rfl : 0 = start := Option.some.inj hget
      rfl
  | succ line ih =>
      have hlt := (List.getElem?_eq_some_iff.mp hget).1
      have habove := List.getElem?_eq_getElem (Nat.lt_of_succ_lt hlt)
      obtain ⟨n, rfl, ending, -, htake, -⟩ := lineBreak_between habove hget
      rw [linesBefore_succ, ih habove, lineContent_eq_firstLine habove,
        lineEnd_eq habove hget htake, List.take_add, htake]

/-- A line of the document is quoted without its break. -/
theorem lineText_eq (d : Document) (h : line < d.lineCount) :
    d.lineText line = .ok (d.lineContent line) := by
  have hnonneg : ¬ (line : Int) < 0 := by
    omega
  have hresolve : d.resolveLine line = .ok line := by
    simp only [resolveLine, if_neg hnonneg]
    rw [if_pos ⟨by omega, by omega⟩, Int.toNat_natCast]
  have hlast : (line : Int) ≠ -1 := by
    omega
  simp only [lineText, hresolve, if_neg hlast]
  rfl

/-- The last line is the text from its start on. -/
theorem lineContent_last (hget : (lineStartsOf text)[line]? = some start)
    (hlast : ¬ line + 1 < (ofText text).lineCount) :
    (ofText text).lineContent line = text.drop start := by
  unfold lineContent
  rw [if_neg hlast, lineStart_eq hget]
  rfl

end Document

/-- **Lines and breaks.**  A document has one line more than its text has line breaks.  The
text of a line has no carriage return and no line feed.  Each line but the last is ended by
one of the three line breaks, by a carriage return alone only if no line feed follows it; and
the lines with these breaks, one behind the other, and the last line are the text. -/
theorem lines_compose (text : List Char) :
    let d := Document.ofText text
    d.lineCount = breakCount text + 1 ∧
      (∀ line : Nat, line < d.lineCount →
        d.lineText line = .ok (d.lineContent line) ∧
          '\r' ∉ d.lineContent line ∧ '\n' ∉ d.lineContent line) ∧
      (∀ line : Nat, line + 1 < d.lineCount →
        d.lineEnd line ∈ lineBreaks ∧
          (d.lineEnd line = ['\r'] → ¬ d.linesBefore (line + 1) ++ ['\n'] <+: text)) ∧
      d.linesBefore (d.lineCount - 1) ++ d.lineContent (d.lineCount - 1) = text := by
  intro d
  have hcount : d.lineCount = breakCount text + 1 := by
    show (lineStartsOf text).length = _
    rw [lineStartsOf_eq, List.length_cons, length_laterLineStarts]
  refine ⟨hcount, fun line hline => ?_, fun line hline => ?_, ?_⟩
  · have hget := List.getElem?_eq_getElem (l := lineStartsOf text) hline
    have hcontent : d.lineContent line = _ := lineContent_eq_firstLine hget
    have hbreaks : ∀ c ∈ d.lineContent line, isBreak c = false := by
      intro c hc
      rw [hcontent] at hc
      exact isBreak_eq_false_of_mem_firstLine hc
    refine ⟨d.lineText_eq hline, fun hreturn => ?_, fun hfeed => ?_⟩
    · cases hbreaks _ hreturn
    · cases hbreaks _ hfeed
  · have hget := List.getElem?_eq_getElem (l := lineStartsOf text) (Nat.lt_of_succ_lt hline)
    have hnext := List.getElem?_eq_getElem (l := lineStartsOf text) hline
    generalize (lineStartsOf text)[line + 1] = next at hnext
    obtain ⟨n, rfl, ending, hmem, htake, hreturn⟩ := lineBreak_between hget hnext
    have hend : d.lineEnd line = ending := Document.lineEnd_eq hget hnext htake
    have hbefore : d.linesBefore (line + 1) = _ := Document.linesBefore_eq_take hnext
    rw [hend, hbefore]
    exact ⟨hmem, fun halone hfeed => hreturn halone (head?_drop_of_leads hfeed)⟩
  · have hlt : d.lineCount - 1 < (lineStartsOf text).length := by
      show d.lineCount - 1 < d.lineCount
      omega
    have hget := List.getElem?_eq_getElem hlt
    have hbefore : d.linesBefore (d.lineCount - 1) = _ := Document.linesBefore_eq_take hget
    have hlast : ¬ d.lineCount - 1 + 1 < d.lineCount := by
      omega
    have hcontent : d.lineContent (d.lineCount - 1) = _ := Document.lineContent_last hget hlast
    rw [hbefore, hcontent, List.take_append_drop]

/-- Lines with each of the three breaks, one of them between two others. -/
def mixedBreaks : List Char := "a\r\n\n\r\r\nb".toList

/-- The two carriage returns in the middle of `mixedBreaks` end a line each, the second one
with the line feed behind it. -/
theorem lines_compose_mixedBreaks :
    let d := Document.ofText mixedBreaks
    d.lineCount = 5 ∧
      (List.range 4).map d.lineEnd = [['\r', '\n'], ['\n'], ['\r'], ['\r', '\n']] ∧
      3 < d.lineCount ∧ d.lineText 3 = .ok (d.lineContent 3) ∧
      2 + 1 < d.lineCount ∧ d.lineEnd 2 = ['\r'] ∧
      ¬ d.linesBefore (2 + 1) ++ ['\n'] <+: mixedBreaks ∧
      d.linesBefore 4 ++ d.lineContent 4 = mixedBreaks := by
  intro d
  obtain ⟨-, htext, hends, hall⟩ := lines_compose mixedBreaks
  have hcount : d.lineCount = 5 := by
    decide +kernel
  have hlone : d.lineEnd 2 = ['\r'] := by
    decide +kernel
  have hline : 3 < d.lineCount := by
    omega
  exact ⟨hcount, by decide +kernel, hline, (htext 3 hline).1, hline, hlone,
    (hends 2 hline).2 hlone, hall⟩

end DockerfileLint
