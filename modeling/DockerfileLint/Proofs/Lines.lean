import DockerfileLint.Proofs.Extents
import DockerfileLint.Proofs.Translation

/-!
# Positions in a text of two parts

The lines of two texts one behind the other are the lines of the first and those of
the second, unless a line break runs from the one into the other.  A position in the
first text stays what it is.  If the first text ends in a line break, the positions
in the second are the same but for the number of the line, which counts on from the
lines above.
-/

namespace DockerfileLint

variable {cs rest front back : List Char} {off n : Nat}

/-! ## The starts of lines -/

/-- The starts of the lines behind the first, in a text that starts at `off`. -/
def laterLineStarts (off : Nat) (cs : List Char) : List Nat :=
  lineStartsFrom [] off cs

/-- The lines found before come first. -/
theorem lineStartsFrom_eq (found : List Nat) (off : Nat) (cs : List Char) :
    lineStartsFrom found off cs = found.reverse ++ laterLineStarts off cs := by
  suffices general : ∀ more found, lineStartsFrom (found ++ more) off cs =
      more.reverse ++ lineStartsFrom found off cs from general found []
  intro more found
  fun_induction lineStartsFrom found off cs with
  | case1 found off cs ih =>
      rw [lineStartsFrom]
      exact ih
  | case2 found off cs hnext ih =>
      rw [lineStartsFrom]
      · exact ih
      · exact hnext
  | case3 found off cs ih =>
      rw [lineStartsFrom]
      exact ih
  | case4 found off c cs hpair hreturn hfeed ih =>
      rw [lineStartsFrom]
      · exact ih
      all_goals assumption
  | case5 found off =>
      rw [lineStartsFrom]
      simp

/-- The first line starts at the start of the text, the others behind its line breaks. -/
theorem lineStartsOf_eq (cs : List Char) : lineStartsOf cs = 0 :: laterLineStarts 0 cs := by
  unfold lineStartsOf
  rw [lineStartsFrom_eq]
  rfl

/-- An empty text has no second line. -/
@[simp] theorem laterLineStarts_nil : laterLineStarts off [] = [] := rfl

/-- A line starts behind every line break. -/
theorem laterLineStarts_of_lineBreak? (h : lineBreak? cs = some (n, rest)) :
    laterLineStarts off cs = (off + n) :: laterLineStarts (off + n) rest := by
  unfold laterLineStarts
  rcases lineBreak?_cases h with ⟨rfl, rfl⟩ | ⟨rfl, rfl, hhead⟩ | ⟨rfl, rfl⟩
  · rw [lineStartsFrom, lineStartsFrom_eq]
    rfl
  · rw [lineStartsFrom, lineStartsFrom_eq]
    · rfl
    · rintro more rfl
      exact hhead rfl
  · rw [lineStartsFrom, lineStartsFrom_eq]
    rfl

/-- No line starts behind any other character. -/
theorem laterLineStarts_cons {c : Char} (h : isBreak c = false) :
    laterLineStarts off (c :: cs) = laterLineStarts (off + 1) cs := by
  unfold laterLineStarts
  rw [lineStartsFrom]
  all_goals
    intros
    subst_vars
    simp [isBreak] at h

/-- No line starts behind characters that are no breaks. -/
theorem laterLineStarts_of_no_break (off : Nat) (hline : ∀ c ∈ cs, isBreak c = false) :
    laterLineStarts off cs = [] := by
  induction cs generalizing off with
  | nil => rfl
  | cons c cs ih =>
      rw [laterLineStarts_cons (hline c List.mem_cons_self)]
      exact ih (off + 1) fun d hd => hline d (List.mem_cons_of_mem c hd)

/-- A text is taken apart by line breaks and the characters between them. -/
theorem lines_induction {motive : Nat → List Char → Prop}
    (nil : ∀ off, motive off [])
    (lineBreak : ∀ off cs n rest, lineBreak? cs = some (n, rest) → motive (off + n) rest →
      motive off cs)
    (char : ∀ off c cs, isBreak c = false → motive (off + 1) cs → motive off (c :: cs))
    (off : Nat) (cs : List Char) : motive off cs := by
  induction hn : cs.length using Nat.strongRecOn generalizing off cs with
  | _ n ih =>
    subst hn
    match cs with
    | [] => exact nil off
    | c :: cs =>
      cases hc : isBreak c with
      | false => exact char off c cs hc (ih _ (by simp) _ _ rfl)
      | true =>
        obtain ⟨⟨n, rest⟩, hbreak⟩ := Option.isSome_iff_exists.mp (lineBreak?_isSome cs hc)
        have hlength := length_of_lineBreak? hbreak
        have hpos := lineBreak?_pos hbreak
        exact lineBreak off (c :: cs) n rest hbreak (ih _ (by omega) _ _ rfl)

/-- Lines start behind the first character, and behind the last one at most. -/
theorem laterLineStarts_within (off : Nat) (cs : List Char) :
    ∀ start ∈ laterLineStarts off cs, off < start ∧ start ≤ off + cs.length := by
  induction off, cs using lines_induction with
  | nil off => simp
  | lineBreak off cs n rest h ih =>
      have hlength := length_of_lineBreak? h
      have hpos := lineBreak?_pos h
      rw [laterLineStarts_of_lineBreak? h]
      intro start hstart
      rcases List.mem_cons.mp hstart with rfl | hstart
      · omega
      · have hbounds := ih start hstart
        omega
  | char off c cs h ih =>
      rw [laterLineStarts_cons h]
      intro start hstart
      have hbounds := ih start hstart
      simp only [List.length_cons]
      omega

/-- Lines start where the starts of lines go, with other line endings. -/
theorem laterLineStarts_relined {ending : LineEnding} {φ : Nat → Nat}
    (h : Relines ending φ off cs) :
    laterLineStarts (φ off) (relined ending cs) = (laterLineStarts off cs).map φ := by
  induction off, cs using lines_induction with
  | nil off => rfl
  | lineBreak off cs n rest hbreak ih =>
      obtain ⟨passed, hcs, rfl, hrelined⟩ := lineBreak?_relined h.suits hbreak
      rw [laterLineStarts_of_lineBreak? hbreak, laterLineStarts_of_lineBreak? hrelined,
        ← h.place passed rest hcs, ih (h.of_onward ⟨passed, hcs, rfl⟩)]
      rfl
  | char off c cs hc ih =>
      have hne := ne_newline_of_isBreak hc
      rw [relined_cons_of_ne hne, laterLineStarts_cons hc, laterLineStarts_cons hc,
        ← h.succ_of_ne hne, ih h.of_cons]

/-- Lines of a text that is moved move along. -/
theorem laterLineStarts_shift (k off : Nat) (cs : List Char) :
    laterLineStarts (off + k) cs = (laterLineStarts off cs).map (· + k) := by
  have h : laterLineStarts (off + k) (relined .lf cs) = (laterLineStarts off cs).map (· + k) :=
    laterLineStarts_relined (.moved k off cs)
  rwa [relined_lf] at h

/-! ## Two texts -/

/-- The lines of two texts are those of the first and those of the second. -/
theorem laterLineStarts_append (off : Nat) (front : List Char) (hapart : Apart front back) :
    laterLineStarts off (front ++ back) =
      laterLineStarts off front ++ laterLineStarts (off + front.length) back := by
  induction off, front using lines_induction with
  | nil off => rfl
  | lineBreak off cs n rest h ih =>
      obtain ⟨breaks, hcs, -, -⟩ := lineBreak?_eq_append h
      have hlength := length_of_lineBreak? h
      rw [laterLineStarts_of_lineBreak? h,
        laterLineStarts_of_lineBreak? (hapart.lineBreak?_append h),
        ih (hapart.of_suffix ⟨breaks, hcs.symm⟩), hlength, Nat.add_assoc]
      rfl
  | char off c cs h ih =>
      rw [List.cons_append, laterLineStarts_cons h, laterLineStarts_cons h,
        ih (hapart.of_suffix (List.suffix_cons c cs)), List.length_cons, Nat.add_right_comm,
        Nat.add_assoc]

/-- In a text that ends in a line break the last line starts at the end. -/
theorem laterLineStarts_getLast? {b : Char} (off : Nat) (cs : List Char)
    (hlast : cs.getLast? = some b) (hb : isBreak b = true) :
    ∃ before, laterLineStarts off cs = before ++ [off + cs.length] := by
  induction off, cs using lines_induction with
  | nil off => simp at hlast
  | lineBreak off cs n rest h ih =>
      obtain ⟨breaks, rfl, rfl, -⟩ := lineBreak?_eq_append h
      rw [laterLineStarts_of_lineBreak? h]
      cases rest with
      | nil => exact ⟨[], by simp⟩
      | cons d ds =>
          obtain ⟨before, hbefore⟩ := ih (by simpa [List.getLast?_append] using hlast)
          refine ⟨(off + breaks.length) :: before, ?_⟩
          rw [hbefore, List.length_append, Nat.add_assoc]
          rfl
  | char off c cs h ih =>
      rw [laterLineStarts_cons h]
      cases cs with
      | nil =>
          obtain rfl : c = b := by simpa using hlast
          rw [hb] at h
          cases h
      | cons d ds =>
          obtain ⟨before, hbefore⟩ := ih (by simpa using hlast)
          refine ⟨before, ?_⟩
          rw [hbefore, List.length_cons (a := c), Nat.add_right_comm, Nat.add_assoc]

/-- The lines of a text that is put together at no line break are those of its front and the
later ones of its back. -/
theorem lineStartsOf_append (hapart : Apart front back) :
    lineStartsOf (front ++ back) = lineStartsOf front ++ laterLineStarts front.length back := by
  rw [lineStartsOf_eq, lineStartsOf_eq, laterLineStarts_append 0 front hapart, Nat.zero_add]
  rfl

/-- Behind a line break the lines of the second text follow those that end before. -/
theorem lineStartsOf_append_of_getLast? (hapart : Apart front back) {b : Char}
    (hlast : front.getLast? = some b) (hb : isBreak b = true) :
    ∃ above, lineStartsOf front = above ++ [front.length] ∧
      lineStartsOf (front ++ back) = above ++ (lineStartsOf back).map (· + front.length) := by
  obtain ⟨before, hbefore⟩ := laterLineStarts_getLast? 0 front hlast hb
  have hfront : lineStartsOf front = (0 :: before) ++ [front.length] := by
    rw [lineStartsOf_eq, hbefore, Nat.zero_add]
    rfl
  have hback : laterLineStarts front.length back =
      (laterLineStarts 0 back).map (· + front.length) := by
    rw [← laterLineStarts_shift, Nat.zero_add]
  refine ⟨0 :: before, hfront, ?_⟩
  rw [lineStartsOf_append hapart, hfront, hback, lineStartsOf_eq back]
  simp

/-! ## Positions -/

/-- Lines start within the text. -/
theorem lineStartsOf_le {start : Nat} (h : start ∈ lineStartsOf cs) : start ≤ cs.length := by
  rw [lineStartsOf_eq] at h
  rcases List.mem_cons.mp h with rfl | h
  · exact Nat.zero_le _
  · have hbounds := laterLineStarts_within 0 cs start h
    omega

/-- There is a line for every offset. -/
theorem exists_line (cs : List Char) (offset : Nat) :
    ∃ line start, (lineStartsOf cs).countP (· ≤ offset) = line + 1 ∧
      (lineStartsOf cs)[line]? = some start ∧ start ≤ cs.length := by
  have hpos : 0 < (lineStartsOf cs).countP (· ≤ offset) := by
    rw [lineStartsOf_eq, List.countP_cons]
    simp
  have hle : (lineStartsOf cs).countP (· ≤ offset) ≤ (lineStartsOf cs).length :=
    List.countP_le_length
  obtain ⟨line, hline⟩ := Nat.exists_eq_add_of_lt hpos
  rw [Nat.zero_add] at hline
  have hlt : line < (lineStartsOf cs).length := by
    omega
  exact ⟨line, (lineStartsOf cs)[line], hline, List.getElem?_eq_getElem hlt,
    lineStartsOf_le (List.getElem_mem hlt)⟩

/-- A line of the document starts where the list says. -/
theorem lineStart_eq {line start : Nat} (h : (lineStartsOf cs)[line]? = some start) :
    (Document.ofText cs).lineStart line = start := by
  show (lineStartsOf cs).getD line cs.length = start
  rw [List.getD_eq_getElem?_getD, h, Option.getD_some]

/-- A position is a line and what comes before the offset there. -/
theorem positionAt_eq {offset stop line start : Nat} (hstop : min offset cs.length = stop)
    (hline : (lineStartsOf cs).countP (· ≤ stop) = line + 1)
    (hstart : (lineStartsOf cs)[line]? = some start) :
    (Document.ofText cs).positionAt offset =
      ⟨line, utf16Length ((cs.drop start).take (stop - start))⟩ := by
  have hclamp : (Document.ofText cs).clamp offset = stop := hstop
  have hlineAt : (Document.ofText cs).lineAt stop = line := by
    show (lineStartsOf cs).countP (· ≤ stop) - 1 = line
    rw [hline, Nat.add_sub_cancel]
  unfold Document.positionAt
  simp only [hclamp, hlineAt, lineStart_eq hstart]
  rfl

/-- What lies in the first of two texts has the position it has there. -/
theorem positionAt_front (hapart : Apart front back) {offset : Nat}
    (h : offset ≤ front.length) :
    (Document.ofText (front ++ back)).positionAt offset =
      (Document.ofText front).positionAt offset := by
  have hlater : (laterLineStarts front.length back).countP (· ≤ offset) = 0 := by
    rw [List.countP_eq_zero]
    intro start hstart
    have hbounds := laterLineStarts_within front.length back start hstart
    simp only [decide_eq_true_eq]
    omega
  obtain ⟨line, start, hcount, hget, hle⟩ := exists_line front offset
  have hcount' : (lineStartsOf (front ++ back)).countP (· ≤ offset) = line + 1 := by
    rw [lineStartsOf_append hapart, List.countP_append, hlater, Nat.add_zero, hcount]
  have hget' : (lineStartsOf (front ++ back))[line]? = some start := by
    rw [lineStartsOf_append hapart,
      List.getElem?_append_left (List.getElem?_eq_some_iff.mp hget).1, hget]
  have hmin : min offset (front ++ back).length = offset := by
    rw [List.length_append]
    omega
  have hslice : ((front ++ back).drop start).take (offset - start) =
      (front.drop start).take (offset - start) := by
    rw [List.drop_append_of_le_length hle, List.take_append_of_le_length]
    rw [List.length_drop]
    omega
  rw [positionAt_eq hmin hcount' hget', positionAt_eq (Nat.min_eq_left h) hcount hget, hslice]

/-- The position `lines` lines further down. -/
def Position.down (lines : Nat) (p : Position) : Position :=
  { p with line := p.line + lines }

/-- What lies behind a line break has the position it has in the text from there on,
further down by the lines that end before. -/
theorem positionAt_back (hapart : Apart front back) {b : Char} (hlast : front.getLast? = some b)
    (hb : isBreak b = true) (offset : Nat) :
    (Document.ofText (front ++ back)).positionAt ((offset + front.length : Nat) : Int) =
      ((Document.ofText back).positionAt offset).down
        ((Document.ofText front).lineCount - 1) := by
  obtain ⟨above, hfront, hstarts⟩ := lineStartsOf_append_of_getLast? hapart hlast hb
  have hlines : (Document.ofText front).lineCount - 1 = above.length := by
    show (lineStartsOf front).length - 1 = _
    rw [hfront, List.length_append]
    rfl
  obtain ⟨line, start, hcount, hget, -⟩ := exists_line back (min offset back.length)
  have habove : above.countP (· ≤ min offset back.length + front.length) = above.length := by
    rw [List.countP_eq_length]
    intro start hstart
    have hmem : start ∈ lineStartsOf front := by
      rw [hfront]
      exact List.mem_append_left _ hstart
    have hle := lineStartsOf_le hmem
    simp only [decide_eq_true_eq]
    omega
  have hbelow : ((lineStartsOf back).map (· + front.length)).countP
      (· ≤ min offset back.length + front.length) = line + 1 := by
    rw [← hcount, List.countP_map]
    congr 1
    funext start
    simp
  have hcount' : (lineStartsOf (front ++ back)).countP
      (· ≤ min offset back.length + front.length) = line + above.length + 1 := by
    rw [hstarts, List.countP_append, habove, hbelow]
    omega
  have hget' : (lineStartsOf (front ++ back))[line + above.length]? =
      some (start + front.length) := by
    rw [hstarts, List.getElem?_append_right (Nat.le_add_left _ _), Nat.add_sub_cancel,
      List.getElem?_map, hget]
    rfl
  have hmin : min (offset + front.length) (front ++ back).length =
      min offset back.length + front.length := by
    rw [List.length_append]
    omega
  have hdrop : (front ++ back).drop (start + front.length) = back.drop start := by
    rw [Nat.add_comm, ← List.drop_drop, List.drop_left]
  rw [positionAt_eq hmin hcount' hget', positionAt_eq rfl hcount hget, hlines, hdrop,
    Nat.add_sub_add_right]
  rfl

/-! ## Diagnostics -/

/-- The diagnostic `lines` lines further down. -/
def Diagnostic.down (lines : Nat) (d : Diagnostic) : Diagnostic :=
  { d with range := ⟨d.range.start.down lines, d.range.stop.down lines⟩ }

/-- Two moves down are one. -/
theorem Diagnostic.down_down (d : Diagnostic) (lines more : Nat) :
    (d.down lines).down more = d.down (lines + more) := by
  unfold Diagnostic.down Position.down
  simp only [Int.add_assoc, Int.natCast_add]

/-- What is found in the first of two texts is reported as in that text alone. -/
theorem diagnostic_front (hapart : Apart front back) {f : Finding}
    (hf : f.span.Within 0 front.length) :
    f.diagnostic (Document.ofText (front ++ back)) = f.diagnostic (Document.ofText front) := by
  have hstart := positionAt_front hapart (Nat.le_trans hf.start_le hf.stop_le)
  have hstop := positionAt_front hapart hf.stop_le
  unfold Finding.diagnostic Problem.locate Document.rangeAt
  simp only [Span.toInt]
  rw [hstart, hstop]

/-- What is found behind a line break is reported as in the text from there on, further
down by the lines that end before. -/
theorem diagnostic_back (hapart : Apart front back) {b : Char} (hlast : front.getLast? = some b)
    (hb : isBreak b = true) (f : Finding) :
    (f.shift front.length).diagnostic (Document.ofText (front ++ back)) =
      (f.diagnostic (Document.ofText back)).down ((Document.ofText front).lineCount - 1) := by
  have hstart := positionAt_back hapart hlast hb f.span.start
  have hstop := positionAt_back hapart hlast hb f.span.stop
  unfold Finding.diagnostic Problem.locate Document.rangeAt
  simp only [Span.toInt, Finding.relocate, Span.relocate]
  rw [hstart, hstop]
  rfl

end DockerfileLint
