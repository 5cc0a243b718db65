import DockerfileLint.Proofs.Lines

/-!
# Positions and the offsets they stand for

A position is a line and a column, and a column can only lie in the content of its
line.  So an offset behind the carriage return of a line break of two characters has
no position of its own: it gets a column past the content of its line, and the way
back leads to the end of that content.  Every other offset is found again from its
position.

* `positionAt_strictMono`, `positionAt_mono`: positions are in the order of their offsets;
* `holds_positionAt`: the position of an offset that splits no line break is one of the
  document;
* `offsetAt_positionAt`: and it leads back to the offset.
-/

namespace DockerfileLint

variable {cs rest text : List Char} {off n offset line start : Nat}

/-! ## The lines one after the other -/

/-- How far it is from the start of a line to the start of the next one, if the text
has another line. -/
def nextLine? (cs : List Char) : Option Nat :=
  (lineBreak? (afterFirstLine cs)).map fun (n, _) => (firstLine cs).length + n

/-- A text that starts with a line break has an empty first line. -/
theorem nextLine?_of_lineBreak? (h : lineBreak? cs = some (n, rest)) :
    nextLine? cs = some n := by
  obtain ⟨c, tail, rfl, hc⟩ : ∃ c tail, cs = c :: tail ∧ isBreak c = true := by
    rcases lineBreak?_cases h with ⟨-, rfl⟩ | ⟨-, rfl, -⟩ | ⟨-, rfl⟩
    · exact ⟨_, _, rfl, rfl⟩
    · exact ⟨_, _, rfl, rfl⟩
    · exact ⟨_, _, rfl, rfl⟩
  have hfirst : firstLine (c :: tail) = [] := by
    simp [firstLine, hc]
  have hafter : afterFirstLine (c :: tail) = c :: tail := by
    simp [afterFirstLine, hc]
  unfold nextLine?
  rw [hfirst, hafter, h]
  simp

/-- Any other character belongs to the first line. -/
theorem nextLine?_cons {c : Char} (h : isBreak c = false) :
    nextLine? (c :: cs) = (nextLine? cs).map (· + 1) := by
  have hfirst : firstLine (c :: cs) = c :: firstLine cs := by
    simp [firstLine, h]
  have hafter : afterFirstLine (c :: cs) = afterFirstLine cs := by
    simp [afterFirstLine, h]
  unfold nextLine?
  rw [hfirst, hafter, Option.map_map]
  congr 1
  funext p
  simp only [Function.comp_apply, List.length_cons]
  omega

/-- The start of a line tells where the next one starts. -/
theorem laterLineStarts_next (off : Nat) (cs : List Char) (line : Nat) {start : Nat}
    (hstart : (off :: laterLineStarts off cs)[line]? = some start) :
    off ≤ start ∧ (off :: laterLineStarts off cs)[line + 1]? =
      (nextLine? (cs.drop (start - off))).map (start + ·) := by
  induction off, cs using lines_induction generalizing line start with
  | nil off =>
      cases line with
      | zero =>
          obtain rfl : off = start := by simpa using hstart
          exact ⟨Nat.le_refl off, by simp [nextLine?, afterFirstLine, lineBreak?]⟩
      | succ line => simp at hstart
  | lineBreak off cs n rest h ih =>
      rw [laterLineStarts_of_lineBreak? h] at hstart ⊢
      cases line with
      | zero =>
          obtain rfl : off = start := by simpa using hstart
          refine ⟨Nat.le_refl off, ?_⟩
          rw [Nat.sub_self, List.drop_zero, nextLine?_of_lineBreak? h]
          rfl
      | succ line =>
          obtain ⟨breaks, rfl, rfl, -⟩ := lineBreak?_eq_append h
          obtain ⟨hle, hnext⟩ := ih line hstart
          have hdrop : (breaks ++ rest).drop (start - off) =
              rest.drop (start - (off + breaks.length)) := by
            have hcount : start - off = breaks.length + (start - (off + breaks.length)) := by
              omega
            rw [hcount, ← List.drop_drop, List.drop_left]
          refine ⟨by omega, ?_⟩
          rw [List.getElem?_cons_succ, hnext, hdrop]
  | char off c cs h ih =>
      rw [laterLineStarts_cons h] at hstart ⊢
      cases line with
      | zero =>
          obtain rfl : off = start := by simpa using hstart
          obtain ⟨-, hnext⟩ := ih 0 rfl
          refine ⟨Nat.le_refl off, ?_⟩
          rw [List.getElem?_cons_succ] at hnext ⊢
          rw [hnext, Nat.sub_self, Nat.sub_self, List.drop_zero, List.drop_zero,
            nextLine?_cons h, Option.map_map]
          congr 1
          funext k
          simp only [Function.comp_apply]
          omega
      | succ line =>
          obtain ⟨hle, hnext⟩ := ih (line + 1) hstart
          have hdrop : (c :: cs).drop (start - off) = cs.drop (start - (off + 1)) := by
            have hcount : start - off = start - (off + 1) + 1 := by
              omega
            rw [hcount, List.drop_succ_cons]
          refine ⟨by omega, ?_⟩
          rw [List.getElem?_cons_succ] at hnext ⊢
          rw [hnext, hdrop]

/-- The next line starts behind the next line break, if there is one. -/
theorem lineStartsOf_next (h : (lineStartsOf text)[line]? = some start) :
    (lineStartsOf text)[line + 1]? = (nextLine? (text.drop start)).map (start + ·) := by
  rw [lineStartsOf_eq] at h ⊢
  exact (laterLineStarts_next 0 text line h).2

/-- Lines start one behind the other. -/
theorem laterLineStarts_pairwise (off : Nat) (cs : List Char) :
    (off :: laterLineStarts off cs).Pairwise (· < ·) := by
  induction off, cs using lines_induction with
  | nil off => simp
  | lineBreak off cs n rest h ih =>
      have hwithin := laterLineStarts_within off cs
      rw [laterLineStarts_of_lineBreak? h] at hwithin ⊢
      exact List.pairwise_cons.mpr ⟨fun start hstart => (hwithin start hstart).1, ih⟩
  | char off c cs h ih =>
      have hwithin := laterLineStarts_within off (c :: cs)
      rw [laterLineStarts_cons h] at hwithin ⊢
      exact List.pairwise_cons.mpr
        ⟨fun start hstart => (hwithin start hstart).1, (List.pairwise_cons.mp ih).2⟩

/-- Later lines start at greater offsets. -/
theorem lineStartsOf_pairwise (cs : List Char) : (lineStartsOf cs).Pairwise (· < ·) := by
  rw [lineStartsOf_eq]
  exact laterLineStarts_pairwise 0 cs

/-- In a rising list the numbers up to a bound come first. -/
theorem getElem?_of_countP {l : List Nat} (hl : l.Pairwise (· < ·)) {bound k : Nat}
    (h : l.countP (· ≤ bound) = k + 1) :
    ∃ s, l[k]? = some s ∧ s ≤ bound ∧ ∀ next, l[k + 1]? = some next → bound < next := by
  induction l generalizing k with
  | nil => simp at h
  | cons a l ih =>
      obtain ⟨hlater, hl⟩ := List.pairwise_cons.mp hl
      by_cases ha : a ≤ bound
      · rw [List.countP_cons_of_pos (by simpa using ha)] at h
        cases k with
        | zero =>
            refine ⟨a, rfl, ha, fun next hnext => ?_⟩
            have hnone := List.countP_eq_zero.mp (Nat.succ.inj h) next
              (List.mem_of_getElem? hnext)
            simpa using hnone
        | succ k => exact ih hl (Nat.succ.inj h)
      · have hnone : (a :: l).countP (· ≤ bound) = 0 := by
          rw [List.countP_eq_zero]
          intro s hs
          rcases List.mem_cons.mp hs with rfl | hs
          · simpa using ha
          · have hlt := hlater s hs
            simp only [decide_eq_true_eq]
            omega
        omega

/-! ## The content of a line -/

/-- Dropping breaks from the end of a text leaves nothing of the break that ends a
line. -/
theorem trimEnd_append_breaks {breaks : List Char} (hbreaks : ∀ b ∈ breaks, isBreak b = true)
    (hline : ∀ c ∈ cs, isBreak c = false) : trimEnd isBreak (cs ++ breaks) = cs := by
  rw [trimEnd_append cs hbreaks]
  unfold trimEnd
  cases hlast : cs.reverse with
  | nil => simpa using hlast
  | cons c before =>
      have hc : isBreak c = false := by
        apply hline c
        rw [← List.mem_reverse, hlast]
        exact List.mem_cons_self
      rw [List.dropWhile_cons_of_neg (by simp [hc]), ← hlast, List.reverse_reverse]

/-- Where no line follows, the first line is all there is. -/
theorem firstLine_of_nextLine?_eq_none (h : nextLine? cs = none) : firstLine cs = cs := by
  have hafter : afterFirstLine cs = [] := by
    cases hrest : afterFirstLine cs with
    | nil => rfl
    | cons b more =>
        have hsome := lineBreak?_isSome more (isBreak_of_afterFirstLine hrest)
        rw [← hrest] at hsome
        simp [nextLine?, Option.isSome_iff_ne_none] at h hsome
        exact absurd h hsome
  have hall := firstLine_append_afterFirstLine cs
  rwa [hafter, List.append_nil] at hall

/-- A line runs to the break in front of the next one. -/
theorem take_of_nextLine? (h : nextLine? cs = some n) :
    ∃ breaks, cs.take n = firstLine cs ++ breaks ∧ breaks.length ≤ 2 ∧ 0 < breaks.length ∧
      (∀ b ∈ breaks, isBreak b = true) ∧ (breaks.length = 2 → breaks = ['\r', '\n']) := by
  unfold nextLine? at h
  obtain ⟨⟨k, more⟩, hk, rfl⟩ := Option.map_eq_some_iff.mp h
  have hall := firstLine_append_afterFirstLine cs
  have htake : ∀ breaks, afterFirstLine cs = breaks ++ more → breaks.length = k →
      cs.take ((firstLine cs).length + k) = firstLine cs ++ breaks := by
    intro breaks hbreaks hlength
    have hcount : (firstLine cs).length + k = (firstLine cs ++ breaks).length := by
      rw [List.length_append, hlength]
    have hprefix : firstLine cs ++ breaks <+: cs := by
      refine ⟨more, ?_⟩
      rw [List.append_assoc, ← hbreaks, hall]
    rw [hcount]
    exact (List.prefix_iff_eq_take.mp hprefix).symm
  rcases lineBreak?_cases hk with ⟨rfl, hcs⟩ | ⟨rfl, hcs, -⟩ | ⟨rfl, hcs⟩
  · exact ⟨['\r', '\n'], htake _ hcs rfl, by simp, by simp, by simp [isBreak], fun _ => rfl⟩
  · exact ⟨['\r'], htake _ hcs rfl, by simp, by simp, by simp [isBreak], by simp⟩
  · exact ⟨['\n'], htake _ hcs rfl, by simp, by simp, by simp [isBreak], by simp⟩

/-- The content of a line is its text up to the first break. -/
theorem lineContent_eq_firstLine (h : (lineStartsOf text)[line]? = some start) :
    (Document.ofText text).lineContent line = firstLine (text.drop start) := by
  have hstart := lineStart_eq h
  have hcount : (Document.ofText text).lineCount = (lineStartsOf text).length := rfl
  unfold Document.lineContent
  rw [hstart, hcount]
  have hnext := lineStartsOf_next h
  cases hn : nextLine? (text.drop start) with
  | none =>
      rw [hn] at hnext
      have hlast : ¬ line + 1 < (lineStartsOf text).length := by
        simpa using hnext
      rw [if_neg hlast, firstLine_of_nextLine?_eq_none hn]
      rfl
  | some n =>
      rw [hn, Option.map_some] at hnext
      have hlt : line + 1 < (lineStartsOf text).length :=
        (List.getElem?_eq_some_iff.mp hnext).1
      have hstop := lineStart_eq hnext
      obtain ⟨breaks, htake, -, -, hbreaks, -⟩ := take_of_nextLine? hn
      rw [if_pos hlt, hstop]
      show trimEnd isBreak ((text.drop start).take (start + n - start)) = _
      rw [Nat.add_sub_cancel_left, htake,
        trimEnd_append_breaks hbreaks fun c hc => isBreak_eq_false_of_mem_firstLine hc]

/-! ## Offsets that split no line break -/

/-- A character that is no break stands at an offset of the text. -/
def StandsAt (text : List Char) (offset : Nat) : Prop :=
  ∃ c, text[offset]? = some c ∧ isBreak c = false

/-- No line break runs across an offset of the text. -/
def SplitsNoBreak (text : List Char) (offset : Nat) : Prop :=
  offset ≤ text.length ∧ Apart (text.take offset) (text.drop offset)

/-- The start of a text splits no line break. -/
theorem splitsNoBreak_zero (text : List Char) : SplitsNoBreak text 0 :=
  ⟨Nat.zero_le _, by simp [Apart]⟩

/-- A line break does not run across the place where a character starts. -/
theorem StandsAt.splitsNoBreak (h : StandsAt text offset) : SplitsNoBreak text offset := by
  obtain ⟨c, hc, hbreak⟩ := h
  refine ⟨Nat.le_of_lt (List.getElem?_eq_some_iff.mp hc).1, ?_⟩
  intro _
  rw [List.head?_drop, hc]
  intro heq
  obtain rfl := Option.some.inj heq
  cases hbreak

/-- Nor across the place where it ends. -/
theorem StandsAt.splitsNoBreak_succ (h : StandsAt text offset) :
    SplitsNoBreak text (offset + 1) := by
  obtain ⟨c, hc, hbreak⟩ := h
  obtain ⟨hlt, -⟩ := List.getElem?_eq_some_iff.mp hc
  refine ⟨hlt, ?_⟩
  intro hlast
  rw [List.take_add_one, hc, Option.toList_some, List.getLast?_concat] at hlast
  obtain rfl := Option.some.inj hlast
  cases hbreak

/-- Every offset that splits no line break lies on a line, in or behind its content. -/
theorem exists_line_of_splitsNoBreak (h : SplitsNoBreak text offset) :
    ∃ line start, (lineStartsOf text).countP (· ≤ offset) = line + 1 ∧
      (lineStartsOf text)[line]? = some start ∧ start ≤ offset ∧
      offset ≤ start + (firstLine (text.drop start)).length := by
  obtain ⟨hlength, hapart⟩ := h
  obtain ⟨line, start, hcount, hget, -⟩ := exists_line text offset
  obtain ⟨s, hs, hle, hnext⟩ := getElem?_of_countP (lineStartsOf_pairwise text) hcount
  obtain rfl : start = s := by
    rw [hget] at hs
    exact Option.some.inj hs
  refine ⟨line, start, hcount, hget, hle, ?_⟩
  have hstep := lineStartsOf_next hget
  cases hn : nextLine? (text.drop start) with
  | none =>
      rw [firstLine_of_nextLine?_eq_none hn, List.length_drop]
      omega
  | some n =>
      rw [hn, Option.map_some] at hstep
      have hlt := hnext _ hstep
      obtain ⟨breaks, htake, htwo, hpos, -, hpair⟩ := take_of_nextLine? hn
      have hn' : n = (firstLine (text.drop start)).length + breaks.length := by
        have hbound : n ≤ (text.drop start).length := by
          have hmem := lineStartsOf_le (List.mem_of_getElem? hstep)
          rw [List.length_drop]
          omega
        have hlen := congrArg List.length htake
        rwa [List.length_take_of_le hbound, List.length_append] at hlen
      by_cases hone : breaks.length = 2
      · -- Only the offset between the two characters of the break is ruled out.
        by_cases hmid : offset = start + (firstLine (text.drop start)).length + 1
        · exfalso
          rw [hpair hone] at htake
          have hfront : text[offset - 1]? = some '\r' := by
            have hget := congrArg (·[(firstLine (text.drop start)).length]?) htake
            simp only [List.getElem?_take, List.getElem?_drop] at hget
            rw [if_pos (by omega)] at hget
            rw [show offset - 1 = start + (firstLine (text.drop start)).length by omega, hget]
            simp
          have hback : text[offset]? = some '\n' := by
            have hget := congrArg (·[(firstLine (text.drop start)).length + 1]?) htake
            simp only [List.getElem?_take, List.getElem?_drop] at hget
            rw [if_pos (by omega)] at hget
            rw [show offset = start + ((firstLine (text.drop start)).length + 1) by omega, hget]
            simp
          apply hapart
          · rw [List.getLast?_take, if_neg (by omega), hfront]
            rfl
          · rw [List.head?_drop, hback]
        · omega
      · omega

/-- What comes before an offset on its line is part of the content of the line. -/
theorem take_drop_eq_take_firstLine
    (h : offset ≤ start + (firstLine (text.drop start)).length) :
    (text.drop start).take (offset - start) =
      (firstLine (text.drop start)).take (offset - start) := by
  conv => lhs; rw [← firstLine_append_afterFirstLine (text.drop start)]
  exact List.take_append_of_le_length (by omega)

/-! ## Columns -/

/-- Every character has a width. -/
theorem utf16Width_pos (c : Char) : 0 < utf16Width c := by
  unfold utf16Width
  split <;> omega

/-- An empty text has no length. -/
@[simp] theorem utf16Length_nil : utf16Length [] = 0 := rfl

/-- The first character adds its width. -/
@[simp] theorem utf16Length_cons (c : Char) (cs : List Char) :
    utf16Length (c :: cs) = utf16Width c + utf16Length cs := by
  simp [utf16Length]

/-- More characters take more columns. -/
theorem utf16Length_take_mono (cs : List Char) {k m : Nat} (h : k ≤ m) :
    utf16Length (cs.take k) ≤ utf16Length (cs.take m) := by
  induction cs generalizing k m with
  | nil => simp
  | cons c cs ih =>
      cases k with
      | zero => simp
      | succ k =>
          obtain ⟨m, rfl⟩ : ∃ j, m = j + 1 := ⟨m - 1, by omega⟩
          simpa using ih (Nat.le_of_succ_le_succ h)

/-- One more character takes one more column at least. -/
theorem utf16Length_take_lt {k m : Nat} (h : k < m) (hm : m ≤ cs.length) :
    utf16Length (cs.take k) < utf16Length (cs.take m) := by
  have hlt : k < cs.length := Nat.lt_of_lt_of_le h hm
  have hsucc : utf16Length (cs.take (k + 1)) = utf16Length (cs.take k) + utf16Width cs[k] := by
    clear h hm
    induction cs generalizing k with
    | nil => simp at hlt
    | cons c cs ih =>
        cases k with
        | zero => simp
        | succ k =>
            have hrest := ih (k := k) (by simpa using hlt)
            simp only [List.take_succ_cons, utf16Length_cons, List.getElem_cons_succ] at hrest ⊢
            omega
  have hpos := utf16Width_pos cs[k]
  have hmono := utf16Length_take_mono cs (k := k + 1) (m := m) h
  omega

/-- The front of a text is no longer than the text. -/
theorem utf16Length_take_le (cs : List Char) (k : Nat) :
    utf16Length (cs.take k) ≤ utf16Length cs := by
  by_cases h : k ≤ cs.length
  · simpa using utf16Length_take_mono cs h
  · exact Nat.le_of_eq (by rw [List.take_of_length_le (by omega)])

/-- As many characters come before a column as it takes to fill it. -/
theorem charactersBefore_utf16Length (cs : List Char) {k : Nat} (h : k ≤ cs.length) :
    charactersBefore (utf16Length (cs.take k)) cs = k := by
  induction cs generalizing k with
  | nil =>
      obtain rfl : k = 0 := by simpa using h
      rfl
  | cons c cs ih =>
      cases k with
      | zero => simp [charactersBefore]
      | succ k =>
          have hpos := utf16Width_pos c
          have hsub : ((utf16Width c + utf16Length (cs.take k) : Nat) : Int) - utf16Width c =
              utf16Length (cs.take k) := by
            omega
          rw [List.take_succ_cons, utf16Length_cons, charactersBefore, if_pos (by omega), hsub,
            ih (by simpa using h)]

/-! ## Positions -/

/-- A position of a document: its line is there, and its column lies between two
characters of the content of the line. -/
structure Document.Holds (d : Document) (p : Position) : Prop where
  line_nonneg : 0 ≤ p.line
  line_lt : p.line < d.lineCount
  character_nonneg : 0 ≤ p.character
  character_le : p.character ≤ utf16Length (d.lineContent p.line.toNat)
  whole : ∃ k, p.character = utf16Length ((d.lineContent p.line.toNat).take k)

/-- Later offsets of a text have later positions. -/
theorem positionAt_strictMono {a b : Nat} (h : a < b) (hb : b ≤ text.length) :
    (Document.ofText text).positionAt a < (Document.ofText text).positionAt b := by
  obtain ⟨line, start, hcount, hget, -⟩ := exists_line text a
  obtain ⟨line', start', hcount', hget', -⟩ := exists_line text b
  have hmono : (lineStartsOf text).countP (· ≤ a) ≤ (lineStartsOf text).countP (· ≤ b) := by
    apply List.countP_mono_left
    intro s _ hs
    simp only [decide_eq_true_eq] at hs ⊢
    omega
  rw [positionAt_eq (Nat.min_eq_left (by omega)) hcount hget,
    positionAt_eq (Nat.min_eq_left hb) hcount' hget', Position.lt_iff]
  by_cases hline : line = line'
  · subst hline
    obtain rfl : start = start' := by
      rw [hget] at hget'
      exact Option.some.inj hget'
    obtain ⟨s, hs, hle, -⟩ := getElem?_of_countP (lineStartsOf_pairwise text) hcount
    obtain rfl : start = s := by
      rw [hget] at hs
      exact Option.some.inj hs
    refine .inr ⟨rfl, Int.ofNat_lt.mpr (utf16Length_take_lt (by omega) ?_)⟩
    rw [List.length_drop]
    omega
  · left
    show (line : Int) < line'
    omega

/-- Positions are in the order of their offsets, of those outside the text as well. -/
theorem positionAt_mono (text : List Char) {a b : Nat} (h : a ≤ b) :
    (Document.ofText text).positionAt a ≤ (Document.ofText text).positionAt b := by
  have hclamp (offset : Nat) : (Document.ofText text).positionAt (offset : Int) =
      (Document.ofText text).positionAt ((min offset text.length : Nat) : Int) := by
    have hsame : (Document.ofText text).clamp (offset : Int) =
        (Document.ofText text).clamp ((min offset text.length : Nat) : Int) := by
      show min offset text.length = min (min offset text.length) text.length
      omega
    unfold Document.positionAt
    rw [hsame]
  rw [hclamp a, hclamp b]
  rcases Nat.lt_or_ge (min a text.length) (min b text.length) with hlt | hge
  · rcases positionAt_strictMono hlt (Nat.min_le_right _ _) with hline | hcolumn
    · exact .inl hline
    · exact .inr ⟨hcolumn.1, Int.le_of_lt hcolumn.2⟩
  · rw [Nat.le_antisymm (by omega : min a text.length ≤ min b text.length) hge]
    exact .inr ⟨rfl, Int.le_refl _⟩

/-- The position of an offset that splits no line break, as a column of its line. -/
theorem positionAt_of_splitsNoBreak (h : SplitsNoBreak text offset) :
    ∃ line start : Nat, (lineStartsOf text)[line]? = some start ∧
      start ≤ offset ∧ offset ≤ start + (firstLine (text.drop start)).length ∧
      (Document.ofText text).positionAt offset =
        ⟨line, utf16Length ((firstLine (text.drop start)).take (offset - start))⟩ := by
  obtain ⟨line, start, hcount, hget, hle, hcontent⟩ := exists_line_of_splitsNoBreak h
  refine ⟨line, start, hget, hle, hcontent, ?_⟩
  rw [positionAt_eq (Nat.min_eq_left h.1) hcount hget, take_drop_eq_take_firstLine hcontent]

/-- The position of an offset that splits no line break is one of the document. -/
theorem holds_positionAt (h : SplitsNoBreak text offset) :
    (Document.ofText text).Holds ((Document.ofText text).positionAt offset) := by
  obtain ⟨line, start, hget, hle, hcontent, hposition⟩ := positionAt_of_splitsNoBreak h
  have hline := lineContent_eq_firstLine hget
  have hlt : line < (lineStartsOf text).length := (List.getElem?_eq_some_iff.mp hget).1
  rw [hposition]
  refine ⟨Int.natCast_nonneg line, Int.ofNat_lt.mpr hlt, Int.natCast_nonneg _, ?_, ?_⟩
  · rw [Int.toNat_natCast, hline]
    exact Int.ofNat_le.mpr (utf16Length_take_le _ _)
  · exact ⟨offset - start, by rw [Int.toNat_natCast, hline]⟩

/-- The offset of a position is as far from the start of its line as characters come before
its column. -/
theorem offsetAt_onLine (hget : (lineStartsOf text)[line]? = some start) (character : Int) :
    (Document.ofText text).offsetAt ⟨line, character⟩ =
      start + charactersBefore character (firstLine (text.drop start)) := by
  have hlt : line < (lineStartsOf text).length := (List.getElem?_eq_some_iff.mp hget).1
  have hcount : (Document.ofText text).lineCount = (lineStartsOf text).length := rfl
  have hstart := lineStart_eq hget
  unfold Document.offsetAt
  rw [if_neg (by simp only; omega), if_neg (by simp only [hcount]; omega)]
  simp only [Int.toNat_natCast, hstart, lineContent_eq_firstLine hget]

/-- An offset that splits no line break is found again from its position. -/
theorem offsetAt_positionAt (h : SplitsNoBreak text offset) :
    (Document.ofText text).offsetAt ((Document.ofText text).positionAt offset) = offset := by
  obtain ⟨line, start, hget, hle, hcontent, hposition⟩ := positionAt_of_splitsNoBreak h
  rw [hposition, offsetAt_onLine hget,
    charactersBefore_utf16Length (firstLine (text.drop start)) (by omega)]
  omega

end DockerfileLint
