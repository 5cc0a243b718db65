import DockerfileLint.Proofs.FinalBreak

/-!
# The verdict on a list

The walk along a bracketed list keeps five things in mind, and three of them are flags that
hold each other's reports back.  What it reports in the end can be said without them, of
the characters that it reads: those behind the bracket up to a line break, less the
continuations that stand outside strings.

Such a character breaks the list if it is foreign to it, or if it is a quote that opens a
string and no comma has come since another string has closed.  The first one that does is
reported, and a quote ends the walk there.  If none does, the list can still break off
behind its last character: it does if no bracket has closed it, or if the text ends in a
string.

* `ArrayState.Remembers`: what the state of the walk says of the characters read so far;
* `walkArray_of_fault`: behind a fault the walk only looks for the end of the line;
* `walkArray_judged`: the run of the walk along a text;
* `checkArray_verdict`: the verdict on a list.
-/

namespace DockerfileLint

variable {esc : Escape} {text cs rest : List Char} {off n bracket : Nat} {c : Char}

/-! ## The characters of a list -/

/-- A blank is none of the characters that are not blank. -/
theorem ne_of_isBlank {d : Char} (hc : isBlank c = true) (hd : isBlank d = false) : c ≠ d := by
  rintro rfl
  rw [hc] at hd
  cases hd

/-- A character that is read along a list, with its offset.  It is `quoted` if it stands in
a string; of the two quotes around a string the one that closes it is. -/
structure ListMark where
  char : Char
  place : Nat
  quoted : Bool
deriving DecidableEq, Repr

namespace ListMark

/-- A quote that opens a string. -/
def opens (m : ListMark) : Bool :=
  m.char = '"' ∧ m.quoted = false

/-- A quote that closes a string. -/
def closes (m : ListMark) : Bool :=
  m.char = '"' ∧ m.quoted = true

/-- A comma between strings. -/
def isComma (m : ListMark) : Bool :=
  m.char = ',' ∧ m.quoted = false

/-- A closing bracket outside strings. -/
def isBracket (m : ListMark) : Bool :=
  m.char = ']' ∧ m.quoted = false

/-- A character that has no business outside strings. -/
def isForeign (m : ListMark) : Bool :=
  m.quoted = false ∧ isBlank m.char = false ∧ m.char ≠ ',' ∧ m.char ≠ ']' ∧ m.char ≠ '"'

/-- A string is open behind the character. -/
def leavesOpen (m : ListMark) : Bool :=
  if m.char = '"' then !m.quoted else m.quoted

/-- A character without business outside strings opens none. -/
theorem opens_of_isForeign {m : ListMark} (h : m.isForeign = true) : m.opens = false := by
  simp_all [isForeign, opens]

end ListMark

/-- The continuation at the head of a text, unless it stands in a string. -/
def outerContinuation? (esc : Escape) (quoted : Bool) (cs : List Char) :
    Option (Nat × List Char) :=
  if quoted then none else continuation? esc cs

/-- A continuation outside strings is one of the text. -/
theorem continuation?_of_outerContinuation? {quoted : Bool}
    (h : outerContinuation? esc quoted cs = some (n, rest)) :
    continuation? esc cs = some (n, rest) := by
  cases quoted with
  | true => cases h
  | false => exact h

/-- The characters of a text that starts at offset `off`, in a string if it is `quoted`
there, less the continuations outside strings. -/
def listMarks (esc : Escape) (quoted : Bool) (off : Nat) (cs : List Char) : List ListMark :=
  match _h : outerContinuation? esc quoted cs with
  | some (n, rest) => listMarks esc quoted (off + n) rest
  | none =>
    match cs with
    | [] => []
    | c :: cs =>
      ⟨c, off, quoted⟩ :: listMarks esc (ListMark.leavesOpen ⟨c, off, quoted⟩) (off + 1) cs
termination_by cs.length
decreasing_by
  · exact length_lt_of_continuation? (continuation?_of_outerContinuation? _h)
  · simp

/-- A continuation outside strings leaves no mark. -/
theorem listMarks_of_outerContinuation? {quoted : Bool}
    (h : outerContinuation? esc quoted cs = some (n, rest)) :
    listMarks esc quoted off cs = listMarks esc quoted (off + n) rest := by
  rw [listMarks]
  split
  · rename_i heq
    rw [h] at heq
    cases heq
    rfl
  · rename_i heq
    rw [h] at heq
    cases heq

/-- An empty text has no marks. -/
@[simp] theorem listMarks_nil {quoted : Bool} : listMarks esc quoted off [] = [] := by
  have hnone : outerContinuation? esc quoted [] = none := by
    simp [outerContinuation?, continuation?]
  rw [listMarks]
  split
  · rename_i heq
    rw [hnone] at heq
    cases heq
  · rfl

/-- Where no continuation starts, the first character is the first mark. -/
theorem listMarks_cons {quoted : Bool} (h : outerContinuation? esc quoted (c :: cs) = none) :
    listMarks esc quoted off (c :: cs) =
      ⟨c, off, quoted⟩ :: listMarks esc (ListMark.leavesOpen ⟨c, off, quoted⟩) (off + 1) cs := by
  rw [listMarks]
  split
  · rename_i heq
    rw [h] at heq
    cases heq
  · rfl

/-- A list as it is read: its characters up to a line break, the offset of that break, or
else of the end of the text, and whether it is a break. -/
structure ListReading where
  marks : List ListMark
  finish : Nat
  atBreak : Bool
deriving DecidableEq, Repr

/-- The same reading with a character in front. -/
def ListReading.cons (m : ListMark) (r : ListReading) : ListReading :=
  { r with marks := m :: r.marks }

/-- The new character is the first mark. -/
@[simp] theorem ListReading.marks_cons (m : ListMark) (r : ListReading) :
    (r.cons m).marks = m :: r.marks := rfl

/-- What is read of a text that ends at offset `ending`. -/
def ListReading.ofMarks (ending : Nat) (marks : List ListMark) : ListReading where
  marks := marks.takeWhile fun m => !isBreak m.char
  finish := ((marks.find? fun m => isBreak m.char).map ListMark.place).getD ending
  atBreak := marks.any fun m => isBreak m.char

/-- What is read of a text from offset `off` on, in a string if it is `quoted` there. -/
def readListFrom (esc : Escape) (quoted : Bool) (off : Nat) (cs : List Char) : ListReading :=
  .ofMarks (off + cs.length) (listMarks esc quoted off cs)

/-- What is read of a text behind a bracket. -/
def readList (esc : Escape) (text : List Char) (bracket : Nat) : ListReading :=
  .ofMarks text.length (listMarks esc false (bracket + 1) (text.drop (bracket + 1)))

section

variable {quoted : Bool}

/-- A continuation outside strings is passed. -/
theorem readListFrom_of_outerContinuation?
    (h : outerContinuation? esc quoted cs = some (n, rest)) :
    readListFrom esc quoted off cs = readListFrom esc quoted (off + n) rest := by
  have hlength := length_of_continuation? (continuation?_of_outerContinuation? h)
  unfold readListFrom
  rw [listMarks_of_outerContinuation? h, hlength, ← Nat.add_assoc]

/-- The end of a text is no line break. -/
@[simp] theorem readListFrom_nil : readListFrom esc quoted off [] = ⟨[], off, false⟩ := by
  unfold readListFrom
  rw [listMarks_nil]
  rfl

/-- A line break ends the reading in front of it. -/
theorem readListFrom_break (h : outerContinuation? esc quoted (c :: cs) = none)
    (hc : isBreak c = true) : readListFrom esc quoted off (c :: cs) = ⟨[], off, true⟩ := by
  unfold readListFrom
  rw [listMarks_cons h]
  simp [ListReading.ofMarks, hc]

/-- Any other character is read, and the reading goes on behind it. -/
theorem readListFrom_cons (h : outerContinuation? esc quoted (c :: cs) = none)
    (hc : isBreak c = false) :
    readListFrom esc quoted off (c :: cs) =
      (readListFrom esc (ListMark.leavesOpen ⟨c, off, quoted⟩) (off + 1) cs).cons
        ⟨c, off, quoted⟩ := by
  unfold readListFrom
  rw [listMarks_cons h, List.length_cons, Nat.add_comm cs.length, ← Nat.add_assoc]
  simp [ListReading.ofMarks, ListReading.cons, hc]

/-- A text is read to its end unless a break comes before. -/
theorem readList_eq_readListFrom (hlt : bracket < text.length) :
    readList esc text bracket =
      readListFrom esc false (bracket + 1) (text.drop (bracket + 1)) := by
  unfold readList readListFrom
  rw [List.length_drop, Nat.add_sub_cancel' hlt]

end

/-! ## What breaks a list -/

/-- A string has closed and no comma has come since. -/
def CommaOwed (marks : List ListMark) : Prop :=
  ∃ front q back, marks = front ++ q :: back ∧ q.closes = true ∧ ∀ m ∈ back, m.isComma = false

/-- A character breaks a list behind those before it: it has no business there, or it opens
a string where a comma is owed. -/
def Breaks (before : List ListMark) (m : ListMark) : Prop :=
  m.isForeign = true ∨ m.opens = true ∧ CommaOwed before

/-- No character breaks the list. -/
def Unbroken (marks : List ListMark) : Prop :=
  ∀ before m after, marks = before ++ m :: after → ¬ Breaks before m

/-- A place in a list with one more entry is the last one, or a place in the list. -/
theorem append_cons_eq_snoc_iff {α : Type} {front back before : List α} {a b : α} :
    before ++ [b] = front ++ a :: back ↔
      before = front ∧ b = a ∧ back = [] ∨
        ∃ back', before = front ++ a :: back' ∧ back = back' ++ [b] := by
  constructor
  · intro h
    rcases List.eq_nil_or_concat back with rfl | ⟨back', x, rfl⟩
    · obtain ⟨rfl, hlast⟩ := List.append_inj' h rfl
      exact .inl ⟨rfl, List.head_eq_of_cons_eq hlast, rfl⟩
    · rw [List.concat_eq_append, ← List.cons_append, ← List.append_assoc] at h
      obtain ⟨rfl, hlast⟩ := List.append_inj' h rfl
      cases hlast
      exact .inr ⟨back', rfl, List.concat_eq_append⟩
  · rintro (⟨rfl, rfl, rfl⟩ | ⟨back', rfl, rfl⟩)
    · rfl
    · simp

/-- No comma is owed behind the bracket. -/
theorem commaOwed_nil : ¬ CommaOwed [] := by
  rintro ⟨front, q, back, h, -⟩
  simp at h

/-- Nothing breaks a list in which nothing stands. -/
theorem unbroken_nil : Unbroken [] := by
  intro before m after h
  simp at h

/-- A comma is owed behind a string that closes, and stays owed until one comes. -/
theorem commaOwed_snoc {before : List ListMark} {m : ListMark} :
    CommaOwed (before ++ [m]) ↔ m.closes = true ∨ CommaOwed before ∧ m.isComma = false := by
  constructor
  · rintro ⟨front, q, back, h, hq, hback⟩
    rcases append_cons_eq_snoc_iff.mp h with ⟨-, rfl, -⟩ | ⟨back', rfl, rfl⟩
    · exact .inl hq
    · refine .inr ⟨⟨front, q, back', rfl, hq, ?_⟩, hback m (by simp)⟩
      exact fun x hx => hback x (List.mem_append_left _ hx)
  · rintro (hm | ⟨⟨front, q, back, rfl, hq, hback⟩, hm⟩)
    · exact ⟨before, m, [], rfl, hm, by simp⟩
    · refine ⟨front, q, back ++ [m], by simp, hq, ?_⟩
      intro x hx
      rcases List.mem_append.mp hx with hx | hx
      · exact hback x hx
      · rw [List.mem_singleton.mp hx]
        exact hm

/-- A list with one more character is unbroken if it was and the character does not break
it. -/
theorem unbroken_snoc {before : List ListMark} {m : ListMark} :
    Unbroken (before ++ [m]) ↔ Unbroken before ∧ ¬ Breaks before m := by
  constructor
  · intro h
    refine ⟨?_, h before m [] rfl⟩
    rintro front x back rfl
    exact h front x (back ++ [m]) (by simp)
  · rintro ⟨hbefore, hm⟩ front x back h
    rcases append_cons_eq_snoc_iff.mp h with ⟨rfl, rfl, -⟩ | ⟨back', rfl, -⟩
    · exact hm
    · exact hbefore front x back' rfl

/-- The text is in a string behind its characters. -/
def endsOpen (marks : List ListMark) : Bool :=
  marks.getLast?.any ListMark.leavesOpen

/-- The place of the last character that is not blank, the bracket included. -/
def lastPlace (bracket : Nat) (marks : List ListMark) : Nat :=
  ((marks.filter fun m => !isBlank m.char).getLast?.map ListMark.place).getD bracket

/-- A list breaks off behind its last character: no bracket has closed it, or it comes to the
end of the text, and not to a line break, in a string. -/
def breaksOff (atBreak : Bool) (marks : List ListMark) : Bool :=
  !marks.any ListMark.isBracket || !atBreak && endsOpen marks

/-- The last character decides whether a string is open behind it. -/
@[simp] theorem endsOpen_snoc {before : List ListMark} {m : ListMark} :
    endsOpen (before ++ [m]) = m.leavesOpen := by
  simp [endsOpen]

/-- The last character is the last place unless it is blank. -/
theorem lastPlace_snoc {before : List ListMark} {m : ListMark} :
    lastPlace bracket (before ++ [m]) =
      if isBlank m.char then lastPlace bracket before else m.place := by
  cases hm : isBlank m.char <;> simp [lastPlace, List.filter_append, hm]

/-! ## What the walk remembers -/

namespace ArrayState

variable {s : ArrayState} {before : List ListMark}

/-- What the state of a walk says of the characters read so far, if none of them has been
reported. -/
structure Remembers (s : ArrayState) (bracket : Nat) (before : List ListMark) : Prop where
  inString : s.inString = endsOpen before
  commaDue : s.commaDue = true ↔ CommaOwed before
  closed : s.closed = before.any ListMark.isBracket
  fault : s.fault = none
  last : s.last = lastPlace bracket before

/-- A walk starts with the bracket as its last place, and with nothing reported. -/
theorem remembers_bracket : Remembers { last := bracket } bracket [] where
  inString := rfl
  commaDue := by simp [commaOwed_nil]
  closed := rfl
  fault := rfl
  last := rfl

/-- In a string, the walk knows whether the next character closes it. -/
theorem inString_insideString (hin : s.inString = true) :
    (s.insideString off c).inString = ListMark.leavesOpen ⟨c, off, s.inString⟩ := by
  unfold insideString ListMark.leavesOpen
  split
  · simp [hin]
  · split <;> rfl

/-- Between strings, the walk knows whether the next character opens one. -/
theorem inString_betweenStrings (hout : s.inString = false) :
    (s.betweenStrings off c).inString = ListMark.leavesOpen ⟨c, off, s.inString⟩ := by
  unfold betweenStrings ListMark.leavesOpen
  split
  · simp [hout]
  · repeat' split
    all_goals rfl

/-- Nothing is reported in a string. -/
theorem fault_insideString : (s.insideString off c).fault = s.fault := by
  unfold insideString
  repeat' split
  all_goals rfl

/-- What has been reported stays so. -/
theorem fault_betweenStrings {p : Nat} (h : s.fault = some p) :
    (s.betweenStrings off c).fault = some p := by
  unfold betweenStrings
  repeat' split
  all_goals simp [h]

/-- A foreign character is reported, if it is the first. -/
theorem fault_betweenStrings_of_isForeign (h : s.fault = none)
    (hforeign : ListMark.isForeign ⟨c, off, s.inString⟩ = true) :
    (s.betweenStrings off c).fault = some off := by
  unfold betweenStrings
  simp_all [ListMark.isForeign]

/-- In a string a quote is remembered as the end of the string, and every other character
as the last one. -/
theorem Remembers.insideString (h : s.Remembers bracket before) (hin : s.inString = true) :
    (s.insideString off c).Remembers bracket (before ++ [⟨c, off, s.inString⟩]) where
  inString := by rw [inString_insideString hin, endsOpen_snoc]
  commaDue := by
    rw [commaOwed_snoc, ← h.commaDue]
    unfold ArrayState.insideString
    repeat' split
    all_goals simp_all [ListMark.closes, ListMark.isComma]
  closed := by
    rw [List.any_append, ← h.closed]
    unfold ArrayState.insideString
    repeat' split
    all_goals simp [ListMark.isBracket, hin]
  fault := by rw [fault_insideString, h.fault]
  last := by
    rw [lastPlace_snoc, ← h.last]
    unfold ArrayState.insideString
    repeat' split
    all_goals simp_all [isBlank]

/-- Between strings a character that does not break the list is remembered for what it
is. -/
theorem Remembers.betweenStrings (h : s.Remembers bracket before) (hout : s.inString = false)
    (hbreaks : ¬ Breaks before ⟨c, off, s.inString⟩) :
    (s.betweenStrings off c).Remembers bracket (before ++ [⟨c, off, s.inString⟩]) where
  inString := by rw [inString_betweenStrings hout, endsOpen_snoc]
  commaDue := by
    have hquote : c = '"' → s.commaDue = false := by
      rintro rfl
      rw [← Bool.not_eq_true, h.commaDue]
      exact fun howed => hbreaks (.inr ⟨by simp [ListMark.opens, hout], howed⟩)
    have hblank : isBlank c = true → c ≠ ',' := (ne_of_isBlank · rfl)
    rw [commaOwed_snoc, ← h.commaDue]
    unfold ArrayState.betweenStrings
    repeat' split
    all_goals simp_all [ListMark.closes, ListMark.isComma]
  closed := by
    have hblank : isBlank c = true → c ≠ ']' := (ne_of_isBlank · rfl)
    rw [List.any_append, ← h.closed]
    unfold ArrayState.betweenStrings
    repeat' split
    all_goals simp_all [ListMark.isBracket]
  fault := by
    unfold Breaks at hbreaks
    unfold ArrayState.betweenStrings
    repeat' split
    all_goals simp_all [ListMark.isForeign, h.fault]
  last := by
    rw [lastPlace_snoc, ← h.last]
    unfold ArrayState.betweenStrings
    repeat' split
    all_goals simp_all [isBlank]

/-- Where the walk ends at a line break, it reports a list that no bracket has closed. -/
theorem Remembers.faultAtBreak (h : s.Remembers bracket before) :
    s.faultAtBreak = if breaksOff true before then some (lastPlace bracket before) else none := by
  unfold ArrayState.faultAtBreak breaksOff
  rw [h.fault, h.closed, h.last]
  cases before.any ListMark.isBracket <;> rfl

/-- Where it ends with the text, it reports a string left open as well. -/
theorem Remembers.faultAtEnd (h : s.Remembers bracket before) :
    s.faultAtEnd = if breaksOff false before then some (lastPlace bracket before) else none := by
  unfold ArrayState.faultAtEnd breaksOff
  rw [h.fault, h.inString, h.closed, h.last, Bool.or_comm]
  rfl

end ArrayState

/-! ## The run of the walk -/

/-- Behind a fault the walk only looks for the end of the line: no quote stops it. -/
theorem walkArray_of_fault (esc : Escape) (off : Nat) (cs : List Char) {s : ArrayState} {p : Nat}
    (h : s.fault = some p) :
    (walkArray esc s off cs).fault = some p ∧
      (walkArray esc s off cs).stop = (readListFrom esc s.inString off cs).finish := by
  fun_induction walkArray esc s off cs with
  | case1 s off cs n rest hcont ih =>
      rw [readListFrom_of_outerContinuation? hcont]
      exact ih h
  | case2 s off =>
      simp [ArrayState.faultAtEnd, h]
  | case3 s off c cs hcont hc =>
      rw [readListFrom_break hcont hc]
      simp [ArrayState.faultAtBreak, h]
  | case4 s off c cs hcont hc hin ih =>
      rw [readListFrom_cons hcont (eq_false_of_ne_true hc),
        ← ArrayState.inString_insideString hin]
      exact ih (ArrayState.fault_insideString.trans h)
  | case5 s off c cs _ _ _ hdue =>
      rw [h] at hdue
      cases hdue.2.2
  | case6 s off c cs hcont hc hin _ ih =>
      rw [readListFrom_cons hcont (eq_false_of_ne_true hc),
        ← ArrayState.inString_betweenStrings (eq_false_of_ne_true hin)]
      exact ih (ArrayState.fault_betweenStrings h)

/-- The verdict on a list, with `before` the characters before those of the reading.

Either a character of the reading breaks the list; then the first that does is reported, and
the walk stops there if it is a quote.  Or none does; then the list is reported if it breaks
off, at its last character. -/
inductive Judged (bracket : Nat) (before : List ListMark) (r : ListReading) (v : ArrayVerdict) :
    Prop
  | broken (front : List ListMark) (m : ListMark) (back : List ListMark)
      (marks : r.marks = front ++ m :: back) (unbroken : Unbroken (before ++ front))
      (breaks : Breaks (before ++ front) m) (fault : v.fault = some m.place)
      (stop : v.stop = if m.opens then m.place else r.finish)
  | unbroken (unbroken : Unbroken (before ++ r.marks))
      (fault : v.fault = if breaksOff r.atBreak (before ++ r.marks) then
        some (lastPlace bracket (before ++ r.marks)) else none)
      (stop : v.stop = r.finish)

/-- A verdict does not depend on how much of the list has been read. -/
theorem Judged.cons {before : List ListMark} {m : ListMark} {r : ListReading} {v : ArrayVerdict}
    (h : Judged bracket (before ++ [m]) r v) :
    Judged bracket before (r.cons m) v := by
  cases h with
  | broken front x back hmarks hunbroken hbreaks hfault hstop =>
      rw [List.append_assoc, List.singleton_append] at hunbroken hbreaks
      exact .broken (m :: front) x back (congrArg (m :: ·) hmarks) hunbroken hbreaks hfault hstop
  | unbroken hunbroken hfault hstop =>
      rw [List.append_assoc, List.singleton_append] at hunbroken hfault
      exact .unbroken hunbroken hfault hstop

/-- The run of the walk: it judges the rest of a list as its state remembers what came
before. -/
theorem walkArray_judged {s : ArrayState} {before : List ListMark}
    (h : s.Remembers bracket before) (hbefore : Unbroken before) :
    Judged bracket before (readListFrom esc s.inString off cs) (walkArray esc s off cs) := by
  fun_induction walkArray esc s off cs generalizing before with
  | case1 s off cs n rest hcont ih =>
      rw [readListFrom_of_outerContinuation? hcont]
      exact ih h hbefore
  | case2 s off =>
      rw [readListFrom_nil]
      refine .unbroken ?_ ?_ rfl
      · rwa [List.append_nil]
      · rw [List.append_nil]
        exact h.faultAtEnd
  | case3 s off c cs hcont hc =>
      rw [readListFrom_break hcont hc]
      refine .unbroken ?_ ?_ rfl
      · rwa [List.append_nil]
      · rw [List.append_nil]
        exact h.faultAtBreak
  | case4 s off c cs hcont hc hin ih =>
      have hbreaks : ¬ Breaks before ⟨c, off, s.inString⟩ := by
        simp [Breaks, ListMark.isForeign, ListMark.opens, hin]
      rw [readListFrom_cons hcont (eq_false_of_ne_true hc),
        ← ArrayState.inString_insideString hin]
      exact (ih (h.insideString hin) (unbroken_snoc.mpr ⟨hbefore, hbreaks⟩)).cons
  | case5 s off c cs hcont hc hin hdue =>
      -- The walk ends at this quote, but the reading goes on behind it.
      have hopens : ListMark.opens ⟨c, off, s.inString⟩ = true := by
        simpa [ListMark.opens, hdue.1] using hin
      rw [readListFrom_cons hcont (eq_false_of_ne_true hc)]
      refine .broken [] _ _ rfl ?_ (.inr ⟨hopens, ?_⟩) rfl (if_pos hopens).symm
      · rwa [List.append_nil]
      · rw [List.append_nil, ← h.commaDue]
        exact hdue.2.1
  | case6 s off c cs hcont hc hin hdue ih =>
      have hout : s.inString = false := eq_false_of_ne_true hin
      rw [readListFrom_cons hcont (eq_false_of_ne_true hc),
        ← ArrayState.inString_betweenStrings hout]
      by_cases hbreaks : Breaks before ⟨c, off, s.inString⟩
      · rcases hbreaks with hforeign | ⟨hopens, howed⟩
        · have hfault := ArrayState.fault_betweenStrings_of_isForeign h.fault hforeign
          obtain ⟨hplace, hstop⟩ := walkArray_of_fault esc (off + 1) cs hfault
          refine .broken [] _ _ rfl ?_ (.inl hforeign) hplace ?_
          · rwa [List.append_nil]
          · rw [hstop, ListMark.opens_of_isForeign hforeign]
            rfl
        · -- No comma can be due at a quote that the walk goes past.
          have hquote : c = '"' := by
            simpa [ListMark.opens, hout] using hopens
          exact absurd ⟨hquote, h.commaDue.mpr howed, h.fault⟩ hdue
      · exact (ih (h.betweenStrings hout hbreaks) (unbroken_snoc.mpr ⟨hbefore, hbreaks⟩)).cons

/-- The check of a list judges what is read behind its bracket. -/
theorem judged_checkArray (esc : Escape) (h : text[bracket]? = some '[') :
    Judged bracket [] (readList esc text bracket)
      (checkArray esc bracket (text.drop (bracket + 1))) := by
  rw [readList_eq_readListFrom (List.getElem?_eq_some_iff.mp h).1]
  exact walkArray_judged ArrayState.remembers_bracket unbroken_nil

/-- **The verdict on a list.**  At most one thing is reported, one character wide.

If a character breaks the list, the first that does is reported.  The walk stops there if it
is a quote, and otherwise at the line break or the end of the text that ends the reading.

If none does, the walk stops at the end of the reading, and what is reported, if the list
breaks off, is its last character that is not blank. -/
theorem checkArray_verdict (esc : Escape) (h : text[bracket]? = some '[') :
    let verdict := checkArray esc bracket (text.drop (bracket + 1))
    let r := readList esc text bracket
    (∃ before m after, r.marks = before ++ m :: after ∧ Unbroken before ∧ Breaks before m ∧
        unexpectedAt verdict.fault = [⟨.unexpectedToken, ⟨m.place, m.place + 1⟩⟩] ∧
        verdict.stop = if m.opens then m.place else r.finish) ∨
      (Unbroken r.marks ∧
        unexpectedAt verdict.fault =
          (if breaksOff r.atBreak r.marks then
            [⟨.unexpectedToken, ⟨lastPlace bracket r.marks, lastPlace bracket r.marks + 1⟩⟩]
          else []) ∧
        verdict.stop = r.finish) := by
  intro verdict r
  cases judged_checkArray esc h with
  | broken before m after hmarks hunbroken hbreaks hfault hstop =>
      refine .inl ⟨before, m, after, hmarks, hunbroken, hbreaks, ?_, hstop⟩
      rw [hfault]
      rfl
  | unbroken hunbroken hfault hstop =>
      refine .inr ⟨hunbroken, ?_, hstop⟩
      rw [hfault, List.nil_append]
      exact apply_ite unexpectedAt _ _ _

/-- A list over two lines in which a comma is missing on the second, and a value has no
quotes. -/
def patchyList : List Char := "VOLUME [\"/a\", \\\n \"/b\" \"/c\", d]\n".toList

/-- In `patchyList` the missing comma comes first, so the walk stops there. -/
theorem checkArray_verdict_patchyList :
    patchyList[7]? = some '[' ∧
      checkArray (some '\\') 7 (patchyList.drop 8) =
        ⟨some 22, 22, "\"/c\", d]\n".toList⟩ ∧
      ∃ before m after,
        (readList (some '\\') patchyList 7).marks = before ++ m :: after ∧ Unbroken before ∧
          Breaks before m ∧ m.place = 22 := by
  have hverdict : checkArray (some '\\') 7 (patchyList.drop 8) =
      ⟨some 22, 22, "\"/c\", d]\n".toList⟩ := by
    decide +kernel
  have hbracket : patchyList[7]? = some '[' := by
    decide +kernel
  refine ⟨hbracket, hverdict, ?_⟩
  rcases checkArray_verdict (some '\\') hbracket with
    ⟨before, m, after, hmarks, hunbroken, hbreaks, hfault, -⟩ | ⟨-, -, hstop⟩
  · refine ⟨before, m, after, hmarks, hunbroken, hbreaks, ?_⟩
    rw [hverdict] at hfault
    simpa [unexpectedAt] using hfault.symm
  · have hfinish : (readList (some '\\') patchyList 7).finish = 30 := by
      decide +kernel
    rw [hverdict, hfinish] at hstop
    cases hstop

end DockerfileLint
