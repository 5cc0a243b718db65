import DockerfileLint.Proofs.Attempts
import DockerfileLint.Proofs.Movement

/-!
# What a cursor reads

A cursor that stands in its text and within its bound reads what is left of the text up
to the bound.  `Cursor.Reads` ties the two together; and each operation of a cursor does
to its offset what the movement of the same name does to what is left of the text.  No
character is missing then, and the cursor goes onward and stays within its bound.

The rules for one step, `Cursor.Reads.char` and the like, say what an operation gives.
The rule for the place afterwards is the same for all of them: `Cursor.Reads.seek`.
-/

namespace DockerfileLint

namespace Cursor

/-- A cursor over a part of a text, with an escape character. -/
def onText (text : List Char) (e : Char) (off stop : Nat) : Cursor :=
  ⟨text, String.singleton e, off, stop⟩

/-- The cursor stands at the offset `off` of its text, within its bound, and `cs` is left
up to there. -/
structure Reads (c : Cursor) (esc : Escape) (off : Nat) (cs : List Char) : Prop where
  esc_eq : c.esc = esc
  offset_eq : c.offset = off
  offset_le : c.offset ≤ c.stop
  stop_le : c.stop ≤ c.text.length
  rest_eq : (c.text.take c.stop).drop c.offset = cs

/-- A cursor that is put somewhere stands there. -/
@[simp] theorem seek_offset (c : Cursor) (offset : Nat) : (c.seek offset).offset = offset := rfl

/-- Its bound stays. -/
@[simp] theorem seek_stop (c : Cursor) (offset : Nat) : (c.seek offset).stop = c.stop := rfl

/-- Its text stays. -/
@[simp] theorem seek_text (c : Cursor) (offset : Nat) : (c.seek offset).text = c.text := rfl

/-- Its escape character stays. -/
@[simp] theorem seek_esc (c : Cursor) (offset : Nat) : (c.seek offset).esc = c.esc := rfl

/-- Where it was put before does not matter. -/
theorem seek_seek (c : Cursor) (offset later : Nat) :
    (c.seek offset).seek later = c.seek later := rfl

namespace Reads

variable {c : Cursor} {esc : Escape} {off stop n : Nat} {ch : Char} {cs rest : List Char}

/-- A cursor over a part of a text reads that part, whatever is given as its escape
character. -/
theorem part {text : List Char} (escape : String) (hoff : off ≤ stop)
    (hstop : stop ≤ text.length) :
    Reads ⟨text, escape, off, stop⟩ (Escape.ofString escape) off ((text.take stop).drop off) where
  esc_eq := rfl
  offset_eq := rfl
  offset_le := hoff
  stop_le := hstop
  rest_eq := rfl

/-- A cursor over the rest of a text reads the rest. -/
theorem whole {text : List Char} (escape : String) (hoff : off ≤ text.length) :
    Reads ⟨text, escape, off, text.length⟩ (Escape.ofString escape) off (text.drop off) := by
  have h := part escape hoff (Nat.le_refl text.length)
  rwa [List.take_length] at h

/-- A cursor with one escape character over the rest of a text. -/
theorem onText_rest {text : List Char} (e : Char) (hoff : off ≤ text.length) :
    (Cursor.onText text e off text.length).Reads (some e) off (text.drop off) := by
  have h := whole (String.singleton e) hoff
  rwa [Escape.ofString_singleton] at h

/-! ## Places -/

/-- Offsets count characters, up to the bound. -/
theorem add_length (h : c.Reads esc off cs) : off + cs.length = c.stop := by
  have hlength := congrArg List.length h.rest_eq
  have hle := h.offset_le
  have hstop := h.stop_le
  have hoff := h.offset_eq
  rw [List.length_drop, List.length_take] at hlength
  omega

/-- A cursor that is put where it stands stays as it is. -/
theorem seek_self (h : c.Reads esc off cs) : c.seek off = c := by
  rw [← h.offset_eq]
  rfl

/-- A cursor moves forward from where it stands. -/
theorem advance_eq (h : c.Reads esc off cs) (count : Nat) :
    c.advance count = c.seek (off + count) := by
  rw [← h.offset_eq]
  rfl

/-- Further on a cursor reads what is left there. -/
theorem seek (h : c.Reads esc off cs) (honward : Onward off cs stop rest) :
    (c.seek stop).Reads esc stop rest where
  esc_eq := h.esc_eq
  offset_eq := rfl
  offset_le := by
    have hread := honward.add_length
    have hlength := h.add_length
    rw [seek_offset, seek_stop]
    omega
  stop_le := h.stop_le
  rest_eq := by
    have hcs : cs = (c.text.take c.stop).drop off := by
      rw [← h.rest_eq, h.offset_eq]
    exact (honward.eq_drop_text hcs).symm

/-- Behind the first character. -/
theorem advance (h : c.Reads esc off (ch :: cs)) : (c.seek (off + 1)).Reads esc (off + 1) cs :=
  h.seek ((Onward.refl (off + 1) cs).cons ch)

/-- A cursor may be moved to any place further on. -/
theorem moveTo (h : c.Reads esc off cs) (honward : Onward off cs stop rest) :
    c.moveTo (c.seek stop) = pure (c.seek stop) := by
  have hle := honward.le
  have hstop := (h.seek honward).offset_le
  unfold Cursor.moveTo
  rw [if_pos]
  exact ⟨h.offset_eq ▸ hle, hstop⟩

/-- A cursor may be moved past the next character. -/
theorem moveTo_advance (h : c.Reads esc off (ch :: cs)) :
    c.moveTo (c.seek (off + 1)) = pure (c.seek (off + 1)) :=
  h.moveTo ((Onward.refl (off + 1) cs).cons ch)

/-! ## Characters -/

/-- Where nothing is left the cursor is done. -/
theorem done_nil (h : c.Reads esc off []) : c.done = true := by
  have hlength := h.add_length
  have hoff := h.offset_eq
  rw [List.length_nil] at hlength
  simp only [done, decide_eq_true_eq]
  omega

/-- Where a character is left it is not. -/
theorem done_cons (h : c.Reads esc off (ch :: cs)) : c.done = false := by
  have hlength := h.add_length
  have hoff := h.offset_eq
  rw [List.length_cons] at hlength
  simp only [done, decide_eq_false_iff_not]
  omega

/-- What is left can be read by its offset. -/
theorem read (h : c.Reads esc off cs) {k : Nat} (hk : cs[k]? = some ch) :
    c.read (off + k) = .ok ch := by
  have hlt : off + k < c.stop := by
    have hlength := h.add_length
    have hbound := (List.getElem?_eq_some_iff.mp hk).1
    omega
  rw [← h.rest_eq, List.getElem?_drop, h.offset_eq, List.getElem?_take_of_lt hlt] at hk
  unfold Cursor.read
  rw [hk]

/-- The next character is the first one that is left. -/
theorem char (h : c.Reads esc off (ch :: cs)) : c.char = .ok ch := by
  have hread := h.read (k := 0) rfl
  unfold Cursor.char
  rwa [h.offset_eq]

/-- The character behind the first one. -/
theorem peek_one (h : c.Reads esc off (ch :: cs)) : c.peek 1 = .ok cs.head? := by
  have hlength := h.add_length
  rw [List.length_cons] at hlength
  unfold peek
  rw [h.offset_eq]
  cases cs with
  | nil =>
      rw [List.length_nil] at hlength
      rw [if_neg (by omega)]
      rfl
  | cons d ds =>
      rw [List.length_cons] at hlength
      rw [if_pos (by omega), h.read (k := 1) rfl]
      rfl

/-- Where nothing is left there is no line break. -/
theorem atLineBreak_nil (h : c.Reads esc off []) : c.atLineBreak = .ok false := by
  unfold atLineBreak
  rw [if_pos h.done_nil]

/-- A line break is told by its first character. -/
theorem atLineBreak_cons (h : c.Reads esc off (ch :: cs)) : c.atLineBreak = .ok (isBreak ch) := by
  unfold atLineBreak
  rw [h.done_cons, h.char]
  rfl

/-! ## Line breaks and continuations -/

/-- A line break is gone past as a whole. -/
theorem skipLineBreak (h : c.Reads esc off cs) (hbreak : lineBreak? cs = some (n, rest)) :
    c.skipLineBreak = .ok (c.seek (off + n)) := by
  unfold Cursor.skipLineBreak
  rcases lineBreak?_cases hbreak with ⟨rfl, rfl⟩ | ⟨rfl, rfl, hhead⟩ | ⟨rfl, rfl⟩
  · simp only [h.char, h.peek_one, h.advance_eq, bind, Except.bind]
    rfl
  · simp only [h.char, h.peek_one, h.advance_eq, bind, Except.bind]
    rw [if_pos trivial, if_neg hhead]
    rfl
  · simp only [h.char, h.advance_eq, bind, Except.bind]
    rfl

/-- A continuation starts here if the text up to the bound has one. -/
theorem atContinuation (h : c.Reads esc off cs) :
    c.atContinuation = .ok (continuation? esc cs).isSome := by
  have hlength := h.add_length
  unfold Cursor.atContinuation
  rw [h.offset_eq, h.esc_eq]
  match cs with
  | [] =>
      rw [List.length_nil] at hlength
      rw [if_neg (by omega)]
      rfl
  | [e] =>
      rw [List.length_singleton] at hlength
      rw [if_neg (by omega)]
      by_cases he : esc = some e <;> simp [continuation?, he, lineBreak?]
  | e :: d :: ds =>
      rw [List.length_cons, List.length_cons] at hlength
      rw [if_pos (by omega), h.char, h.read (k := 1) rfl]
      by_cases he : esc = some e
      · have hbreak : (lineBreak? (d :: ds)).isSome = isBreak d := by
          cases hd : isBreak d with
          | true => exact lineBreak?_isSome ds hd
          | false => rw [lineBreak?_eq_none hd, Option.isSome_none]
        simp only [continuation?, bind, Except.bind, he, if_true, Option.isSome_map, hbreak]
        rfl
      · simp only [continuation?, bind, Except.bind, he, if_false, Option.isSome_none]
        rfl

/-- A continuation is gone past as a whole. -/
theorem skipContinuation_some (h : c.Reads esc off cs)
    (hcont : continuation? esc cs = some (n, rest)) :
    c.skipContinuation = .ok (true, c.seek (off + n)) := by
  obtain ⟨e, tail, m, rfl, rfl, hm, rfl⟩ := continuation?_eq_some.mp hcont
  have hbehind := h.advance.skipLineBreak hm
  rw [seek_seek, Nat.add_assoc, Nat.add_comm 1 m] at hbehind
  unfold Cursor.skipContinuation
  rw [h.atContinuation, hcont, h.advance_eq]
  simp only [Option.isSome_some, bind, Except.bind, if_true, hbehind]
  rfl

/-- Where no continuation starts none is gone past. -/
theorem skipContinuation_none (h : c.Reads esc off cs) (hcont : continuation? esc cs = none) :
    c.skipContinuation = .ok (false, c) := by
  unfold Cursor.skipContinuation
  rw [h.atContinuation, hcont]
  rfl

/-- A cursor takes what the movement takes, and stops where it stops. -/
theorem readWhile (h : c.Reads esc off cs) (keep : Char → Bool) :
    c.readWhile keep = .ok ((DockerfileLint.readWhile esc keep off cs).taken,
      c.seek (DockerfileLint.readWhile esc keep off cs).stop) := by
  induction off, cs using splicing_induction esc generalizing c with
  | splice off cs n rest hcont ih =>
      have hlt := continuation?_two_le hcont
      have hbehind := h.seek (onward_of_continuation? off hcont)
      have hle := hbehind.offset_le
      rw [seek_offset, seek_stop] at hle
      have hoff := h.offset_eq
      rw [readWhile_of_continuation? hcont, Cursor.readWhile, if_neg (by omega)]
      split
      all_goals
        rename_i hskip
        rw [h.skipContinuation_some hcont] at hskip
        cases hskip
      exact ih hbehind
  | nil off =>
      rw [Cursor.readWhile, if_pos (of_decide_eq_true h.done_nil), readWhile_nil, h.seek_self]
  | char off d ds hcont ih =>
      rw [Cursor.readWhile, if_neg (of_decide_eq_false h.done_cons)]
      split
      all_goals
        rename_i hskip
        rw [h.skipContinuation_none hcont] at hskip
        cases hskip
      rw [h.char]
      cases hkeep : keep d with
      | true =>
          simp only [hkeep, if_true]
          rw [h.advance_eq, ih h.advance, readWhile_cons_of_keep hcont hkeep, h.offset_eq]
          rfl
      | false =>
          simp only [hkeep]
          rw [readWhile_cons_of_not_keep hcont hkeep, h.seek_self]
          rfl

/-- Blanks are gone past as the movement of this kind goes past them. -/
theorem skipBlanks (h : c.Reads esc off cs) :
    c.skipBlanks = .ok (c.seek (DockerfileLint.readWhile esc isBlank off cs).stop) := by
  unfold Cursor.skipBlanks
  rw [h.readWhile]
  rfl

/-- A line is gone past as the movement of this kind goes past it. -/
theorem skipToLineBreak (h : c.Reads esc off cs) :
    c.skipToLineBreak = .ok (c.seek (readLine esc off cs).stop) := by
  unfold Cursor.skipToLineBreak
  rw [h.readWhile]
  rfl

/-- A cursor reads the word that the movement takes, with the end of its last character. -/
theorem readWord (h : c.Reads esc off cs) :
    c.readWord = .ok (((DockerfileLint.readWord esc off cs).text,
      (DockerfileLint.readWord esc off cs).reach off),
        c.seek (DockerfileLint.readWord esc off cs).stop) := by
  unfold Cursor.readWord
  rw [h.readWhile, h.offset_eq]
  rfl

end Reads

/-! ## Every operation -/

/-- The cursor stands within its bound, and its bound within its text. -/
structure InBounds (c : Cursor) : Prop where
  offset_le : c.offset ≤ c.stop
  stop_le : c.stop ≤ c.text.length

/-- Another place for a cursor, onward and within its bound. -/
structure Ahead (c d : Cursor) : Prop where
  same : d = c.seek d.offset
  le : c.offset ≤ d.offset
  le_stop : d.offset ≤ c.stop

/-- No operation of the cursor overruns the text, and each one takes it onward and leaves it
within its bound. -/
structure Steady (c : Cursor) : Prop where
  atLineBreak : ∃ yes, c.atLineBreak = .ok yes
  atContinuation : ∃ yes, c.atContinuation = .ok yes
  skipContinuation : ∃ joined d, c.skipContinuation = .ok (joined, d) ∧ c.Ahead d
  skipBlanks : ∃ d, c.skipBlanks = .ok d ∧ c.Ahead d
  skipToLineBreak : ∃ d, c.skipToLineBreak = .ok d ∧ c.Ahead d
  readWord : ∃ word d, c.readWord = .ok (word, d) ∧ c.Ahead d
  /-- A character is read, and gone past, before the bound only. -/
  char : c.done = false → (∃ ch, c.char = .ok ch) ∧ (∃ next, c.peek 1 = .ok next) ∧
    c.Ahead (c.advance 1) ∧ ∃ d, c.skipLineBreak = .ok d ∧ c.Ahead d

/-- A cursor within its bound reads what is left up to there. -/
theorem InBounds.reads {c : Cursor} (h : c.InBounds) :
    c.Reads c.esc c.offset ((c.text.take c.stop).drop c.offset) :=
  ⟨rfl, rfl, h.offset_le, h.stop_le, rfl⟩

/-- Further on in what it reads a cursor is ahead of where it was. -/
theorem Reads.ahead {c : Cursor} {esc : Escape} {off stop : Nat} {cs rest : List Char}
    (h : c.Reads esc off cs) (honward : Onward off cs stop rest) : c.Ahead (c.seek stop) :=
  ⟨rfl, h.offset_eq ▸ honward.le, (h.seek honward).offset_le⟩

/-- A line break is skipped where there is none as well: then one character is. -/
theorem Reads.skipLineBreak_ahead {c : Cursor} {esc : Escape} {off : Nat} {ch : Char}
    {cs : List Char} (h : c.Reads esc off (ch :: cs)) :
    ∃ d, c.skipLineBreak = .ok d ∧ c.Ahead d := by
  cases hbreak : isBreak ch with
  | true =>
      obtain ⟨⟨n, rest⟩, hn⟩ := Option.isSome_iff_exists.mp (lineBreak?_isSome cs hbreak)
      exact ⟨_, h.skipLineBreak hn, h.ahead (onward_of_lineBreak? off hn)⟩
  | false =>
      have hne : ch ≠ '\r' := by
        rintro rfl
        cases hbreak
      have hskip : c.skipLineBreak = .ok (c.seek (off + 1)) := by
        unfold Cursor.skipLineBreak
        simp only [h.char, h.advance_eq, bind, Except.bind, hne, if_false]
        rfl
      exact ⟨_, hskip, h.ahead ((Onward.refl (off + 1) cs).cons ch)⟩

/-- **A cursor within its bounds stays there.** -/
theorem InBounds.steady {c : Cursor} (h : c.InBounds) : c.Steady where
  atLineBreak := by
    have hreads := h.reads
    cases hcs : (c.text.take c.stop).drop c.offset with
    | nil => exact ⟨_, (hcs ▸ hreads).atLineBreak_nil⟩
    | cons ch cs => exact ⟨_, (hcs ▸ hreads).atLineBreak_cons⟩
  atContinuation := ⟨_, h.reads.atContinuation⟩
  skipContinuation := by
    cases hcont : continuation? c.esc ((c.text.take c.stop).drop c.offset) with
    | none =>
        exact ⟨_, _, h.reads.skipContinuation_none hcont, rfl, Nat.le_refl _, h.offset_le⟩
    | some joint =>
        exact ⟨_, _, h.reads.skipContinuation_some hcont,
          h.reads.ahead (onward_of_continuation? _ hcont)⟩
  skipBlanks := ⟨_, h.reads.skipBlanks, h.reads.ahead (onward_readWhile ..)⟩
  skipToLineBreak := ⟨_, h.reads.skipToLineBreak, h.reads.ahead (onward_readLine ..)⟩
  readWord := ⟨_, _, h.reads.readWord, h.reads.ahead (onward_readWord ..)⟩
  char hdone := by
    have hreads := h.reads
    cases hcs : (c.text.take c.stop).drop c.offset with
    | nil =>
        rw [hcs] at hreads
        rw [hreads.done_nil] at hdone
        cases hdone
    | cons ch cs =>
        rw [hcs] at hreads
        have hahead := hreads.ahead ((Onward.refl (c.offset + 1) cs).cons ch)
        exact ⟨⟨_, hreads.char⟩, ⟨_, hreads.peek_one⟩, hahead, hreads.skipLineBreak_ahead⟩

end Cursor

end DockerfileLint
