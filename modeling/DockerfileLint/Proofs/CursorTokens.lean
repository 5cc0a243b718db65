import DockerfileLint.Proofs.CursorParser
import DockerfileLint.Proofs.Partition

/-!
# The tokenizer along a cursor

The arguments of an instruction are read by a cursor over the text of the instruction
alone.  A token is read on past the continuations behind it; where it ends is found by
going back again over line breaks and the escape characters before them.  That this is
just past the last character of the token is `loop_trimRound`: behind that character
there are continuations only, and taken off from the end one is as good as another.

The tokenizer can be given any text as its escape character.  Where that is white space, the
continuations are white space themselves: a gap is gone past character by character, and where
it is a line break, two breaks are gone back over at once.  A text that is not one character
escapes nothing.
-/

namespace DockerfileLint

variable {c : Cursor} {esc : Escape} {e : Char} {off : Nat} {cs rest : List Char}

/-! ## Gaps -/

/-- One round through a gap: a line break and the blanks behind it. -/
def gapRound (c : Cursor) : Attempt (Cursor ⊕ Cursor) := do
  if ← c.atLineBreak then
    let behind ← c.moveTo (← c.skipLineBreak)
    return .inl (← behind.moveTo (← behind.skipBlanks))
  else
    return .inr c

/-- Goes to the next token: past blanks, then past line breaks with the blanks behind
them. -/
noncomputable def Cursor.skipGap (c : Cursor) : Attempt Cursor := do
  loop gapRound (← c.moveTo (← c.skipBlanks))

/-- Behind its blanks a gap is gone past round by round. -/
theorem skipGap_eq_loop (h : c.Reads esc off cs) :
    c.skipGap = loop gapRound (c.seek (readWhile esc isBlank off cs).stop) := by
  simp [Cursor.skipGap, h.skipBlanks, h.moveTo (onward_readWhile esc isBlank off cs)]

/-- Where the escape character is white space, a gap is white space to its end. -/
theorem readGap_stop_of_isSpace (he : isSpace e = true) (off : Nat) (cs : List Char) :
    (readGap (some e) off cs).stop = off + (cs.takeWhile isSpace).length := by
  unfold readGap
  induction off, cs using splicing_induction (some e) with
  | splice off cs n rest hcont ih =>
      obtain ⟨d, tail, m, hd, rfl, hm, rfl⟩ := continuation?_eq_some.mp hcont
      obtain rfl := Option.some.inj hd
      obtain ⟨breaks, rfl, rfl, hbreaks⟩ := lineBreak?_eq_append hm
      have hall : (breaks ++ rest).takeWhile isSpace = breaks ++ rest.takeWhile isSpace :=
        List.takeWhile_append_of_pos fun b hb => isSpace_of_isBreak (hbreaks b hb)
      rw [readWhile_of_continuation? hcont, ih, List.takeWhile_cons_of_pos he, hall,
        List.length_cons, List.length_append]
      omega
  | nil off => simp
  | char off c cs hcont ih =>
      cases hspace : isSpace c with
      | true =>
          rw [readWhile_cons_of_keep hcont hspace, ih, List.takeWhile_cons_of_pos hspace,
            List.length_cons]
          omega
      | false => simp [readWhile_cons_of_not_keep hcont hspace, hspace]

/-- A line break is white space to its end. -/
theorem readGap_of_lineBreak? (esc : Escape) (off : Nat) {n : Nat}
    (hbreak : lineBreak? cs = some (n, rest)) :
    (readGap esc off cs).stop = (readGap esc (off + n) rest).stop := by
  by_cases hesc : esc.Visible
  · have hskip : ∀ (off : Nat) {b : Char} (ds : List Char), isBreak b = true →
        (readGap esc off (b :: ds)).stop = (readGap esc (off + 1) ds).stop := by
      intro off b ds hb
      have hspace := isSpace_of_isBreak hb
      unfold readGap
      rw [readWhile_cons_of_keep (hesc.continuation?_eq_none ds hspace) hspace]
    rcases lineBreak?_cases hbreak with ⟨rfl, rfl⟩ | ⟨rfl, rfl, -⟩ | ⟨rfl, rfl⟩
    · rw [hskip off _ rfl, hskip (off + 1) _ rfl]
    · exact hskip off _ rfl
    · exact hskip off _ rfl
  · -- The character behind the break may start a continuation with it, but all of it is white
    -- space either way.
    obtain ⟨e, rfl, he⟩ : ∃ e, esc = some e ∧ isSpace e = true := by
      simpa [Escape.Visible] using hesc
    obtain ⟨breaks, rfl, rfl, hbreaks⟩ := lineBreak?_eq_append hbreak
    have hall : (breaks ++ rest).takeWhile isSpace = breaks ++ rest.takeWhile isSpace :=
      List.takeWhile_append_of_pos fun b hb => isSpace_of_isBreak (hbreaks b hb)
    rw [readGap_stop_of_isSpace he, readGap_stop_of_isSpace he, hall, List.length_append,
      Nat.add_assoc]

/-- A gap starts with its blanks. -/
theorem readGap_blanks (esc : Escape) (off : Nat) (cs : List Char) :
    (readGap esc off cs).stop = (readGap esc (readWhile esc isBlank off cs).stop
      (readWhile esc isBlank off cs).rest).stop := by
  have hwide : ∀ d, isBlank d = true → isSpace d = true := by
    intro d hd
    rw [isSpace, hd]
    rfl
  unfold readGap
  rw [readWhile_trans esc hwide off cs]

/-- Behind a line break a gap goes on. -/
theorem skipGap_of_lineBreak? {n : Nat} {tail : List Char} (h : c.Reads esc off cs)
    (hrest : (readWhile esc isBlank off cs).rest = rest)
    (hbreak : lineBreak? rest = some (n, tail)) :
    c.skipGap = (c.seek ((readWhile esc isBlank off cs).stop + n)).skipGap := by
  have hhere := h.seek (onward_readWhile esc isBlank off cs)
  rw [hrest] at hhere
  have hpast := onward_of_lineBreak? (readWhile esc isBlank off cs).stop hbreak
  have hnext := hhere.seek hpast
  have hmoved := hnext.moveTo (onward_readWhile esc isBlank _ tail)
  rw [skipGap_eq_loop h]
  refine (loop_again ?_).trans (skipGap_eq_loop hnext).symm
  cases rest with
  | nil => cases hbreak
  | cons b more =>
      have hb : isBreak b = true := by
        cases hb : isBreak b with
        | true => rfl
        | false => simp [lineBreak?_eq_none hb] at hbreak
      simp [gapRound, hhere.atLineBreak_cons, hb, hhere.skipLineBreak hbreak, hhere.moveTo hpast,
        hnext.skipBlanks, hmoved]

/-- **A gap** is gone past up to what is no white space. -/
theorem skipGap_eq (h : c.Reads esc off cs) :
    c.skipGap = pure (c.seek (readGap esc off cs).stop) := by
  -- Line break by line break: what is left gets shorter with each.
  induction hn : cs.length using Nat.strongRecOn generalizing c off cs with
  | _ n ih =>
      subst hn
      have hblank := onward_readWhile esc isBlank off cs
      have hhere := h.seek hblank
      rw [readGap_blanks]
      cases hrest : (readWhile esc isBlank off cs).rest with
      | nil =>
          rw [hrest] at hhere
          rw [skipGap_eq_loop h]
          refine loop_done ?_
          simp [gapRound, hhere.atLineBreak_nil, readGap]
      | cons b more =>
          obtain ⟨hnone, hkeep⟩ := readWhile_rest_head hrest
          rw [hrest] at hhere
          cases hb : isBreak b with
          | false =>
              have hspace : isSpace b = false := by
                simp [isSpace, hkeep, hb]
              rw [skipGap_eq_loop h]
              refine loop_done ?_
              simp [gapRound, hhere.atLineBreak_cons, hb, readGap,
                readWhile_cons_of_not_keep hnone hspace]
          | true =>
              obtain ⟨⟨m, tail⟩, hm⟩ := Option.isSome_iff_exists.mp (lineBreak?_isSome more hb)
              have hnext := hhere.seek (onward_of_lineBreak? _ hm)
              have hlt : tail.length < cs.length := by
                have hle := hblank.suffix.length_le
                have hcount := length_of_lineBreak? hm
                have hpos := lineBreak?_pos hm
                rw [hrest] at hle
                omega
              rw [skipGap_of_lineBreak? h hrest hm, readGap_of_lineBreak? esc _ hm]
              exact ih _ hlt hnext rfl

/-! ## Tokens -/

/-- One round through a token, with the characters found before last first.  An escape
character is taken with the character behind it. -/
def tokenRound (s : List Char × Cursor) : Attempt (List Char × Cursor ⊕ List Char × Cursor) := do
  let (found, c) := s
  if c.done then
    return .inr (found.reverse, c)
  let (joined, behind) ← c.skipContinuation
  if joined then
    return .inl (found, ← c.moveTo behind)
  let ch ← c.char
  if isBlank ch || (← c.atLineBreak) then
    return .inr (found.reverse, c)
  let next ← c.moveTo (c.advance 1)
  if c.esc = some ch then
    if (← c.peek 1).isSome then
      let kept ← next.char
      return .inl (kept :: ch :: found, ← next.moveTo (next.advance 1))
  return .inl (ch :: found, next)

/-- **A token** along a cursor is the one that is left of the text. -/
theorem loop_tokenRound (h : c.Reads esc off cs) (found : List Char) :
    loop tokenRound (found, c) =
      pure (found.reverse ++ (readToken esc off cs).taken.map Prod.fst,
        c.seek (readToken esc off cs).stop) := by
  induction off, cs using token_induction esc generalizing c found with
  | splice off cs n rest hcont ih =>
      have honward := onward_of_continuation? off hcont
      have htoken := ih (h.seek honward) found
      rw [Cursor.seek_seek] at htoken
      rw [readToken_of_continuation? hcont, ← htoken]
      refine loop_again ?_
      cases cs with
      | nil => cases hcont
      | cons ch cs =>
          simp [tokenRound, h.done_cons, h.skipContinuation_some hcont, h.moveTo honward]
  | nil off =>
      refine loop_done ?_
      simp [tokenRound, h.done_nil, h.seek_self]
  | space off ch cs hcont hspace =>
      rw [readToken_of_isSpace hcont hspace]
      refine loop_done ?_
      have hstop : isBlank ch = true ∨ isBreak ch = true := by
        simpa [isSpace] using hspace
      simp [tokenRound, h.done_cons, h.skipContinuation_none hcont, h.char, h.atLineBreak_cons,
        hstop, h.seek_self]
  | last off d hesc hspace =>
      subst hesc
      have hblank := isBlank_eq_false_of_isSpace hspace
      have hbreak := isBreak_eq_false_of_isSpace hspace
      have hnone : continuation? (some d) [d] = none := by
        simp [continuation?, lineBreak?]
      have hbehind := h.advance
      rw [readToken_last hspace]
      refine (loop_again (t := (d :: found, c.seek (off + 1))) ?_).trans (loop_done ?_)
      · simp [tokenRound, h.done_cons, h.skipContinuation_none hnone, h.char, h.atLineBreak_cons,
          hblank, hbreak, h.advance_eq, h.moveTo_advance, h.esc_eq, h.peek_one]
      · simp [tokenRound, hbehind.done_nil]
  | pair off d x cs hesc hspace hcont ih =>
      subst hesc
      have hblank := isBlank_eq_false_of_isSpace hspace
      have hbreak := isBreak_eq_false_of_isSpace hspace
      have hnext := h.advance
      have hrest := ih hnext.advance (x :: d :: found)
      rw [Cursor.seek_seek, Cursor.seek_seek, List.reverse_cons, List.reverse_cons,
        List.append_assoc, List.append_assoc, List.singleton_append, List.singleton_append] at hrest
      rw [readToken_pair hcont hspace]
      refine (loop_again ?_).trans hrest
      simp [tokenRound, h.done_cons, h.skipContinuation_none hcont, h.char, h.atLineBreak_cons,
        hblank, hbreak, h.advance_eq, h.moveTo_advance, h.esc_eq, h.peek_one, hnext.char,
        hnext.advance_eq, hnext.moveTo_advance]
      rfl
  | char off ch cs hcont hspace hne ih =>
      have hblank := isBlank_eq_false_of_isSpace hspace
      have hbreak := isBreak_eq_false_of_isSpace hspace
      have hrest := ih h.advance (ch :: found)
      rw [Cursor.seek_seek, List.reverse_cons, List.append_assoc, List.singleton_append] at hrest
      rw [readToken_cons hcont hspace hne]
      refine (loop_again ?_).trans hrest
      simp [tokenRound, h.done_cons, h.skipContinuation_none hcont, h.char, h.atLineBreak_cons,
        hblank, hbreak, h.advance_eq, h.moveTo_advance, h.esc_eq, hne]

/-! ## The ends of tokens -/

/-- Continuations one behind the other, counted from the last one. -/
inductive Joints (esc : Escape) : List Char → Prop
  | nil : Joints esc []
  | snoc {cs breaks : List Char} {n : Nat} {e : Char} (h : Joints esc cs) (hesc : esc = some e)
      (hbreaks : lineBreak? breaks = some (n, [])) : Joints esc (cs ++ e :: breaks)

/-- A continuation in front of others. -/
theorem Joints.cons {breaks : List Char} {n : Nat} (hesc : esc = some e)
    (hbreaks : lineBreak? breaks = some (n, [])) (h : Joints esc cs) :
    Joints esc (e :: breaks ++ cs) := by
  induction h with
  | nil => simpa using Joints.snoc .nil hesc hbreaks
  | snoc _ hlast hbreaks' ih =>
      rw [← List.append_assoc]
      exact ih.snoc hlast hbreaks'

/-- Where a line break continues lines, continuations are made of breaks. -/
theorem Joints.isBreak (h : Joints (some e) cs) (he : isBreak e = true) :
    ∀ b ∈ cs, isBreak b = true := by
  induction h with
  | nil => simp
  | snoc _ hesc hbreaks ih =>
      obtain rfl := Option.some.inj hesc
      obtain ⟨breaks, rfl, -, hall⟩ := lineBreak?_eq_append hbreaks
      rw [List.append_nil]
      intro b hb
      rcases List.mem_append.mp hb with hb | hb
      · exact ih b hb
      · rcases List.mem_cons.mp hb with rfl | hb
        · exact he
        · exact hall b hb

/-- Behind the last character of a token there are only continuations. -/
theorem readToken_joints (esc : Escape) (off : Nat) (cs : List Char) :
    let r := readToken esc off cs
    (r.taken = [] ∧ ∃ joints, Joints esc joints ∧ cs = joints ++ r.rest) ∨
      ∃ front x joints, Joints esc joints ∧ isBreak x = false ∧
        cs = front ++ x :: (joints ++ r.rest) ∧
          r.taken.getLast? = some (x, off + front.length) := by
  induction off, cs using token_induction esc with
  | splice off cs n rest hcont ih =>
      obtain ⟨e, tail, m, hesc, rfl, hm, rfl⟩ := continuation?_eq_some.mp hcont
      obtain ⟨breaks, rfl, rfl, -⟩ := lineBreak?_eq_append hm
      have hbreaks : lineBreak? breaks = some (breaks.length, []) := by
        have hcut := lineBreak?_take hm (Nat.le_refl _)
        rwa [List.take_left, Nat.sub_self, List.take_zero] at hcut
      rw [readToken_of_continuation? hcont]
      rcases ih with
        ⟨htaken, joints, hjoints, hrest⟩ | ⟨front, x, joints, hjoints, hx, hrest, hlast⟩
      · refine .inl ⟨htaken, e :: breaks ++ joints, hjoints.cons hesc hbreaks, ?_⟩
        rw [List.append_assoc, ← hrest]
        rfl
      · refine .inr ⟨e :: breaks ++ front, x, joints, hjoints, hx, ?_, ?_⟩
        · rw [List.append_assoc, ← hrest]
          rfl
        · rw [hlast, List.length_append, List.length_cons, Nat.add_assoc]
  | nil off => exact .inl ⟨by simp, [], .nil, by simp⟩
  | space off ch cs hcont hspace =>
      rw [readToken_of_isSpace hcont hspace]
      exact .inl ⟨rfl, [], .nil, rfl⟩
  | last off d hesc hspace =>
      subst hesc
      rw [readToken_last hspace]
      exact .inr ⟨[], d, [], .nil, isBreak_eq_false_of_isSpace hspace, rfl, rfl⟩
  | pair off d x cs hesc hspace hcont ih =>
      subst hesc
      have hx := isBreak_eq_false_of_continuation?_eq_none hcont
      rw [readToken_pair hcont hspace]
      rcases ih with
        ⟨htaken, joints, hjoints, hrest⟩ | ⟨front, y, joints, hjoints, hy, hrest, hlast⟩
      · exact .inr ⟨[d], x, joints, hjoints, hx, by simpa using hrest, by simp [htaken]⟩
      · refine .inr ⟨d :: x :: front, y, joints, hjoints, hy, by simpa using hrest, ?_⟩
        simp only [List.getLast?_cons, hlast, Option.getD_some, List.length_cons]
        congr 2
        omega
  | char off ch cs hcont hspace hne ih =>
      have hch := isBreak_eq_false_of_isSpace hspace
      rw [readToken_cons hcont hspace hne]
      rcases ih with
        ⟨htaken, joints, hjoints, hrest⟩ | ⟨front, y, joints, hjoints, hy, hrest, hlast⟩
      · exact .inr ⟨[], ch, joints, hjoints, hch, by simpa using hrest, by simp [htaken]⟩
      · refine .inr ⟨ch :: front, y, joints, hjoints, hy, by simpa using hrest, ?_⟩
        simp only [List.getLast?_cons, hlast, Option.getD_some, List.length_cons]
        congr 2
        omega

/-- One round back from the end of what was read for a token: a line break and the escape
character before it, if there is one behind the start of the token. -/
def trimRound (c : Cursor) (start stop : Nat) : Attempt (Nat ⊕ Nat) := do
  if start < stop then
    if isBreak (← c.read (stop - 1)) then
      if start < stop - 1 then
        if c.esc = some (← c.read (stop - 2)) then
          return .inl (stop - 2)
      return .inl (stop - 1)
  return .inr stop

/-- A character that the text has can be read. -/
theorem read_of_getElem? {k : Nat} {x : Char} (h : c.text[k]? = some x) : c.read k = .ok x := by
  unfold Cursor.read
  rw [h]

/-- A round back over a line break without an escape character before it. -/
theorem trimRound_break {start stop : Nat} {b d : Char} (hb : c.text[stop + 1]? = some b)
    (hbreak : isBreak b = true) (hd : c.text[stop]? = some d) (hesc : c.esc ≠ some d)
    (hstart : start ≤ stop) : trimRound c start (stop + 2) = pure (.inl (stop + 1)) := by
  have hlt : start < stop + 2 := by
    omega
  simp [trimRound, hlt, read_of_getElem? hb, read_of_getElem? hd, hbreak, hesc]

/-- A round back over a line break and the escape character before it. -/
theorem trimRound_joint {start stop : Nat} {b : Char} (hb : c.text[stop + 1]? = some b)
    (hbreak : isBreak b = true) (hd : c.text[stop]? = some e) (hesc : c.esc = some e)
    (hstart : start ≤ stop) : trimRound c start (stop + 2) = pure (.inl stop) := by
  have hlt : start < stop + 2 := by
    omega
  have hbehind : start < stop + 1 := by
    omega
  simp [trimRound, hlt, hbehind, read_of_getElem? hb, read_of_getElem? hd, hbreak, hesc]

/-- Going back over line breaks ends behind the character before them, also where a line break
continues lines and two may be gone over at once. -/
theorem loop_trimRound_breaks {place start : Nat} {x : Char} (hesc : c.esc = some e)
    (he : isBreak e = true) (hx : isBreak x = false) (hplace : c.text[place]? = some x)
    (hstart : start ≤ place) (k : Nat)
    (hbreaks : ∀ j < k, ∃ b, c.text[place + 1 + j]? = some b ∧ isBreak b = true) :
    loop (trimRound c start) (place + 1 + k) = pure (place + 1) := by
  induction k using Nat.strongRecOn with
  | _ k ih =>
      match k with
      | 0 =>
          refine loop_done ?_
          simp [trimRound, Nat.lt_succ_of_le hstart, read_of_getElem? hplace, hx]
      | 1 =>
          obtain ⟨b, hb, hbreak⟩ := hbreaks 0 (by omega)
          have hne : c.esc ≠ some x := by
            rw [hesc]
            rintro hsame
            cases hsame
            rw [he] at hx
            cases hx
          exact (loop_again (trimRound_break hb hbreak hplace hne hstart)).trans
            (ih 0 (by omega) (by simp))
      | k + 2 =>
          obtain ⟨b, hb, hbreak⟩ := hbreaks (k + 1) (by omega)
          obtain ⟨d, hd, -⟩ := hbreaks k (by omega)
          have hle : start ≤ place + 1 + k := by
            omega
          by_cases hjoint : c.esc = some d
          · exact (loop_again (trimRound_joint hb hbreak hd hjoint hle)).trans
              (ih k (by omega) fun j hj => hbreaks j (by omega))
          · exact (loop_again (trimRound_break hb hbreak hd hjoint hle)).trans
              (ih (k + 1) (by omega) fun j hj => hbreaks j (by omega))

/-- **Going back** over continuations ends behind the character before them. -/
theorem loop_trimRound {front joints : List Char} {x : Char} {start : Nat}
    (hjoints : Joints c.esc joints) (hx : isBreak x = false)
    (htext : c.text = front ++ x :: (joints ++ rest)) (hstart : start ≤ front.length) :
    loop (trimRound c start) (front.length + 1 + joints.length) = pure (front.length + 1) := by
  have hplace : c.text[front.length]? = some x := by
    rw [htext, List.getElem?_append_right (Nat.le_refl _)]
    simp
  by_cases hbreak : ∃ e, c.esc = some e ∧ isBreak e = true
  · obtain ⟨e, hesc, he⟩ := hbreak
    refine loop_trimRound_breaks hesc he hx hplace hstart joints.length fun j hj => ?_
    have hb : joints[j]? = some joints[j] := List.getElem?_eq_getElem hj
    refine ⟨joints[j], ?_, (hesc ▸ hjoints).isBreak he _ (List.getElem_mem hj)⟩
    rw [htext, List.getElem?_append_right (by omega)]
    have hsub : front.length + 1 + j - front.length = j + 1 := by
      omega
    rw [hsub, List.getElem?_cons_succ, List.getElem?_append_left hj, hb]
  · -- Continuation by continuation, each with the escape character in front of its break.
    induction hjoints generalizing rest with
    | nil =>
        refine loop_done ?_
        simp [trimRound, Nat.lt_succ_of_le hstart, read_of_getElem? hplace, hx]
    | @snoc cs breaks n e h hesc hbreaks ih =>
        have he : isBreak e = false := by
          cases he : isBreak e with
          | false => rfl
          | true => exact absurd ⟨e, hesc, he⟩ hbreak
        have htext' : c.text = (front ++ x :: cs) ++ (e :: breaks ++ rest) := by
          simpa using htext
        have hcut : c.text = front ++ x :: (cs ++ (e :: breaks ++ rest)) := by
          simpa using htext
        have hloop := ih hcut
        have hget : ∀ k,
            c.text[front.length + 1 + cs.length + k]? = (e :: breaks ++ rest)[k]? := by
          intro k
          have hlength : (front ++ x :: cs).length = front.length + 1 + cs.length := by
            simp only [List.length_append, List.length_cons]
            omega
          rw [htext', List.getElem?_append_right (by omega), hlength, Nat.add_sub_cancel_left]
        have hfirst : c.text[front.length + 1 + cs.length]? = some e := hget 0
        rw [List.length_append, List.length_cons, ← Nat.add_assoc]
        rcases lineBreak?_cases hbreaks with ⟨rfl, rfl⟩ | ⟨rfl, rfl, -⟩ | ⟨rfl, rfl⟩
        · have hreturn : c.esc ≠ some '\r' := by
            rintro hsame
            obtain rfl := Option.some.inj (hesc.symm.trans hsame)
            cases he
          refine (loop_again (trimRound_break (hget 2) rfl (hget 1) hreturn (by omega))).trans ?_
          exact (loop_again (trimRound_joint (hget 1) rfl hfirst hesc (by omega))).trans hloop
        · exact (loop_again (trimRound_joint (hget 1) rfl hfirst hesc (by omega))).trans hloop
        · exact (loop_again (trimRound_joint (hget 1) rfl hfirst hesc (by omega))).trans hloop

/-! ## Arguments -/

/-- One round of the tokenizer over the text of an instruction that starts at `base`: a gap
and a token. -/
noncomputable def argumentRound (base : Nat) (s : List Argument × Cursor) :
    Attempt (List Argument × Cursor ⊕ List Argument) := do
  let (found, c) := s
  let c ← c.skipGap
  if c.done then
    return .inr found.reverse
  let (value, behind) ← loop tokenRound ([], c)
  let stop ← loop (trimRound behind c.offset) behind.offset
  return .inl (⟨String.ofList value, ⟨base + c.offset, base + stop⟩⟩ :: found, behind)

/-- The text of a cursor is what it has behind it, what it reads and what it may not
read. -/
theorem Cursor.Reads.text_eq (h : c.Reads esc off cs) :
    c.text = c.text.take off ++ (cs ++ c.text.drop c.stop) := by
  have hle := h.offset_le
  rw [h.offset_eq] at hle
  have htake : c.text.take off = (c.text.take c.stop).take off := by
    rw [List.take_take, Nat.min_eq_left hle]
  rw [← h.rest_eq, h.offset_eq, htake, ← List.append_assoc, List.take_append_drop,
    List.take_append_drop]

/-- The end of a token is found by going back. -/
theorem loop_trimRound_token {ch : Char} (h : c.Reads esc off (ch :: cs))
    (hcont : continuation? esc (ch :: cs) = none) (hspace : isSpace ch = false) :
    let token := readToken esc off (ch :: cs)
    loop (trimRound (c.seek token.stop) off) token.stop = pure (token.reach off) := by
  intro token
  have hoff : off ≤ c.text.length := by
    have hle := h.offset_le
    have hstop := h.stop_le
    have hhere := h.offset_eq
    omega
  rcases readToken_joints esc off (ch :: cs) with
    ⟨hnone, -⟩ | ⟨front, x, joints, hjoints, hx, hcs, hlast⟩
  · exact absurd hnone (readToken_taken_ne_nil hcont hspace)
  · have hreach : token.reach off = off + front.length + 1 := by
      simp only [Reading.reach, token, hlast]
    have hstop : token.stop = off + front.length + 1 + joints.length := by
      have hread := (onward_readToken esc off (ch :: cs)).add_length
      have hlength := congrArg List.length hcs
      simp only [List.length_append, List.length_cons] at hread hlength
      simp only [token]
      omega
    have hbefore : (c.text.take off ++ front).length = off + front.length := by
      rw [List.length_append, List.length_take, Nat.min_eq_left hoff]
    have htext : (c.seek token.stop).text =
        c.text.take off ++ front ++ x :: (joints ++ (token.rest ++ c.text.drop c.stop)) := by
      rw [Cursor.seek_text]
      conv => lhs; rw [h.text_eq, hcs]
      simp only [token, List.append_assoc, List.cons_append]
    have hjoints : Joints (c.seek token.stop).esc joints := by
      rwa [Cursor.seek_esc, h.esc_eq]
    have hstart : off ≤ (c.text.take off ++ front).length := by
      omega
    have hloop := loop_trimRound hjoints hx htext hstart
    rwa [hbefore, ← hstop, ← hreach] at hloop

/-- **The tokenizer along a cursor** finds the arguments of what is left of the text. -/
theorem loop_argumentRound (h : c.Reads esc off cs) (base : Nat) (found : List Argument) :
    loop (argumentRound base) (found, c) =
      pure (found.reverse ++ (argumentsFrom esc off cs).map (Argument.shift base)) := by
  induction off, cs using arguments_induction esc generalizing c found with
  | nil off cs hgap =>
      have hhere := h.seek (onward_readGap esc off cs)
      rw [hgap] at hhere
      rw [argumentsFrom_of_nil hgap]
      refine loop_done ?_
      simp [argumentRound, skipGap_eq h, hhere.done_nil]
  | cons off cs ch rest hgap ih =>
      have hhere := h.seek (onward_readGap esc off cs)
      rw [hgap] at hhere
      obtain ⟨hcont, hspace⟩ := readWhile_rest_head hgap
      have htoken := loop_tokenRound hhere []
      have htrim := loop_trimRound_token hhere hcont hspace
      have hrest := ih (hhere.seek (onward_readToken _ _ _))
        (⟨(readToken esc (readGap esc off cs).stop (ch :: rest)).text,
          ⟨base + (readGap esc off cs).stop, base + (readToken esc
            (readGap esc off cs).stop (ch :: rest)).reach (readGap esc off cs).stop⟩⟩ ::
          found)
      rw [argumentsFrom_of_cons hgap]
      refine (loop_again ?_).trans (hrest.trans ?_)
      · simp [argumentRound, skipGap_eq h, hhere.done_cons, htoken, htrim, Reading.text]
      · simp [Argument.relocate, Span.relocate, Nat.add_comm base]

/-- The arguments of an instruction, by a cursor over its text. -/
noncomputable def Instruction.argumentsAlong (i : Instruction) (escape : String) :
    Attempt (List Argument) :=
  loop (argumentRound i.span.start)
    ([], ⟨i.content, escape, i.nameSpan.stop - i.span.start, i.content.length⟩)

/-- The text of an instruction is as long as its span. -/
theorem content_length {text : List Char} {i : Instruction}
    (hi : i ∈ (Dockerfile.parse text).instructions) :
    i.content.length = i.span.stop - i.span.start := by
  have hlies := parse_liesIn text i hi
  have hle := hlies.stop_le
  rw [hlies.content, textUnder, List.length_take_of_le]
  rw [List.length_drop]
  omega

/-- The cursor finds the arguments of an instruction, whatever is given as its escape
character: a visible one, white space, or a text that is not one character and escapes
nothing. -/
theorem Instruction.argumentsAlong_eq {text : List Char} {i : Instruction}
    (hi : i ∈ (Dockerfile.parse text).instructions) (escape : String) :
    i.argumentsAlong escape = pure (i.arguments (Escape.ofString escape)) := by
  obtain ⟨-, hstart, hname, hstop, hend⟩ := instruction_within hi
  have hle : i.nameSpan.stop - i.span.start ≤ i.content.length := by
    rw [content_length hi]
    omega
  have hreads := Cursor.Reads.whole escape hle
  unfold argumentsAlong arguments
  rw [loop_argumentRound hreads, List.reverse_nil, List.nil_append, ← argumentsFrom_shift,
    Nat.sub_add_cancel (Nat.le_of_lt hname)]
  rfl

end DockerfileLint
