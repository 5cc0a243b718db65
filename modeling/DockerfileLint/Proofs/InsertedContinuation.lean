import DockerfileLint.Proofs.Extents
import DockerfileLint.Proofs.Translation

/-!
# A continuation put into an instruction

A continuation put between two characters is read past like any other: the readers take
the same characters, those behind it two places further on.  Where it is put matters in
two ways only.  Behind an escape character it would be taken for the character that is
escaped, and within a line break it would tear the break apart.

`readInstruction_joined` follows a continuation into an instruction: the keyword, the
values of the arguments and whether there are any stay what they are, and the line goes on
two places further on.
-/

namespace DockerfileLint

variable {esc : Escape} {keep : Char → Bool} {e : Char} {off : Nat} {cs front back more : List Char}

/-! ## Where a continuation can be put -/

/-- Two texts with a continuation between them. -/
def joined (e : Char) (front back : List Char) : List Char :=
  front ++ e :: '\n' :: back

/-- A continuation can be put between two texts: the first does not end in the escape
character, and no line break runs across. -/
structure Joins (e : Char) (front back : List Char) : Prop where
  last : front.getLast? ≠ some e
  apart : Apart front back

namespace Joins

/-- What joins a text joins each of its ends. -/
theorem of_suffix (h : Joins e front back) (hsuffix : cs <:+ front) : Joins e cs back := by
  refine ⟨fun hlast => h.last ?_, h.apart.of_suffix hsuffix⟩
  obtain ⟨passed, rfl⟩ := hsuffix
  rw [List.getLast?_append, hlast]
  rfl

/-- It joins what a movement leaves of the text. -/
theorem of_onward {stop : Nat} (h : Joins e front back) (honward : Onward off front stop cs) :
    Joins e cs back :=
  h.of_suffix honward.suffix

/-- The text behind may be cut off. -/
theorem take (h : Joins e front back) (count : Nat) : Joins e front (back.take count) := by
  refine ⟨h.last, fun hlast hhead => h.apart hlast ?_⟩
  cases back with
  | nil => simp at hhead
  | cons c back =>
      cases count with
      | zero => simp at hhead
      | succ count => exact hhead

/-- What joins a text joins it behind its first character. -/
theorem of_cons {c : Char} (h : Joins e (c :: front) back) : Joins e front back :=
  h.of_suffix (List.suffix_cons c front)

/-- No continuation runs across. -/
theorem seam (h : Joins e front back) : Seam (some e) front back := by
  apply Seam.of_apart
  · intro e' he
    obtain rfl := Option.some.inj he
    exact h.last
  · exact h.apart

/-- The continuation can be put before another one. -/
theorem joint (hesc : Escape.Visible (some e)) (h : Joins e front back) :
    Joins e front (e :: '\n' :: back) := by
  refine ⟨h.last, fun _ hhead => ?_⟩
  obtain rfl := Option.some.inj hhead
  cases hesc '\n' rfl

end Joins

/-- The continuation that is put in. -/
theorem continuation?_joint (e : Char) (back : List Char) :
    continuation? (some e) (e :: '\n' :: back) = some (2, back) := by
  simp [continuation?, lineBreak?]

/-! ## Movements -/

/-- Behind the continuation a movement is the same two places further on. -/
theorem readWhile_joint (keep : Char → Bool) (off : Nat) (back : List Char) :
    readWhile (some e) keep off (e :: '\n' :: back) =
      (readWhile (some e) keep off back).shift 2 := by
  rw [readWhile_of_continuation? (continuation?_joint e back), readWhile_shift]

/-- A movement over the first of the two texts goes on behind the continuation as it does
without. -/
theorem readWhile_joined (hesc : Escape.Visible (some e)) (h : Joins e front back)
    (hrest : (readWhile (some e) keep off front).rest = []) :
    readWhile (some e) keep off (joined e front back) =
      { (readWhile (some e) keep (off + front.length) back).shift 2 with
        taken := (readWhile (some e) keep off front).taken ++
          ((readWhile (some e) keep (off + front.length) back).shift 2).taken } := by
  unfold joined
  rw [readWhile_append_of_rest_eq_nil (h.joint hesc).seam hrest, readWhile_joint]

/-! ## Tokens -/

/-- A token in two texts is one in the first, and goes on in the second only where it came
to the end of the first. -/
theorem readToken_append (off : Nat) (h : Joins e cs more) :
    readToken (some e) off (cs ++ more) =
      let near := readToken (some e) off cs
      let far := readToken (some e) near.stop more
      if near.rest = [] then { far with taken := near.taken ++ far.taken }
      else { near with rest := near.rest ++ more } := by
  induction off, cs using token_induction (some e) with
  | splice off cs n rest hcont ih =>
      rw [readToken_of_continuation? hcont,
        readToken_of_continuation? (h.seam.continuation?_append hcont)]
      exact ih (h.of_onward (onward_of_continuation? off hcont))
  | nil off => simp
  | space off c cs hcont hspace =>
      rw [List.cons_append, readToken_of_isSpace (h.seam.continuation?_cons_append hcont) hspace,
        readToken_of_isSpace hcont hspace]
      simp
  | last off e' he hspace =>
      obtain rfl := Option.some.inj he
      exact absurd rfl h.last
  | pair off e' d cs he hspace hcont ih =>
      obtain rfl := Option.some.inj he
      have happend := h.seam.continuation?_cons_append hcont
      rw [List.cons_append] at happend
      rw [List.cons_append, List.cons_append, readToken_pair happend hspace,
        readToken_pair hcont hspace, ih h.of_cons.of_cons]
      simp only
      split <;> rfl
  | char off c cs hcont hspace hne ih =>
      rw [List.cons_append, readToken_cons (h.seam.continuation?_cons_append hcont) hspace hne,
        readToken_cons hcont hspace hne, ih h.of_cons]
      simp only
      split <;> rfl

/-- Behind the continuation a token is the same two places further on. -/
theorem readToken_joint (off : Nat) (back : List Char) :
    readToken (some e) off (e :: '\n' :: back) = (readToken (some e) off back).shift 2 := by
  rw [readToken_of_continuation? (continuation?_joint e back), readToken_shift]

/-! ## Arguments -/

/-- The values of the arguments in a text. -/
def argumentValues (esc : Escape) (off : Nat) (cs : List Char) : List String :=
  (argumentsFrom esc off cs).map Argument.value

/-- The values are the same further on. -/
theorem argumentValues_shift (esc : Escape) (k off : Nat) (cs : List Char) :
    argumentValues esc (off + k) cs = argumentValues esc off cs := by
  unfold argumentValues
  rw [argumentsFrom_shift, List.map_map]
  rfl

/-- Arguments begin where the gap in front of them ends. -/
theorem argumentsFrom_congr_gap {off' : Nat} {cs' : List Char}
    (hstop : (readGap esc off cs).stop = (readGap esc off' cs').stop)
    (hrest : (readGap esc off cs).rest = (readGap esc off' cs').rest) :
    argumentsFrom esc off cs = argumentsFrom esc off' cs' := by
  cases hgap : (readGap esc off cs).rest with
  | nil => rw [argumentsFrom_of_nil hgap, argumentsFrom_of_nil (hrest ▸ hgap)]
  | cons c rest => rw [argumentsFrom_of_cons hgap, argumentsFrom_of_cons (hrest ▸ hgap), hstop]

/-- Where a gap goes on in the second of two texts, the arguments are those of the
second. -/
theorem argumentValues_append_of_nil (h : Seam esc front more)
    (hgap : (readGap esc off front).rest = []) :
    argumentValues esc off (front ++ more) = argumentValues esc (off + front.length) more := by
  have hfar : readGap esc off (front ++ more) = _ := readWhile_append_of_rest_eq_nil h hgap
  unfold argumentValues
  congr 1
  apply argumentsFrom_congr_gap
  · rw [hfar]
    rfl
  · rw [hfar]
    rfl

/-- The arguments behind a continuation. -/
theorem argumentValues_joint (off : Nat) (back : List Char) :
    argumentValues (some e) off (e :: '\n' :: back) = argumentValues (some e) off back := by
  have hgap : readGap (some e) off (e :: '\n' :: back) = readGap (some e) (off + 2) back := by
    rw [readGap_shift]
    exact readWhile_joint isSpace off back
  rw [← argumentValues_shift (some e) 2 off back]
  unfold argumentValues
  congr 1
  apply argumentsFrom_congr_gap
  · rw [hgap]
  · rw [hgap]

/-- The arguments of two texts, where the first of them starts in the first text. -/
theorem argumentValues_append_of_cons {c : Char} {rest : List Char} (h : Joins e front more)
    (hgap : (readGap (some e) off front).rest = c :: rest) :
    argumentValues (some e) off (front ++ more) =
      let near := readToken (some e) (readGap (some e) off front).stop (c :: rest)
      let far := readToken (some e) near.stop more
      if near.rest = [] then
        ({ far with taken := near.taken ++ far.taken } : Reading).text ::
          argumentValues (some e) far.stop far.rest
      else
        near.text :: argumentValues (some e) near.stop (near.rest ++ more) := by
  have hne : (readWhile (some e) isSpace off front).rest ≠ [] := by
    rw [← readGap, hgap]
    exact List.cons_ne_nil c rest
  have hread : readGap (some e) off (front ++ more) =
      { readGap (some e) off front with rest := c :: (rest ++ more) } := by
    have hstop := readWhile_append_of_rest_ne_nil h.seam hne
    rw [← readGap, ← readGap, hgap] at hstop
    exact hstop
  have hfront := onward_readGap (some e) off front
  rw [hgap] at hfront
  have htoken := readToken_append (readGap (some e) off front).stop (h.of_onward hfront)
  have hargs := argumentsFrom_of_cons (congrArg Reading.rest hread)
  unfold argumentValues
  rw [hargs, hread, List.map_cons]
  simp only
  rw [← List.cons_append, htoken]
  simp only
  split <;> rfl

/-- A continuation changes no value of an argument. -/
theorem argumentValues_joined (hesc : Escape.Visible (some e)) (off : Nat)
    (h : Joins e front back) :
    argumentValues (some e) off (joined e front back) =
      argumentValues (some e) off (front ++ back) := by
  have hjoint := h.joint hesc
  unfold joined
  induction off, front using arguments_induction (some e) with
  | nil off front hgap =>
      rw [argumentValues_append_of_nil hjoint.seam hgap, argumentValues_append_of_nil h.seam hgap,
        argumentValues_joint]
  | cons off front c rest hgap ih =>
      have hfront := onward_readGap (some e) off front
      rw [hgap] at hfront
      have honward := hfront.trans (onward_readToken (some e) _ (c :: rest))
      rw [argumentValues_append_of_cons hjoint hgap, argumentValues_append_of_cons h hgap]
      simp only
      rw [ih (h.of_onward honward) (hjoint.of_onward honward), readToken_joint]
      simp only [Reading.relocate_stop, Reading.relocate_rest, id, argumentValues_shift]
      simp [Reading.text, Reading.relocate, Function.comp_def]

/-- A continuation that does not come up to the end of the document does not pass for an
argument, nor hide one. -/
theorem argumentsPresent_joined (hesc : Escape.Visible (some e)) {finish : Nat} (off : Nat)
    (h : Joins e front back) (hfinish : off + front.length < finish) :
    argumentsPresent (some e) (finish + 2) off (joined e front back) =
      argumentsPresent (some e) finish off (front ++ back) := by
  have hjoint := h.joint hesc
  unfold joined
  induction off, front using splicing_induction (some e) with
  | splice off front n rest hcont ih =>
      have honward := onward_of_continuation? off hcont
      have hlength := honward.add_length
      rw [argumentsPresent_of_continuation? (hjoint.seam.continuation?_append hcont),
        argumentsPresent_of_continuation? (h.seam.continuation?_append hcont),
        if_neg (by omega), if_neg (by omega)]
      exact ih (h.of_onward honward) (by omega) (hjoint.of_onward honward)
  | nil off =>
      rw [List.nil_append, List.nil_append,
        argumentsPresent_of_continuation? (continuation?_joint e back), argumentsPresent_shift]
      exact if_neg (by simpa using hfinish)
  | char off c front hcont ih =>
      rw [List.length_cons] at hfinish
      rw [List.cons_append, List.cons_append,
        argumentsPresent_cons (hjoint.seam.continuation?_cons_append hcont),
        argumentsPresent_cons (h.seam.continuation?_cons_append hcont),
        ih h.of_cons (by omega) hjoint.of_cons]

/-! ## Instructions -/

/-- Where a movement took its last character: before the continuation, or behind it and two
places further on. -/
theorem reach_joined (hesc : Escape.Visible (some e)) (keep : Char → Bool) (off : Nat)
    (h : Joins e front back) (htaken : (readWhile (some e) keep off (front ++ back)).taken ≠ []) :
    let plain := (readWhile (some e) keep off (front ++ back)).reach off
    let split := (readWhile (some e) keep off (joined e front back)).reach off
    (split = plain ∧ plain ≤ off + front.length) ∨
      (split = plain + 2 ∧ off + front.length ≤ plain) := by
  have hnear := readWhile_taken_within (some e) keep off front
  have hlength := (onward_readWhile (some e) keep off front).add_length
  by_cases hrest : (readWhile (some e) keep off front).rest = []
  · rw [readWhile_append_of_rest_eq_nil h.seam hrest] at htaken ⊢
    rw [readWhile_joined hesc h hrest]
    have hfar := readWhile_taken_within (some e) keep (off + front.length) back
    cases hlast : (readWhile (some e) keep (off + front.length) back).taken.getLast? with
    | none =>
        have hnil := List.getLast?_eq_none_iff.mp hlast
        rw [hnil, List.append_nil] at htaken
        have hreach := reach_within htaken hnear off
        refine .inl ⟨?_, ?_⟩
        · simp [Reading.reach, Reading.relocate, hnil]
        · simp only [Reading.reach, hnil, List.append_nil] at hreach ⊢
          omega
    | some p =>
        have hp := hfar p (List.mem_of_getLast? hlast)
        refine .inr ⟨?_, ?_⟩
        · simp [Reading.reach, Reading.relocate, List.getLast?_append, List.getLast?_map, hlast]
        · simp [Reading.reach, List.getLast?_append, hlast]
          omega
  · rw [readWhile_append_of_rest_ne_nil h.seam hrest] at htaken ⊢
    unfold joined
    rw [readWhile_append_of_rest_ne_nil (h.joint hesc).seam hrest]
    have hreach := reach_within htaken hnear off
    refine .inl ⟨rfl, ?_⟩
    simp only [Reading.reach] at hreach ⊢
    omega

/-- A continuation leaves a movement the same characters. -/
theorem readWhile_characters_joined (hesc : Escape.Visible (some e)) (keep : Char → Bool)
    (off : Nat) (h : Joins e front back) :
    (readWhile (some e) keep off (joined e front back)).taken.map Prod.fst =
      (readWhile (some e) keep off (front ++ back)).taken.map Prod.fst := by
  by_cases hrest : (readWhile (some e) keep off front).rest = []
  · rw [readWhile_joined hesc h hrest, readWhile_append_of_rest_eq_nil h.seam hrest]
    simp [Reading.relocate, Function.comp_def]
  · unfold joined
    rw [readWhile_append_of_rest_ne_nil (h.joint hesc).seam hrest,
      readWhile_append_of_rest_ne_nil h.seam hrest]

/-- A word is the same word. -/
theorem readWord_joined (hesc : Escape.Visible (some e)) (off : Nat) (h : Joins e front back) :
    (readWord (some e) off (joined e front back)).text =
        (readWord (some e) off (front ++ back)).text ∧
      ((readWord (some e) off (joined e front back)).taken = [] ↔
        (readWord (some e) off (front ++ back)).taken = []) := by
  have hcharacters := readWhile_characters_joined hesc (fun c => !isSpace c) off h
  refine ⟨congrArg String.ofList hcharacters, ?_⟩
  unfold readWord
  rw [← List.map_eq_nil_iff, hcharacters, List.map_eq_nil_iff]

/-- A line that goes on past the continuation ends two places further on, before the same
text. -/
theorem readLine_joined (hesc : Escape.Visible (some e)) (h : Joins e front back)
    (hinside : off + front.length < (readLine (some e) off (front ++ back)).stop) :
    (readLine (some e) off (joined e front back)).stop =
        (readLine (some e) off (front ++ back)).stop + 2 ∧
      (readLine (some e) off (joined e front back)).rest =
        (readLine (some e) off (front ++ back)).rest := by
  unfold readLine at hinside ⊢
  by_cases hrest : (readWhile (some e) (fun c => !isBreak c) off front).rest = []
  · rw [readWhile_joined hesc h hrest, readWhile_append_of_rest_eq_nil h.seam hrest]
    exact ⟨rfl, rfl⟩
  · have hlength := (onward_readWhile (some e) (fun c => !isBreak c) off front).add_length
    rw [readWhile_append_of_rest_ne_nil h.seam hrest] at hinside
    simp only at hinside
    omega

/-- Cut off behind the joint, the text behind is cut off. -/
theorem joined_take (e : Char) (front back : List Char) (k : Nat) :
    (joined e front back).take (front.length + (k + 2)) = joined e front (back.take k) :=
  List.take_length_add_append (k + 2)

/-- Dropped before the joint, the text before loses its head. -/
theorem joined_drop_of_le {k : Nat} (hk : k ≤ front.length) :
    (joined e front back).drop k = joined e (front.drop k) back :=
  List.drop_append_of_le_length hk

/-- Dropped behind the joint, only some of the text behind is left. -/
theorem joined_drop_of_ge (e : Char) (front back : List Char) (k : Nat) :
    (joined e front back).drop (front.length + (k + 2)) = back.drop k :=
  List.drop_length_add_append (k + 2)

/-- A continuation in an instruction stands among the arguments, or before them: then they
are the same two places further on. -/
theorem argumentsText_joined (hesc : Escape.Visible (some e)) (h : Joins e front back)
    (hword : (readWord (some e) off (front ++ back)).taken ≠ [])
    (hinside : off + front.length < (readLine (some e) off (front ++ back)).stop) :
    let plain := readInstruction (some e) off (front ++ back)
    let split := readInstruction (some e) off (joined e front back)
    (∃ near far, Joins e near far ∧
        plain.nameSpan.stop + near.length = off + front.length ∧
        split.nameSpan.stop = plain.nameSpan.stop ∧
        plain.argumentsText = near ++ far ∧ split.argumentsText = joined e near far) ∨
      (split.nameSpan.stop = plain.nameSpan.stop + 2 ∧
        split.argumentsText = plain.argumentsText) := by
  intro plain split
  obtain ⟨hline, -⟩ := readLine_joined hesc h hinside
  obtain ⟨k, hk⟩ : ∃ k, (readLine (some e) off (front ++ back)).stop - off = front.length + k :=
    ⟨(readLine (some e) off (front ++ back)).stop - off - front.length, by omega⟩
  have hk' : (readLine (some e) off (joined e front back)).stop - off = front.length + (k + 2) := by
    omega
  have hplain : plain.argumentsText = (front ++ back.take k).drop (plain.nameSpan.stop - off) := by
    show ((front ++ back).take ((readLine (some e) off (front ++ back)).stop - off)).drop _ = _
    rw [hk, List.take_length_add_append]
    rfl
  have hsplit : split.argumentsText =
      (joined e front (back.take k)).drop (split.nameSpan.stop - off) := by
    show ((joined e front back).take
      ((readLine (some e) off (joined e front back)).stop - off)).drop _ = _
    rw [hk', joined_take]
    rfl
  have hname : off < plain.nameSpan.stop := (readInstruction_within hword).2.2.1
  have hreach : (split.nameSpan.stop = plain.nameSpan.stop ∧
        plain.nameSpan.stop ≤ off + front.length) ∨
      (split.nameSpan.stop = plain.nameSpan.stop + 2 ∧
        off + front.length ≤ plain.nameSpan.stop) :=
    reach_joined hesc (fun c => !isSpace c) off h hword
  rcases hreach with ⟨hstop, hle⟩ | ⟨hstop, hge⟩
  · have hcount : plain.nameSpan.stop - off ≤ front.length := by
      omega
    rw [List.drop_append_of_le_length hcount] at hplain
    rw [hstop, joined_drop_of_le hcount] at hsplit
    refine .inl ⟨_, _, ?_, ?_, hstop, hplain, hsplit⟩
    · exact (h.of_suffix (List.drop_suffix _ front)).take k
    · rw [List.length_drop]
      omega
  · obtain ⟨m, hm⟩ : ∃ m, plain.nameSpan.stop - off = front.length + m :=
      ⟨plain.nameSpan.stop - off - front.length, by omega⟩
    have hm' : split.nameSpan.stop - off = front.length + (m + 2) := by
      omega
    rw [hm, List.drop_length_add_append] at hplain
    rw [hm', joined_drop_of_ge] at hsplit
    exact .inr ⟨hstop, hsplit.trans hplain.symm⟩

/-- What the checks look at is the same in two instructions, in documents that end at
`finish` and at `finish'`. -/
structure Instruction.Alike (esc : Escape) (finish finish' : Nat) (i j : Instruction) : Prop where
  written : j.written = i.written
  present : j.hasArguments esc finish' = i.hasArguments esc finish
  values : (j.arguments esc).map Argument.value = (i.arguments esc).map Argument.value

/-- **A continuation in an instruction.**  The keyword stays what it is, and so do the values
of the arguments and whether there are any. -/
theorem readInstruction_joined (hesc : Escape.Visible (some e)) {finish : Nat}
    (h : Joins e front back) (hword : (readWord (some e) off (front ++ back)).taken ≠ [])
    (hinside : off + front.length < (readLine (some e) off (front ++ back)).stop)
    (hfinish : (readLine (some e) off (front ++ back)).stop ≤ finish) :
    (readInstruction (some e) off (front ++ back)).Alike (some e) finish (finish + 2)
      (readInstruction (some e) off (joined e front back)) := by
  have hwritten := (readWord_joined hesc off h).1
  rcases argumentsText_joined hesc h hword hinside with
    ⟨near, far, hjoins, hbefore, hstop, hplain, hsplit⟩ | ⟨hstop, hsplit⟩
  · refine ⟨hwritten, ?_, ?_⟩
    · unfold Instruction.hasArguments
      rw [hstop, hplain, hsplit]
      exact argumentsPresent_joined hesc _ hjoins (by omega)
    · unfold Instruction.arguments
      rw [hstop, hplain, hsplit]
      exact argumentValues_joined hesc _ hjoins
  · refine ⟨hwritten, ?_, ?_⟩
    · unfold Instruction.hasArguments
      rw [hstop, hsplit, argumentsPresent_shift]
    · unfold Instruction.arguments
      rw [hstop, hsplit]
      exact argumentValues_shift ..

end DockerfileLint
