import DockerfileLint.Proofs.Concatenation

/-!
# What comes before an instruction

Both passes come to an instruction of the parser by itself: what they read before it they
read alike whatever follows, and from the instruction on they read as if the text began
there.  A text that is read so is *passed* (`Passed`).  A closed text is passed, and so is
white space, and so is a continuation that joins nothing to anything; texts that are
passed one after the other are passed.

`approached_of_mem_instructionsFrom` says that the text before every instruction is of this
kind.  It also has a line break in it, or else nothing but white space, so the directive of
a document does not depend on what is written from an instruction on.  `exists_readBelow`
says both of documents.
-/

namespace DockerfileLint

variable {esc : Escape} {keywords : List String} {off : Nat} {cs front back more : List Char}

/-! ## Texts that are passed -/

/-- Both passes read a text alike whatever is behind it, and then read on there. -/
structure Passed (esc : Escape) (keywords : List String) (off : Nat) (front : List Char) :
    Prop where
  parsed : ∀ more, instructionsFrom esc off (front ++ more) =
    instructionsFrom esc off front ++ instructionsFrom esc (off + front.length) more
  scanned : ∀ more, scanFrom esc keywords off (front ++ more) =
    (scanFrom esc keywords off front).andThen (scanFrom esc keywords (off + front.length) more)

/-- How three scans are put together does not matter. -/
theorem Scan.andThen_assoc (s t u : Scan) : (s.andThen t).andThen u = s.andThen (t.andThen u) := by
  unfold Scan.andThen
  cases hs : s.ended with
  | true => simp [hs]
  | false =>
      have hended : (Scan.mk (s.visits ++ t.visits) t.stop).ended = t.ended := by
        unfold Scan.ended at hs ⊢
        rw [List.any_append, hs, Bool.false_or]
      simp only [hended, Bool.false_eq_true, if_false]
      cases t.ended <;> simp

namespace Passed

/-- An empty text is passed. -/
theorem nil (esc : Escape) (keywords : List String) (off : Nat) : Passed esc keywords off [] where
  parsed more := by simp
  scanned more := by simp [Scan.andThen, Scan.ended]

/-- What is passed piece by piece is passed. -/
theorem append (h : Passed esc keywords off front)
    (h' : Passed esc keywords (off + front.length) back) :
    Passed esc keywords off (front ++ back) where
  parsed more := by
    rw [List.append_assoc, h.parsed, h'.parsed, h.parsed, List.length_append, Nat.add_assoc,
      List.append_assoc]
  scanned more := by
    rw [List.append_assoc, h.scanned, h'.scanned, h.scanned, List.length_append, Nat.add_assoc,
      Scan.andThen_assoc]

/-- Lines that are all closed are passed. -/
theorem of_closed (keywords : List String) (hesc : esc.Visible) (off : Nat)
    (hclosed : linesClosed esc front = true) : Passed esc keywords off front where
  parsed := instructionsFrom_append hesc off front hclosed
  scanned := scanFrom_append keywords hesc off front hclosed

/-- White space in front of a text makes no difference. -/
theorem cons_iff {s : Char} (hs : isSpace s = true) :
    Passed esc keywords off (s :: front) ↔ Passed esc keywords (off + 1) front := by
  have hparse : ∀ cs, instructionsFrom esc off (s :: cs) = instructionsFrom esc (off + 1) cs :=
    fun _ => instructionsFrom_of_isSpace hs
  have hscan : ∀ cs, scanFrom esc keywords off (s :: cs) = scanFrom esc keywords (off + 1) cs :=
    fun _ => scanFrom_of_isSpace hs
  have hlength : off + (s :: front).length = off + 1 + front.length := by
    rw [List.length_cons]
    omega
  constructor
  · rintro ⟨hparsed, hscanned⟩
    simp only [List.cons_append, hparse, hscan, hlength] at hparsed hscanned
    exact ⟨hparsed, hscanned⟩
  · rintro ⟨hparsed, hscanned⟩
    refine ⟨fun more => ?_, fun more => ?_⟩
    · rw [List.cons_append, hparse, hparse, hlength, hparsed]
    · rw [List.cons_append, hscan, hscan, hlength, hscanned]

/-- Where neither pass reads anything before a character, a text is passed if it is from
there on. -/
theorem of_skipped {s : Char}
    (hparse : ∀ more, instructionsFrom esc off (front ++ s :: more) =
      instructionsFrom esc (off + front.length) (s :: more))
    (hscan : ∀ more, scanFrom esc keywords off (front ++ s :: more) =
      scanFrom esc keywords (off + front.length) (s :: more))
    (h : Passed esc keywords (off + front.length) (s :: back)) :
    Passed esc keywords off (front ++ s :: back) := by
  refine ⟨fun more => ?_, fun more => ?_⟩
  · rw [List.append_assoc, List.cons_append, hparse, hparse, ← List.cons_append, h.parsed,
      List.length_append, Nat.add_assoc]
  · rw [List.append_assoc, List.cons_append, hscan, hscan, ← List.cons_append, h.scanned,
      List.length_append, Nat.add_assoc]

end Passed

/-- A movement that takes nothing passes only continuations. -/
theorem readWhile_of_taken_eq_nil {keep : Char → Bool}
    (htaken : (readWhile esc keep off cs).taken = []) :
    let r := readWhile esc keep off cs
    ∃ front, cs = front ++ r.rest ∧ r.stop = off + front.length ∧ Apart front r.rest ∧
      (front = [] ∨ ∃ b, front.getLast? = some b ∧ isBreak b = true) := by
  induction off, cs using splicing_induction esc with
  | splice off cs n rest hcont ih =>
      rw [readWhile_of_continuation? hcont] at htaken ⊢
      obtain ⟨front, hfront, hstop, hapart, hlast⟩ := ih htaken
      obtain ⟨passed, rfl, rfl, hapart', hbreak⟩ := continuation?_eq_append hcont
      refine ⟨passed ++ front, ?_, ?_, ?_, .inr ?_⟩
      · rw [List.append_assoc, ← hfront]
      · rw [hstop, List.length_append, Nat.add_assoc]
      · rcases hlast with rfl | ⟨b, hb, -⟩
        · rw [List.nil_append] at hfront
          rwa [List.append_nil, ← hfront]
        · intro hreturn
          rw [List.getLast?_append, hb] at hreturn
          exact hapart (hb.trans hreturn)
      · rcases hlast with rfl | ⟨b, hb, hb'⟩
        · rwa [List.append_nil]
        · exact ⟨b, by rw [List.getLast?_append, hb]; rfl, hb'⟩
  | nil off => exact ⟨[], by simp, by simp, by simp [Apart], .inl rfl⟩
  | char off c cs hcont ih =>
      cases hk : keep c with
      | true =>
          rw [readWhile_cons_of_keep hcont hk] at htaken
          cases htaken
      | false =>
          rw [readWhile_cons_of_not_keep hcont hk]
          exact ⟨[], rfl, rfl, by simp [Apart], .inl rfl⟩

/-- A word that comes to nothing does so whatever stands behind the white space that it
stops at. -/
theorem readWord_of_taken_eq_nil (hesc : esc.Visible) {s : Char} {tail : List Char}
    (hword : (readWord esc off cs).taken = []) (hrest : (readWord esc off cs).rest = s :: tail) :
    ∃ front, cs = front ++ s :: tail ∧
      (front = [] ∨ ∃ b, front.getLast? = some b ∧ isBreak b = true) ∧
      ∀ more, readWord esc off (front ++ s :: more) = ⟨[], off + front.length, s :: more⟩ := by
  have hs : isSpace s = true := by
    obtain ⟨-, hkeep⟩ := readWhile_rest_head hrest
    simpa using hkeep
  obtain ⟨front, hcs, hstop, hapart, hlast⟩ := readWhile_of_taken_eq_nil hword
  have htake := readWhile_take esc (fun c => !isSpace c) off cs
  unfold readWord at hword hrest
  rw [hrest] at hcs hapart
  rw [hstop, Nat.add_sub_cancel_left, hcs, List.take_left, ← hcs] at htake
  refine ⟨front, hcs, hlast, fun more => ?_⟩
  have hseam : Seam esc front (s :: more) := by
    apply Seam.of_apart
    · rintro e rfl hescape
      rcases hlast with rfl | ⟨b, hb, hbreak⟩
      · cases hescape
      · obtain rfl : b = e := Option.some.inj (hb.symm.trans hescape)
        have hvisible := isSpace_of_isBreak hbreak
        rw [hesc b rfl] at hvisible
        cases hvisible
    · exact hapart
  unfold readWord
  rw [readWhile_append_of_rest_eq_nil hseam (by rw [htake]), htake,
    readWhile_cons_of_not_keep (hesc.continuation?_eq_none more hs) (by simp [hs]), hword]
  rfl

/-- A continuation that joins nothing to anything is passed, with what is passed behind
it. -/
theorem passed_of_joint (keywords : List String) (hesc : esc.Visible) {c : Char}
    (hspace : isSpace c = false) (hmark : c ≠ '#')
    (hword : (readWord esc off (c :: cs)).taken = []) {s : Char} {tail : List Char}
    (hrest : (readWord esc off (c :: cs)).rest = s :: tail) :
    ∃ front, c :: cs = front ++ s :: tail ∧ front.any isBreak = true ∧
      (readWord esc off (c :: cs)).stop = off + front.length ∧
      ∀ back, Passed esc keywords (off + front.length) (s :: back) →
        Passed esc keywords off (front ++ s :: back) := by
  have hs : isSpace s = true := by
    obtain ⟨-, hkeep⟩ := readWhile_rest_head hrest
    simpa using hkeep
  obtain ⟨front, hcs, hlast, hread⟩ := readWord_of_taken_eq_nil hesc hword hrest
  have hstop : (readWord esc off (c :: cs)).stop = off + front.length := by
    rw [hcs, hread]
  rcases hlast with rfl | hlast
  · cases hcs
    rw [hs] at hspace
    cases hspace
  · obtain ⟨d, front, rfl⟩ : ∃ d tail, front = d :: tail := by
      apply List.exists_cons_of_ne_nil
      rintro rfl
      simp at hlast
    obtain rfl : c = d := (List.cons.inj hcs).1
    refine ⟨c :: front, hcs, any_isBreak_of_getLast? hlast, hstop, fun back => ?_⟩
    apply Passed.of_skipped
    · intro more
      have hmore := hread more
      rw [List.cons_append] at hmore ⊢
      rw [instructionsFrom_of_joint hspace hmark (by rw [hmore]), hmore]
    · intro more
      have hmore := hread more
      rw [List.cons_append] at hmore ⊢
      rw [scanFrom_of_joint hspace hmark (by rw [hmore]), hmore]

/-! ## The text before an instruction -/

/-- The instruction `i` of a text is read from `c :: rest` on, behind a text `front` that is
passed. -/
structure Approach (esc : Escape) (keywords : List String) (off : Nat) (front : List Char)
    (c : Char) (rest : List Char) (i : Instruction) : Prop where
  space : isSpace c = false
  mark : c ≠ '#'
  word : (readWord esc (off + front.length) (c :: rest)).taken ≠ []
  reads : i = readInstruction esc (off + front.length) (c :: rest)
  passed : Passed esc keywords off front
  /-- What comes before on the same line is white space. -/
  line : front.any isBreak = true ∨ ∀ d ∈ front, isSpace d = true

namespace Approach

variable {off' : Nat} {front' rest : List Char} {c : Char} {i : Instruction}

/-- The instruction is read in the same place behind another text that is passed. -/
theorem of_passed (h : Approach esc keywords off front c rest i)
    (hlength : off' + front'.length = off + front.length)
    (hpassed : Passed esc keywords off' front')
    (hline : front'.any isBreak = true ∨ ∀ d ∈ front', isSpace d = true) :
    Approach esc keywords off' front' c rest i where
  space := h.space
  mark := h.mark
  word := by
    rw [hlength]
    exact h.word
  reads := by
    rw [hlength]
    exact h.reads
  passed := hpassed
  line := hline

/-- No instruction starts with white space: it is read somewhere behind. -/
theorem exists_front {s : Char} (hs : isSpace s = true)
    (h : Approach esc keywords off front c rest i) (hcs : s :: cs = front ++ c :: rest) :
    ∃ back, front = s :: back ∧ cs = back ++ c :: rest := by
  cases front with
  | nil =>
      cases hcs
      have hspace := h.space
      rw [hs] at hspace
      cases hspace
  | cons d back =>
      cases hcs
      exact ⟨back, rfl, rfl⟩

end Approach

/-- The instruction `i` of a text is read somewhere in it, behind a part that is passed. -/
def Approached (esc : Escape) (keywords : List String) (off : Nat) (cs : List Char)
    (i : Instruction) : Prop :=
  ∃ front c rest, cs = front ++ c :: rest ∧ Approach esc keywords off front c rest i

namespace Approached

variable {i : Instruction}

/-- White space in front of what is approached changes nothing. -/
theorem behind_isSpace {s : Char} (hs : isSpace s = true)
    (h : Approached esc keywords (off + 1) cs i) : Approached esc keywords off (s :: cs) i := by
  obtain ⟨front, c, rest, rfl, happroach⟩ := h
  refine ⟨s :: front, c, rest, rfl, happroach.of_passed ?_ ?_ ?_⟩
  · rw [List.length_cons]
    omega
  · exact (Passed.cons_iff hs).mpr happroach.passed
  · rcases happroach.line with hbreak | hspaces
    · exact .inl (by simp [hbreak])
    · exact .inr (by simpa [hs] using hspaces)

/-- Behind a logical line. -/
theorem behind_line (hesc : esc.Visible)
    (h : Approached esc keywords (readLine esc off cs).stop (readLine esc off cs).rest i) :
    Approached esc keywords off cs i := by
  obtain ⟨front, c, rest, hrest, happroach⟩ := h
  obtain ⟨b, more, hmore⟩ : ∃ b more, (readLine esc off cs).rest = b :: more := by
    apply List.exists_cons_of_ne_nil
    simp [hrest]
  have hs : isSpace b = true := by
    obtain ⟨-, hkeep⟩ := readWhile_rest_head hmore
    exact isSpace_of_isBreak (by simpa using hkeep)
  obtain ⟨back, rfl, rfl⟩ := happroach.exists_front hs (hmore.symm.trans hrest)
  obtain ⟨line, rfl, hlength, hclosed⟩ := split_of_readLine hesc hmore
  have hback := (Passed.cons_iff hs).mp happroach.passed
  rw [← hlength] at hback
  have hne : line ≠ [] := by
    have hle := (onward_readLine esc off (line ++ (back ++ c :: rest))).le
    rintro rfl
    rw [List.length_nil] at hlength
    omega
  refine ⟨line ++ back, c, rest, by simp, happroach.of_passed ?_ ?_ (.inl ?_)⟩
  · rw [List.length_append, List.length_cons]
    omega
  · exact (Passed.of_closed keywords hesc off hclosed).append hback
  · rw [List.any_append, any_isBreak_of_getLast? (linesClosed_getLast? hclosed hne), Bool.true_or]

/-- Behind a continuation that joins nothing to anything. -/
theorem behind_joint (hesc : esc.Visible) {c : Char} (hspace : isSpace c = false) (hmark : c ≠ '#')
    (hword : (readWord esc off (c :: cs)).taken = [])
    (h : Approached esc keywords (readWord esc off (c :: cs)).stop
      (readWord esc off (c :: cs)).rest i) :
    Approached esc keywords off (c :: cs) i := by
  obtain ⟨front, d, rest, hrest, happroach⟩ := h
  obtain ⟨s, more, hmore⟩ : ∃ s more, (readWord esc off (c :: cs)).rest = s :: more := by
    apply List.exists_cons_of_ne_nil
    simp [hrest]
  have hs : isSpace s = true := by
    obtain ⟨-, hkeep⟩ := readWhile_rest_head hmore
    simpa using hkeep
  obtain ⟨back, rfl, rfl⟩ := happroach.exists_front hs (hmore.symm.trans hrest)
  obtain ⟨joint, hcs, hbreak, hstop, hpassed⟩ :=
    passed_of_joint keywords hesc hspace hmark hword hmore
  rw [hstop] at happroach
  refine ⟨joint ++ s :: back, d, rest, by simp [hcs], happroach.of_passed ?_ ?_ (.inl ?_)⟩
  · rw [List.length_append, Nat.add_assoc]
  · exact hpassed back happroach.passed
  · rw [List.any_append, hbreak, Bool.true_or]

end Approached

/-- **What comes before an instruction is passed.** -/
theorem approached_of_mem_instructionsFrom (keywords : List String) (hesc : esc.Visible) (off : Nat)
    (cs : List Char) : ∀ i ∈ instructionsFrom esc off cs, Approached esc keywords off cs i := by
  induction off, cs using parsing_induction esc with
  | nil off => simp
  | space off c cs hspace ih =>
      rw [instructionsFrom_of_isSpace hspace]
      exact fun i hi => (ih i hi).behind_isSpace hspace
  | comment off cs ih =>
      rw [instructionsFrom_of_mark]
      exact fun i hi => (ih i hi).behind_line hesc
  | joint off c cs hspace hmark hword ih =>
      rw [instructionsFrom_of_joint hspace hmark hword]
      exact fun i hi => (ih i hi).behind_joint hesc hspace hmark hword
  | word off c cs hspace hmark hword ih =>
      rw [instructionsFrom_of_word hspace hmark hword]
      intro i hi
      rcases List.mem_cons.mp hi with rfl | hi
      · exact ⟨[], c, cs, rfl, hspace, hmark, hword, rfl, Passed.nil esc keywords off,
          .inr (by simp)⟩
      · exact (ih i hi).behind_line hesc

/-! ## Documents -/

variable {text : List Char}

/-- A line that starts with anything but a number sign is no directive. -/
theorem parse?_of_blanks {c : Char} (hfront : ∀ d ∈ front, isBlank d = true ∧ isBreak d = false)
    (hspace : isSpace c = false) (hmark : c ≠ '#') (more : List Char) :
    Directive.parse? (front ++ c :: more) = none := by
  have hline : firstLine (front ++ c :: more) = front ++ c :: firstLine more := by
    unfold firstLine
    rw [List.takeWhile_append_of_pos (by simpa using fun d hd => (hfront d hd).2),
      List.takeWhile_cons_of_pos (by simpa using isBreak_eq_false_of_isSpace hspace)]
  have hblanks : (front ++ c :: firstLine more).dropWhile isBlank = c :: firstLine more := by
    rw [List.dropWhile_append_of_pos (fun d hd => (hfront d hd).1),
      List.dropWhile_cons_of_neg (by simpa using isBlank_eq_false_of_isSpace hspace)]
  unfold Directive.parse? Directive.ofLine?
  rw [hline, hblanks]
  split
  · rename_i mark hmark'
    cases hmark'
    exact absurd rfl hmark
  · rfl

/-- Behind a directive there is nothing more on its line. -/
theorem isBreak_of_directive {d : Directive} {c : Char} {rest : List Char}
    (h : Directive.parse? text = some d)
    (hdrop : text.drop (Dockerfile.parse text).bodyOffset = c :: rest) : isBreak c = true := by
  have hoffset : (Dockerfile.parse text).bodyOffset = (firstLine text).length := by
    show bodyOffset (Directive.parse? text) = _
    rw [h]
    exact congrArg Span.stop (Directive.span_of_ofLine? h)
  have hafter : text.drop (firstLine text).length = afterFirstLine text := by
    simpa using (onward_afterFirstLine 0 text).eq_drop.symm
  rw [hoffset, hafter] at hdrop
  exact isBreak_of_afterFirstLine hdrop

/-- The instruction `i` of a document is read from `c :: rest` on, behind `above`: what is
there behind the directive is passed. -/
structure ReadBelow (keywords : List String) (text above : List Char) (c : Char)
    (rest : List Char) (i : Instruction) : Prop where
  text_eq : text = above ++ c :: rest
  offset_le : (Dockerfile.parse text).bodyOffset ≤ above.length
  approach : Approach (some (Dockerfile.parse text).escape) keywords
    (Dockerfile.parse text).bodyOffset (above.drop (Dockerfile.parse text).bodyOffset) c rest i

/-- **The text before an instruction of a document.**  Every instruction is read below
some part of the document. -/
theorem exists_readBelow (keywords : List String) {i : Instruction}
    (hi : i ∈ (Dockerfile.parse text).instructions) :
    ∃ above c rest, ReadBelow keywords text above c rest i := by
  obtain ⟨front, c, rest, hdrop, h⟩ := approached_of_mem_instructionsFrom keywords
    (visible_escape text) (Dockerfile.parse text).bodyOffset _ i hi
  have htake := List.length_take_of_le (bodyOffset_le text)
  have hfront : (text.take (Dockerfile.parse text).bodyOffset ++ front).drop
      (Dockerfile.parse text).bodyOffset = front := List.drop_left' htake
  refine ⟨text.take (Dockerfile.parse text).bodyOffset ++ front, c, rest, ?_, ?_, ?_⟩
  · rw [List.append_assoc, ← hdrop]
    exact (List.take_append_drop _ text).symm
  · rw [List.length_append, htake]
    exact Nat.le_add_right _ _
  · rwa [hfront]

namespace ReadBelow

variable {above rest : List Char} {c : Char} {i : Instruction}

/-- The text above is as long as the offset of the instruction. -/
theorem add_length (h : ReadBelow keywords text above c rest i) :
    (Dockerfile.parse text).bodyOffset +
      (above.drop (Dockerfile.parse text).bodyOffset).length = above.length := by
  have hle := h.offset_le
  rw [List.length_drop]
  omega

/-- What comes behind a text is left whole when its directive is dropped. -/
theorem drop_append (h : ReadBelow keywords text above c rest i) (more : List Char) :
    (above ++ more).drop (Dockerfile.parse text).bodyOffset =
      above.drop (Dockerfile.parse text).bodyOffset ++ more :=
  List.drop_append_of_le_length h.offset_le

/-- An instruction that is read below a text starts with a word. -/
theorem word (h : ReadBelow keywords text above c rest i) :
    (readWord (some (Dockerfile.parse text).escape) above.length (c :: rest)).taken ≠ [] := by
  rw [← h.add_length]
  exact h.approach.word

/-- It is the one that the parser reads there. -/
theorem reads (h : ReadBelow keywords text above c rest i) :
    i = readInstruction (some (Dockerfile.parse text).escape) above.length (c :: rest) := by
  rw [← h.add_length]
  exact h.approach.reads

/-- The directive is a matter of what comes before the first character of the
instruction. -/
theorem parse?_append (h : ReadBelow keywords text above c rest i) (more : List Char) :
    Directive.parse? (above ++ c :: more) = Directive.parse? text := by
  by_cases hbreak : above.any isBreak = true
  · rw [h.text_eq, DockerfileLint.parse?_append hbreak, DockerfileLint.parse?_append hbreak]
  · have hnone : ∀ d ∈ above, isBreak d = false := by
      simpa using hbreak
    have hspaces : ∀ d ∈ above.drop (Dockerfile.parse text).bodyOffset, isSpace d = true := by
      rcases h.approach.line with hline | hline
      · obtain ⟨d, hd, hdbreak⟩ := List.any_eq_true.mp hline
        rw [hnone d (List.mem_of_mem_drop hd)] at hdbreak
        cases hdbreak
      · exact hline
    have hdrop : text.drop (Dockerfile.parse text).bodyOffset =
        above.drop (Dockerfile.parse text).bodyOffset ++ c :: rest :=
      (congrArg (List.drop _) h.text_eq).trans (h.drop_append _)
    cases hdirective : Directive.parse? text with
    | none =>
        have hzero : (Dockerfile.parse text).bodyOffset = 0 := by
          show bodyOffset (Directive.parse? text) = 0
          rw [hdirective]
          rfl
        rw [hzero, List.drop_zero] at hspaces
        refine parse?_of_blanks (fun d hd => ⟨?_, hnone d hd⟩) h.approach.space h.approach.mark more
        have hspace := hspaces d hd
        rwa [isSpace, hnone d hd, Bool.or_false] at hspace
    | some d =>
        cases habove : above.drop (Dockerfile.parse text).bodyOffset with
        | nil =>
            rw [habove] at hdrop
            have hc := isSpace_of_isBreak (isBreak_of_directive hdirective hdrop)
            rw [h.approach.space] at hc
            cases hc
        | cons b tail =>
            rw [habove] at hdrop
            have hb := hnone b (List.mem_of_mem_drop (habove ▸ List.mem_cons_self))
            rw [isBreak_of_directive hdirective hdrop] at hb
            cases hb

/-- The parser finds the instructions above, and reads on from the instruction. -/
theorem parse_append (h : ReadBelow keywords text above c rest i) (more : List Char) :
    let file := Dockerfile.parse text
    Dockerfile.parse (above ++ c :: more) =
      { directive := file.directive
        instructions :=
          instructionsFrom (some file.escape) file.bodyOffset (above.drop file.bodyOffset) ++
            instructionsFrom (some file.escape) above.length (c :: more) } := by
  have hinstructions := h.approach.passed.parsed (c :: more)
  rw [← h.drop_append, h.add_length] at hinstructions
  show Dockerfile.mk _ (instructionsFrom (some (escapeOf (Directive.parse? (above ++ c :: more))))
    (bodyOffset (Directive.parse? (above ++ c :: more))) _) = _
  rw [h.parse?_append more]
  exact congrArg (Dockerfile.mk (Directive.parse? text)) hinstructions

/-- The scan goes through the text above, and on from the instruction unless it ended. -/
theorem scan_append (h : ReadBelow keywords text above c rest i) (more : List Char) :
    let file := Dockerfile.parse text
    scan (some file.escape) keywords file.bodyOffset (above ++ c :: more) =
      (scanFrom (some file.escape) keywords file.bodyOffset (above.drop file.bodyOffset)).andThen
        (scanFrom (some file.escape) keywords above.length (c :: more)) := by
  have hscan := h.approach.passed.scanned (c :: more)
  rw [← h.drop_append, h.add_length] at hscan
  exact hscan

end ReadBelow

end DockerfileLint
