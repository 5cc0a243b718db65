import DockerfileLint.Proofs.InsertedContinuation
import DockerfileLint.Proofs.Presence
import DockerfileLint.Proofs.Relocation
import Mathlib.Data.List.Forall2
import Mathlib.Data.List.TakeWhile

/-!
# Blanks at the end of a line

Blanks put behind a text end its last word, which ended there anyway, and are gone past
like any white space.  They are taken for something else in one place only: behind an
escape character, which keeps the blank that follows it.

A text is followed here as far as the blanks.  The parser then finds the same
instructions, except that the last one may take in the blanks; its keyword and its
arguments are the same, `instructionsFrom_padded`.  A directive may take them in too, and
is the same but for where it ends: `Directive.ofLine?_append_blanks`.
-/

namespace DockerfileLint

variable {esc : Escape} {e : Char} {off : Nat} {cs rest blanks spaces more : List Char}

/-! ## Where blanks can be put -/

/-- A blank is white space. -/
theorem isSpace_of_isBlank {c : Char} (h : isBlank c = true) : isSpace c = true := by
  simp [isSpace, h]

/-- A blank is no break. -/
theorem isBreak_eq_false_of_isBlank {c : Char} (h : isBlank c = true) : isBreak c = false := by
  simp only [isBlank, Bool.or_eq_true, beq_iff_eq] at h
  rcases h with rfl | rfl <;> rfl

/-- Blanks can be put between a text and the line break behind it, if there is one: the
text does not end in the escape character, and the line break is not torn apart. -/
structure Padded (e : Char) (cs blanks more : List Char) : Prop where
  last : cs.getLast? ≠ some e
  apart : Apart cs more
  blank : ∀ c ∈ blanks, isBlank c = true
  breaks : ∀ c ∈ more, isBreak c = true

namespace Padded

/-- Blanks that can be put behind a text can be put behind its suffixes. -/
theorem of_suffix (h : Padded e cs blanks more) (hsuffix : rest <:+ cs) :
    Padded e rest blanks more := by
  obtain ⟨hlast, hapart⟩ := Joins.of_suffix ⟨h.last, h.apart⟩ hsuffix
  exact ⟨hlast, hapart, h.blank, h.breaks⟩

/-- They can be put behind what a movement leaves. -/
theorem of_onward {stop : Nat} (h : Padded e cs blanks more) (honward : Onward off cs stop rest) :
    Padded e rest blanks more :=
  h.of_suffix honward.suffix

/-- They can be put behind the text without its first character. -/
theorem of_cons {c : Char} (h : Padded e (c :: cs) blanks more) : Padded e cs blanks more :=
  h.of_suffix (List.suffix_cons c cs)

/-- The text and what is behind it without the blanks. -/
theorem joins (h : Padded e cs blanks more) : Joins e cs more :=
  ⟨h.last, h.apart⟩

/-- The text and what is behind it with the blanks. -/
theorem joins_blanks (h : Padded e cs blanks more) : Joins e cs (blanks ++ more) := by
  refine ⟨h.last, fun hlast hhead => ?_⟩
  cases hblanks : blanks with
  | nil =>
      rw [hblanks] at hhead
      exact h.apart hlast hhead
  | cons c blanks =>
      rw [hblanks] at hhead
      obtain rfl := Option.some.inj hhead
      cases h.blank '\n' (by rw [hblanks]; exact List.mem_cons_self)

/-- The text and the blanks, without what is behind them. -/
theorem joins_blank (h : Padded e cs blanks more) : Joins e cs blanks := by
  simpa using h.joins_blanks.take blanks.length

/-- The text with the blanks, and what is behind them. -/
theorem joins_padded (hesc : Escape.Visible (some e)) (h : Padded e cs blanks more) :
    Joins e (cs ++ blanks) more := by
  by_cases hnil : blanks = []
  · rw [hnil, List.append_nil]
    exact h.joins
  · have hlast : ∀ c, (cs ++ blanks).getLast? = some c → isBlank c = true := by
      intro c hc
      rw [List.getLast?_append, List.getLast?_eq_some_getLast hnil, Option.some_or] at hc
      exact h.blank c (Option.some.inj hc ▸ List.getLast_mem hnil)
    refine ⟨fun hend => ?_, fun hend => ?_⟩
    · have hspace := isSpace_of_isBlank (hlast e hend)
      rw [hesc e rfl] at hspace
      cases hspace
    · cases hlast '\r' hend

/-- What is behind the blanks is white space. -/
theorem isSpace_more (h : Padded e cs blanks more) : ∀ c ∈ more, isSpace c = true :=
  fun c hc => isSpace_of_isBreak (h.breaks c hc)

/-- So is all that is behind the text. -/
theorem isSpace_behind (h : Padded e cs blanks more) :
    ∀ c ∈ blanks ++ more, isSpace c = true := by
  intro c hc
  rcases List.mem_append.mp hc with hc | hc
  · exact isSpace_of_isBlank (h.blank c hc)
  · exact h.isSpace_more c hc

/-- On a text of one line the blanks make no further line. -/
theorem isBreak_eq_false (h : Padded e cs blanks more) (hline : cs.any isBreak = false) :
    ∀ c ∈ cs ++ blanks, isBreak c = false := by
  intro c hc
  rcases List.mem_append.mp hc with hc | hc
  · simpa using List.any_eq_false.mp hline c hc
  · exact isBreak_eq_false_of_isBlank (h.blank c hc)

end Padded

/-! ## Words and tokens -/

/-- A word ends before white space. -/
theorem readWord_append_spaces (hesc : esc.Visible) (off : Nat) (h : Seam esc cs spaces)
    (hspaces : ∀ c ∈ spaces, isSpace c = true) :
    readWord esc off (cs ++ spaces) =
      { readWord esc off cs with rest := (readWord esc off cs).rest ++ spaces } := by
  refine readWhile_append_of_stop off h fun off => ?_
  cases spaces with
  | nil => rw [readWhile_nil]
  | cons c spaces =>
      have hc := hspaces c List.mem_cons_self
      exact readWhile_cons_of_not_keep (hesc.continuation?_eq_none spaces hc) (by simp [hc])

/-- A token ends before white space, if no escape character keeps it. -/
theorem readToken_append_spaces (hesc : Escape.Visible (some e)) (off : Nat) (h : Joins e cs spaces)
    (hspaces : ∀ c ∈ spaces, isSpace c = true) :
    readToken (some e) off (cs ++ spaces) =
      { readToken (some e) off cs with rest := (readToken (some e) off cs).rest ++ spaces } := by
  have hstop : ∀ off, readToken (some e) off spaces = ⟨[], off, spaces⟩ := by
    intro off
    cases spaces with
    | nil => rw [readToken_nil]
    | cons c spaces =>
        have hc := hspaces c List.mem_cons_self
        exact readToken_of_isSpace (hesc.continuation?_eq_none spaces hc) hc
  rw [readToken_append off h]
  simp only [hstop]
  split
  · rename_i hrest
    simp [hrest]
  · rfl

/-- White space behind a text adds no arguments and changes none. -/
theorem argumentsFrom_append_spaces (hesc : Escape.Visible (some e)) (off : Nat)
    (h : Joins e cs spaces) (hspaces : ∀ c ∈ spaces, isSpace c = true) :
    argumentsFrom (some e) off (cs ++ spaces) = argumentsFrom (some e) off cs := by
  induction off, cs using arguments_induction (some e) with
  | nil off cs hgap =>
      have hall : (readGap (some e) (off + cs.length) spaces).rest = [] := by
        have hread := (readGap_append_spaces hesc (off + cs.length) hspaces []).2
        rw [List.append_nil] at hread
        rw [hread]
        simp [readGap]
      have hfar : readGap (some e) off (cs ++ spaces) = _ :=
        readWhile_append_of_rest_eq_nil h.seam hgap
      rw [argumentsFrom_of_nil hgap, argumentsFrom_of_nil (by rw [hfar]; exact hall)]
  | cons off cs c rest hgap ih =>
      have hfront := onward_readGap (some e) off cs
      rw [hgap] at hfront
      have hnext := h.of_onward hfront
      have hne : (readWhile (some e) isSpace off cs).rest ≠ [] := by
        rw [← readGap, hgap]
        exact List.cons_ne_nil c rest
      have hread : readGap (some e) off (cs ++ spaces) =
          { readGap (some e) off cs with rest := c :: (rest ++ spaces) } := by
        have hstop := readWhile_append_of_rest_ne_nil h.seam hne
        rw [← readGap, ← readGap, hgap] at hstop
        exact hstop
      have htoken := readToken_append_spaces hesc (readGap (some e) off cs).stop hnext hspaces
      rw [List.cons_append] at htoken
      rw [argumentsFrom_of_cons hgap, argumentsFrom_of_cons (congrArg Reading.rest hread), hread]
      simp only [htoken]
      rw [ih (hnext.of_onward (onward_readToken (some e) _ (c :: rest)))]
      rfl

/-! ## Lines -/

/-- A movement to the end of the line goes past blanks, and takes nothing else there. -/
theorem readLine_blanks (hesc : esc.Visible) (off : Nat) (blanks : List Char)
    (hblanks : ∀ c ∈ blanks, isBlank c = true) (hmore : ∀ c ∈ more, isBreak c = true) :
    (readLine esc off (blanks ++ more)).rest = more ∧
      ∀ p ∈ (readLine esc off (blanks ++ more)).taken, isBlank p.1 = true := by
  unfold readLine
  induction blanks generalizing off with
  | nil =>
      cases more with
      | nil => simp
      | cons b more =>
          have hb := hmore b List.mem_cons_self
          rw [List.nil_append, readWhile_cons_of_not_keep
            (hesc.continuation?_eq_none more (isSpace_of_isBreak hb)) (by simp [hb])]
          simp
  | cons c blanks ih =>
      have hc := hblanks c List.mem_cons_self
      obtain ⟨hrest, htaken⟩ := ih (off + 1) fun d hd => hblanks d (List.mem_cons_of_mem c hd)
      rw [List.cons_append, readWhile_cons_of_keep
        (hesc.continuation?_eq_none (blanks ++ more) (isSpace_of_isBlank hc))
        (by simp [isBreak_eq_false_of_isBlank hc])]
      refine ⟨hrest, fun p hp => ?_⟩
      rcases List.mem_cons.mp hp with rfl | hp
      · exact hc
      · exact htaken p hp

/-- A line that comes to the end of the text takes in the blanks behind it. -/
theorem readLine_append_blanks (hesc : esc.Visible) (h : Seam esc cs blanks)
    (hblanks : ∀ c ∈ blanks, isBlank c = true) (hrest : (readLine esc off cs).rest = []) :
    (readLine esc off (cs ++ blanks)).rest = [] ∧
      (readLine esc off (cs ++ blanks)).stop = off + (cs ++ blanks).length := by
  have hnil : (readLine esc off (cs ++ blanks)).rest = [] := by
    have hnone : ∀ c ∈ ([] : List Char), isBreak c = true := by
      simp
    have hblank := (readLine_blanks hesc (off + cs.length) blanks hblanks hnone).1
    rw [List.append_nil] at hblank
    unfold readLine at hrest hblank ⊢
    rw [readWhile_append_of_rest_eq_nil h hrest]
    exact hblank
  have hlength := (onward_readLine esc off (cs ++ blanks)).add_length
  rw [hnil] at hlength
  exact ⟨hnil, hlength⟩

/-! ## Instructions -/

/-- What the checks look at is the same in two instructions at the same place, in a
document that ends at `finish`. -/
structure Instruction.Matches (esc : Escape) (finish : Nat) (i j : Instruction) : Prop where
  written : j.written = i.written
  nameSpan : j.nameSpan = i.nameSpan
  arguments : j.arguments esc = i.arguments esc
  present : j.hasArguments esc finish = i.hasArguments esc finish

/-- An instruction matches itself. -/
theorem Instruction.Matches.refl (esc : Escape) (finish : Nat) (i : Instruction) :
    i.Matches esc finish i :=
  ⟨rfl, rfl, rfl, rfl⟩

/-- An instruction that ends in the text is not affected by white space behind it. -/
theorem readInstruction_append_spaces (hesc : esc.Visible) (h : Seam esc cs spaces)
    (hspaces : ∀ c ∈ spaces, isSpace c = true) (hrest : (readLine esc off cs).rest ≠ []) :
    readInstruction esc off (cs ++ spaces) = readInstruction esc off cs := by
  have hline : readLine esc off (cs ++ spaces) =
      { readLine esc off cs with rest := (readLine esc off cs).rest ++ spaces } :=
    readWhile_append_of_rest_ne_nil h hrest
  have hlength := (onward_readLine esc off cs).add_length
  have htake : (cs ++ spaces).take ((readLine esc off cs).stop - off) =
      cs.take ((readLine esc off cs).stop - off) :=
    List.take_append_of_le_length (by omega)
  unfold readInstruction
  rw [readWord_append_spaces hesc off h hspaces, hline]
  simp only [htake]
  rfl

/-- An instruction that comes to the end of the text takes in the blanks behind it, with
no effect on its keyword and its arguments. -/
theorem readInstruction_padded (hesc : Escape.Visible (some e)) {finish : Nat}
    (h : Joins e cs blanks) (hblanks : ∀ c ∈ blanks, isBlank c = true)
    (hword : (readWord (some e) off cs).taken ≠ []) (hrest : (readLine (some e) off cs).rest = [])
    (hfinish : off + (cs ++ blanks).length < finish) :
    (readInstruction (some e) off cs).Matches (some e) finish
      (readInstruction (some e) off (cs ++ blanks)) := by
  have hspaces : ∀ c ∈ blanks, isSpace c = true := fun c hc => isSpace_of_isBlank (hblanks c hc)
  have hread := readWord_append_spaces hesc off h.seam hspaces
  have hstop : (readLine (some e) off cs).stop = off + cs.length := by
    have hlength := (onward_readLine (some e) off cs).add_length
    rw [hrest] at hlength
    exact hlength
  have hstop' := (readLine_append_blanks hesc h.seam hblanks hrest).2
  have hname : (readInstruction (some e) off (cs ++ blanks)).nameSpan =
      (readInstruction (some e) off cs).nameSpan := by
    unfold readInstruction
    rw [hread]
    rfl
  obtain ⟨-, -, hbefore, hle, hend⟩ := readInstruction_within hword
  have htext : (readInstruction (some e) off cs).argumentsText =
      cs.drop ((readInstruction (some e) off cs).nameSpan.stop - off) := by
    show (cs.take ((readLine (some e) off cs).stop - off)).drop _ = _
    rw [hstop, Nat.add_sub_cancel_left, List.take_length]
    rfl
  have htext' : (readInstruction (some e) off (cs ++ blanks)).argumentsText =
      (readInstruction (some e) off cs).argumentsText ++ blanks := by
    show ((cs ++ blanks).take ((readLine (some e) off (cs ++ blanks)).stop - off)).drop
      ((readInstruction (some e) off (cs ++ blanks)).nameSpan.stop - off) = _
    rw [hstop', Nat.add_sub_cancel_left, List.take_length, hname, htext]
    exact List.drop_append_of_le_length (by omega)
  have harguments : (readInstruction (some e) off (cs ++ blanks)).arguments (some e) =
      (readInstruction (some e) off cs).arguments (some e) := by
    have hjoins : Joins e (readInstruction (some e) off cs).argumentsText blanks := by
      rw [htext]
      exact h.of_suffix (List.drop_suffix _ cs)
    unfold Instruction.arguments
    rw [hname, htext']
    exact argumentsFrom_append_spaces hesc _ hjoins hspaces
  have hwritten : (readWord (some e) off (cs ++ blanks)).text =
      (readWord (some e) off cs).text := by
    rw [hread]
    rfl
  refine ⟨hwritten, hname, harguments, ?_⟩
  -- Both end before the document does, so they have arguments if they have any.
  have hlength : (readInstruction (some e) off cs).nameSpan.stop +
      (readInstruction (some e) off cs).argumentsText.length =
        (readInstruction (some e) off cs).span.stop :=
    argumentsText_length hword
  rw [List.length_append] at hfinish
  rw [Bool.eq_iff_iff]
  unfold Instruction.hasArguments
  rw [argumentsPresent_iff_of_lt (by rw [hname, htext', List.length_append]; omega),
    argumentsPresent_iff_of_lt (by omega)]
  exact not_congr (by rw [← Instruction.arguments, ← Instruction.arguments, harguments])

/-- There are no instructions in white space. -/
theorem instructionsFrom_spaces (esc : Escape) (off : Nat)
    (hspaces : ∀ c ∈ spaces, isSpace c = true) : instructionsFrom esc off spaces = [] := by
  have hnone := instructionsFrom_append_spaces esc off hspaces []
  rwa [List.append_nil, instructionsFrom_nil] at hnone

/-- **Blanks at the end of a text.**  The parser finds the same instructions, as far as the
checks look at them. -/
theorem instructionsFrom_padded (hesc : Escape.Visible (some e)) {finish : Nat} (off : Nat)
    (h : Joins e cs blanks) (hblanks : ∀ c ∈ blanks, isBlank c = true)
    (hfinish : off + (cs ++ blanks).length < finish) :
    List.Forall₂ (Instruction.Matches (some e) finish) (instructionsFrom (some e) off cs)
      (instructionsFrom (some e) off (cs ++ blanks)) := by
  have hspaces : ∀ c ∈ blanks, isSpace c = true := fun c hc => isSpace_of_isBlank (hblanks c hc)
  induction off, cs using parsing_induction (some e) with
  | nil off =>
      rw [List.nil_append, instructionsFrom_spaces _ off hspaces, instructionsFrom_nil]
      exact .nil
  | space off c cs hspace ih =>
      rw [List.cons_append, instructionsFrom_of_isSpace hspace, instructionsFrom_of_isSpace hspace]
      refine ih (h.of_suffix (List.suffix_cons c cs)) ?_
      rw [List.cons_append, List.length_cons] at hfinish
      omega
  | comment off cs ih =>
      have honward := onward_readLine (some e) off ('#' :: cs)
      have hlength := honward.add_length
      rw [List.cons_append, instructionsFrom_of_mark, instructionsFrom_of_mark,
        ← List.cons_append]
      by_cases hrest : (readLine (some e) off ('#' :: cs)).rest = []
      · rw [hrest, (readLine_append_blanks hesc h.seam hblanks hrest).1, instructionsFrom_nil,
          instructionsFrom_nil]
        exact .nil
      · have hline : readLine (some e) off ('#' :: cs ++ blanks) = _ :=
          readWhile_append_of_rest_ne_nil h.seam hrest
        rw [hline]
        refine ih (h.of_onward honward) ?_
        rw [List.length_append] at hfinish ⊢
        omega
  | joint off c cs hspace hmark hword ih =>
      have honward := onward_readWord (some e) off (c :: cs)
      have hlength := honward.add_length
      have hread := readWord_append_spaces hesc off h.seam hspaces
      rw [List.cons_append] at hread ⊢
      rw [instructionsFrom_of_joint hspace hmark hword,
        instructionsFrom_of_joint hspace hmark (by rw [hread]; exact hword), hread]
      refine ih (h.of_onward honward) ?_
      rw [List.length_append] at hfinish ⊢
      omega
  | word off c cs hspace hmark hword ih =>
      have honward := onward_readLine (some e) off (c :: cs)
      have hlength := honward.add_length
      have hread := readWord_append_spaces hesc off h.seam hspaces
      have hword' : (readWord (some e) off (c :: cs ++ blanks)).taken ≠ [] := by
        rw [hread]
        exact hword
      rw [List.cons_append] at hword' ⊢
      rw [instructionsFrom_of_word hspace hmark hword,
        instructionsFrom_of_word hspace hmark hword', ← List.cons_append]
      by_cases hrest : (readLine (some e) off (c :: cs)).rest = []
      · rw [hrest, (readLine_append_blanks hesc h.seam hblanks hrest).1, instructionsFrom_nil,
          instructionsFrom_nil]
        exact .cons (readInstruction_padded hesc h hblanks hword hrest hfinish) .nil
      · have hline : readLine (some e) off (c :: cs ++ blanks) = _ :=
          readWhile_append_of_rest_ne_nil h.seam hrest
        rw [hline, readInstruction_append_spaces hesc h.seam hspaces hrest]
        refine .cons (.refl ..) (ih (h.of_onward honward) ?_)
        rw [List.length_append] at hfinish ⊢
        omega

/-! ## The directive -/

/-- Blanks behind a text are dropped with its leading ones if it has nothing else, and kept if
it has. -/
theorem dropWhile_append_blanks (hblanks : ∀ c ∈ blanks, isBlank c = true) (cs : List Char) :
    (cs ++ blanks).dropWhile isBlank =
      if cs.dropWhile isBlank = [] then [] else cs.dropWhile isBlank ++ blanks := by
  have hnone : blanks.dropWhile isBlank = [] := by
    rw [List.dropWhile_eq_nil_iff]
    exact hblanks
  rw [List.dropWhile_append, hnone]
  simp

/-- Something is left of a text that is trimmed at both ends, if it is not blank. -/
theorem trimEnd_dropWhile_ne_nil (h : cs.dropWhile isBlank ≠ []) :
    trimEnd isBlank (cs.dropWhile isBlank) ≠ [] := by
  obtain ⟨c, rest, hcs⟩ := List.exists_cons_of_ne_nil h
  have hhead := List.head?_dropWhile_not isBlank cs
  rw [hcs] at hhead
  intro hnil
  unfold trimEnd at hnil
  rw [hcs, List.reverse_eq_nil_iff, List.dropWhile_eq_nil_iff] at hnil
  have hc := hnil c (by simp)
  simp [hc] at hhead

/-- A blank may not stand in a name. -/
theorem isNameChar_of_isBlank {c : Char} (h : isBlank c = true) : isNameChar c = false := by
  simp only [isBlank, Bool.or_eq_true, beq_iff_eq] at h
  rcases h with rfl | rfl <;> decide +kernel

/-- Blanks are no part of a name. -/
theorem takeWhile_append_blanks (hblanks : ∀ c ∈ blanks, isBlank c = true) (cs : List Char) :
    (cs ++ blanks).takeWhile isNameChar = cs.takeWhile isNameChar := by
  have hnone : blanks.takeWhile isNameChar = [] := by
    cases blanks with
    | nil => rfl
    | cons c blanks =>
        exact List.takeWhile_cons_of_neg
          (by simp [isNameChar_of_isBlank (hblanks c List.mem_cons_self)])
  rw [List.takeWhile_append, hnone, List.append_nil]
  split
  · rename_i hall
    exact ((List.takeWhile_prefix isNameChar).eq_of_length hall).symm
  · rfl

/-- The directive with `count` blanks more on its line, which go past an empty value. -/
def Directive.padded (count : Nat) (d : Directive) : Directive :=
  { d with
    span := ⟨d.span.start, d.span.stop + count⟩
    valueSpan := if d.value = "" then d.valueSpan.shift count else d.valueSpan }

/-- **Blanks at the end of the directive line** are not part of the value. -/
theorem Directive.ofLine?_append_blanks (hblanks : ∀ c ∈ blanks, isBlank c = true)
    (line : List Char) :
    ofLine? (line ++ blanks) = (ofLine? line).map (Directive.padded blanks.length) := by
  have hdrop := dropWhile_append_blanks hblanks
  have hname := takeWhile_append_blanks hblanks
  unfold ofLine?
  rw [hdrop]
  cases line.dropWhile isBlank with
  | nil => rfl
  | cons m mark =>
      rw [if_neg (List.cons_ne_nil m mark), List.cons_append]
      by_cases hm : m = '#'
      · subst hm
        simp only [hdrop mark]
        cases mark.dropWhile isBlank with
        | nil => simp
        | cons n named =>
            have hbehind :
                ((n :: named) ++ blanks).drop ((n :: named).takeWhile isNameChar).length =
                  (n :: named).drop ((n :: named).takeWhile isNameChar).length ++ blanks :=
              List.drop_append_of_le_length (List.takeWhile_prefix _).length_le
            simp only [if_neg (List.cons_ne_nil n named), hname, hbehind, hdrop]
            split
            · cases ((n :: named).drop
                  ((n :: named).takeWhile isNameChar).length).dropWhile isBlank with
              | nil => rfl
              | cons q valued =>
                  rw [if_neg (List.cons_ne_nil q valued), List.cons_append]
                  by_cases hq : q = '='
                  · subst hq
                    simp only [hdrop valued, List.length_append, Nat.add_sub_add_right]
                    by_cases hled : valued.dropWhile isBlank = []
                    · simp [hled, padded, trimEnd, Span.relocate]
                    · have hvalue := trimEnd_dropWhile_ne_nil hled
                      simp [hled, hvalue, padded, trimEnd_append _ hblanks, Nat.add_sub_add_right]
                  · simp [hq]
            · rfl
      · simp [hm]

/-- What is said of a directive, and what it selects, is the same with the blanks: an empty
value is not reported. -/
theorem checkDirective_padded (count : Nat) (directive : Option Directive) :
    checkDirective (directive.map (Directive.padded count)) = checkDirective directive ∧
      escapeOf (directive.map (Directive.padded count)) = escapeOf directive := by
  cases directive with
  | none => exact ⟨rfl, rfl⟩
  | some d =>
      refine ⟨?_, rfl⟩
      have hname : (d.padded count).name = d.name := rfl
      simp only [Option.map_some, checkDirective, hname]
      by_cases hvalue : d.value = ""
      · simp [Directive.padded, hvalue]
      · simp [Directive.padded, hvalue]

end DockerfileLint
