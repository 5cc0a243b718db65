import DockerfileLint.Proofs.ReportOrder

/-!
# The place of a keyword

The span of a keyword ends just past its last letter.  It starts where the reading of
the instruction starts, and that is at the first letter unless a continuation comes right
before the keyword: then the span starts at the escape character, and so on an earlier
line than the keyword does.

* `Instruction.letters`: the letters of a keyword, each with its offset;
* `positionAt_line_lt`: a continuation between two offsets puts them on different lines;
* `keyword_placed`: where the diagnostics of a keyword are reported, for all documents.
-/

namespace DockerfileLint

variable {esc : Escape} {text cs rest : List Char} {off n : Nat}

/-! ## Letters -/

/-- The letters of a keyword with their offsets: what stands under its span, less the
continuations. -/
def Instruction.letters (i : Instruction) (esc : Escape) (text : List Char) :
    List (Char × Nat) :=
  spliced esc i.nameSpan.start (textUnder text i.nameSpan)

/-- A continuation comes right before the keyword, within the span of the instruction. -/
def Instruction.ledByContinuation (i : Instruction) (esc : Escape) (text : List Char) : Bool :=
  (continuation? esc (text.drop i.nameSpan.start)).isSome

/-- The first letter of a word stands where reading starts, or behind the continuation
that is there. -/
theorem readWord_first (hword : (readWord esc off cs).taken ≠ []) :
    ∃ c first, (readWord esc off cs).taken.head? = some (c, first) ∧
      (continuation? esc cs = none → first = off) ∧
      (∀ n rest, continuation? esc cs = some (n, rest) → off + n ≤ first) ∧
      first < (readWord esc off cs).stop := by
  obtain ⟨⟨c, first⟩, others, htaken⟩ := List.exists_cons_of_ne_nil hword
  have hmem : (c, first) ∈ (readWord esc off cs).taken := by
    rw [htaken]
    exact List.mem_cons_self
  refine ⟨c, first, by rw [htaken, List.head?_cons], fun hnone => ?_, fun n rest hcont => ?_,
    (readWhile_taken_within esc _ off cs _ hmem).2⟩
  · cases cs with
    | nil => simp [readWord] at hword
    | cons d ds =>
        unfold readWord at htaken
        by_cases hkeep : (!isSpace d) = true
        · rw [readWhile_cons_of_keep hnone hkeep] at htaken
          obtain ⟨hhead, -⟩ := List.cons.inj htaken
          exact (congrArg Prod.snd hhead).symm
        · rw [readWhile_cons_of_not_keep hnone (Bool.eq_false_iff.mpr hkeep)] at htaken
          cases htaken
  · rw [readWord, readWhile_of_continuation? hcont] at hmem
    exact (readWhile_taken_within esc _ (off + n) rest _ hmem).1

/-- The last letter of a word stands right before its reach. -/
theorem readWord_last (hword : (readWord esc off cs).taken ≠ []) :
    (readWord esc off cs).taken.getLast?.map Prod.snd =
      some ((readWord esc off cs).reach off - 1) := by
  have hlast := List.getLast?_eq_some_getLast hword
  simp [Reading.reach, hlast]

/-! ## Lines -/

/-- The line of an offset in the text. -/
theorem positionAt_line {offset : Nat} (h : offset ≤ text.length) :
    ((Document.ofText text).positionAt offset).line =
      ((lineStartsOf text).countP (· ≤ offset) - 1 : Nat) := by
  have hclamp : (Document.ofText text).clamp offset = offset := Nat.min_eq_left h
  unfold Document.positionAt
  rw [hclamp]
  rfl

/-- A line starts behind every continuation. -/
theorem mem_lineStartsOf_of_continuation? (hesc : esc.Visible)
    (h : continuation? esc (text.drop off) = some (n, rest)) : off + n ∈ lineStartsOf text := by
  obtain ⟨e, tail, m, rfl, hdrop, hm, rfl⟩ := continuation?_eq_some.mp h
  have hlt : off < text.length := by
    have hlength := congrArg List.length hdrop
    rw [List.length_drop, List.length_cons] at hlength
    omega
  have hfront : (text.take off ++ [e]).length = off + 1 := by
    rw [List.length_append, List.length_take, List.length_singleton,
      Nat.min_eq_left (Nat.le_of_lt hlt)]
  have htext : text = text.take off ++ [e] ++ tail := by
    rw [List.append_assoc, List.singleton_append, ← hdrop, List.take_append_drop]
  have hapart : Apart (text.take off ++ [e]) tail := by
    intro hlast
    rw [List.getLast?_concat] at hlast
    obtain rfl := Option.some.inj hlast
    cases hesc _ rfl
  rw [htext, lineStartsOf_append hapart, hfront, laterLineStarts_of_lineBreak? hm, Nat.add_assoc,
    Nat.add_comm 1 m]
  exact List.mem_append_right _ List.mem_cons_self

/-- An offset behind the start of a line is on a later line than one before. -/
theorem positionAt_line_lt {a b start : Nat} (hstart : start ∈ lineStartsOf text) (ha : a < start)
    (hb : start ≤ b) (hlength : b ≤ text.length) :
    ((Document.ofText text).positionAt a).line < ((Document.ofText text).positionAt b).line := by
  obtain ⟨above, below, hlines⟩ := List.append_of_mem hstart
  have hmono : ∀ l : List Nat, l.countP (· ≤ a) ≤ l.countP (· ≤ b) := by
    intro l
    refine List.countP_mono_left fun s _ hs => ?_
    simp only [decide_eq_true_eq] at hs ⊢
    omega
  have hcount : (lineStartsOf text).countP (· ≤ a) < (lineStartsOf text).countP (· ≤ b) := by
    have habove := hmono above
    have hbelow := hmono below
    rw [hlines]
    simp only [List.countP_append, List.countP_cons, decide_eq_true_eq, hb, Nat.not_le.mpr ha]
    simp
    omega
  obtain ⟨line, -, hline, -, -⟩ := exists_line text a
  rw [positionAt_line (by omega), positionAt_line hlength]
  omega

/-! ## Diagnostics -/

/-- The codes of what is reported at a keyword. -/
def Code.isOfKeyword : Code → Bool
  | .unknownInstruction | .lowercase | .missingArgument | .deprecatedMaintainer => true
  | _ => false

/-- The diagnostics that a validation gives of the keyword of an instruction. -/
def keywordDiagnostics (settings : LintSettings) (keywords : List String) (text : List Char)
    (i : Instruction) : List Diagnostic :=
  ((checkInstruction (contextOf settings keywords text (Dockerfile.parse text)) i).map
    fun f => f.diagnostic (Document.ofText text)).filter fun d => d.code.isOfKeyword

/-- What is reported of a keyword is reported at the start of its span. -/
theorem start_of_mem_checkInstruction {ctx : CheckContext} {i : Instruction} {f : Finding}
    (hf : f ∈ checkInstruction ctx i) (hcode : f.problem.code.isOfKeyword = true) :
    f.span.start = i.nameSpan.start := by
  cases mem_checkInstruction hf with
  | unknown | lowercase | deprecated | missing => rfl
  | argument hmem hfault => cases hfault <;> cases hcode

/-- What is said of a keyword is said where its span starts. -/
theorem start_of_mem_keywordDiagnostics {settings : LintSettings} {keywords : List String}
    {i : Instruction} {dg : Diagnostic} (h : dg ∈ keywordDiagnostics settings keywords text i) :
    dg.range.start = (Document.ofText text).positionAt i.nameSpan.start := by
  obtain ⟨hdg, hcode⟩ := List.mem_filter.mp h
  obtain ⟨f, hf, rfl⟩ := List.mem_map.mp hdg
  rw [← start_of_mem_checkInstruction hf hcode]
  rfl

/-- The diagnostics of a validation with one of these codes are those of the keywords. -/
theorem validate_filter_isOfKeyword (settings : LintSettings) (keywords : List String)
    (text : List Char) :
    (validate settings keywords (Document.ofText text)).filter (fun d => d.code.isOfKeyword) =
      (Dockerfile.parse text).instructions.flatMap (keywordDiagnostics settings keywords text) := by
  have hpart : ∀ dg : Diagnostic, dg.code.isOfKeyword =
      (dg.code.isOfKeyword && decide (dg.code.part = .instructions)) := by
    intro dg
    cases dg.code <;> rfl
  have hfilter : ∀ report : List Diagnostic, report.filter (fun dg => dg.code.isOfKeyword) =
      (diagnosticsOf .instructions report).filter fun dg => dg.code.isOfKeyword := by
    intro report
    unfold diagnosticsOf
    rw [List.filter_filter]
    exact List.filter_congr fun dg _ => hpart dg
  rw [hfilter, diagnosticsOf_instructions, List.filter_flatMap]
  rfl

/-- The letters of a keyword are the characters read for it. -/
theorem letters_readInstruction (hcs : cs = text.drop off) :
    (readInstruction esc off cs).letters esc text = (readWord esc off cs).taken :=
  spliced_nameSpan hcs

/-- The first letter stands at the start of the span, and behind a continuation on a
later line than the start. -/
theorem letters_first (hesc : esc.Visible) {e : Char} (hcs : e :: cs = text.drop off)
    (hword : (readWord esc off (e :: cs)).taken ≠ []) :
    let i := readInstruction esc off (e :: cs)
    ∃ c first, (i.letters esc text).head? = some (c, first) ∧
      (i.ledByContinuation esc text = false → first = off) ∧
      (i.ledByContinuation esc text = true →
        ((Document.ofText text).positionAt off).line <
          ((Document.ofText text).positionAt first).line) := by
  intro i
  obtain ⟨c, first, hhead, halone, hled, hstop⟩ := readWord_first hword
  have hcont : i.ledByContinuation esc text = (continuation? esc (e :: cs)).isSome := by
    rw [hcs]
    rfl
  have hlength : first ≤ text.length := by
    have hread := (onward_readWord esc off (e :: cs)).add_length_text hcs
    omega
  rw [letters_readInstruction hcs, hcont]
  refine ⟨c, first, hhead, fun hnone => halone (by simpa using hnone), fun hsome => ?_⟩
  obtain ⟨⟨n, rest⟩, hjoint⟩ := Option.isSome_iff_exists.mp hsome
  have htwo := continuation?_two_le hjoint
  have hstart := mem_lineStartsOf_of_continuation? hesc (hcs ▸ hjoint)
  exact positionAt_line_lt hstart (by omega) (hled n rest hjoint) hlength

/-- **Where keywords are placed.**  In every document the diagnostics about keywords are
those of its instructions.  The letters of a keyword are what is under its span less the
continuations, and the last of them stands at the end of the span.  The first one stands
at its start, and the diagnostics about the keyword are on the line of the first letter,
if and only if no continuation comes right before the keyword. -/
theorem keyword_placed (text : List Char) :
    let d := Document.ofText text
    let file := Dockerfile.parse text
    let esc : Escape := some file.escape
    (∀ settings keywords,
      (validate settings keywords d).filter (fun dg => dg.code.isOfKeyword) =
        file.instructions.flatMap (keywordDiagnostics settings keywords text)) ∧
    ∀ i ∈ file.instructions, ∃ c first,
      (i.letters esc text).head? = some (c, first) ∧
      (i.letters esc text).map Prod.fst = i.written.toList ∧
      (i.letters esc text).getLast?.map Prod.snd = some (i.nameSpan.stop - 1) ∧
      (first = i.nameSpan.start ↔ i.ledByContinuation esc text = false) ∧
      ∀ settings keywords, ∀ dg ∈ keywordDiagnostics settings keywords text i,
        (dg.range.start.line = (d.positionAt first).line ↔
          i.ledByContinuation esc text = false) := by
  intro d file esc
  refine ⟨fun settings keywords => validate_filter_isOfKeyword settings keywords text,
    fun i hi => ?_⟩
  obtain ⟨off, e, rest, honward, -, -, hword, rfl⟩ := mem_parse_instructions hi
  have hcs := honward.eq_drop_text rfl
  obtain ⟨c, first, hhead, halone, hled⟩ := letters_first (visible_escape text) hcs hword
  refine ⟨c, first, hhead, ?_, ?_, ?_, fun settings keywords dg hdg => ?_⟩
  · rw [letters_readInstruction hcs]
    exact String.toList_ofList.symm
  · rw [letters_readInstruction hcs]
    exact readWord_last hword
  · refine ⟨fun hfirst => ?_, halone⟩
    refine Bool.eq_false_iff.mpr fun hjoint => ?_
    have hlt := hled hjoint
    rw [hfirst] at hlt
    exact absurd hlt (Int.lt_irrefl _)
  · rw [start_of_mem_keywordDiagnostics hdg]
    refine ⟨fun hline => ?_, fun hnone => ?_⟩
    · exact Bool.eq_false_iff.mpr fun hjoint => absurd hline (Int.ne_of_lt (hled hjoint))
    · rw [halone hnone]
      rfl

/-- An instruction without arguments whose keyword comes behind a continuation. -/
def joinedKeyword : List Char := "FROM x\n\\\nRUN\n".toList

/-- In `joinedKeyword` the span of the second keyword starts at the escape character, and
the missing argument is reported on the line before the keyword. -/
theorem joinedKeyword_is_reported_above :
    let d := Document.ofText joinedKeyword
    ∃ i ∈ (Dockerfile.parse joinedKeyword).instructions,
      i.written = "RUN" ∧ joinedKeyword[i.nameSpan.start]? = some '\\' ∧
      (i.letters (some '\\') joinedKeyword).head? = some ('R', 9) ∧ i.nameSpan.start = 7 ∧
      (d.positionAt 9).line = 2 ∧
      ∃ dg ∈ validate {} standardKeywords d,
        dg ∈ keywordDiagnostics {} standardKeywords joinedKeyword i ∧
        dg.code = .missingArgument ∧ dg.range.start.line = 1 := by
  refine ⟨readInstruction (some '\\') 7 (joinedKeyword.drop 7), by decide +kernel,
    by decide +kernel, by decide +kernel, by decide +kernel, by decide +kernel, by decide +kernel,
    Finding.diagnostic ⟨.missingArgument, ⟨7, 12⟩⟩ (Document.ofText joinedKeyword), ?_⟩
  decide +kernel

end DockerfileLint
