import DockerfileLint.Proofs.Approach
import DockerfileLint.Proofs.Boundaries
import DockerfileLint.Proofs.InsertedContinuation
import DockerfileLint.Proofs.Stacking

/-!
# A continuation does not change what is wrong

An instruction can be written on more lines than it is: wherever a continuation is put
into it, the diagnostics of the document say what they said before, each of the same
instruction and in the same order.  Only their places move.

What is before the instruction is read alike (`Approach`); the instruction gives the
checks the same to look at (`readInstruction_joined`); what is behind lies two places
further on, and so does the end of the document, so the one check that asks for it
decides the same.  The scan takes note of no body but that of a list of strings, whose
continuations are another matter; so the instruction must not be one of those.

* `checkInstruction_problems`: the problems with an instruction are a matter of its keyword,
  the values of its arguments and whether there are any.
* `lint_problems_joined`: what is wrong with a document.
* `validate_continued`: what its diagnostics say.
-/

namespace DockerfileLint

variable {e : Char} {off : Nat} {front back : List Char} {keywords : List String}

/-! ## Problems of one instruction -/

/-- What the findings say, wherever they are. -/
def problems (findings : List Finding) : List Problem :=
  findings.map Finding.problem

/-- No findings, no problems. -/
@[simp] theorem problems_nil : problems [] = [] := rfl

/-- The problems of two lists of findings come one after the other. -/
@[simp] theorem problems_append (fs gs : List Finding) :
    problems (fs ++ gs) = problems fs ++ problems gs :=
  List.map_append

/-- What findings say does not move with them. -/
@[simp] theorem problems_shift (k : Nat) (findings : List Finding) :
    problems (findings.map (Finding.shift k)) = problems findings := by
  unfold problems
  rw [List.map_map]
  rfl

/-- The problem of an argument is the complaint about its value, if there is one. -/
theorem checkArgument_problems (rule : ArgumentRule) (a : Argument) :
    problems (checkArgument rule a) = (rule.complaint a.value).toList := by
  unfold checkArgument problems
  cases rule.complaint a.value <;> rfl

/-- What is wrong with arguments is a matter of their values. -/
theorem checkArguments_problems (rule : ArgumentRule) {arguments arguments' : List Argument}
    (h : arguments'.map Argument.value = arguments.map Argument.value) :
    problems (checkArguments rule arguments') = problems (checkArguments rule arguments) := by
  have hflat : ∀ l : List Argument, problems (l.flatMap (checkArgument rule)) =
      (l.map Argument.value).flatMap fun value => (rule.complaint value).toList := by
    intro l
    rw [List.flatMap_map]
    unfold problems
    rw [List.map_flatMap]
    simp only [← checkArgument_problems]
    rfl
  unfold checkArguments
  cases rule.single with
  | false => simp only [Bool.false_eq_true, if_false, hflat, h]
  | true =>
      match arguments, arguments' with
      | [], [] => rfl
      | [], _ :: _ => simp at h
      | _ :: _, [] => simp at h
      | [first], [first'] =>
          obtain ⟨hfirst, -⟩ := List.cons.inj h
          simp only [if_true, checkArgument_problems, hfirst]
      | [_], _ :: _ :: _ => simp at h
      | _ :: _ :: _, [_] => simp at h
      | first :: second :: _, first' :: second' :: _ =>
          obtain ⟨hfirst, -⟩ := List.cons.inj h
          simp only [if_true, problems_append, checkArgument_problems, hfirst]
          rfl

/-- The problems with an instruction are a matter of its keyword, of the values of its
arguments and of whether there are any. -/
theorem checkInstruction_problems (ctx : CheckContext) {finish : Nat} {i j : Instruction}
    (h : i.Alike ctx.escape ctx.finish finish j) :
    problems (checkInstruction { ctx with finish := finish } j) =
      problems (checkInstruction ctx i) := by
  have hkeyword : j.keyword = i.keyword := congrArg Unicode.upper h.written
  have hdeprecation : problems (checkDeprecation { ctx with finish := finish } j) =
      problems (checkDeprecation ctx i) := by
    unfold checkDeprecation
    rw [hkeyword]
    split
    · simp only
      split <;> rfl
    · rfl
  have hbody : problems (checkBody { ctx with finish := finish } j) =
      problems (checkBody ctx i) := by
    unfold checkBody
    rw [hkeyword]
    simp only [h.present]
    split
    · split
      · exact checkArguments_problems _ h.values
      · rfl
    · rfl
  unfold checkInstruction
  rw [hkeyword, h.written]
  simp only
  split
  · rfl
  · split
    · rfl
    · rw [problems_append, problems_append, hdeprecation, hbody]

/-- The first instruction is judged by its keyword. -/
theorem checkSourceImage_problems {i j : Instruction} (hwritten : j.written = i.written)
    (before after after' : List Instruction) :
    problems (checkSourceImage (before ++ j :: after')) =
      problems (checkSourceImage (before ++ i :: after)) := by
  cases before with
  | nil =>
      have hkeyword : j.keyword = i.keyword := congrArg Unicode.upper hwritten
      simp only [List.nil_append, checkSourceImage, hkeyword]
      split <;> rfl
  | cons first others => rfl

/-! ## The two passes from the instruction on -/

section

variable {c : Char}

/-- The instructions behind the one with the continuation lie two places further on. -/
theorem instructionsFrom_joined (hesc : Escape.Visible (some e)) (hspace : isSpace c = false)
    (hmark : c ≠ '#') (h : Joins e (c :: front) back)
    (hword : (readWord (some e) off (c :: front ++ back)).taken ≠ [])
    (hinside : off + (c :: front).length < (readLine (some e) off (c :: front ++ back)).stop) :
    ∃ after,
      instructionsFrom (some e) off (c :: front ++ back) =
        readInstruction (some e) off (c :: front ++ back) :: after ∧
      instructionsFrom (some e) off (joined e (c :: front) back) =
        readInstruction (some e) off (joined e (c :: front) back) ::
          after.map (Instruction.shift 2) := by
  obtain ⟨hstop, hrest⟩ := readLine_joined hesc h hinside
  have hword' : (readWord (some e) off (joined e (c :: front) back)).taken ≠ [] :=
    fun hnil => hword ((readWord_joined hesc off h).2.mp hnil)
  refine ⟨instructionsFrom (some e) (readLine (some e) off (c :: front ++ back)).stop
    (readLine (some e) off (c :: front ++ back)).rest,
    instructionsFrom_of_word hspace hmark hword, ?_⟩
  rw [← instructionsFrom_shift, ← hstop, ← hrest]
  exact instructionsFrom_of_word hspace hmark hword'

/-- What the scan reports from an instruction on that has no list of strings for its body:
what it reports behind the line, if the word is a keyword. -/
theorem scanFrom_findings_of_line {esc : Escape} {cs : List Char} (hhead : cs.head? = some c)
    (hspace : isSpace c = false) (hmark : c ≠ '#') (hword : (readWord esc off cs).taken ≠ [])
    (hform : visitForm esc keywords off cs ≠ some .stringArray) :
    (scanFrom esc keywords off cs).findings =
      if (visitForm esc keywords off cs).isSome then
        (scanFrom esc keywords (readLine esc off cs).stop (readLine esc off cs).rest).findings
      else [] := by
  obtain ⟨tail, rfl⟩ := List.head?_eq_some_iff.mp hhead
  obtain ⟨hstop, hrest⟩ := readLine_behind_word esc off (c :: tail)
  have hnone : (readVisit esc keywords off (c :: tail)).findings = [] :=
    List.eq_nil_iff_forall_not_mem.mpr fun f hf => hform (fault_of_mem_readVisit_findings hf).1
  cases hvisit : visitForm esc keywords off (c :: tail) with
  | none =>
      rw [scanFrom_of_unknown hspace hmark hword hvisit]
      simp [Scan.findings, hnone]
  | some form =>
      have hknown : (visitForm esc keywords off (c :: tail)).isSome = true := by
        rw [hvisit]
        rfl
      rw [scanFrom_of_word hspace hmark hword hknown, Scan.cons_findings, hnone, ← hstop, ← hrest]
      unfold visitBody
      rw [hvisit]
      cases form with
      | stringArray => exact absurd hvisit hform
      | skipLine => rfl
      | requireContent => rfl

/-- The scan reports the same from the instruction with the continuation on. -/
theorem scanFrom_problems_joined (hesc : Escape.Visible (some e)) (hspace : isSpace c = false)
    (hmark : c ≠ '#') (h : Joins e (c :: front) back)
    (hword : (readWord (some e) off (c :: front ++ back)).taken ≠ [])
    (hinside : off + (c :: front).length < (readLine (some e) off (c :: front ++ back)).stop)
    (hform : visitForm (some e) keywords off (c :: front ++ back) ≠ some .stringArray) :
    problems (scanFrom (some e) keywords off (joined e (c :: front) back)).findings =
      problems (scanFrom (some e) keywords off (c :: front ++ back)).findings := by
  obtain ⟨htext, htaken⟩ := readWord_joined hesc off h
  obtain ⟨hstop, hrest⟩ := readLine_joined hesc h hinside
  have hword' : (readWord (some e) off (joined e (c :: front) back)).taken ≠ [] :=
    fun hnil => hword (htaken.mp hnil)
  have hvisit : visitForm (some e) keywords off (joined e (c :: front) back) =
      visitForm (some e) keywords off (c :: front ++ back) := by
    unfold visitForm
    rw [htext]
  have hform' : visitForm (some e) keywords off (joined e (c :: front) back) ≠
      some .stringArray := by
    rw [hvisit]
    exact hform
  have hhead : (c :: front ++ back).head? = some c := rfl
  have hhead' : (joined e (c :: front) back).head? = some c := rfl
  have hplain := scanFrom_findings_of_line hhead hspace hmark hword hform
  have hsplit := scanFrom_findings_of_line hhead' hspace hmark hword' hform'
  rw [hsplit, hplain, hvisit, hstop, hrest, scanFrom_shift, Scan.shift_findings]
  split
  · exact problems_shift 2 _
  · rfl

end

/-! ## Documents -/

variable {text above rest : List Char} {c : Char} {i : Instruction}

/-- What is wrong with the instructions of a document, if the one with the continuation
stands behind `before` and in front of `after`. -/
theorem checkInstructions_problems (ctx : CheckContext) {before after : List Instruction}
    {j : Instruction}
    (hbefore : checkInstructions { ctx with finish := ctx.finish + 2 } before =
      checkInstructions ctx before)
    (h : i.Alike ctx.escape ctx.finish (ctx.finish + 2) j) :
    problems (checkInstructions { ctx with finish := ctx.finish + 2 }
        (before ++ j :: after.map (Instruction.shift 2))) =
      problems (checkInstructions ctx (before ++ i :: after)) := by
  have hafter := checkInstructions_shift ctx 2 after
  have hi := checkInstruction_problems ctx h
  unfold checkInstructions at hbefore hafter ⊢
  simp only [List.flatMap_append, List.flatMap_cons, problems_append, hbefore, hafter, hi,
    problems_shift]

section

variable (settings : LintSettings) (keywords : List String)
variable (h : ReadBelow keywords text above c (front ++ back) i)
variable (hjoins : Joins (Dockerfile.parse text).escape (c :: front) back)
variable (hinside : above.length + (c :: front).length < i.span.stop)

include h hjoins hinside

/-- The instructions of a document with a continuation in one of them. -/
theorem parse_joined :
    let file := Dockerfile.parse text
    ∃ before after j,
      before = instructionsFrom (some file.escape) file.bodyOffset (above.drop file.bodyOffset) ∧
      file.instructions = before ++ i :: after ∧
      Dockerfile.parse (above ++ joined file.escape (c :: front) back) =
        { directive := file.directive
          instructions := before ++ j :: after.map (Instruction.shift 2) } ∧
      i.Alike (some file.escape) text.length (text.length + 2) j := by
  have hreads := h.reads
  subst hreads
  have hword := h.word
  have hlength : text.length = above.length + (c :: (front ++ back)).length := by
    conv => lhs; rw [h.text_eq, List.length_append]
  obtain ⟨-, -, -, -, hend⟩ := readInstruction_within hword
  obtain ⟨after, hplain, hsplit⟩ := instructionsFrom_joined (visible_escape text)
    h.approach.space h.approach.mark hjoins hword hinside
  have hparse := h.parse_append (front ++ back)
  rw [← h.text_eq] at hparse
  exact ⟨_, after, _, rfl,
    (congrArg Dockerfile.instructions hparse).trans (congrArg (_ ++ ·) hplain),
    (h.parse_append (joined _ front back)).trans
      (congrArg (fun found => Dockerfile.mk _ (_ ++ found)) hsplit),
    readInstruction_joined (visible_escape text) hjoins hword hinside (hlength ▸ hend)⟩

/-- The scan of a document with a continuation in one of its instructions. -/
theorem scan_problems_joined (hvolume : i.keyword ≠ "VOLUME") :
    let file := Dockerfile.parse text
    problems (scan (some file.escape) keywords file.bodyOffset
        (above ++ joined file.escape (c :: front) back)).findings =
      problems (scan (some file.escape) keywords file.bodyOffset text).findings := by
  intro file
  have hreads := h.reads
  subst hreads
  have hform : visitForm (some file.escape) keywords above.length (c :: front ++ back) ≠
      some .stringArray :=
    fun hform => hvolume (eq_volume_of_bodyForm? hform)
  have hbehind := scanFrom_problems_joined (visible_escape text) h.approach.space h.approach.mark
    hjoins h.word hinside hform
  have hplain := h.scan_append (front ++ back)
  have hsplit : scan (some file.escape) keywords file.bodyOffset
      (above ++ joined file.escape (c :: front) back) = _ :=
    h.scan_append (joined file.escape front back)
  rw [← h.text_eq] at hplain
  rw [hplain, hsplit, Scan.andThen_findings, Scan.andThen_findings, problems_append,
    problems_append]
  refine congrArg (_ ++ ·) ?_
  split
  · rfl
  · exact hbehind

/-- **A continuation in an instruction of a document.**  What is wrong with the document
is the same. -/
theorem lint_problems_joined (hvolume : i.keyword ≠ "VOLUME") :
    problems (lint settings keywords
        (above ++ joined (Dockerfile.parse text).escape (c :: front) back)).findings =
      problems (lint settings keywords text).findings := by
  let split := above ++ joined (Dockerfile.parse text).escape (c :: front) back
  let ctx := contextOf settings keywords text (Dockerfile.parse text)
  obtain ⟨before, after, j, hbefore, hplain, hsplit, halike⟩ :=
    parse_joined keywords h hjoins hinside
  change Dockerfile.parse split = _ at hsplit
  have hlength : text.length = above.length + (c :: (front ++ back)).length := by
    conv => lhs; rw [h.text_eq, List.length_append]
  have hlength' : split.length = text.length + 2 := by
    simp only [split, joined, List.length_append, List.length_cons] at hlength ⊢
    omega
  have hcontext : contextOf settings keywords split (Dockerfile.parse split) =
      { ctx with finish := ctx.finish + 2 } := by
    unfold contextOf
    rw [hlength', hsplit]
    rfl
  have habove : checkInstructions { ctx with finish := ctx.finish + 2 } before =
      checkInstructions ctx before := by
    have hlt : above.length < ctx.finish := by
      show above.length < text.length
      rw [hlength, List.length_cons]
      omega
    rw [hbefore]
    apply checkInstructions_of_lt
    intro k hk
    obtain ⟨start, d, rest, honward, -, -, hword, rfl⟩ := mem_instructionsFrom hk
    obtain ⟨-, -, -, -, hend⟩ := readInstruction_within hword
    have hsum := honward.add_length
    rw [h.add_length] at hsum
    omega
  have hdirective : (Dockerfile.parse split).directive = (Dockerfile.parse text).directive := by
    rw [hsplit]
  have hsource : problems (checkSourceImage (Dockerfile.parse split).instructions) =
      problems (checkSourceImage (Dockerfile.parse text).instructions) := by
    rw [hsplit, hplain]
    exact checkSourceImage_problems halike.written ..
  have hinstructions : problems (checkInstructions
        (contextOf settings keywords split (Dockerfile.parse split))
        (Dockerfile.parse split).instructions) =
      problems (checkInstructions ctx (Dockerfile.parse text).instructions) := by
    rw [hcontext, hsplit, hplain]
    exact checkInstructions_problems ctx habove halike
  have hscan : problems (scan (some (Dockerfile.parse split).escape) keywords
        (Dockerfile.parse split).bodyOffset split).findings =
      problems (scan (some (Dockerfile.parse text).escape) keywords
        (Dockerfile.parse text).bodyOffset text).findings := by
    rw [hsplit]
    exact scan_problems_joined keywords h hjoins hinside hvolume
  show problems (LintReport.findings (lint settings keywords split)) = _
  simp only [LintReport.findings, lint, problems_append, hdirective, hsource, hinstructions, hscan,
    ctx]

end

/-! ## Diagnostics -/

/-- What a diagnostic says, wherever it points. -/
def Diagnostic.said (d : Diagnostic) : Code × Severity × String :=
  (d.code, d.severity, d.message)

/-- What the diagnostics of a document say is what is wrong with it. -/
theorem validate_said (settings : LintSettings) (keywords : List String) (text : List Char) :
    (validate settings keywords (Document.ofText text)).map Diagnostic.said =
      (problems (lint settings keywords text).findings).map fun p =>
        (p.code, p.severity, p.message) := by
  unfold validate problems
  rw [List.map_map, List.map_map]
  rfl

/-- The document with a continuation put in at an offset. -/
def continuedAt (text : List Char) (offset : Nat) : List Char :=
  joined (Dockerfile.parse text).escape (text.take offset) (text.drop offset)

/-- **A continuation does not change what is wrong.**  Put into an instruction that has no
list of strings for its body, anywhere but behind the escape character or within a line
break, a continuation leaves the diagnostics of the document as they are but for their
places: the same codes, severities and messages, in the same order. -/
theorem validate_continued (settings : LintSettings) (keywords : List String) {text : List Char}
    {i : Instruction} {offset : Nat} (hi : i ∈ (Dockerfile.parse text).instructions)
    (hvolume : i.keyword ≠ "VOLUME") (hstart : i.span.start < offset) (hstop : offset < i.span.stop)
    (hjoins : Joins (Dockerfile.parse text).escape (text.take offset) (text.drop offset)) :
    (validate settings keywords (Document.ofText (continuedAt text offset))).map Diagnostic.said =
      (validate settings keywords (Document.ofText text)).map Diagnostic.said := by
  obtain ⟨above, c, rest, h⟩ := exists_readBelow keywords hi
  have habove : i.span.start = above.length := congrArg (Span.start ∘ Instruction.span) h.reads
  obtain ⟨k, rfl⟩ : ∃ k, offset = above.length + (k + 1) :=
    ⟨offset - above.length - 1, by omega⟩
  have htake : text.take (above.length + (k + 1)) = above ++ c :: rest.take k := by
    conv => lhs; rw [h.text_eq]
    exact List.take_length_add_append (k + 1)
  have hdrop : text.drop (above.length + (k + 1)) = rest.drop k := by
    conv => lhs; rw [h.text_eq]
    exact List.drop_length_add_append (k + 1)
  have hk : (rest.take k).length = k := by
    obtain ⟨-, -, -, -, hend⟩ := instruction_within hi
    have hlength := congrArg List.length h.text_eq
    rw [List.length_append, List.length_cons] at hlength
    exact List.length_take_of_le (by omega)
  have hcontinued : continuedAt text (above.length + (k + 1)) =
      above ++ joined (Dockerfile.parse text).escape (c :: rest.take k) (rest.drop k) := by
    unfold continuedAt joined
    rw [htake, hdrop, List.append_assoc]
  rw [htake, hdrop] at hjoins
  rw [← List.take_append_drop k rest] at h
  rw [hcontinued, validate_said, validate_said,
    lint_problems_joined settings keywords h (hjoins.of_suffix (List.suffix_append above _))
      (by rw [List.length_cons, hk]; exact hstop) hvolume]

/-- An instruction with an argument too many, on its second line. -/
def extraUser : List Char := "FROM x\nUSER a b\n".toList

/-- `extraUser` says the same with a continuation in the middle of its second keyword. -/
theorem validate_continued_extraUser :
    let i := readInstruction (some '\\') 7 (extraUser.drop 7)
    i ∈ (Dockerfile.parse extraUser).instructions ∧ i.keyword ≠ "VOLUME" ∧
      i.span.start < 9 ∧ 9 < i.span.stop ∧
      Joins (Dockerfile.parse extraUser).escape (extraUser.take 9) (extraUser.drop 9) ∧
      (validate {} standardKeywords (Document.ofText (continuedAt extraUser 9))).map
          Diagnostic.said =
        (validate {} standardKeywords (Document.ofText extraUser)).map Diagnostic.said := by
  intro i
  have hi : i ∈ (Dockerfile.parse extraUser).instructions := by
    decide +kernel
  have hvolume : i.keyword ≠ "VOLUME" := by
    decide +kernel
  have hspan : i.span.start < 9 ∧ 9 < i.span.stop := by
    decide +kernel
  have hjoins : Joins (Dockerfile.parse extraUser).escape (extraUser.take 9) (extraUser.drop 9) :=
    ⟨by decide +kernel, fun hlast => absurd hlast (by decide)⟩
  exact ⟨hi, hvolume, hspan.1, hspan.2, hjoins,
    validate_continued {} standardKeywords hi hvolume hspan.1 hspan.2 hjoins⟩

end DockerfileLint
