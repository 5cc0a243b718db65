import DockerfileLint.Proofs.Lines

/-!
# A document with a text below it

A document that ends its last line can be validated without the text below it.  What
is wrong with its directive, its instructions and its lists is what is wrong with it
alone; then comes what is wrong with the instructions and lists of the text below,
read under the same escape character and with no directive of its own.  Only two
things look across: whether there is a first instruction at all, and whether the scan
ended above.

`lintBelow` is the report of the text below, as if the document began there, and
`lint_append` says that the report of the whole is the two of them stacked.
-/

namespace DockerfileLint

variable {esc : Escape} {keywords : List String} {settings : LintSettings}
variable {front back : List Char}

/-! ## The end of the document -/

/-- How far a document goes counts for the arguments only behind a break: a continuation
that comes up to its end passes for an argument. -/
theorem argumentsPresent_congr {finish finish' : Nat} (off : Nat) (cs : List Char)
    (h : ∀ passed rest b, cs = passed ++ rest → passed.getLast? = some b → isBreak b = true →
      (finish ≤ off + passed.length ↔ finish' ≤ off + passed.length)) :
    argumentsPresent esc finish off cs = argumentsPresent esc finish' off cs := by
  induction off, cs using splicing_induction esc with
  | splice off cs n rest hcont ih =>
      obtain ⟨joint, rfl, rfl, -, b, hb, hbreak⟩ := continuation?_eq_append hcont
      have hfinish := h joint rest b rfl hb hbreak
      rw [argumentsPresent_of_continuation? hcont, argumentsPresent_of_continuation? hcont]
      simp only [hfinish]
      split
      · rfl
      · apply ih
        intro passed rest' b' hrest hlast hb'
        have hshift := h (joint ++ passed) rest' b' (by rw [hrest, List.append_assoc])
          (by rw [List.getLast?_append, hlast]; rfl) hb'
        rwa [List.length_append, ← Nat.add_assoc] at hshift
  | nil off => simp
  | char off c cs hcont ih =>
      rw [argumentsPresent_cons hcont, argumentsPresent_cons hcont]
      split
      · apply ih
        intro passed rest b hcs hlast hb
        have hshift := h (c :: passed) rest b (by rw [hcs]; rfl)
          (by simp [List.getLast?_cons, hlast]) hb
        rwa [List.length_cons, Nat.add_comm passed.length, ← Nat.add_assoc] at hshift
      · rfl

/-- The checks of an instruction ask how far the document goes only to see whether there
are arguments. -/
theorem checkInstruction_congr (ctx : CheckContext) {finish : Nat} {i : Instruction}
    (h : i.hasArguments ctx.escape finish = i.hasArguments ctx.escape ctx.finish) :
    checkInstruction { ctx with finish := finish } i = checkInstruction ctx i := by
  unfold checkInstruction checkBody
  simp only [h]
  rfl

/-- The checks of an instruction that ends before the document does not depend on how
far the document goes on. -/
theorem checkInstruction_of_lt (ctx : CheckContext) {finish : Nat} {off : Nat} {cs : List Char}
    (hword : (readWord esc off cs).taken ≠ [])
    (h : (readInstruction esc off cs).span.stop < ctx.finish)
    (h' : (readInstruction esc off cs).span.stop < finish) :
    checkInstruction { ctx with finish := finish } (readInstruction esc off cs) =
      checkInstruction ctx (readInstruction esc off cs) := by
  have hlength := argumentsText_length hword
  simp only at hlength
  apply checkInstruction_congr
  apply argumentsPresent_congr
  intro passed rest b hcs _ _
  rw [hcs, List.length_append] at hlength
  omega

/-- Instructions that are found the same fault with in two contexts are so as a list. -/
theorem checkInstructions_congr {ctx ctx' : CheckContext} {instructions : List Instruction}
    (h : ∀ i ∈ instructions, checkInstruction ctx' i = checkInstruction ctx i) :
    checkInstructions ctx' instructions = checkInstructions ctx instructions := by
  unfold checkInstructions
  rw [List.flatMap_def, List.flatMap_def, List.map_congr_left h]

/-- Nor do those of instructions that all end before the document. -/
theorem checkInstructions_of_lt (ctx : CheckContext) {finish off : Nat} {cs : List Char}
    (h : ∀ i ∈ instructionsFrom esc off cs, i.span.stop < ctx.finish ∧ i.span.stop < finish) :
    checkInstructions { ctx with finish := finish } (instructionsFrom esc off cs) =
      checkInstructions ctx (instructionsFrom esc off cs) := by
  apply checkInstructions_congr
  intro i hi
  obtain ⟨hctx, hfinish⟩ := h i hi
  obtain ⟨start, c, rest, -, -, -, hword, rfl⟩ := mem_instructionsFrom hi
  exact checkInstruction_of_lt ctx hword hctx hfinish

/-- The instructions of a document that ends its line end before the document. -/
theorem EndsLine.span_stop_lt (h : EndsLine front) {i : Instruction}
    (hi : i ∈ (Dockerfile.parse front).instructions) : i.span.stop < front.length := by
  obtain ⟨start, c, rest, honward, hspace, -, -, rfl⟩ := mem_parse_instructions hi
  have hclosed := linesClosed_of_suffix honward.suffix h.2
  have hlength := honward.add_length
  have hbody := bodyOffset_le front
  rw [List.length_drop] at hlength
  have hline := onward_readLine (some (Dockerfile.parse front).escape) start (c :: rest)
  have hsum := hline.add_length
  have hrest : (readLine (some (Dockerfile.parse front).escape) start (c :: rest)).rest ≠ [] := by
    apply readWhile_rest_ne_nil _ start hclosed (List.cons_ne_nil c rest)
    intro b hb
    simp [hb]
  have hpos := List.length_pos_iff.mpr hrest
  show (readLine (some (Dockerfile.parse front).escape) start (c :: rest)).stop < front.length
  omega

/-! ## The first instruction -/

/-- The first instruction of two texts is that of the second only if the first text has
none. -/
theorem checkSourceImage_append (k : Nat) (above below : List Instruction) :
    checkSourceImage (above ++ below.map (Instruction.shift k)) =
      if above = [] ∧ below ≠ [] then (checkSourceImage below).map (Finding.shift k)
      else checkSourceImage above := by
  cases above with
  | cons first others => simp [checkSourceImage]
  | nil =>
      by_cases hbelow : below = []
      · subst hbelow
        rfl
      · rw [if_pos ⟨rfl, hbelow⟩, ← checkSourceImage_relocate fun h => absurd h hbelow]
        rfl

/-! ## Reports of two texts -/

/-- What is checked in a text below a document, as if the document began there. -/
def belowContext (settings : LintSettings) (keywords : List String) (esc : Escape)
    (back : List Char) : CheckContext where
  keywords := keywords
  settings := settings
  escape := esc
  finish := back.length

/-- What is found in a text below a document, as if the document began there.  A text
with no instruction does not miss one. -/
def lintBelow (settings : LintSettings) (keywords : List String) (esc : Escape)
    (back : List Char) : LintReport :=
  let instructions := instructionsFrom esc 0 back
  { directive := []
    sourceImage := if instructions = [] then [] else checkSourceImage instructions
    instructions := checkInstructions (belowContext settings keywords esc back) instructions
    scan := (scanFrom esc keywords 0 back).findings }

/-- The first instruction of a document and the text below it is that of the text. -/
def firstBelow (front back : List Char) : Bool :=
  let file := Dockerfile.parse front
  file.instructions = [] ∧ instructionsFrom (some file.escape) 0 back ≠ []

/-- The scan does not get past a document. -/
def endsScan (keywords : List String) (front : List Char) : Bool :=
  let file := Dockerfile.parse front
  (scan (some file.escape) keywords file.bodyOffset front).ended

namespace LintReport

variable {α : Type} {upper upper' lower lower' : Finding → α} {above below : LintReport}

/-- The findings of a report, further on in the text. -/
def shift (k : Nat) (r : LintReport) : LintReport where
  directive := r.directive.map (Finding.shift k)
  sourceImage := r.sourceImage.map (Finding.shift k)
  instructions := r.instructions.map (Finding.shift k)
  scan := r.scan.map (Finding.shift k)

/-- The report of a document and a text below it, from the reports of the two. -/
def stack (above below : LintReport) (first ended : Bool) : LintReport where
  directive := above.directive
  sourceImage := if first then below.sourceImage else above.sourceImage
  instructions := above.instructions ++ below.instructions
  scan := above.scan ++ if ended then [] else below.scan

/-- What `upper` makes of the findings in a document and `lower` of those in the text
below it, part by part. -/
def gather (upper lower : Finding → α) (above below : LintReport) (first ended : Bool) : List α :=
  above.directive.map upper ++
    (if first then below.sourceImage.map lower else above.sourceImage.map upper) ++
    (above.instructions.map upper ++ below.instructions.map lower) ++
    (above.scan.map upper ++ if ended then [] else below.scan.map lower)

/-- Whatever is taken of the findings of two reports in one is gathered from the two. -/
theorem findings_stack_map (k : Nat) (above below : LintReport) (first ended : Bool)
    (g : Finding → α) :
    (above.stack (below.shift k) first ended).findings.map g =
      gather g (fun f => g (f.shift k)) above below first ended := by
  simp only [findings, stack, shift, gather, List.map_append]
  cases first <;> cases ended <;> simp [Function.comp_def]

/-- Only what is made of the findings of the document counts above. -/
theorem gather_congr (first ended : Bool) (hupper : ∀ f ∈ above.findings, upper f = upper' f)
    (hlower : ∀ f, lower f = lower' f) :
    gather upper lower above below first ended =
      gather upper' lower' above below first ended := by
  obtain rfl : lower = lower' := funext hlower
  simp only [findings, List.mem_append] at hupper
  unfold gather
  rw [List.map_congr_left fun f hf => hupper f (.inl (.inl (.inl hf))),
    List.map_congr_left fun f hf => hupper f (.inl (.inl (.inr hf))),
    List.map_congr_left fun f hf => hupper f (.inl (.inr hf)),
    List.map_congr_left fun f hf => hupper f (.inr hf)]

/-- It makes no difference whether the lower report is moved first. -/
theorem gather_shift (k : Nat) (upper lower : Finding → α) (above below : LintReport)
    (first ended : Bool) :
    gather upper lower above (below.shift k) first ended =
      gather upper (fun f => lower (f.shift k)) above below first ended := by
  simp only [gather, shift, List.map_map, Function.comp_def]

/-- The parts of the two reports are all counted, except those that the upper one hides. -/
theorem length_gather (upper lower : Finding → α) (above below : LintReport)
    (first ended : Bool) :
    (gather upper lower above below first ended).length =
      above.directive.length +
        (if first then below.sourceImage.length else above.sourceImage.length) +
        (above.instructions.length + below.instructions.length) +
        (above.scan.length + if ended then 0 else below.scan.length) := by
  unfold gather
  cases first <;> cases ended <;> simp <;> omega

end LintReport

/-! ## The document and the text below it -/

/-- The findings of two scans in a row are those of the first, and of the second if the first
did not end the scan. -/
theorem Scan.andThen_findings (s t : Scan) :
    (s.andThen t).findings = s.findings ++ if s.ended then [] else t.findings := by
  unfold Scan.andThen
  split
  · simp
  · unfold Scan.findings
    rw [List.flatMap_append]

/-- What is wrong with the instructions of a document that ends its line is the same with
a text below it. -/
theorem checkInstructions_of_le (settings : LintSettings) (keywords : List String)
    (h : EndsLine front) {finish : Nat} (hfinish : front.length ≤ finish) :
    let file := Dockerfile.parse front
    checkInstructions { contextOf settings keywords front file with finish := finish }
        file.instructions =
      (lint settings keywords front).instructions := by
  intro file
  apply checkInstructions_of_lt
  intro i hi
  have hlt := h.span_stop_lt hi
  exact ⟨hlt, Nat.lt_of_lt_of_le hlt hfinish⟩

/-- What is wrong with the instructions of a document and those of a text below it. -/
theorem checkInstructions_append (settings : LintSettings) (keywords : List String)
    (h : EndsLine front) (back : List Char) :
    let file := Dockerfile.parse (front ++ back)
    let esc := some (Dockerfile.parse front).escape
    checkInstructions (contextOf settings keywords (front ++ back) file) file.instructions =
      (lint settings keywords front).instructions ++
        (lintBelow settings keywords esc back).instructions.map (Finding.shift front.length) := by
  intro file esc
  have hparse : file = ⟨(Dockerfile.parse front).directive, _⟩ := parse_append h back
  have hcontext : contextOf settings keywords (front ++ back) file =
      { belowContext settings keywords esc back with finish := back.length + front.length } := by
    rw [hparse]
    unfold contextOf belowContext
    rw [List.length_append, Nat.add_comm]
    rfl
  have hfront := checkInstructions_of_le settings keywords h (Nat.le_add_left _ back.length)
  rw [hcontext, hparse, ← hfront, lintBelow, ← checkInstructions_shift, ← instructionsFrom_shift,
    Nat.zero_add]
  exact List.flatMap_append

/-- What the first instruction of a document and a text below it is blamed for. -/
theorem checkSourceImage_parse_append (h : EndsLine front) (settings : LintSettings)
    (keywords : List String) (back : List Char) :
    let esc := some (Dockerfile.parse front).escape
    checkSourceImage (Dockerfile.parse (front ++ back)).instructions =
      if firstBelow front back then
        (lintBelow settings keywords esc back).sourceImage.map (Finding.shift front.length)
      else
        checkSourceImage (Dockerfile.parse front).instructions := by
  intro esc
  have hparse : Dockerfile.parse (front ++ back) = ⟨_, _⟩ := parse_append h back
  have hbelow : instructionsFrom esc front.length back =
      (instructionsFrom esc 0 back).map (Instruction.shift front.length) := by
    rw [← instructionsFrom_shift, Nat.zero_add]
  rw [hparse, hbelow, checkSourceImage_append]
  unfold firstBelow lintBelow
  simp only [decide_eq_true_eq]
  split
  · rename_i hfirst
    rw [if_neg hfirst.2]
  · rfl

/-- The scan of a document and a text below it. -/
theorem scan_findings_append (h : EndsLine front) (settings : LintSettings)
    (keywords : List String) (back : List Char) :
    let file := Dockerfile.parse (front ++ back)
    let esc := some (Dockerfile.parse front).escape
    (scan (some file.escape) keywords file.bodyOffset (front ++ back)).findings =
      (lint settings keywords front).scan ++
        if endsScan keywords front then []
        else (lintBelow settings keywords esc back).scan.map (Finding.shift front.length) := by
  intro file esc
  have hparse : file = ⟨(Dockerfile.parse front).directive, _⟩ := parse_append h back
  have hbelow : (scanFrom esc keywords front.length back).findings =
      (scanFrom esc keywords 0 back).findings.map (Finding.shift front.length) := by
    rw [← Scan.shift_findings, ← scanFrom_shift, Nat.zero_add]
  rw [hparse]
  show (scan esc keywords (Dockerfile.parse front).bodyOffset (front ++ back)).findings = _
  rw [scan_append h, Scan.andThen_findings, hbelow]
  rfl

/-- **A document and the text below it.**  If a document ends its last line, its
findings come first in each part, and then those of the text below it, further on by
the length of the document. -/
theorem lint_append (settings : LintSettings) (keywords : List String) (h : EndsLine front)
    (back : List Char) :
    lint settings keywords (front ++ back) =
      (lint settings keywords front).stack
        ((lintBelow settings keywords (some (Dockerfile.parse front).escape) back).shift
          front.length)
        (firstBelow front back) (endsScan keywords front) := by
  have hparse : Dockerfile.parse (front ++ back) = ⟨(Dockerfile.parse front).directive, _⟩ :=
    parse_append h back
  have hdirective : checkDirective (Dockerfile.parse (front ++ back)).directive =
      (lint settings keywords front).directive := by
    rw [hparse]
    rfl
  exact (LintReport.mk.injEq ..).mpr ⟨hdirective,
    checkSourceImage_parse_append h settings keywords back,
    checkInstructions_append settings keywords h back,
    scan_findings_append h settings keywords back⟩

end DockerfileLint
