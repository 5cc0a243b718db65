import DockerfileLint.Lint
import DockerfileLint.Proofs.ArrayBody
import DockerfileLint.Proofs.Findings
import DockerfileLint.Proofs.Steps

/-!
# The scan follows the parser

The structural scan finds the instructions of a text by itself.  It reads the same
words as the parser, at the same places, as long as it is *in step* with it, and
it stands at the end of an instruction exactly when the parser does.

Two kinds of instruction take it out of step: a word that is no keyword, at which
the scan ends, and a list of strings whose check stops before the instruction
does.  One thing besides instructions can do it, a comment that a continuation
carries on, because the scan ends a comment with its physical line; the main
statement is about texts without such comments.

* `scan_inStep` is the run in step, one instruction after the other;
* `scan_follows_instructions` counts how far it goes.
-/

namespace DockerfileLint

variable {esc : Escape} {keywords : List String} {text : List Char}

/-! ## Comments without continuations -/

/-- A continuation starts somewhere in the text. -/
def hasContinuation (esc : Escape) : List Char → Bool
  | [] => false
  | c :: cs => (continuation? esc (c :: cs)).isSome || hasContinuation esc cs

/-- A text cut off behind its first continuation still has it. -/
theorem hasContinuation_take {cs rest : List Char} {n m : Nat}
    (h : continuation? esc cs = some (n, rest)) (hm : n ≤ m) :
    hasContinuation esc (cs.take m) = true := by
  have htwo := continuation?_two_le h
  obtain ⟨e, tail, k, rfl, rfl, hk, rfl⟩ := continuation?_eq_some.mp h
  obtain ⟨b, more, rfl, hb⟩ : ∃ b more, tail = b :: more ∧ isBreak b = true := by
    rcases lineBreak?_cases hk with ⟨-, rfl⟩ | ⟨-, rfl, -⟩ | ⟨-, rfl⟩
    · exact ⟨'\r', _, rfl, rfl⟩
    · exact ⟨'\r', _, rfl, rfl⟩
    · exact ⟨'\n', _, rfl, rfl⟩
  obtain ⟨j, rfl⟩ : ∃ j, m = j + 2 := ⟨m - 2, by omega⟩
  simp [hasContinuation, continuation?, lineBreak?_isSome _ hb]

/-- A logical line without continuations is a physical line. -/
theorem readLine_eq_firstLine (off : Nat) (cs : List Char)
    (h : hasContinuation esc (cs.take ((readLine esc off cs).stop - off)) = false) :
    (readLine esc off cs).stop = off + (firstLine cs).length ∧
      (readLine esc off cs).rest = afterFirstLine cs := by
  unfold readLine at h ⊢
  induction off, cs using splicing_induction esc with
  | splice off cs n rest hcont _ =>
      have hle := (onward_readWhile esc (fun c => !isBreak c) (off + n) rest).le
      rw [readWhile_of_continuation? hcont, hasContinuation_take hcont (by omega)] at h
      cases h
  | nil off => simp [firstLine, afterFirstLine]
  | char off c cs hcont ih =>
      cases hc : isBreak c with
      | true =>
          rw [readWhile_cons_of_not_keep hcont (by simp [hc])]
          simp [firstLine, afterFirstLine, hc]
      | false =>
          have hle := (onward_readWhile esc (fun c => !isBreak c) (off + 1) cs).le
          rw [readWhile_cons_of_keep hcont (by simp [hc])] at h ⊢
          simp only [take_sub_cons hle, hasContinuation, Bool.or_eq_false_iff] at h
          obtain ⟨hstop, hrest⟩ := ih h.2
          simp only [firstLine, afterFirstLine] at hstop hrest ⊢
          simp only [hc, List.takeWhile_cons, List.dropWhile_cons, Bool.not_false, if_true,
            List.length_cons]
          exact ⟨by omega, hrest⟩

/-! ## Keywords and their bodies -/

/-- The keywords with a rule of their own. -/
def ruledKeywords : List String :=
  rules.map Prod.fst

/-- The scan knows a word that has a rule or is allowed, and no other. -/
theorem bodyForm?_eq_none {keyword : String} :
    bodyForm? keywords keyword = none ↔ keyword ∉ ruledKeywords ∧ keyword ∉ keywords := by
  have hlookup : rules.lookup keyword = none ↔ keyword ∉ ruledKeywords := by
    rw [List.lookup_eq_none_iff]
    simp only [ruledKeywords, List.mem_map, not_exists, not_and, bne_iff_ne, ne_eq]
    exact forall₂_congr fun p _ => ⟨fun h heq => h heq.symm, fun h heq => h heq.symm⟩
  unfold bodyForm?
  cases hrule : rules.lookup keyword with
  | none =>
      rw [hrule] at hlookup
      simp [hlookup.mp rfl]
  | some rule =>
      rw [hrule] at hlookup
      simp [← hlookup]

/-- The whitelist is not asked about a keyword with a rule. -/
theorem bodyForm?_of_ruled {keyword : String} (h : keyword ∈ ruledKeywords)
    (keywords keywords' : List String) :
    bodyForm? keywords keyword = bodyForm? keywords' keyword := by
  have hknown : bodyForm? [] keyword ≠ none := fun hnone => (bodyForm?_eq_none.mp hnone).1 h
  unfold bodyForm? at hknown ⊢
  cases hrule : rules.lookup keyword with
  | none => simp [hrule] at hknown
  | some rule => rfl

/-- Only one keyword has a list of strings for its body. -/
theorem eq_volume_of_bodyForm? {keyword : String}
    (h : bodyForm? keywords keyword = some .stringArray) : keyword = "VOLUME" := by
  have hrules : ∀ p ∈ rules, p.2.body = .stringArray → p.1 = "VOLUME" := by
    decide
  unfold bodyForm? at h
  split at h
  · rename_i rule hrule
    exact hrules _ (mem_rules_of_lookup hrule) (Option.some.inj h)
  · split at h <;> simp at h

/-- Where the check of the list behind the keyword of an instruction stops. -/
def Instruction.listStop (i : Instruction) (esc : Escape) (text : List Char) : Nat :=
  (checkArrayBody esc true i.nameSpan.stop (text.drop i.nameSpan.stop)).stop

/-- The scan leaves step with the parser at an instruction: its keyword has no rule
and is not allowed, or the check of its list stops before the instruction ends. -/
def leavesStep (esc : Escape) (keywords : List String) (text : List Char) (i : Instruction) :
    Bool :=
  (i.keyword ∉ ruledKeywords && i.keyword ∉ keywords) ||
    (i.keyword = "VOLUME" && i.listStop esc text < i.span.stop)

/-- The list behind a keyword is checked alike from the end of the keyword and from
behind the continuations that follow it. -/
theorem listStop_readInstruction {off : Nat} {cs : List Char} (hcs : cs = text.drop off) :
    (readInstruction esc off cs).listStop esc text =
      (checkArrayBody esc true (readWord esc off cs).stop (readWord esc off cs).rest).stop := by
  obtain ⟨tail, honward, hpass⟩ := readWhile_reach esc (fun c => !isSpace c) off cs
  unfold Instruction.listStop readInstruction
  simp only [readWord]
  rw [← honward.eq_drop_text hcs, checkArrayBody_passContinuations, hpass]

/-- Where the scan does not leave step it stops with the instruction. -/
theorem visitBody_eq_readLine (hesc : esc.Visible) {off : Nat} {cs : List Char}
    (hcs : cs = text.drop off) {form : BodyForm}
    (hform : visitForm esc keywords off cs = some form)
    (hstay : leavesStep esc keywords text (readInstruction esc off cs) = false) :
    (visitBody esc keywords off cs).stop = (readLine esc off cs).stop ∧
      (visitBody esc keywords off cs).rest = (readLine esc off cs).rest := by
  have hline := readLine_behind_word esc off cs
  unfold visitBody
  rw [hform]
  cases form with
  | skipLine => exact hline
  | requireContent => exact hline
  | stringArray =>
      have hvolume : (readInstruction esc off cs).keyword = "VOLUME" := eq_volume_of_bodyForm? hform
      simp only [leavesStep, hvolume, Bool.or_eq_false_iff, decide_true, Bool.true_and,
        decide_eq_false_iff_not, Nat.not_lt, listStop_readInstruction hcs] at hstay
      have hle := checkArrayBody_stop_le hesc true (readWord esc off cs).stop
        (readWord esc off cs).rest
      have hstop : (checkArrayBody esc true (readWord esc off cs).stop
          (readWord esc off cs).rest).stop = (readLine esc off cs).stop := by
        have hspan : (readLine esc off cs).stop ≤ _ := hstay.2
        omega
      refine ⟨hstop, ?_⟩
      have hword := onward_readWord esc off cs
      have hbody := hword.trans (onward_checkArrayBody esc true _ _)
      have hread := onward_readLine esc off cs
      have hrest := hbody.eq_drop
      have hrest' := hread.eq_drop
      simp only [readWord, readLine, scanBehind, scanBody] at hstop hrest hrest' ⊢
      rw [hrest, hrest', hstop]

/-! ## The run in step -/

/-- The words that the scan read are those of the instructions, one for one, up to
the first instruction that leaves step or to the end of both. -/
inductive InStep (leaves : Instruction → Bool) : List Instruction → List Visit → Prop
  | done : InStep leaves [] []
  | leave {i : Instruction} {v : Visit} {instructions : List Instruction} {visits : List Visit}
      (hleave : leaves i = true) (hstart : v.start = i.span.start) (hword : v.word = i.written) :
      InStep leaves (i :: instructions) (v :: visits)
  | step {i : Instruction} {v : Visit} {instructions : List Instruction} {visits : List Visit}
      (hstay : leaves i = false) (hstart : v.start = i.span.start) (hword : v.word = i.written)
      (hstop : v.stop = i.span.stop) (tail : InStep leaves instructions visits) :
      InStep leaves (i :: instructions) (v :: visits)

/-- How many instructions both passes read together: those up to and including the
first that leaves step, all of them if none does. -/
def countTogether (leaves : Instruction → Bool) (instructions : List Instruction) : Nat :=
  min (instructions.findIdx leaves + 1) instructions.length

namespace InStep

variable {leaves : Instruction → Bool} {instructions : List Instruction} {visits : List Visit}

/-- The words read together start and read alike. -/
theorem words_eq (h : InStep leaves instructions visits) :
    (visits.take (countTogether leaves instructions)).map (fun v => (v.start, v.word)) =
      (instructions.take (countTogether leaves instructions)).map
        (fun i => (i.span.start, i.written)) := by
  induction h with
  | done => rfl
  | leave hleave hstart hword => simp [countTogether, List.findIdx_cons, hleave, hstart, hword]
  | @step i v instructions visits hstay hstart hword hstop tail ih =>
      have hcount : countTogether leaves (i :: instructions) =
          countTogether leaves instructions + 1 := by
        simp [countTogether, List.findIdx_cons, hstay]
      rw [hcount]
      simp [hstart, hword, ih]

/-- The words read together, less the last of them, end alike. -/
theorem stops_eq (h : InStep leaves instructions visits) :
    (visits.take (countTogether leaves instructions - 1)).map Visit.stop =
      (instructions.take (countTogether leaves instructions - 1)).map (·.span.stop) := by
  induction h with
  | done => rfl
  | leave hleave hstart hword => simp [countTogether, List.findIdx_cons, hleave]
  | @step i v instructions visits hstay hstart hword hstop tail ih =>
      have hcount : countTogether leaves (i :: instructions) - 1 =
          countTogether leaves instructions := by
        simp [countTogether, List.findIdx_cons, hstay]
      rw [hcount]
      cases tail with
      | done => rfl
      | leave hleave =>
          simp [countTogether, List.findIdx_cons, hleave, hstop]
      | @step j w rest others hstay' =>
          have hcount' : countTogether leaves (j :: rest) =
              countTogether leaves (j :: rest) - 1 + 1 := by
            simp only [countTogether, List.findIdx_cons, hstay', List.length_cons]
            simp
          rw [hcount']
          simp only [List.take_succ_cons, List.map_cons, hstop, ih]

/-- If no instruction leaves step both passes read equally many. -/
theorem length_eq (h : InStep leaves instructions visits)
    (hstay : instructions.any leaves = false) : visits.length = instructions.length := by
  induction h with
  | done => rfl
  | leave hleave => simp [hleave] at hstay
  | step _ _ _ _ _ ih =>
      simp only [List.any_cons, Bool.or_eq_false_iff] at hstay
      simp [ih hstay.2]

end InStep

/-- The scan goes through a text in step with the parser. -/
theorem scan_inStep (keywords : List String) (hesc : esc.Visible) (off : Nat) (cs : List Char)
    (hcs : cs = text.drop off)
    (hcomments : ∀ content ∈ (partsFrom esc off cs).filterMap Part.comment?,
      hasContinuation esc content = false) :
    InStep (leavesStep esc keywords text) (instructionsFrom esc off cs)
      (scanFrom esc keywords off cs).visits := by
  induction off, cs using parsing_induction esc with
  | nil off =>
      simp only [instructionsFrom_nil, scanFrom_nil]
      exact .done
  | space off c cs hspace ih =>
      rw [instructionsFrom_of_isSpace hspace, scanFrom_of_isSpace hspace]
      rw [partsFrom_of_isSpace hspace] at hcomments
      exact ih ((Onward.refl (off + 1) cs).cons c |>.eq_drop_text hcs) hcomments
  | comment off cs ih =>
      rw [partsFrom_of_mark, List.filterMap_cons_some (f := Part.comment?) rfl] at hcomments
      obtain ⟨hstop, hrest⟩ := readLine_eq_firstLine off ('#' :: cs)
        (hcomments _ List.mem_cons_self)
      rw [instructionsFrom_of_mark, scanFrom_of_mark, ← hstop, ← hrest]
      exact ih ((onward_readLine esc off _).eq_drop_text hcs)
        fun content hmem => hcomments content (List.mem_cons_of_mem _ hmem)
  | joint off c cs hspace hmark hword ih =>
      rw [instructionsFrom_of_joint hspace hmark hword, scanFrom_of_joint hspace hmark hword]
      rw [partsFrom_of_joint hspace hmark hword] at hcomments
      exact ih ((onward_readWord esc off _).eq_drop_text hcs) hcomments
  | word off c cs hspace hmark hword ih =>
      rw [partsFrom_of_word hspace hmark hword,
        List.filterMap_cons_none (f := Part.comment?) rfl] at hcomments
      rw [instructionsFrom_of_word hspace hmark hword]
      cases hform : visitForm esc keywords off (c :: cs) with
      | none =>
          rw [scanFrom_of_unknown hspace hmark hword hform]
          refine .leave ?_ rfl rfl
          have hnone : (readInstruction esc off (c :: cs)).keyword ∉ ruledKeywords ∧
              (readInstruction esc off (c :: cs)).keyword ∉ keywords := bodyForm?_eq_none.mp hform
          simp [leavesStep, hnone]
      | some form =>
          rw [scanFrom_of_word hspace hmark hword (by simp [hform])]
          cases hleave : leavesStep esc keywords text (readInstruction esc off (c :: cs)) with
          | true => exact .leave hleave rfl rfl
          | false =>
              obtain ⟨hstop, hrest⟩ := visitBody_eq_readLine hesc hcs hform hleave
              have hspan : (readVisit esc keywords off (c :: cs)).stop =
                  (readInstruction esc off (c :: cs)).span.stop := by
                unfold readVisit readInstruction
                exact hstop
              rw [hstop, hrest]
              exact .step hleave rfl rfl hspan
                (ih ((onward_readLine esc off _).eq_drop_text hcs) hcomments)

/-- **The scan follows the parser.**  In a document whose comments contain no
continuation the first words that the structural scan reads are the keywords of
the instructions, each where its instruction starts, up to and including the first
instruction at which the scan leaves step; before that one each body ends for the
scan where its instruction ends.  If no instruction leaves step the scan reads no
further word. -/
theorem scan_follows_instructions (keywords : List String) (text : List Char)
    (hcomments : ∀ content ∈ Dockerfile.comments text,
      hasContinuation (some (Dockerfile.parse text).escape) content = false) :
    let file := Dockerfile.parse text
    let visits := (scan (some file.escape) keywords file.bodyOffset text).visits
    let leaves := leavesStep (some file.escape) keywords text
    let k := countTogether leaves file.instructions
    (visits.take k).map (fun v => (v.start, v.word)) =
        (file.instructions.take k).map (fun i => (i.span.start, i.written)) ∧
      (visits.take (k - 1)).map Visit.stop =
        (file.instructions.take (k - 1)).map (·.span.stop) ∧
      (file.instructions.any leaves = false → visits.length = file.instructions.length) := by
  have h := scan_inStep keywords (visible_escape text) (Dockerfile.parse text).bodyOffset
    (text.drop (Dockerfile.parse text).bodyOffset) rfl hcomments
  exact ⟨h.words_eq, h.stops_eq, h.length_eq⟩

/-- A document with a comment, and a list that breaks in the middle of its line. -/
def brokenList : List Char := "FROM a\n# note\nVOLUME [\"x\" \"y\"]\nRUN z\n".toList

/-- In `brokenList` both passes read the first two instructions together, and the
scan leaves step at the second. -/
theorem scan_follows_instructions_brokenList :
    let file := Dockerfile.parse brokenList
    let visits := (scan (some file.escape) ["RUN"] file.bodyOffset brokenList).visits
    let leaves := leavesStep (some file.escape) ["RUN"] brokenList
    (∀ content ∈ Dockerfile.comments brokenList,
        hasContinuation (some file.escape) content = false) ∧
      countTogether leaves file.instructions = 2 ∧
      (visits.take 2).map (fun v => (v.start, v.word)) =
        (file.instructions.take 2).map (fun i => (i.span.start, i.written)) ∧
      (visits.take 1).map Visit.stop = (file.instructions.take 1).map (·.span.stop) := by
  have hcomments : ∀ content ∈ Dockerfile.comments brokenList,
      hasContinuation (some (Dockerfile.parse brokenList).escape) content = false := by
    have hnote : Dockerfile.comments brokenList = ["# note".toList] := by
      decide +kernel
    rw [hnote]
    decide
  have hcount : countTogether
      (leavesStep (some (Dockerfile.parse brokenList).escape) ["RUN"] brokenList)
      (Dockerfile.parse brokenList).instructions = 2 := by
    decide +kernel
  obtain ⟨hwords, hstops, -⟩ := scan_follows_instructions ["RUN"] brokenList hcomments
  rw [hcount] at hwords hstops
  exact ⟨hcomments, hcount, hwords, hstops⟩

end DockerfileLint
