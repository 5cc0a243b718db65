import DockerfileLint.Lint
import DockerfileLint.Proofs.ArrayBody
import DockerfileLint.Proofs.ClosedLines
import DockerfileLint.Proofs.Steps

/-!
# One text behind another

Neither pass learns from a closed text what is appended to it.  The parser finds in
both together what it finds in the first, and then what it finds in the second from
where that begins; so does the scan, unless it met a word in the first text that is
no keyword and ended there.  `instructionsFrom_append` and `scanFrom_append` say so
for the texts behind the directive, `parse_append` and `scan_append` for documents:
the directive is a matter of the first line alone.
-/

namespace DockerfileLint

variable {esc : Escape} {keywords : List String}

/-! ## Movements and lists -/

/-- A word ends before what comes behind closed lines. -/
theorem readWord_append (hesc : esc.Visible) (off : Nat) {cs more : List Char}
    (h : Sealed esc cs more) (hne : cs ≠ []) :
    readWord esc off (cs ++ more) =
      { readWord esc off cs with rest := (readWord esc off cs).rest ++ more } := by
  apply readWhile_append hesc _ off h hne
  intro c hc
  simp [isSpace_of_isBreak hc]

/-- In closed lines something is left behind a word. -/
theorem readWord_rest_ne_nil (off : Nat) {cs : List Char} (hclosed : linesClosed esc cs = true)
    (hne : cs ≠ []) : (readWord esc off cs).rest ≠ [] := by
  apply readWhile_rest_ne_nil _ off hclosed hne
  intro c hc
  simp [isSpace_of_isBreak hc]

/-- A line ends before what comes behind closed lines. -/
theorem readLine_append (hesc : esc.Visible) (off : Nat) {cs more : List Char}
    (h : Sealed esc cs more) (hne : cs ≠ []) :
    readLine esc off (cs ++ more) =
      { readLine esc off cs with rest := (readLine esc off cs).rest ++ more } := by
  apply readWhile_append hesc _ off h hne
  intro c hc
  simp [hc]

/-- Where a list meets no continuation in a closed text, it meets none with more
behind it. -/
theorem ArrayState.continuation?_cons_append {s : ArrayState} {c : Char} {cs : List Char}
    (hesc : esc.Visible) (hclosed : linesClosed esc (c :: cs) = true)
    (h : s.continuation? esc (c :: cs) = none) (more : List Char) :
    s.continuation? esc (c :: (cs ++ more)) = none := by
  unfold ArrayState.continuation? at h ⊢
  split
  · rfl
  · rename_i hout
    rw [if_neg hout] at h
    exact DockerfileLint.continuation?_cons_append hesc hclosed h more

/-- A walk along a list never learns what is appended to a closed text. -/
theorem walkArray_append (hesc : esc.Visible) (s : ArrayState) (off : Nat) (cs : List Char)
    (hclosed : linesClosed esc cs = true) (hne : cs ≠ []) (more : List Char) :
    walkArray esc s off (cs ++ more) =
      { walkArray esc s off cs with rest := (walkArray esc s off cs).rest ++ more } := by
  fun_induction walkArray esc s off cs with
  | case1 s off cs n rest h ih =>
      obtain ⟨hout, hcont⟩ := ArrayState.continuation?_eq_some h
      have happend : s.continuation? esc (cs ++ more) = some (n, rest ++ more) := by
        unfold ArrayState.continuation?
        rw [hout, continuation?_append hesc hclosed hne more, hcont]
        rfl
      rw [walkArray_of_continuation? happend]
      exact ih (linesClosed_of_suffix (onward_of_continuation? off hcont).suffix hclosed)
        (ne_nil_of_continuation? hclosed hcont)
  | case2 => exact absurd rfl hne
  | case3 s off c cs h hc =>
      rw [List.cons_append,
        walkArray_cons (ArrayState.continuation?_cons_append hesc hclosed h more), if_pos hc]
  | case4 s off c cs h hc hstring ih =>
      rw [List.cons_append,
        walkArray_cons (ArrayState.continuation?_cons_append hesc hclosed h more), if_neg hc,
        if_pos hstring]
      exact ih (linesClosed_of_cons hclosed)
        (ne_nil_of_linesClosed_cons hclosed (by simpa using hc))
  | case5 s off c cs h hc hstring hdue =>
      rw [List.cons_append,
        walkArray_cons (ArrayState.continuation?_cons_append hesc hclosed h more), if_neg hc,
        if_neg hstring, if_pos hdue]
  | case6 s off c cs h hc hstring hdue ih =>
      rw [List.cons_append,
        walkArray_cons (ArrayState.continuation?_cons_append hesc hclosed h more), if_neg hc,
        if_neg hstring, if_neg hdue]
      exact ih (linesClosed_of_cons hclosed)
        (ne_nil_of_linesClosed_cons hclosed (by simpa using hc))

/-- The check of a body never learns what is appended to a closed text. -/
theorem checkArrayBody_append (hesc : esc.Visible) (opening : Bool) (off : Nat) (cs : List Char)
    (hclosed : linesClosed esc cs = true) (hne : cs ≠ []) (more : List Char) :
    checkArrayBody esc opening off (cs ++ more) =
      { checkArrayBody esc opening off cs with
        rest := (checkArrayBody esc opening off cs).rest ++ more } := by
  fun_induction checkArrayBody esc opening off cs with
  | case1 opening off cs n rest h ih =>
      have happend := continuation?_append hesc hclosed hne more
      rw [h] at happend
      rw [checkArrayBody_of_continuation? happend]
      exact ih (linesClosed_of_suffix (onward_of_continuation? off h).suffix hclosed)
        (ne_nil_of_continuation? hclosed h)
  | case2 => exact absurd rfl hne
  | case3 opening off c cs h hc =>
      rw [List.cons_append, checkArrayBody_cons (continuation?_cons_append hesc hclosed h more),
        if_pos hc]
  | case4 opening off c cs h hc hopen =>
      rw [List.cons_append, checkArrayBody_cons (continuation?_cons_append hesc hclosed h more),
        if_neg hc, if_pos hopen]
      exact walkArray_append hesc _ (off + 1) cs (linesClosed_of_cons hclosed)
        (ne_nil_of_linesClosed_cons hclosed (by simpa using hc)) more
  | case5 opening off c cs h hc hopen ih =>
      rw [List.cons_append, checkArrayBody_cons (continuation?_cons_append hesc hclosed h more),
        if_neg hc, if_neg hopen]
      exact ih (linesClosed_of_cons hclosed)
        (ne_nil_of_linesClosed_cons hclosed (by simpa using hc))

/-! ## The parser -/

/-- An instruction of a sealed text is read alike with more text behind it. -/
theorem readInstruction_append (hesc : esc.Visible) (off : Nat) {cs more : List Char}
    (h : Sealed esc cs more) (hne : cs ≠ []) :
    readInstruction esc off (cs ++ more) = readInstruction esc off cs := by
  have hlength := (onward_readLine esc off cs).add_length
  have htake : (cs ++ more).take ((readLine esc off cs).stop - off) =
      cs.take ((readLine esc off cs).stop - off) := by
    apply List.take_append_of_le_length
    omega
  unfold readInstruction
  rw [readWord_append hesc off h hne, readLine_append hesc off h hne]
  simp only [htake]
  rfl

/-- The parser finds in two texts one behind the other what it finds in the first, if
that is sealed against the second, and then what it finds in the second. -/
theorem instructionsFrom_append_of_sealed (hesc : esc.Visible) (off : Nat) {cs more : List Char}
    (h : Sealed esc cs more) :
    instructionsFrom esc off (cs ++ more) =
      instructionsFrom esc off cs ++ instructionsFrom esc (off + cs.length) more := by
  induction off, cs using parsing_induction esc with
  | nil off => simp
  | space off c cs hspace ih =>
      rw [List.cons_append, instructionsFrom_of_isSpace hspace, instructionsFrom_of_isSpace hspace,
        ih h.of_cons, List.length_cons, Nat.add_right_comm, Nat.add_assoc]
  | comment off cs ih =>
      have honward := onward_readLine esc off ('#' :: cs)
      have hline := readLine_append hesc off h (List.cons_ne_nil _ _)
      rw [List.cons_append] at hline ⊢
      rw [instructionsFrom_of_mark, instructionsFrom_of_mark, hline,
        ih (h.of_suffix honward.suffix)]
      congr 2
      exact honward.add_length
  | joint off c cs hspace hmark hword ih =>
      have honward := onward_readWord esc off (c :: cs)
      have happend := readWord_append hesc off h (List.cons_ne_nil _ _)
      rw [List.cons_append] at happend ⊢
      rw [instructionsFrom_of_joint hspace hmark hword,
        instructionsFrom_of_joint hspace hmark (by rw [happend]; exact hword), happend,
        ih (h.of_suffix honward.suffix)]
      congr 2
      exact honward.add_length
  | word off c cs hspace hmark hword ih =>
      have honward := onward_readLine esc off (c :: cs)
      have happend := readWord_append hesc off h (List.cons_ne_nil _ _)
      have hline := readLine_append hesc off h (List.cons_ne_nil _ _)
      have hread := readInstruction_append hesc off h (List.cons_ne_nil _ _)
      rw [List.cons_append] at happend hline hread ⊢
      rw [instructionsFrom_of_word hspace hmark hword,
        instructionsFrom_of_word hspace hmark (by rw [happend]; exact hword), hread, hline,
        ih (h.of_suffix honward.suffix), List.cons_append]
      congr 3
      exact honward.add_length

/-- The parser finds in two texts one behind the other what it finds in the first,
if that is closed, and then what it finds in the second. -/
theorem instructionsFrom_append (hesc : esc.Visible) (off : Nat) (cs : List Char)
    (hclosed : linesClosed esc cs = true) (more : List Char) :
    instructionsFrom esc off (cs ++ more) =
      instructionsFrom esc off cs ++ instructionsFrom esc (off + cs.length) more :=
  instructionsFrom_append_of_sealed hesc off (.of_closed hesc hclosed more)

/-! ## The structural scan -/

/-- The scan met a word that is no keyword, and ended there. -/
def Scan.ended (s : Scan) : Bool :=
  s.visits.any fun v => v.outcome = .unknown

/-- One scan goes on with another, unless it ended. -/
def Scan.andThen (s t : Scan) : Scan :=
  if s.ended then s else ⟨s.visits ++ t.visits, t.stop⟩

/-- A visit that does not end the scan stays in front of what follows. -/
theorem Scan.andThen_cons {v : Visit} (s t : Scan) (hv : v.outcome ≠ .unknown) :
    (s.cons v).andThen t = (s.andThen t).cons v := by
  unfold Scan.andThen Scan.cons Scan.ended
  simp only [List.any_cons, hv, decide_false, Bool.false_or]
  split <;> rfl

/-- Only a word that is no keyword is reported as one. -/
theorem readVisit_outcome {off : Nat} {cs : List Char} :
    (readVisit esc keywords off cs).outcome = .unknown ↔
      visitForm esc keywords off cs = none := by
  unfold readVisit visitBody
  cases hform : visitForm esc keywords off cs with
  | none => simp [scanBehind]
  | some form => cases form <;> simp [scanBehind, scanBody]

/-- The visit of a body goes on in its text. -/
theorem onward_visitBody (esc : Escape) (keywords : List String) (off : Nat) (cs : List Char) :
    Onward off cs (visitBody esc keywords off cs).stop (visitBody esc keywords off cs).rest := by
  have hword := onward_readWord esc off cs
  unfold visitBody
  cases visitForm esc keywords off cs with
  | none => exact hword
  | some form =>
      cases form with
      | skipLine => exact hword.trans (onward_readLine esc _ _)
      | stringArray => exact hword.trans (onward_checkArrayBody esc _ _ _)
      | requireContent => exact hword.trans (onward_readLine esc _ _)

/-- The body behind a word of a closed text is checked alike with more text behind
it. -/
theorem visitBody_append (keywords : List String) (hesc : esc.Visible) (off : Nat) {cs : List Char}
    (hclosed : linesClosed esc cs = true) (hne : cs ≠ []) (more : List Char) :
    visitForm esc keywords off (cs ++ more) = visitForm esc keywords off cs ∧
      visitBody esc keywords off (cs ++ more) =
        { visitBody esc keywords off cs with
          rest := (visitBody esc keywords off cs).rest ++ more } := by
  have honward := onward_readWord esc off cs
  have hclosed' := linesClosed_of_suffix honward.suffix hclosed
  have hne' := readWord_rest_ne_nil off hclosed hne
  have happend := readWord_append hesc off (.of_closed hesc hclosed more) hne
  have hform : visitForm esc keywords off (cs ++ more) = visitForm esc keywords off cs := by
    unfold visitForm
    rw [happend]
    rfl
  refine ⟨hform, ?_⟩
  unfold visitBody
  rw [hform, happend]
  cases visitForm esc keywords off cs with
  | none => rfl
  | some form =>
      cases form with
      | skipLine =>
          simp only [scanBehind, scanBody]
          rw [readLine_append hesc _ (.of_closed hesc hclosed' more) hne']
      | stringArray =>
          simp only [scanBehind, scanBody]
          rw [checkArrayBody_append hesc true _ _ hclosed' hne' more]
      | requireContent =>
          simp only [scanBehind, scanBody]
          rw [readLine_append hesc _ (.of_closed hesc hclosed' more) hne']

/-- A visit in closed lines is the same with more text behind them. -/
theorem readVisit_append (keywords : List String) (hesc : esc.Visible) (off : Nat) {cs : List Char}
    (hclosed : linesClosed esc cs = true) (hne : cs ≠ []) (more : List Char) :
    readVisit esc keywords off (cs ++ more) = readVisit esc keywords off cs := by
  unfold readVisit
  simp only [(visitBody_append keywords hesc off hclosed hne more).2,
    readWord_append hesc off (.of_closed hesc hclosed more) hne]
  rfl

/-- The scan goes through two texts one behind the other as it goes through the
first, if that is closed, and then through the second. -/
theorem scanFrom_append (keywords : List String) (hesc : esc.Visible) (off : Nat)
    (cs : List Char) (hclosed : linesClosed esc cs = true) (more : List Char) :
    scanFrom esc keywords off (cs ++ more) =
      (scanFrom esc keywords off cs).andThen
        (scanFrom esc keywords (off + cs.length) more) := by
  induction off, cs using scanning_induction esc keywords with
  | nil off => simp [Scan.andThen, Scan.ended]
  | space off c cs hspace ih =>
      rw [List.cons_append, scanFrom_of_isSpace hspace, scanFrom_of_isSpace hspace,
        ih (linesClosed_of_cons hclosed), List.length_cons, Nat.add_right_comm, Nat.add_assoc]
  | comment off cs ih =>
      have honward := onward_afterFirstLine off ('#' :: cs)
      obtain ⟨hfirst, hafter⟩ := firstLine_append
        (any_isBreak_of_getLast? (linesClosed_getLast? hclosed (List.cons_ne_nil _ _))) more
      rw [List.cons_append] at hfirst hafter ⊢
      rw [scanFrom_of_mark, scanFrom_of_mark, hfirst, hafter,
        ih (linesClosed_of_suffix honward.suffix hclosed), honward.add_length]
  | joint off c cs hspace hmark hword ih =>
      have honward := onward_readWord esc off (c :: cs)
      have happend := readWord_append hesc off (.of_closed hesc hclosed more) (List.cons_ne_nil _ _)
      rw [List.cons_append] at happend ⊢
      rw [scanFrom_of_joint hspace hmark hword,
        scanFrom_of_joint hspace hmark (by rw [happend]; exact hword), happend]
      simp only
      rw [ih (linesClosed_of_suffix honward.suffix hclosed)]
      congr 2
      exact honward.add_length
  | unknown off c cs hspace hmark hword hform =>
      have happend := readWord_append hesc off (.of_closed hesc hclosed more) (List.cons_ne_nil _ _)
      have hread := readVisit_append keywords hesc off hclosed (List.cons_ne_nil _ _) more
      have hform' := (visitBody_append keywords hesc off hclosed
        (List.cons_ne_nil _ _) more).1
      rw [List.cons_append] at happend hread hform' ⊢
      rw [hform] at hform'
      rw [scanFrom_of_unknown hspace hmark hword hform,
        scanFrom_of_unknown hspace hmark (by rw [happend]; exact hword) hform', hread, happend]
      have hended : (readVisit esc keywords off (c :: cs)).outcome = .unknown :=
        readVisit_outcome.mpr hform
      simp [Scan.andThen, Scan.ended, hended]
  | word off c cs hspace hmark hword hform ih =>
      have honward := onward_visitBody esc keywords off (c :: cs)
      have happend := readWord_append hesc off (.of_closed hesc hclosed more) (List.cons_ne_nil _ _)
      have hread := readVisit_append keywords hesc off hclosed (List.cons_ne_nil _ _) more
      obtain ⟨hform', hbody⟩ := visitBody_append keywords hesc off hclosed
        (List.cons_ne_nil _ _) more
      rw [List.cons_append] at happend hread hform' hbody ⊢
      have hknown : (readVisit esc keywords off (c :: cs)).outcome ≠ .unknown := by
        intro hunknown
        rw [readVisit_outcome.mp hunknown] at hform
        cases hform
      rw [scanFrom_of_word hspace hmark hword hform,
        scanFrom_of_word hspace hmark (by rw [happend]; exact hword) (by rw [hform']; exact hform),
        hread, hbody, Scan.andThen_cons _ _ hknown]
      simp only
      rw [ih (linesClosed_of_suffix honward.suffix hclosed), honward.add_length]

/-! ## Documents -/

/-- What a directive looks like, and where its parts are. -/
theorem Directive.ofLine?_eq_some {line : List Char} {d : Directive}
    (h : Directive.ofLine? line = some d) :
    ∃ mark valued,
      line.dropWhile isBlank = '#' :: mark ∧
      ((mark.dropWhile isBlank).drop
        ((mark.dropWhile isBlank).takeWhile isNameChar).length).dropWhile isBlank =
          '=' :: valued ∧
      let named := mark.dropWhile isBlank
      let name := named.takeWhile isNameChar
      let led := valued.dropWhile isBlank
      let value := trimEnd isBlank led
      let nameStart := line.length - named.length
      let valueStart := line.length - led.length
      d = { rawName := String.ofList name
            value := String.ofList value
            span := ⟨0, line.length⟩
            nameSpan := ⟨nameStart, nameStart + name.length⟩
            valueSpan := ⟨valueStart, valueStart + value.length⟩ } := by
  unfold Directive.ofLine? at h
  split at h
  · rename_i mark hmark
    simp only at h
    split at h
    · split at h
      · rename_i valued hvalued
        exact ⟨mark, valued, hmark, hvalued, (Option.some.inj h).symm⟩
      · cases h
    · cases h
  · cases h

/-- The span of a directive is its line. -/
theorem Directive.span_of_ofLine? {line : List Char} {d : Directive}
    (h : Directive.ofLine? line = some d) : d.span = ⟨0, line.length⟩ := by
  obtain ⟨mark, valued, -, -, rfl⟩ := Directive.ofLine?_eq_some h
  rfl

/-- Instructions start no later than the first line ends. -/
theorem bodyOffset_le_firstLine (text : List Char) :
    (Dockerfile.parse text).bodyOffset ≤ (firstLine text).length := by
  show bodyOffset (Directive.parse? text) ≤ (firstLine text).length
  cases h : Directive.parse? text with
  | none => exact Nat.zero_le _
  | some d =>
      have hspan : d.span = ⟨0, (firstLine text).length⟩ := Directive.span_of_ofLine? h
      exact Nat.le_of_eq (congrArg Span.stop hspan)

/-- Instructions start within the text. -/
theorem bodyOffset_le (text : List Char) : (Dockerfile.parse text).bodyOffset ≤ text.length :=
  Nat.le_trans (bodyOffset_le_firstLine text) (List.takeWhile_prefix _).length_le

/-- The text ends in a line break that is not part of a continuation. -/
def EndsLine (text : List Char) : Prop :=
  let file := Dockerfile.parse text
  text.drop file.bodyOffset ≠ [] ∧
    linesClosed (some file.escape) (text.drop file.bodyOffset) = true

instance (text : List Char) : Decidable (EndsLine text) :=
  inferInstanceAs (Decidable (_ ∧ _))

variable {text : List Char}

/-- A document that ends its line ends in a break. -/
theorem EndsLine.getLast? (h : EndsLine text) :
    ∃ b, text.getLast? = some b ∧ isBreak b = true := by
  obtain ⟨b, hb, hbreak⟩ := linesClosed_getLast? h.2 h.1
  refine ⟨b, ?_, hbreak⟩
  rw [List.getLast?_drop] at hb
  split at hb
  · cases hb
  · exact hb

/-- The directive is a matter of the first line. -/
theorem parse?_append (h : text.any isBreak = true) (more : List Char) :
    Directive.parse? (text ++ more) = Directive.parse? text := by
  unfold Directive.parse?
  rw [(firstLine_append h more).1]

/-- The place behind the first of two texts, from where instructions start. -/
theorem drop_bodyOffset_append (text more : List Char) :
    (text ++ more).drop (Dockerfile.parse text).bodyOffset =
        text.drop (Dockerfile.parse text).bodyOffset ++ more ∧
      (Dockerfile.parse text).bodyOffset +
        (text.drop (Dockerfile.parse text).bodyOffset).length = text.length := by
  have hle := bodyOffset_le text
  generalize (Dockerfile.parse text).bodyOffset = start at hle ⊢
  refine ⟨List.drop_append_of_le_length hle, ?_⟩
  rw [List.length_drop]
  omega

/-- The parser finds in a document that ends its line, and a text behind it, the
instructions of the document and then those of the text. -/
theorem parse_append (h : EndsLine text) (more : List Char) :
    let file := Dockerfile.parse text
    Dockerfile.parse (text ++ more) =
      { directive := file.directive
        instructions :=
          file.instructions ++ instructionsFrom (some file.escape) text.length more } := by
  obtain ⟨hdrop, hlength⟩ := drop_bodyOffset_append text more
  have happend := instructionsFrom_append (visible_escape text)
    (Dockerfile.parse text).bodyOffset _ h.2 more
  rw [← hdrop, hlength] at happend
  unfold Dockerfile.parse
  rw [parse?_append (any_isBreak_of_getLast? h.getLast?)]
  exact congrArg (Dockerfile.mk (Directive.parse? text)) happend

/-- The scan goes through a document that ends its line, and then through the text
behind it. -/
theorem scan_append (h : EndsLine text) (keywords : List String) (more : List Char) :
    let file := Dockerfile.parse text
    scan (some file.escape) keywords file.bodyOffset (text ++ more) =
      (scan (some file.escape) keywords file.bodyOffset text).andThen
        (scanFrom (some file.escape) keywords text.length more) := by
  obtain ⟨hdrop, hlength⟩ := drop_bodyOffset_append text more
  have happend := scanFrom_append keywords (visible_escape text)
    (Dockerfile.parse text).bodyOffset _ h.2 more
  rw [← hdrop, hlength] at happend
  exact happend

end DockerfileLint
