import DockerfileLint.Proofs.Stacking

/-!
# A line break at the end

A text that ends neither in a line break nor in the escape character can be given a
final line break.  Nothing that reads to a line break notices: the end of the text and
the break end a word, a comment, an argument and an instruction alike.

The lists are the exception, and only one kind of them.  A walk that comes to a break
asks for a closing bracket; a walk that comes to the end of the text asks for the closing
quote of the last string as well.  So a string that is opened behind the closing bracket
and never closed is reported at the end of the text, and not at a break.
`validate_append_newline` says that this is all.
-/

namespace DockerfileLint

variable {esc : Escape} {keywords : List String} {text cs : List Char} {b : Char}

/-! ## The end of a list -/

/-- The last character of a list that has closed and left a string open behind the
bracket, with nothing reported. -/
def ArrayState.dangling (s : ArrayState) : Option Nat :=
  if s.inString ∧ s.closed ∧ s.fault = none then some s.last else none

/-- The end of the text reports what a break does, and a string left open behind the
bracket. -/
theorem ArrayState.faultAtEnd_toList (s : ArrayState) :
    s.faultAtEnd.toList = s.faultAtBreak.toList ++ s.dangling.toList := by
  unfold faultAtEnd faultAtBreak dangling
  cases s.fault <;> cases s.inString <;> cases s.closed <;> rfl

/-- The state in which a walk along a list comes to the end of the text, if it does. -/
def walkEnd? (esc : Escape) (s : ArrayState) (off : Nat) (cs : List Char) : Option ArrayState :=
  match _h : s.continuation? esc cs with
  | some (n, rest) => walkEnd? esc s (off + n) rest
  | none =>
    match cs with
    | [] => some s
    | c :: cs =>
      if isBreak c then
        none
      else if s.inString then
        walkEnd? esc (s.insideString off c) (off + 1) cs
      else if c = '"' ∧ s.commaDue ∧ s.fault = none then
        none
      else
        walkEnd? esc (s.betweenStrings off c) (off + 1) cs
termination_by cs.length
decreasing_by
  · exact ArrayState.length_lt_of_continuation? _h
  · simp
  · simp

/-- The state of the list in a body that comes to the end of the text, if there is a
list and it does. -/
def bodyEnd? (esc : Escape) (opening : Bool) (off : Nat) (cs : List Char) : Option ArrayState :=
  match _h : continuation? esc cs with
  | some (n, rest) => bodyEnd? esc opening (off + n) rest
  | none =>
    match cs with
    | [] => none
    | c :: cs =>
      if isBreak c then
        none
      else if c = '[' ∧ opening then
        walkEnd? esc { last := off } (off + 1) cs
      else
        bodyEnd? esc (opening && isBlank c) (off + 1) cs
termination_by cs.length
decreasing_by
  · exact length_lt_of_continuation? _h
  · simp

/-- Where a list meets no continuation in a text, it meets none with more behind it. -/
theorem ArrayState.continuation?_cons_append_of_seam {s : ArrayState} {c : Char}
    {more : List Char} (hseam : Seam esc (c :: cs) more)
    (h : s.continuation? esc (c :: cs) = none) :
    s.continuation? esc (c :: (cs ++ more)) = none := by
  unfold ArrayState.continuation? at h ⊢
  split
  · rfl
  · rename_i hout
    rw [if_neg hout] at h
    exact hseam.continuation?_cons_append h

/-- A walk along a list goes on behind a seam in the state in which it came there, if it
came there at all. -/
theorem walkArray_append_of_seam {more : List Char} (s : ArrayState) (off : Nat)
    (hseam : Seam esc cs more) :
    walkArray esc s off (cs ++ more) =
      match walkEnd? esc s off cs with
      | some s' => walkArray esc s' (off + cs.length) more
      | none =>
        { walkArray esc s off cs with rest := (walkArray esc s off cs).rest ++ more } := by
  fun_induction walkEnd? esc s off cs with
  | case1 s off cs n rest h ih =>
      obtain ⟨hout, hcont⟩ := ArrayState.continuation?_eq_some h
      have happend : s.continuation? esc (cs ++ more) = some (n, rest ++ more) := by
        unfold ArrayState.continuation?
        rw [hout]
        exact hseam.continuation?_append hcont
      have hlength := length_of_continuation? hcont
      rw [walkArray_of_continuation? happend, walkArray_of_continuation? h, hlength,
        ← Nat.add_assoc]
      exact ih (hseam.of_onward (onward_of_continuation? off hcont))
  | case2 s off => rfl
  | case3 s off c cs h hc =>
      rw [List.cons_append, walkArray_cons h,
        walkArray_cons (ArrayState.continuation?_cons_append_of_seam hseam h)]
      simp only [if_pos hc]
      rfl
  | case4 s off c cs h hc hstring ih =>
      rw [List.cons_append, walkArray_cons h,
        walkArray_cons (ArrayState.continuation?_cons_append_of_seam hseam h)]
      simp only [if_neg hc, if_pos hstring]
      rw [ih hseam.of_cons, List.length_cons, Nat.add_assoc, Nat.add_comm 1]
  | case5 s off c cs h hc hstring hdue =>
      rw [List.cons_append, walkArray_cons h,
        walkArray_cons (ArrayState.continuation?_cons_append_of_seam hseam h)]
      simp only [if_neg hc, if_neg hstring, if_pos hdue]
      rfl
  | case6 s off c cs h hc hstring hdue ih =>
      rw [List.cons_append, walkArray_cons h,
        walkArray_cons (ArrayState.continuation?_cons_append_of_seam hseam h)]
      simp only [if_neg hc, if_neg hstring, if_neg hdue]
      rw [ih hseam.of_cons, List.length_cons, Nat.add_assoc, Nat.add_comm 1]

/-- The verdict of a walk that comes to the end of the text. -/
theorem walkArray_of_walkEnd? {s s' : ArrayState} {off : Nat}
    (h : walkEnd? esc s off cs = some s') :
    walkArray esc s off cs = ⟨s'.faultAtEnd, off + cs.length, []⟩ := by
  have happend := walkArray_append_of_seam s off (Seam.nil_right esc cs)
  simpa only [h, List.append_nil, walkArray_nil] using happend

/-- The verdict of a body whose list comes to the end of the text. -/
theorem checkArrayBody_of_bodyEnd? {opening : Bool} {off : Nat} {s : ArrayState}
    (h : bodyEnd? esc opening off cs = some s) :
    checkArrayBody esc opening off cs = ⟨s.faultAtEnd, off + cs.length, []⟩ := by
  fun_induction bodyEnd? esc opening off cs with
  | case1 opening off cs n rest hcont ih =>
      rw [checkArrayBody_of_continuation? hcont, ih h, length_of_continuation? hcont,
        Nat.add_assoc]
  | case2 => cases h
  | case3 => cases h
  | case4 opening off c cs hcont hc hopen =>
      rw [checkArrayBody_cons hcont, if_neg hc, if_pos hopen]
      unfold checkArray
      rw [walkArray_of_walkEnd? h, List.length_cons, Nat.add_assoc, Nat.add_comm 1]
  | case5 opening off c cs hcont hc hopen ih =>
      rw [checkArrayBody_cons hcont, if_neg hc, if_neg hopen, ih h, List.length_cons,
        Nat.add_assoc, Nat.add_comm 1]

/-- A list that comes to a break behind the text is judged there as at any break; to
every other body the break makes no difference. -/
theorem checkArrayBody_append_break (hesc : esc.Visible) (opening : Bool) (off : Nat)
    (hseam : Seam esc cs [b]) (hb : isBreak b = true) :
    checkArrayBody esc opening off (cs ++ [b]) =
      match bodyEnd? esc opening off cs with
      | some s => ⟨s.faultAtBreak, off + cs.length, [b]⟩
      | none =>
        { checkArrayBody esc opening off cs with
          rest := (checkArrayBody esc opening off cs).rest ++ [b] } := by
  have hnone := hesc.continuation?_eq_none [] (isSpace_of_isBreak hb)
  fun_induction bodyEnd? esc opening off cs with
  | case1 opening off cs n rest hcont ih =>
      rw [checkArrayBody_of_continuation? (hseam.continuation?_append hcont),
        checkArrayBody_of_continuation? hcont, length_of_continuation? hcont, ← Nat.add_assoc]
      exact ih (hseam.of_onward (onward_of_continuation? off hcont))
  | case2 opening off =>
      rw [List.nil_append, checkArrayBody_cons hnone, if_pos hb, checkArrayBody_nil]
      rfl
  | case3 opening off c cs hcont hc =>
      rw [List.cons_append, checkArrayBody_cons (hseam.continuation?_cons_append hcont),
        checkArrayBody_cons hcont]
      simp only [if_pos hc]
      rfl
  | case4 opening off c cs hcont hc hopen =>
      have hwalk : ∀ s, walkArray esc s (off + 1 + cs.length) [b] =
          ⟨s.faultAtBreak, off + 1 + cs.length, [b]⟩ := by
        intro s
        have hlist : s.continuation? esc [b] = none := by
          unfold ArrayState.continuation?
          simp [hnone]
        rw [walkArray_cons hlist, if_pos hb]
      rw [List.cons_append, checkArrayBody_cons (hseam.continuation?_cons_append hcont),
        checkArrayBody_cons hcont]
      simp only [if_neg hc, if_pos hopen, checkArray]
      rw [walkArray_append_of_seam _ _ hseam.of_cons, List.length_cons, Nat.add_comm cs.length,
        ← Nat.add_assoc]
      simp only [hwalk]
  | case5 opening off c cs hcont hc hopen ih =>
      rw [List.cons_append, checkArrayBody_cons (hseam.continuation?_cons_append hcont),
        checkArrayBody_cons hcont]
      simp only [if_neg hc, if_neg hopen]
      rw [ih hseam.of_cons, List.length_cons, Nat.add_comm cs.length, ← Nat.add_assoc]

/-! ## The structural scan -/

/-- The findings for a place where something unexpected stands, if it does. -/
def unexpectedAt (place : Option Nat) : List Finding :=
  place.toList.map fun off => ⟨.unexpectedToken, ⟨off, off + 1⟩⟩

/-- A visit of a list finds what is unexpected in the list. -/
theorem Visit.findings_of_array {v : Visit} {fault : Option Nat} (h : v.outcome = .array fault) :
    v.findings = unexpectedAt fault := by
  unfold Visit.findings
  rw [h]
  cases fault <;> rfl

/-- The string that a list in the body of a visit leaves open behind its bracket at the
end of the text. -/
def Visit.dangling (esc : Escape) (text : List Char) (v : Visit) : Option Nat :=
  match v.outcome with
  | .array _ => (bodyEnd? esc true v.bodyStart (text.drop v.bodyStart)).bind ArrayState.dangling
  | _ => none

/-- A body that is no list is checked alike with a break behind the text. -/
theorem scanBehind_append_break (hesc : esc.Visible) {form : Option BodyForm}
    (hform : form ≠ some .stringArray) (off : Nat) (hseam : Seam esc cs [b])
    (hb : isBreak b = true) :
    scanBehind esc form off (cs ++ [b]) =
      { scanBehind esc form off cs with rest := (scanBehind esc form off cs).rest ++ [b] } := by
  have hline : readLine esc off (cs ++ [b]) =
      { readLine esc off cs with rest := (readLine esc off cs).rest ++ [b] } :=
    readWhile_append_break hesc (by simp) off hseam hb
  cases form with
  | none => rfl
  | some form =>
      cases form with
      | skipLine => simp only [scanBehind, scanBody, hline]
      | requireContent => simp only [scanBehind, scanBody, hline]
      | stringArray => exact absurd rfl hform

/-- Where the body is no list, nothing dangles. -/
theorem dangling_of_ne_stringArray {off : Nat}
    (h : visitForm esc keywords off cs ≠ some .stringArray) :
    (readVisit esc keywords off cs).dangling esc text = none := by
  unfold Visit.dangling readVisit visitBody
  cases hform : visitForm esc keywords off cs with
  | none => rfl
  | some form =>
      cases form with
      | skipLine => rfl
      | requireContent => rfl
      | stringArray => exact absurd hform h

/-- What a break behind the text changes for the word read from here: a string that
dangles is not found, and where one does nothing is left to be scanned. -/
theorem readVisit_append_break (keywords : List String) (hesc : esc.Visible) {off : Nat}
    (hseam : Seam esc cs [b]) (hb : isBreak b = true) (hne : cs ≠ []) (hcs : cs = text.drop off) :
    visitForm esc keywords off (cs ++ [b]) = visitForm esc keywords off cs ∧
      (visitBody esc keywords off (cs ++ [b])).stop = (visitBody esc keywords off cs).stop ∧
      (visitBody esc keywords off (cs ++ [b])).rest =
        (visitBody esc keywords off cs).rest ++ [b] ∧
      (readVisit esc keywords off cs).findings =
        (readVisit esc keywords off (cs ++ [b])).findings ++
          unexpectedAt ((readVisit esc keywords off cs).dangling esc text) ∧
      ((readVisit esc keywords off cs).dangling esc text ≠ none →
        (visitBody esc keywords off cs).rest = []) := by
  have hword := readWord_append hesc off ⟨hseam, .inr ⟨b, [], rfl, hb⟩⟩ hne
  have honward := onward_readWord esc off cs
  have hseam' := hseam.of_onward honward
  have hform : visitForm esc keywords off (cs ++ [b]) = visitForm esc keywords off cs := by
    unfold visitForm
    rw [hword]
    rfl
  have houtcome := outcome_readVisit esc keywords off
  refine ⟨hform, ?_⟩
  by_cases harray : visitForm esc keywords off cs = some .stringArray
  · have hnear := visitBody_of_stringArray harray
    have hfar := visitBody_of_stringArray (hform.trans harray)
    have hdangling : (readVisit esc keywords off cs).dangling esc text =
        (bodyEnd? esc true (readWord esc off cs).stop (readWord esc off cs).rest).bind
          ArrayState.dangling := by
      unfold Visit.dangling
      rw [houtcome, hnear, honward.eq_drop_text hcs]
      rfl
    rw [hword, checkArrayBody_append_break hesc true _ hseam' hb] at hfar
    rw [hdangling, Visit.findings_of_array ((houtcome _).trans (by rw [hnear])),
      Visit.findings_of_array ((houtcome _).trans (by rw [hfar])), hnear, hfar]
    cases hend : bodyEnd? esc true (readWord esc off cs).stop (readWord esc off cs).rest with
    | none => simp [unexpectedAt]
    | some s =>
        rw [checkArrayBody_of_bodyEnd? hend]
        simp only [unexpectedAt, s.faultAtEnd_toList, List.map_append, List.nil_append,
          Option.bind_some, implies_true, and_self]
  · have hbody := scanBehind_append_break hesc harray (readWord esc off cs).stop hseam' hb
    have hfar : visitBody esc keywords off (cs ++ [b]) =
        { visitBody esc keywords off cs with
          rest := (visitBody esc keywords off cs).rest ++ [b] } := by
      unfold visitBody
      rw [hform, hword]
      exact hbody
    have hfindings : (readVisit esc keywords off (cs ++ [b])).findings =
        (readVisit esc keywords off cs).findings := by
      unfold Visit.findings
      rw [houtcome, houtcome, hfar]
    rw [dangling_of_ne_stringArray harray, hfindings, hfar]
    simp [unexpectedAt]

/-- With a break behind the text the scan finds the same, but for a string that
dangles. -/
theorem scanFrom_findings_append_break (keywords : List String) (hesc : esc.Visible) (off : Nat)
    (hseam : Seam esc cs [b]) (hb : isBreak b = true) (hcs : cs = text.drop off) :
    (scanFrom esc keywords off cs).findings =
      (scanFrom esc keywords off (cs ++ [b])).findings ++
        unexpectedAt ((scanFrom esc keywords off cs).visits.findSome?
          (Visit.dangling esc text)) := by
  induction off, cs using scanning_induction esc keywords with
  | nil off =>
      rw [List.nil_append, scanFrom_of_isSpace (isSpace_of_isBreak hb)]
      simp [Scan.findings, unexpectedAt]
  | space off c cs hspace ih =>
      rw [List.cons_append, scanFrom_of_isSpace hspace, scanFrom_of_isSpace hspace]
      exact ih hseam.of_cons (eq_drop_succ hcs)
  | comment off cs ih =>
      have honward := onward_afterFirstLine off ('#' :: cs)
      have hbreaks : ∀ c ∈ [b], isBreak c = true := by
        simpa using hb
      obtain ⟨hfirst, hafter⟩ := firstLine_append_breaks hbreaks ('#' :: cs)
      rw [List.cons_append] at hfirst hafter ⊢
      rw [scanFrom_of_mark, scanFrom_of_mark, hfirst, hafter]
      exact ih (hseam.of_onward honward) (honward.eq_drop_text hcs)
  | joint off c cs hspace hmark hword ih =>
      have honward := onward_readWord esc off (c :: cs)
      have happend := readWord_append hesc off ⟨hseam, .inr ⟨b, [], rfl, hb⟩⟩
        (List.cons_ne_nil c cs)
      rw [List.cons_append] at happend ⊢
      rw [scanFrom_of_joint hspace hmark hword,
        scanFrom_of_joint hspace hmark (by rw [happend]; exact hword), happend]
      exact ih (hseam.of_onward honward) (honward.eq_drop_text hcs)
  | unknown off c cs hspace hmark hword hform =>
      have happend := readWord_append hesc off ⟨hseam, .inr ⟨b, [], rfl, hb⟩⟩
        (List.cons_ne_nil c cs)
      obtain ⟨hform', -, -, hfound, -⟩ := readVisit_append_break keywords hesc hseam hb
        (List.cons_ne_nil c cs) hcs
      rw [List.cons_append] at happend hform' hfound ⊢
      rw [scanFrom_of_unknown hspace hmark hword hform,
        scanFrom_of_unknown hspace hmark (by rw [happend]; exact hword) (hform'.trans hform)]
      simpa [Scan.findings] using hfound
  | word off c cs hspace hmark hword hform ih =>
      have honward := onward_visitBody esc keywords off (c :: cs)
      have happend := readWord_append hesc off ⟨hseam, .inr ⟨b, [], rfl, hb⟩⟩
        (List.cons_ne_nil c cs)
      obtain ⟨hform', hstop, hrest, hfound, hlast⟩ := readVisit_append_break keywords hesc hseam hb
        (List.cons_ne_nil c cs) hcs
      have hfoundRest := ih (hseam.of_onward honward) (honward.eq_drop_text hcs)
      rw [List.cons_append] at happend hform' hstop hrest hfound ⊢
      rw [scanFrom_of_word hspace hmark hword hform,
        scanFrom_of_word hspace hmark (by rw [happend]; exact hword) (by rw [hform']; exact hform),
        hstop, hrest, Scan.cons_findings, Scan.cons_findings, hfound, hfoundRest]
      cases hdangling : (readVisit esc keywords off (c :: cs)).dangling esc text with
      | none => simp [Scan.cons, hdangling, unexpectedAt]
      | some place =>
          -- The list takes the rest of the text, so the scan ends here with or without the break.
          rw [hlast (by simp [hdangling]), List.nil_append,
            scanFrom_of_isSpace (isSpace_of_isBreak hb)]
          simp [Scan.cons, Scan.findings, hdangling, unexpectedAt]

/-! ## The checks -/

/-- An instruction of a document that does not end in a break is checked alike, however
far the document goes on behind it. -/
theorem checkInstruction_of_getLast? (ctx : CheckContext) {finish off : Nat}
    (hlast : ∀ c, text.getLast? = some c → isBreak c = false) (hcs : cs = text.drop off)
    (hword : (readWord esc off cs).taken ≠ []) (hctx : text.length ≤ ctx.finish)
    (hfinish : text.length ≤ finish) :
    checkInstruction { ctx with finish := finish } (readInstruction esc off cs) =
      checkInstruction ctx (readInstruction esc off cs) := by
  apply checkInstruction_congr
  apply argumentsPresent_congr
  intro passed rest b harguments hbreak hb
  obtain ⟨-, -, -, hstop, hend⟩ := readInstruction_within hword
  have hlength := argumentsText_length hword
  simp only at hstop hend hlength
  rw [harguments, List.length_append] at hlength
  have htext : (readInstruction esc off cs).span.stop ≤ text.length := by
    have hne : cs ≠ [] := by
      rintro rfl
      exact hword (by simp [readWord])
    have hpos := List.length_pos_iff.mpr hne
    have hdrop : cs.length = text.length - off := by
      rw [hcs, List.length_drop]
    omega
  -- A break that the arguments come up to is not the last character of the text.
  have hlt : (readInstruction esc off cs).nameSpan.stop + passed.length < text.length := by
    apply Nat.lt_of_not_le
    intro hle
    have hall : (readInstruction esc off cs).span.stop = text.length := by
      omega
    have hrest : rest = [] := by
      apply List.length_eq_zero_iff.mp
      omega
    have hdrop := argumentsText_eq_drop hcs hword
    rw [harguments, hrest, List.append_nil, hall, List.take_length] at hdrop
    rw [hdrop, List.getLast?_drop] at hbreak
    split at hbreak
    · cases hbreak
    · rw [hlast b hbreak] at hb
      cases hb
  omega

/-! ## Documents -/

/-- The text ends in a character that is neither a line break nor the escape character of
the document, or is empty. -/
def EndsOpen (text : List Char) : Prop :=
  ∀ c, text.getLast? = some c → isBreak c = false ∧ c ≠ (Dockerfile.parse text).escape

/-- The string that the last list of a document leaves open behind its closing bracket,
with nothing reported in the list: the place of the last character that is not blank. -/
def danglingString (keywords : List String) (text : List Char) : Option Nat :=
  let file := Dockerfile.parse text
  (scan (some file.escape) keywords file.bodyOffset text).visits.findSome?
    (Visit.dangling (some file.escape) text)

/-- A document whose last line is open does not end in a break. -/
theorem EndsOpen.isBreak_getLast? (h : EndsOpen text) {c : Char}
    (hc : text.getLast? = some c) : isBreak c = false :=
  (h c hc).1

/-- A break behind a text that ends open is apart from it. -/
theorem EndsOpen.apart (h : EndsOpen text) (back : List Char) : Apart text back := by
  intro hlast
  cases h.isBreak_getLast? hlast

/-- Nothing runs from a text that ends open into what is put behind it. -/
theorem EndsOpen.seam (h : EndsOpen text) (start : Nat) (back : List Char) :
    Seam (some (Dockerfile.parse text).escape) (text.drop start) back := by
  have hseam : Seam (some (Dockerfile.parse text).escape) text back := by
    apply Seam.of_apart
    · intro e he hlast
      exact (h e hlast).2 (Option.some.inj he).symm
    · exact h.apart back
  exact hseam.of_suffix (List.drop_suffix start text)

/-- A document has the same directive and the same instructions with a break at its
end. -/
theorem parse_append_break (h : EndsOpen text) (hb : isBreak b = true) :
    Dockerfile.parse (text ++ [b]) = Dockerfile.parse text := by
  have hdirective : Directive.parse? (text ++ [b]) = Directive.parse? text := by
    unfold Directive.parse?
    rw [(firstLine_append_breaks (by simpa using hb) text).1]
  obtain ⟨hdrop, -⟩ := drop_bodyOffset_append text [b]
  have hsealed : Sealed (some (Dockerfile.parse text).escape)
      (text.drop (Dockerfile.parse text).bodyOffset) [b] :=
    ⟨h.seam _ [b], .inr ⟨b, [], rfl, hb⟩⟩
  have hinstructions := instructionsFrom_append_of_sealed (visible_escape text)
    (Dockerfile.parse text).bodyOffset hsealed
  rw [← hdrop, instructionsFrom_of_isSpace (isSpace_of_isBreak hb), instructionsFrom_nil,
    List.append_nil] at hinstructions
  unfold Dockerfile.parse
  rw [hdirective]
  exact congrArg (Dockerfile.mk (Directive.parse? text)) hinstructions

/-- What is found in a document that ends open is what is found with a break at its end,
and a string that dangles. -/
theorem findings_append_break (settings : LintSettings) (keywords : List String)
    (h : EndsOpen text) (hb : isBreak b = true) :
    (lint settings keywords text).findings =
      (lint settings keywords (text ++ [b])).findings ++
        unexpectedAt (danglingString keywords text) := by
  have hparse := parse_append_break h hb
  obtain ⟨hdrop, -⟩ := drop_bodyOffset_append text [b]
  have hscan := scanFrom_findings_append_break keywords (visible_escape text)
    (Dockerfile.parse text).bodyOffset (h.seam _ [b]) hb rfl
  rw [← hdrop] at hscan
  have hcheck : checkInstructions
        (contextOf settings keywords (text ++ [b]) (Dockerfile.parse text))
        (Dockerfile.parse text).instructions =
      checkInstructions (contextOf settings keywords text (Dockerfile.parse text))
        (Dockerfile.parse text).instructions := by
    apply checkInstructions_congr
    intro i hi
    obtain ⟨start, c, rest, honward, -, -, hword, rfl⟩ := mem_parse_instructions hi
    have hle : text.length ≤ (text ++ [b]).length := by
      simp
    exact checkInstruction_of_getLast?
      (contextOf settings keywords text (Dockerfile.parse text))
      (fun _ => h.isBreak_getLast?) (honward.eq_drop_text rfl) hword (Nat.le_refl _) hle
  unfold LintReport.findings lint
  simp only [hparse, hcheck]
  unfold scan
  rw [hscan]
  simp only [List.append_assoc]
  rfl

/-- **A final line feed.**  The diagnostics of a document that ends open are those it has
with a line feed at its end, and one more, at its end, if the last list leaves a string
open behind its closing bracket and nothing else is wrong with it.  So the line feed
changes nothing unless there is such a string. -/
theorem validate_append_newline (settings : LintSettings) (keywords : List String)
    (h : EndsOpen text) :
    let alone := validate settings keywords (Document.ofText text)
    let ended := validate settings keywords (Document.ofText (text ++ ['\n']))
    alone = ended ++ (unexpectedAt (danglingString keywords text)).map
        (fun f => f.diagnostic (Document.ofText text)) ∧
      (alone = ended ↔ danglingString keywords text = none) := by
  intro alone ended
  have hfindings := findings_append_break settings keywords h (b := '\n') rfl
  have hended : ended = (lint settings keywords (text ++ ['\n'])).findings.map
      fun f => f.diagnostic (Document.ofText text) := by
    apply List.map_congr_left
    intro f hf
    apply diagnostic_front (h.apart ['\n'])
    apply lint_within settings keywords text
    rw [hfindings]
    exact List.mem_append_left _ hf
  have halone : alone = ended ++ (unexpectedAt (danglingString keywords text)).map
      fun f => f.diagnostic (Document.ofText text) := by
    rw [hended, ← List.map_append, ← hfindings]
    rfl
  refine ⟨halone, ?_⟩
  rw [halone, List.append_right_eq_self, List.map_eq_nil_iff]
  unfold unexpectedAt
  rw [List.map_eq_nil_iff, Option.toList_eq_nil_iff]

/-- A list with a string that is opened behind its closing bracket. -/
def openString : List Char := "FROM x\nVOLUME [\"/a\"], \"/b".toList

/-- The last line of `openString` is open. -/
theorem endsOpen_openString : EndsOpen openString := by
  have hlast : openString.getLast? = some 'b' := by
    rfl
  intro c hc
  obtain rfl := Option.some.inj (hlast.symm.trans hc)
  exact ⟨rfl, by decide +kernel⟩

/-- The string at the end of `openString` is reported, at its last character. -/
theorem validate_append_newline_openString :
    EndsOpen openString ∧ danglingString standardKeywords openString = some 24 ∧
      validate {} standardKeywords (Document.ofText openString) =
        validate {} standardKeywords (Document.ofText (openString ++ ['\n'])) ++
          (unexpectedAt (some 24)).map fun f => f.diagnostic (Document.ofText openString) := by
  have hstring : danglingString standardKeywords openString = some 24 := by
    decide +kernel
  refine ⟨endsOpen_openString, hstring, ?_⟩
  have hvalidate := (validate_append_newline {} standardKeywords endsOpen_openString).1
  rwa [hstring] at hvalidate

/-- A line feed behind `openString` hides it. -/
theorem newline_hides_openString :
    EndsOpen openString ∧
      validate {} standardKeywords (Document.ofText openString) ≠
        validate {} standardKeywords (Document.ofText (openString ++ ['\n'])) := by
  refine ⟨endsOpen_openString, fun hsame => ?_⟩
  have hcount := congrArg List.length hsame
  revert hcount
  decide +kernel

end DockerfileLint
