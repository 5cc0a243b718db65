import DockerfileLint.Proofs.Concatenation
import DockerfileLint.Proofs.Findings
import DockerfileLint.Proofs.Tokenizer

/-!
# Where findings lie

Whatever is found in a stretch of text has its place in that stretch.  A keyword
lies in its instruction and so do the arguments, the broken place of a list lies
behind the word it follows, and both passes keep to the text they were given.
`lint_within` puts this together for documents: no finding reaches past the end of
the text.
-/

namespace DockerfileLint

variable {esc : Escape} {keywords : List String}

/-- A span that does not run backwards and keeps to the offsets from `lo` to `hi`. -/
structure Span.Within (s : Span Nat) (lo hi : Nat) : Prop where
  le_start : lo ≤ s.start
  start_le : s.start ≤ s.stop
  stop_le : s.stop ≤ hi

/-- A span within some bounds is within wider ones. -/
theorem Span.Within.mono {s : Span Nat} {lo lo' hi hi' : Nat} (h : s.Within lo hi)
    (hlo : lo' ≤ lo) (hhi : hi ≤ hi') : s.Within lo' hi' :=
  ⟨Nat.le_trans hlo h.le_start, h.start_le, Nat.le_trans h.stop_le hhi⟩

/-! ## Words and tokens -/

/-- A movement takes characters between where it starts and where it stops. -/
theorem readWhile_taken_within (esc : Escape) (keep : Char → Bool) (off : Nat) (cs : List Char) :
    ∀ p ∈ (readWhile esc keep off cs).taken,
      off ≤ p.2 ∧ p.2 < (readWhile esc keep off cs).stop := by
  induction off, cs using splicing_induction esc with
  | splice off cs n rest h ih =>
      rw [readWhile_of_continuation? h]
      intro p hp
      have hbounds := ih p hp
      exact ⟨by omega, hbounds.2⟩
  | nil off => simp
  | char off c cs h ih =>
      cases hk : keep c with
      | true =>
          rw [readWhile_cons_of_keep h hk]
          have hle := (onward_readWhile esc keep (off + 1) cs).le
          intro p hp
          rcases List.mem_cons.mp hp with rfl | hp
          · exact ⟨Nat.le_refl off, hle⟩
          · have hbounds := ih p hp
            exact ⟨by omega, hbounds.2⟩
      | false =>
          rw [readWhile_cons_of_not_keep h hk]
          simp

/-- A token takes characters between where it starts and where it stops. -/
theorem readToken_taken_within (esc : Escape) (off : Nat) (cs : List Char) :
    ∀ p ∈ (readToken esc off cs).taken, off ≤ p.2 ∧ p.2 < (readToken esc off cs).stop := by
  induction off, cs using token_induction esc with
  | splice off cs n rest h ih =>
      rw [readToken_of_continuation? h]
      intro p hp
      have hbounds := ih p hp
      exact ⟨by omega, hbounds.2⟩
  | nil off => simp
  | space off c cs h hspace => simp [readToken_of_isSpace h hspace]
  | last off e he hspace =>
      subst he
      simp [readToken_last hspace]
  | pair off e d cs he hspace h ih =>
      subst he
      rw [readToken_pair h hspace]
      have hle := (onward_readToken (some e) (off + 2) cs).le
      simp only [List.mem_cons]
      intro p hp
      rcases hp with rfl | rfl | hp
      · exact ⟨Nat.le_refl off, by omega⟩
      · exact ⟨Nat.le_succ off, by omega⟩
      · have hbounds := ih p hp
        exact ⟨by omega, hbounds.2⟩
  | char off c cs h hspace hne ih =>
      rw [readToken_cons h hspace hne]
      have hle := (onward_readToken esc (off + 1) cs).le
      intro p hp
      rcases List.mem_cons.mp hp with rfl | hp
      · exact ⟨Nat.le_refl off, hle⟩
      · have hbounds := ih p hp
        exact ⟨by omega, hbounds.2⟩

/-- What was taken between two offsets reaches past the first and no further than
the second. -/
theorem reach_within {r : Reading} {lo hi : Nat} (hne : r.taken ≠ [])
    (h : ∀ p ∈ r.taken, lo ≤ p.2 ∧ p.2 < hi) (start : Nat) :
    lo < r.reach start ∧ r.reach start ≤ hi := by
  cases hlast : r.taken.getLast? with
  | none => exact absurd (List.getLast?_eq_none_iff.mp hlast) hne
  | some p =>
      have hbounds := h p (List.mem_of_getLast? hlast)
      simp only [Reading.reach, hlast]
      omega

/-! ## Instructions and arguments -/

/-- An instruction starts with its keyword and keeps to its logical line. -/
theorem readInstruction_within {off : Nat} {cs : List Char}
    (hword : (readWord esc off cs).taken ≠ []) :
    let i := readInstruction esc off cs
    i.span.start = off ∧ i.nameSpan.start = off ∧ off < i.nameSpan.stop ∧
      i.nameSpan.stop ≤ i.span.stop ∧ i.span.stop ≤ off + cs.length := by
  have hline := (onward_readLine esc off cs).add_length
  have hbounds := reach_within hword (readWhile_taken_within esc _ off cs) off
  have hstop := (readLine_behind_word esc off cs).1
  have hle := (onward_readLine esc (readWord esc off cs).stop (readWord esc off cs).rest).le
  refine ⟨rfl, rfl, hbounds.1, ?_, ?_⟩
  · show (readWord esc off cs).reach off ≤ (readLine esc off cs).stop
    have hreach : (readWord esc off cs).reach off ≤ (readWord esc off cs).stop := hbounds.2
    omega
  · show (readLine esc off cs).stop ≤ off + cs.length
    omega

/-- The text of the arguments is as long as their span. -/
theorem argumentsText_length {off : Nat} {cs : List Char}
    (hword : (readWord esc off cs).taken ≠ []) :
    let i := readInstruction esc off cs
    i.nameSpan.stop + i.argumentsText.length = i.span.stop := by
  obtain ⟨hstart, -, hname, hstop, hend⟩ := readInstruction_within hword
  have hcontent : (readInstruction esc off cs).content.length =
      (readInstruction esc off cs).span.stop - off := by
    have hle : (readInstruction esc off cs).span.stop - off ≤ cs.length := by
      omega
    exact List.length_take_of_le hle
  simp only [Instruction.argumentsText, List.length_drop, hcontent]
  omega

/-- The text of the arguments is found between the end of the keyword and the end of the
instruction. -/
theorem argumentsText_eq_drop {text cs : List Char} {off : Nat} (hcs : cs = text.drop off)
    (hword : (readWord esc off cs).taken ≠ []) :
    (readInstruction esc off cs).argumentsText =
      (text.take (readInstruction esc off cs).span.stop).drop
        (readInstruction esc off cs).nameSpan.stop := by
  obtain ⟨-, -, hname, hstop, -⟩ := readInstruction_within hword
  have hcontent : (readInstruction esc off cs).content =
      (text.take (readInstruction esc off cs).span.stop).drop off := by
    rw [List.drop_take, ← hcs]
    rfl
  show (readInstruction esc off cs).content.drop
    ((readInstruction esc off cs).nameSpan.stop - off) = _
  rw [hcontent, List.drop_drop, Nat.add_sub_cancel' (Nat.le_of_lt hname)]

/-- An argument is not empty and lies in the text it was read from. -/
theorem argumentsFrom_within (esc : Escape) (off : Nat) (cs : List Char) :
    ∀ a ∈ argumentsFrom esc off cs,
      off ≤ a.span.start ∧ a.span.start < a.span.stop ∧ a.span.stop ≤ off + cs.length := by
  induction off, cs using arguments_induction esc with
  | nil off cs hgap => simp [argumentsFrom_of_nil hgap]
  | cons off cs c rest hgap ih =>
      have hfront := onward_readGap esc off cs
      rw [hgap] at hfront
      have htoken := onward_readToken esc (readGap esc off cs).stop (c :: rest)
      have hlength := hfront.add_length
      have hleft := htoken.add_length
      have hle := hfront.le
      have hnext := htoken.le
      obtain ⟨hcont, hspace⟩ := readWhile_rest_head hgap
      have hreach := reach_within (readToken_taken_ne_nil hcont hspace)
        (readToken_taken_within esc (readGap esc off cs).stop (c :: rest))
        (readGap esc off cs).stop
      rw [argumentsFrom_of_cons hgap]
      intro a ha
      rcases List.mem_cons.mp ha with rfl | ha
      · refine ⟨hle, hreach.1, ?_⟩
        simp only
        omega
      · have hbounds := ih a ha
        omega

/-- The arguments of an instruction lie behind its keyword. -/
theorem arguments_within {off : Nat} {cs : List Char}
    (hword : (readWord esc off cs).taken ≠ []) (esc' : Escape) :
    let i := readInstruction esc off cs
    ∀ a ∈ i.arguments esc', a.span.Within i.nameSpan.stop i.span.stop := by
  intro i a ha
  have hlength := argumentsText_length hword
  have hbounds := argumentsFrom_within esc' i.nameSpan.stop i.argumentsText a ha
  exact ⟨hbounds.1, Nat.le_of_lt hbounds.2.1, Nat.le_trans hbounds.2.2 (Nat.le_of_eq hlength)⟩

/-! ## Lists -/

/-- Every place that a walk remembers lies from `lo` on and before `off`. -/
structure ArrayState.Between (s : ArrayState) (lo off : Nat) : Prop where
  le_last : lo ≤ s.last
  last_lt : s.last < off
  fault : ∀ f, s.fault = some f → lo ≤ f ∧ f < off

namespace ArrayState.Between

variable {s : ArrayState} {lo off off' : Nat}

/-- What lies before a place lies before a later one. -/
theorem mono (h : s.Between lo off) (hoff : off ≤ off') : s.Between lo off' := by
  refine ⟨h.le_last, Nat.lt_of_lt_of_le h.last_lt hoff, ?_⟩
  intro f hf
  have hbounds := h.fault f hf
  omega

/-- A step inside a string stays within what was gone past. -/
theorem insideString (h : s.Between lo off) (c : Char) :
    (s.insideString off c).Between lo (off + 1) := by
  have hmono := h.mono (Nat.le_succ off)
  have hlo : lo ≤ off := Nat.le_trans h.le_last (Nat.le_of_lt h.last_lt)
  unfold ArrayState.insideString
  split
  · exact ⟨hlo, Nat.lt_succ_self off, hmono.fault⟩
  · split
    · exact hmono
    · exact ⟨hlo, Nat.lt_succ_self off, hmono.fault⟩

/-- So does a step between strings. -/
theorem betweenStrings (h : s.Between lo off) (c : Char) :
    (s.betweenStrings off c).Between lo (off + 1) := by
  have hmono := h.mono (Nat.le_succ off)
  have hlo : lo ≤ off := Nat.le_trans h.le_last (Nat.le_of_lt h.last_lt)
  unfold ArrayState.betweenStrings
  repeat' split
  · exact ⟨hlo, Nat.lt_succ_self off, hmono.fault⟩
  · exact hmono
  · exact ⟨hlo, Nat.lt_succ_self off, hmono.fault⟩
  · exact ⟨hlo, Nat.lt_succ_self off, hmono.fault⟩
  · refine ⟨hlo, Nat.lt_succ_self off, ?_⟩
    intro f hf
    rcases Option.or_eq_some_iff.mp hf with hold | ⟨-, hnew⟩
    · exact hmono.fault f hold
    · obtain rfl := Option.some.inj hnew
      exact ⟨hlo, Nat.lt_succ_self off⟩

/-- A fault at the end of a list lies in what was gone past. -/
theorem or_last (h : s.Between lo off) {b : Bool} {f : Nat}
    (hf : s.fault.or (if b then some s.last else none) = some f) : lo ≤ f ∧ f < off := by
  rcases Option.or_eq_some_iff.mp hf with hold | ⟨-, hlast⟩
  · exact h.fault f hold
  · cases b with
    | false => cases hlast
    | true =>
        obtain rfl := Option.some.inj hlast
        exact ⟨h.le_last, h.last_lt⟩

end ArrayState.Between

/-- The place where a list breaks was passed by the walk, or is where it stops. -/
theorem walkArray_fault {lo : Nat} (esc : Escape) (s : ArrayState) (off : Nat) (cs : List Char)
    (hs : s.Between lo off) :
    ∀ f, (walkArray esc s off cs).fault = some f →
      lo ≤ f ∧ f ≤ (walkArray esc s off cs).stop ∧ f < off + cs.length := by
  fun_induction walkArray esc s off cs with
  | case1 s off cs n rest h ih =>
      have hlength := length_of_continuation? (ArrayState.continuation?_eq_some h).2
      intro f hf
      have hbounds := ih (hs.mono (Nat.le_add_right off n)) f hf
      omega
  | case2 s off =>
      intro f hf
      have hbounds := hs.or_last hf
      exact ⟨hbounds.1, Nat.le_of_lt hbounds.2, hbounds.2⟩
  | case3 s off c cs =>
      intro f hf
      rw [s.faultAtBreak_eq] at hf
      have hbounds := hs.or_last hf
      exact ⟨hbounds.1, Nat.le_of_lt hbounds.2, Nat.lt_add_right _ hbounds.2⟩
  | case4 s off c cs _ _ _ ih =>
      intro f hf
      have hbounds := ih (hs.insideString c) f hf
      simp only [List.length_cons]
      omega
  | case5 s off c cs =>
      intro f hf
      obtain rfl := Option.some.inj hf
      have hlo := Nat.le_trans hs.le_last (Nat.le_of_lt hs.last_lt)
      exact ⟨hlo, Nat.le_refl off, by simp⟩
  | case6 s off c cs _ _ _ _ ih =>
      intro f hf
      have hbounds := ih (hs.betweenStrings c) f hf
      simp only [List.length_cons]
      omega

/-- The place where a body breaks lies in the body, no further on than where the check
stops. -/
theorem checkArrayBody_fault (esc : Escape) (opening : Bool) (off : Nat) (cs : List Char) :
    ∀ f, (checkArrayBody esc opening off cs).fault = some f →
      off ≤ f ∧ f ≤ (checkArrayBody esc opening off cs).stop ∧ f < off + cs.length := by
  fun_induction checkArrayBody esc opening off cs with
  | case1 opening off cs n rest h ih =>
      have hlength := length_of_continuation? h
      intro f hf
      have hbounds := ih f hf
      omega
  | case2 => simp
  | case3 => simp
  | case4 opening off c cs =>
      have hstart : ArrayState.Between { last := off } off (off + 1) :=
        ⟨Nat.le_refl off, Nat.lt_succ_self off, by simp⟩
      intro f hf
      have hbounds := walkArray_fault esc _ (off + 1) cs hstart f hf
      refine ⟨hbounds.1, hbounds.2.1, ?_⟩
      simp only [List.length_cons]
      omega
  | case5 opening off c cs _ _ _ ih =>
      intro f hf
      have hbounds := ih f hf
      simp only [List.length_cons]
      omega

/-! ## The scan -/

/-- A visit that starts between two offsets, and reports nothing outside them or
before its start. -/
structure Visit.Within (v : Visit) (lo hi : Nat) : Prop where
  le_start : lo ≤ v.start
  start_lt : v.start < hi
  findings : ∀ f ∈ v.findings, f.span.Within v.start hi

/-- A visit within some bounds is within wider ones. -/
theorem Visit.Within.mono {v : Visit} {lo lo' hi hi' : Nat} (h : v.Within lo hi) (hlo : lo' ≤ lo)
    (hhi : hi ≤ hi') : v.Within lo' hi' := by
  refine ⟨Nat.le_trans hlo h.le_start, Nat.lt_of_lt_of_le h.start_lt hhi, ?_⟩
  intro f hf
  exact (h.findings f hf).mono (Nat.le_refl _) hhi

/-- A place further on in a text allows no more than the place itself. -/
theorem Visit.Within.of_onward {v : Visit} {off stop : Nat} {cs rest : List Char}
    (hon : Onward off cs stop rest) (h : v.Within stop (stop + rest.length)) :
    v.Within off (off + cs.length) :=
  h.mono hon.le (Nat.le_of_eq hon.add_length)

/-- A visit reports nothing but the place where the list behind its word breaks. -/
theorem fault_of_mem_readVisit_findings {off : Nat} {cs : List Char} {f : Finding}
    (hf : f ∈ (readVisit esc keywords off cs).findings) :
    visitForm esc keywords off cs = some .stringArray ∧
      ∃ place, f = ⟨.unexpectedToken, ⟨place, place + 1⟩⟩ ∧
        (checkArrayBody esc true (readWord esc off cs).stop (readWord esc off cs).rest).fault =
          some place := by
  unfold readVisit visitBody Visit.findings at hf
  cases hform : visitForm esc keywords off cs with
  | none => simp [hform, scanBehind] at hf
  | some form =>
      cases form with
      | skipLine => simp [hform, scanBehind, scanBody] at hf
      | requireContent => simp [hform, scanBehind, scanBody] at hf
      | stringArray =>
          simp only [hform, scanBehind, scanBody] at hf
          split at hf
          · rename_i place hplace
            exact ⟨rfl, place, List.mem_singleton.mp hf, VisitOutcome.array.inj hplace⟩
          · simp at hf

/-- What a visit reports lies in the list behind its word. -/
theorem mem_readVisit_findings {off : Nat} {cs : List Char} {f : Finding}
    (hf : f ∈ (readVisit esc keywords off cs).findings) :
    ∃ place, f.span = ⟨place, place + 1⟩ ∧ (readWord esc off cs).stop ≤ place ∧
      place ≤ (visitBody esc keywords off cs).stop ∧ place < off + cs.length := by
  obtain ⟨hform, place, rfl, hplace⟩ := fault_of_mem_readVisit_findings hf
  obtain ⟨hlo, hstop, hhi⟩ := checkArrayBody_fault esc true _ _ place hplace
  have hlength := (onward_readWord esc off cs).add_length
  rw [visitBody_of_stringArray hform]
  exact ⟨place, rfl, hlo, hstop, by omega⟩

/-- A visit lies in the text that it reads. -/
theorem readVisit_within {off : Nat} {c : Char} {cs : List Char} :
    (readVisit esc keywords off (c :: cs)).Within off (off + (c :: cs).length) := by
  refine ⟨Nat.le_refl off, ?_, ?_⟩
  · show off < off + (c :: cs).length
    simp
  · intro f hf
    obtain ⟨place, hspan, hword, -, hhi⟩ := mem_readVisit_findings hf
    rw [hspan]
    exact ⟨Nat.le_trans (onward_readWord esc off (c :: cs)).le hword, Nat.le_succ place, hhi⟩

/-- The scan keeps to the text it was given. -/
theorem scanFrom_within (keywords : List String) (off : Nat) (cs : List Char) :
    ∀ v ∈ (scanFrom esc keywords off cs).visits, v.Within off (off + cs.length) := by
  induction off, cs using scanning_induction esc keywords with
  | nil off => simp
  | space off c cs hspace ih =>
      rw [scanFrom_of_isSpace hspace]
      intro v hv
      exact (ih v hv).of_onward ((Onward.refl (off + 1) cs).cons c)
  | comment off cs ih =>
      rw [scanFrom_of_mark]
      intro v hv
      exact (ih v hv).of_onward (onward_afterFirstLine off _)
  | joint off c cs hspace hmark hword ih =>
      rw [scanFrom_of_joint hspace hmark hword]
      intro v hv
      exact (ih v hv).of_onward (onward_readWord esc off _)
  | unknown off c cs hspace hmark hword hform =>
      rw [scanFrom_of_unknown hspace hmark hword hform]
      intro v hv
      obtain rfl := List.mem_singleton.mp hv
      exact readVisit_within
  | word off c cs hspace hmark hword hform ih =>
      rw [scanFrom_of_word hspace hmark hword hform]
      intro v hv
      rcases List.mem_cons.mp hv with rfl | hv
      · exact readVisit_within
      · exact (ih v hv).of_onward (onward_visitBody esc keywords off _)

/-- What a scan finds lies in its text. -/
theorem scanFrom_findings_within {keywords : List String} {off : Nat} {cs : List Char} {f : Finding}
    (hf : f ∈ (scanFrom esc keywords off cs).findings) : f.span.Within off (off + cs.length) := by
  obtain ⟨v, hv, hf⟩ := List.mem_flatMap.mp hf
  have hwithin := scanFrom_within keywords off cs v hv
  exact (hwithin.findings f hf).mono hwithin.le_start (Nat.le_refl _)

/-! ## The checks -/

/-- What is wrong with an instruction is wrong within its span. -/
theorem checkInstruction_within (ctx : CheckContext) {off : Nat} {cs : List Char}
    (hword : (readWord esc off cs).taken ≠ []) :
    let i := readInstruction esc off cs
    ∀ f ∈ checkInstruction ctx i, f.span.Within off i.span.stop := by
  intro i f hf
  obtain ⟨-, hstart, hname, hstop, -⟩ := readInstruction_within hword
  have hnameSpan : i.nameSpan.Within off i.span.stop :=
    ⟨Nat.le_of_eq hstart.symm, Nat.le_of_lt (hstart ▸ hname), hstop⟩
  cases mem_checkInstruction hf with
  | unknown | lowercase | missing => exact hnameSpan
  | deprecated severity =>
      exact ⟨hnameSpan.le_start, Nat.le_refl _, Nat.le_trans hnameSpan.start_le hnameSpan.stop_le⟩
  | argument hmem hfault =>
      exact (arguments_within hword ctx.escape _ hmem).mono (Nat.le_of_lt hname) (Nat.le_refl _)

/-! ## The directive -/

/-- A piece of a line lies under a span of it. -/
structure Span.Marks (s : Span Nat) (line piece : List Char) : Prop where
  start_le : s.start ≤ s.stop
  stop_le : s.stop ≤ line.length
  under : (line.drop s.start).take (s.stop - s.start) = piece

/-- What a tail of a line starts with lies behind the rest of the line. -/
theorem Span.marks_of_suffix {line tail piece : List Char} (htail : tail <:+ line)
    (hpiece : piece <+: tail) :
    let start := line.length - tail.length
    Span.Marks ⟨start, start + piece.length⟩ line piece := by
  intro start
  obtain ⟨front, rfl⟩ := htail
  obtain ⟨more, rfl⟩ := hpiece
  have hstart : start = front.length := by
    show (front ++ (piece ++ more)).length - (piece ++ more).length = front.length
    rw [List.length_append, Nat.add_sub_cancel]
  refine ⟨Nat.le_add_right start _, ?_, ?_⟩
  · simp only [hstart, List.length_append]
    omega
  · simp only [hstart, Nat.add_sub_cancel_left, List.drop_left, List.take_left]

/-- Trimming leaves what a text starts with. -/
theorem trimEnd_leads (p : Char → Bool) (cs : List Char) : trimEnd p cs <+: cs := by
  have hsuffix := List.dropWhile_suffix (l := cs.reverse) p
  rw [← List.reverse_prefix, List.reverse_reverse] at hsuffix
  exact hsuffix

/-- The name and the value of a directive lie under their spans. -/
theorem Directive.marks {line : List Char} {d : Directive}
    (h : Directive.ofLine? line = some d) :
    d.nameSpan.Marks line d.rawName.toList ∧ d.valueSpan.Marks line d.value.toList := by
  obtain ⟨mark, valued, hmark, hvalued, rfl⟩ := Directive.ofLine?_eq_some h
  have hmarked : mark <:+ line :=
    (List.suffix_cons '#' mark).trans (hmark ▸ List.dropWhile_suffix _)
  have hnamed : mark.dropWhile isBlank <:+ line :=
    (List.dropWhile_suffix _).trans hmarked
  have hled : valued.dropWhile isBlank <:+ line := by
    have hequals := (List.suffix_cons '=' valued).trans (hvalued ▸ List.dropWhile_suffix _)
    exact (List.dropWhile_suffix _).trans (hequals.trans ((List.drop_suffix _ _).trans hnamed))
  simp only [String.toList_ofList]
  exact ⟨Span.marks_of_suffix hnamed (List.takeWhile_prefix _),
    Span.marks_of_suffix hled (trimEnd_leads isBlank _)⟩

/-- What is wrong with a directive is wrong within its line. -/
theorem checkDirective_within {text : List Char} {f : Finding}
    (hf : f ∈ checkDirective (Directive.parse? text)) :
    f.span.Within 0 (firstLine text).length := by
  obtain ⟨d, hd, hfault⟩ := mem_checkDirective hf
  obtain ⟨hname, hvalue⟩ := Directive.marks hd
  cases hfault with
  | name => exact ⟨Nat.zero_le _, hname.start_le, hname.stop_le⟩
  | value => exact ⟨Nat.zero_le _, hvalue.start_le, hvalue.stop_le⟩

/-! ## Documents -/

/-- An instruction of a document keeps to its text. -/
theorem instruction_within {text : List Char} {i : Instruction}
    (hi : i ∈ (Dockerfile.parse text).instructions) :
    (Dockerfile.parse text).bodyOffset ≤ i.span.start ∧ i.nameSpan.start = i.span.start ∧
      i.span.start < i.nameSpan.stop ∧ i.nameSpan.stop ≤ i.span.stop ∧
      i.span.stop ≤ text.length := by
  obtain ⟨start, c, rest, honward, -, -, hword, rfl⟩ := mem_parse_instructions hi
  obtain ⟨hstart, hnameStart, hname, hstop, hend⟩ := readInstruction_within hword
  have hlength := honward.add_length
  have hle := honward.le
  have hbody := bodyOffset_le text
  rw [List.length_drop] at hlength
  rw [hnameStart, hstart]
  exact ⟨hle, rfl, hname, hstop, by omega⟩

/-- **Findings point into the text.** -/
theorem lint_within (settings : LintSettings) (keywords : List String) (text : List Char) :
    ∀ f ∈ (lint settings keywords text).findings, f.span.Within 0 text.length := by
  intro f hf
  cases mem_lint_findings hf with
  | directive hf =>
      have hline : (firstLine text).length ≤ text.length :=
        (List.takeWhile_prefix fun c => !isBreak c).length_le
      exact (checkDirective_within hf).mono (Nat.le_refl 0) hline
  | sourceImage hf =>
      rcases mem_checkSourceImage hf with ⟨-, rfl⟩ | ⟨first, hfirst, rfl⟩
      · exact ⟨Nat.le_refl 0, Nat.le_refl 0, Nat.zero_le _⟩
      · obtain ⟨-, hstart, hname, hstop, hend⟩ := instruction_within (List.mem_of_head? hfirst)
        exact ⟨Nat.zero_le _, by simp only; omega, Nat.le_trans hstop hend⟩
  | instruction i hi hf =>
      obtain ⟨-, -, -, -, hend⟩ := instruction_within hi
      obtain ⟨start, c, rest, -, -, -, hword, rfl⟩ := mem_parse_instructions hi
      exact (checkInstruction_within _ hword f hf).mono (Nat.zero_le _) hend
  | scan hf =>
      have hle := bodyOffset_le text
      refine (scanFrom_findings_within hf).mono (Nat.zero_le _) ?_
      rw [List.length_drop]
      omega

end DockerfileLint
