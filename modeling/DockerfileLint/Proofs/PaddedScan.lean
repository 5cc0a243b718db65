import DockerfileLint.Proofs.FinalBreak
import DockerfileLint.Proofs.PaddedLines

/-!
# The scan past blanks at the end of a line

The scan of a text with a line break behind it and the scan with blanks in front of the
break read the same words and come to the same verdicts.  They stand at the same place
until they come to the end of the text, and then both come to the break: they keep
*abreast*.  What they read on the last line may differ by the blanks, and that changes
nothing: a list that is not closed remembers its last character, not where it ended, and a
body is searched for anything that is not blank.

* `walkArray_padded`, `checkArrayBody_padded`: lists, inside strings and outside;
* `scanBehind_padded`: every body;
* `scanFrom_padded`: the whole scan, along the text.
-/

namespace DockerfileLint

variable {esc : Escape} {e : Char} {keywords : List String} {off : Nat} {c : Char}
  {cs blanks more : List Char}

/-! ## Side by side -/

/-- Two readers, one of a text with `more` behind it and one with blanks between, stand at
the same place in the text, where a reader of the text alone would, or both in front of
`more`. -/
def Abreast (blanks more : List Char) (near plain padded : Nat × List Char) : Prop :=
  (plain = (near.1, near.2 ++ more) ∧ padded = (near.1, near.2 ++ (blanks ++ more))) ∨
    (plain.2 = more ∧ padded.2 = more)

/-! ## Lists -/

namespace ArrayState

/-- Blanks leave the state of a list as it is, in a string and between strings. -/
theorem insideString_blank (s : ArrayState) (off : Nat) (hc : isBlank c = true) :
    s.insideString off c = s := by
  have hquote : c ≠ '"' := by
    rintro rfl
    cases hc
  unfold insideString
  rw [if_neg hquote, if_pos hc]

/-- Between strings too, a blank leaves the state as it is. -/
theorem betweenStrings_blank (s : ArrayState) (off : Nat) (hc : isBlank c = true) :
    s.betweenStrings off c = s := by
  have hquote : c ≠ '"' := by
    rintro rfl
    cases hc
  unfold betweenStrings
  rw [if_neg hquote, if_pos hc]

/-- White space starts no continuation, in a string or not. -/
theorem continuation?_of_isSpace (hesc : esc.Visible) (s : ArrayState) (hc : isSpace c = true)
    (cs : List Char) : s.continuation? esc (c :: cs) = none := by
  unfold continuation?
  split
  · rfl
  · exact hesc.continuation?_eq_none cs hc

end ArrayState

/-- Blanks in front of where a list ends do not change its verdict. -/
theorem walkArray_blanks (hesc : esc.Visible) (s : ArrayState) (off off' : Nat)
    (blanks : List Char) (hblanks : ∀ c ∈ blanks, isBlank c = true)
    (hmore : ∀ c ∈ more, isBreak c = true) :
    (walkArray esc s off (blanks ++ more)).fault = (walkArray esc s off' more).fault ∧
      (walkArray esc s off (blanks ++ more)).rest = more := by
  induction blanks generalizing off with
  | nil =>
      cases more with
      | nil => simp
      | cons b more =>
          have hb := hmore b List.mem_cons_self
          have hnone := s.continuation?_of_isSpace hesc (isSpace_of_isBreak hb) more
          rw [List.nil_append, walkArray_cons hnone, walkArray_cons hnone, if_pos hb, if_pos hb]
          exact ⟨rfl, rfl⟩
  | cons c blanks ih =>
      have hc := hblanks c List.mem_cons_self
      have hrest := ih (off + 1) fun d hd => hblanks d (List.mem_cons_of_mem c hd)
      have hquote : ¬ (c = '"' ∧ s.commaDue ∧ s.fault = none) := by
        rintro ⟨rfl, -⟩
        cases hc
      rw [List.cons_append,
        walkArray_cons (s.continuation?_of_isSpace hesc (isSpace_of_isBlank hc) _),
        if_neg (by simp [isBreak_eq_false_of_isBlank hc]), if_neg hquote,
        s.insideString_blank off hc, s.betweenStrings_blank off hc, ite_self]
      exact hrest

/-- A list has the same verdict with blanks at the end of its text. -/
theorem walkArray_padded (hesc : Escape.Visible (some e)) (h : Padded e cs blanks more)
    (s : ArrayState) (off : Nat) :
    let near := walkArray (some e) s off cs
    let plain := walkArray (some e) s off (cs ++ more)
    let padded := walkArray (some e) s off (cs ++ (blanks ++ more))
    padded.fault = plain.fault ∧
      Abreast blanks more (near.stop, near.rest) (plain.stop, plain.rest)
        (padded.stop, padded.rest) := by
  intro near plain padded
  have hplain : plain = _ := walkArray_append_of_seam s off h.joins.seam
  have hpadded : padded = _ := walkArray_append_of_seam s off h.joins_blanks.seam
  cases hend : walkEnd? (some e) s off cs with
  | none =>
      rw [hend] at hplain hpadded
      rw [hplain, hpadded]
      exact ⟨rfl, .inl ⟨rfl, rfl⟩⟩
  | some s' =>
      rw [hend] at hplain hpadded
      have hblanks := walkArray_blanks hesc s' (off + cs.length) (off + cs.length) blanks h.blank
        h.breaks
      have hbreaks := walkArray_blanks hesc s' (off + cs.length) (off + cs.length) [] (by simp)
        h.breaks
      rw [hplain, hpadded]
      exact ⟨hblanks.1, .inr ⟨hbreaks.2, hblanks.2⟩⟩

/-- In front of its list a body may be blank. -/
theorem checkArrayBody_blanks (hesc : esc.Visible) (opening : Bool) (off : Nat)
    (blanks : List Char) (hblanks : ∀ c ∈ blanks, isBlank c = true)
    (hmore : ∀ c ∈ more, isBreak c = true) :
    (checkArrayBody esc opening off (blanks ++ more)).fault = none ∧
      (checkArrayBody esc opening off (blanks ++ more)).rest = more := by
  induction blanks generalizing opening off with
  | nil =>
      cases more with
      | nil => simp
      | cons b more =>
          have hb := hmore b List.mem_cons_self
          rw [List.nil_append,
            checkArrayBody_cons (hesc.continuation?_eq_none more (isSpace_of_isBreak hb)),
            if_pos hb]
          exact ⟨rfl, rfl⟩
  | cons c blanks ih =>
      have hc := hblanks c List.mem_cons_self
      have hbracket : ¬ (c = '[' ∧ opening) := by
        rintro ⟨rfl, -⟩
        cases hc
      rw [List.cons_append,
        checkArrayBody_cons (hesc.continuation?_eq_none _ (isSpace_of_isBlank hc)),
        if_neg (by simp [isBreak_eq_false_of_isBlank hc]), if_neg hbracket]
      exact ih _ (off + 1) fun d hd => hblanks d (List.mem_cons_of_mem c hd)

/-- The body of an instruction has the same verdict with blanks at the end of its text. -/
theorem checkArrayBody_padded (hesc : Escape.Visible (some e)) (h : Padded e cs blanks more)
    (opening : Bool) (off : Nat) :
    let near := checkArrayBody (some e) opening off cs
    let plain := checkArrayBody (some e) opening off (cs ++ more)
    let padded := checkArrayBody (some e) opening off (cs ++ (blanks ++ more))
    padded.fault = plain.fault ∧
      Abreast blanks more (near.stop, near.rest) (plain.stop, plain.rest)
        (padded.stop, padded.rest) := by
  fun_induction checkArrayBody (some e) opening off cs with
  | case1 opening off cs n rest hcont ih =>
      rw [checkArrayBody_of_continuation? (h.joins.seam.continuation?_append hcont),
        checkArrayBody_of_continuation? (h.joins_blanks.seam.continuation?_append hcont)]
      exact ih (h.of_onward (onward_of_continuation? off hcont))
  | case2 opening off =>
      have hblanks := checkArrayBody_blanks hesc opening off blanks h.blank h.breaks
      have hbreaks := checkArrayBody_blanks hesc opening off [] (by simp) h.breaks
      exact ⟨hblanks.1.trans hbreaks.1.symm, .inr ⟨hbreaks.2, hblanks.2⟩⟩
  | case3 opening off c cs hcont hc =>
      rw [List.cons_append, List.cons_append,
        checkArrayBody_cons (h.joins.seam.continuation?_cons_append hcont),
        checkArrayBody_cons (h.joins_blanks.seam.continuation?_cons_append hcont), if_pos hc,
        if_pos hc]
      exact ⟨rfl, .inl ⟨rfl, rfl⟩⟩
  | case4 opening off c cs hcont hc hopen =>
      rw [List.cons_append, List.cons_append,
        checkArrayBody_cons (h.joins.seam.continuation?_cons_append hcont),
        checkArrayBody_cons (h.joins_blanks.seam.continuation?_cons_append hcont), if_neg hc,
        if_neg hc, if_pos hopen, if_pos hopen]
      exact walkArray_padded hesc h.of_cons _ (off + 1)
  | case5 opening off c cs hcont hc hopen ih =>
      rw [List.cons_append, List.cons_append,
        checkArrayBody_cons (h.joins.seam.continuation?_cons_append hcont),
        checkArrayBody_cons (h.joins_blanks.seam.continuation?_cons_append hcont), if_neg hc,
        if_neg hc, if_neg hopen, if_neg hopen]
      exact ih h.of_cons

/-! ## Bodies -/

/-- A movement to the end of a line takes nothing more with the blanks that is not
blank. -/
theorem readLine_padded (hesc : Escape.Visible (some e)) (h : Padded e cs blanks more) (off : Nat) :
    let near := readLine (some e) off cs
    let plain := readLine (some e) off (cs ++ more)
    let padded := readLine (some e) off (cs ++ (blanks ++ more))
    (padded.taken.any fun p => !isBlank p.1) = (plain.taken.any fun p => !isBlank p.1) ∧
      Abreast blanks more (near.stop, near.rest) (plain.stop, plain.rest)
        (padded.stop, padded.rest) := by
  intro near plain padded
  by_cases hrest : near.rest = []
  · have hplain : plain = _ := readWhile_append_of_rest_eq_nil h.joins.seam hrest
    have hpadded : padded = _ := readWhile_append_of_rest_eq_nil h.joins_blanks.seam hrest
    obtain ⟨hblanks, htaken⟩ := readLine_blanks hesc (off + cs.length) blanks h.blank h.breaks
    obtain ⟨hbreaks, htaken'⟩ :=
      readLine_blanks hesc (off + cs.length) [] (by simp) h.breaks
    have hany : ∀ taken : List (Char × Nat), (∀ p ∈ taken, isBlank p.1 = true) →
        (taken.any fun p => !isBlank p.1) = false := by
      intro taken hall
      rw [List.any_eq_false]
      intro p hp
      simp [hall p hp]
    rw [hplain, hpadded]
    refine ⟨?_, .inr ⟨hbreaks, hblanks⟩⟩
    have hsame := (hany _ htaken).trans (hany _ htaken').symm
    unfold readLine at hsame
    simp only [List.any_append]
    rw [hsame]
    rfl
  · have hplain : plain = _ := readWhile_append_of_rest_ne_nil h.joins.seam hrest
    have hpadded : padded = _ := readWhile_append_of_rest_ne_nil h.joins_blanks.seam hrest
    rw [hplain, hpadded]
    exact ⟨rfl, .inl ⟨rfl, rfl⟩⟩

/-- Whatever is done with a body, it comes out the same with blanks at the end of the
text. -/
theorem scanBehind_padded (hesc : Escape.Visible (some e)) (h : Padded e cs blanks more)
    (form : Option BodyForm) (off : Nat) :
    let near := scanBehind (some e) form off cs
    let plain := scanBehind (some e) form off (cs ++ more)
    let padded := scanBehind (some e) form off (cs ++ (blanks ++ more))
    padded.outcome = plain.outcome ∧
      Abreast blanks more (near.stop, near.rest) (plain.stop, plain.rest)
        (padded.stop, padded.rest) := by
  cases form with
  | none => exact ⟨rfl, .inl ⟨rfl, rfl⟩⟩
  | some form =>
      cases form with
      | skipLine => exact ⟨rfl, (readLine_padded hesc h off).2⟩
      | stringArray =>
          obtain ⟨hfault, habreast⟩ := checkArrayBody_padded hesc h true off
          exact ⟨congrArg VisitOutcome.array hfault, habreast⟩
      | requireContent =>
          obtain ⟨hfound, habreast⟩ := readLine_padded hesc h off
          exact ⟨congrArg VisitOutcome.content hfound, habreast⟩

/-! ## The scan -/

/-- Two scans find the same, and both end before the text does or neither. -/
structure Scan.Agrees (s t : Scan) : Prop where
  findings : t.findings = s.findings
  ended : t.ended = s.ended

namespace Scan.Agrees

/-- Scans that read no words agree. -/
theorem of_no_visits {s t : Scan} (hs : s.visits = []) (ht : t.visits = []) : s.Agrees t := by
  refine ⟨?_, ?_⟩
  · rw [Scan.findings, Scan.findings, hs, ht]
  · rw [Scan.ended, Scan.ended, hs, ht]

/-- A word that comes out the same in both goes in front. -/
theorem cons {s t : Scan} {v w : Visit} (h : s.Agrees t) (hv : w.outcome = v.outcome) :
    (s.cons v).Agrees (t.cons w) := by
  have hfindings : w.findings = v.findings := by
    unfold Visit.findings
    rw [hv]
  refine ⟨?_, ?_⟩
  · rw [Scan.cons_findings, Scan.cons_findings, hfindings, h.findings]
  · have hended := h.ended
    unfold Scan.ended at hended ⊢
    rw [Scan.cons, Scan.cons, List.any_cons, List.any_cons, hv, hended]

/-- Scans that end at their first word agree if it comes out the same. -/
theorem of_visit {v w : Visit} (hv : w.outcome = v.outcome) (stop stop' : Nat) :
    Scan.Agrees ⟨[v], stop⟩ ⟨[w], stop'⟩ := by
  have hnone : Scan.Agrees ⟨[], stop⟩ ⟨[], stop'⟩ := of_no_visits rfl rfl
  exact hnone.cons hv

end Scan.Agrees

/-- There are no words in white space. -/
theorem scanFrom_spaces (esc : Escape) (keywords : List String) (off : Nat)
    (h : ∀ c ∈ cs, isSpace c = true) : (scanFrom esc keywords off cs).visits = [] := by
  have hscan := scanFrom_append_spaces esc keywords off h []
  rw [List.append_nil, scanFrom_nil] at hscan
  rw [hscan]

/-- Where two readers are abreast their scans go on alike, if they do in the text. -/
theorem Abreast.scanFrom_agrees {plain padded : Nat} {plainRest paddedRest : List Char}
    (h : Abreast blanks more (off, cs) (plain, plainRest) (padded, paddedRest))
    (hmore : ∀ c ∈ more, isBreak c = true)
    (hnear : (scanFrom esc keywords off (cs ++ more)).Agrees
      (scanFrom esc keywords off (cs ++ (blanks ++ more)))) :
    (scanFrom esc keywords plain plainRest).Agrees
      (scanFrom esc keywords padded paddedRest) := by
  rcases h with ⟨hplain, hpadded⟩ | ⟨hplain, hpadded⟩
  · simp only [Prod.mk.injEq] at hplain hpadded
    rw [hplain.1, hplain.2, hpadded.1, hpadded.2]
    exact hnear
  · have hspaces : ∀ c ∈ more, isSpace c = true := fun c hc => isSpace_of_isBreak (hmore c hc)
    simp only at hplain hpadded
    rw [hplain, hpadded]
    exact .of_no_visits (scanFrom_spaces esc keywords _ hspaces)
      (scanFrom_spaces esc keywords _ hspaces)

/-- A comment ends with its line, with blanks and without. -/
theorem afterFirstLine_padded (h : Padded e cs blanks more) (off : Nat) :
    Abreast blanks more (off + (firstLine cs).length, afterFirstLine cs)
      (off + (firstLine (cs ++ more)).length, afterFirstLine (cs ++ more))
      (off + (firstLine (cs ++ (blanks ++ more))).length,
        afterFirstLine (cs ++ (blanks ++ more))) := by
  obtain ⟨hfirst, hafter⟩ := firstLine_append_breaks h.breaks cs
  cases hbreak : cs.any isBreak with
  | true =>
      obtain ⟨hfirst', hafter'⟩ := firstLine_append hbreak (blanks ++ more)
      rw [hfirst, hafter, hfirst', hafter']
      exact .inl ⟨rfl, rfl⟩
  | false =>
      have hline := h.isBreak_eq_false hbreak
      have hnone : ∀ line, line <+: cs ++ blanks → afterFirstLine line = [] := by
        intro line hfront
        unfold afterFirstLine
        rw [List.dropWhile_eq_nil_iff]
        intro c hc
        simp [hline c (hfront.subset hc)]
      refine .inr ⟨?_, ?_⟩
      · simp only
        rw [hafter, hnone cs (List.prefix_append cs blanks), List.nil_append]
      · simp only
        rw [← List.append_assoc, (firstLine_append_breaks h.breaks (cs ++ blanks)).2,
          hnone _ List.prefix_rfl, List.nil_append]

/-- White space behind a text does not change what the scan sees of an instruction. -/
theorem visitForm_append_spaces (hesc : esc.Visible) (keywords : List String) (off : Nat)
    {spaces : List Char} (h : Seam esc cs spaces) (hspaces : ∀ c ∈ spaces, isSpace c = true) :
    visitForm esc keywords off (cs ++ spaces) = visitForm esc keywords off cs := by
  unfold visitForm
  rw [readWord_append_spaces hesc off h hspaces]
  rfl

/-- What is done about the word read from here comes out the same with blanks at the end
of the text. -/
theorem visitBody_padded (hesc : Escape.Visible (some e)) (h : Padded e cs blanks more)
    (keywords : List String) (off : Nat) :
    let near := visitBody (some e) keywords off cs
    let plain := visitBody (some e) keywords off (cs ++ more)
    let padded := visitBody (some e) keywords off (cs ++ (blanks ++ more))
    padded.outcome = plain.outcome ∧
      Abreast blanks more (near.stop, near.rest) (plain.stop, plain.rest)
        (padded.stop, padded.rest) := by
  have hbody := scanBehind_padded hesc (h.of_onward (onward_readWord (some e) off cs))
    (visitForm (some e) keywords off cs) (readWord (some e) off cs).stop
  unfold visitBody
  rw [visitForm_append_spaces hesc keywords off h.joins.seam h.isSpace_more,
    visitForm_append_spaces hesc keywords off h.joins_blanks.seam h.isSpace_behind,
    readWord_append_spaces hesc off h.joins.seam h.isSpace_more,
    readWord_append_spaces hesc off h.joins_blanks.seam h.isSpace_behind]
  exact hbody

/-- **Blanks at the end of a text, in front of the break.**  The scan finds the same, and
ends at the same word if it does. -/
theorem scanFrom_padded (hesc : Escape.Visible (some e)) (keywords : List String) (off : Nat)
    (h : Padded e cs blanks more) :
    (scanFrom (some e) keywords off (cs ++ more)).Agrees
      (scanFrom (some e) keywords off (cs ++ (blanks ++ more))) := by
  have hspaces := h.isSpace_more
  have hspaces' := h.isSpace_behind
  induction off, cs using scanning_induction (some e) keywords with
  | nil off =>
      exact .of_no_visits (scanFrom_spaces _ keywords off hspaces)
        (scanFrom_spaces _ keywords off hspaces')
  | space off c cs hspace ih =>
      rw [List.cons_append, List.cons_append, scanFrom_of_isSpace hspace,
        scanFrom_of_isSpace hspace]
      exact ih h.of_cons
  | comment off cs ih =>
      have habreast := afterFirstLine_padded h off
      rw [List.cons_append, List.cons_append, scanFrom_of_mark, scanFrom_of_mark]
      exact habreast.scanFrom_agrees h.breaks (ih (h.of_onward (onward_afterFirstLine off _)))
  | joint off c cs hspace hmark hword ih =>
      have hplain := readWord_append_spaces hesc off h.joins.seam hspaces
      have hpadded := readWord_append_spaces hesc off h.joins_blanks.seam hspaces'
      rw [List.cons_append] at hplain hpadded ⊢
      rw [List.cons_append, scanFrom_of_joint hspace hmark (by rw [hplain]; exact hword),
        scanFrom_of_joint hspace hmark (by rw [hpadded]; exact hword), hplain, hpadded]
      exact ih (h.of_onward (onward_readWord (some e) off (c :: cs)))
  | unknown off c cs hspace hmark hword hform =>
      have hplain := readWord_append_spaces hesc off h.joins.seam hspaces
      have hpadded := readWord_append_spaces hesc off h.joins_blanks.seam hspaces'
      have hplainForm := visitForm_append_spaces hesc keywords off h.joins.seam hspaces
      have hpaddedForm := visitForm_append_spaces hesc keywords off h.joins_blanks.seam hspaces'
      rw [hform, List.cons_append] at hplainForm hpaddedForm
      rw [List.cons_append] at hplain hpadded ⊢
      rw [List.cons_append,
        scanFrom_of_unknown hspace hmark (by rw [hplain]; exact hword) hplainForm,
        scanFrom_of_unknown hspace hmark (by rw [hpadded]; exact hword) hpaddedForm]
      have houtcome :=
        (readVisit_outcome.mpr hpaddedForm).trans (readVisit_outcome.mpr hplainForm).symm
      exact .of_visit houtcome _ _
  | word off c cs hspace hmark hword hform ih =>
      have hplain := readWord_append_spaces hesc off h.joins.seam hspaces
      have hpadded := readWord_append_spaces hesc off h.joins_blanks.seam hspaces'
      have hplainForm := visitForm_append_spaces hesc keywords off h.joins.seam hspaces
      have hpaddedForm := visitForm_append_spaces hesc keywords off h.joins_blanks.seam hspaces'
      obtain ⟨hbody, habreast⟩ := visitBody_padded hesc h keywords off
      have hrest := habreast.scanFrom_agrees h.breaks
        (ih (h.of_onward (onward_visitBody (some e) keywords off (c :: cs))))
      have houtcome := (outcome_readVisit (some e) keywords off (c :: cs ++ (blanks ++ more))).trans
        (hbody.trans (outcome_readVisit (some e) keywords off (c :: cs ++ more)).symm)
      have hagrees := hrest.cons houtcome
      rw [List.cons_append] at hplain hpadded hplainForm hpaddedForm
      rw [List.cons_append, List.cons_append,
        scanFrom_of_word hspace hmark (by rw [hplain]; exact hword)
          (by rw [hplainForm]; exact hform),
        scanFrom_of_word hspace hmark (by rw [hpadded]; exact hword)
          (by rw [hpaddedForm]; exact hform)]
      exact hagrees

end DockerfileLint
