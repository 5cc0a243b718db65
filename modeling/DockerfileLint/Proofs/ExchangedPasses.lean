import DockerfileLint.Proofs.ExchangedReading
import DockerfileLint.Proofs.Steps

/-!
# The passes over a text with the escape characters exchanged

Under a directive that selects a backslash or a backtick the exchange of the two selects the
other one.  The parser and the scan then find the same instructions and make the same visits,
at the same offsets.  A keyword that holds neither character is found wherever it was, and
nothing else becomes one.

* `Directive.ofLine?_exchanged`: the directive;
* `instructionsFrom_exchanged`: the instructions;
* `scanFrom_exchanged`: the visits of the scan.
-/

namespace DockerfileLint

variable {esc : Escape} {keywords : List String}

/-! ## The directive -/

/-- The directive of an exchanged text. -/
def Directive.exchanged (d : Directive) : Directive :=
  { d with value := exchangedWord d.value }

/-- The name of a directive is a plain word. -/
theorem exchanged_takeWhile_isNameChar (cs : List Char) :
    exchanged (cs.takeWhile isNameChar) = cs.takeWhile isNameChar := by
  have hname : ∀ c ∈ cs.takeWhile isNameChar, isNameChar c = true :=
    List.all_eq_true.mp List.all_takeWhile
  apply exchanged_of_not_mem
  · intro hslash
    exact absurd (hname _ hslash) (by decide +kernel)
  · intro htick
    exact absurd (hname _ htick) (by decide +kernel)

/-- The directive of a line is exchanged with it. -/
theorem Directive.ofLine?_exchanged (line : List Char) :
    ofLine? (DockerfileLint.exchanged line) = (ofLine? line).map Directive.exchanged := by
  have hblank (cs : List Char) : (DockerfileLint.exchanged cs).dropWhile isBlank =
      DockerfileLint.exchanged (cs.dropWhile isBlank) := dropWhile_exchanged rfl cs
  have hname (cs : List Char) : (DockerfileLint.exchanged cs).takeWhile isNameChar =
      cs.takeWhile isNameChar := by
    rw [takeWhile_exchanged (by decide +kernel), exchanged_takeWhile_isNameChar]
  unfold ofLine?
  rw [hblank]
  cases line.dropWhile isBlank with
  | nil => rfl
  | cons m mark =>
      by_cases hm : m = '#'
      · subst hm
        rw [exchanged_cons, exchange_mark]
        simp only [hblank, hname, ← exchanged_drop]
        split
        · cases ((mark.dropWhile isBlank).drop
              ((mark.dropWhile isBlank).takeWhile isNameChar).length).dropWhile isBlank with
          | nil => rfl
          | cons e valued =>
              by_cases he : e = '='
              · subst he
                rw [exchanged_cons, show exchange '=' = '=' from rfl]
                simp only [hblank, trimEnd_exchanged (p := isBlank) rfl, exchanged_length]
                simp [Directive.exchanged, exchangedWord]
              · have he' : exchange e ≠ '=' := by
                  rwa [ne_eq, exchange_eq_iff (by decide) (by decide)]
                rw [exchanged_cons]
                simp [he, he']
        · rfl
      · rw [exchanged_cons]
        simp [hm, exchange_ne_mark hm]

/-- A directive that selects one of the two characters selects the other one. -/
theorem Directive.exchanged_value {d : Directive} (h : d.value ∈ legalEscapes) :
    d.exchanged.value ∈ legalEscapes ∧ d.exchanged.escape = exchange d.escape := by
  have hvalue : d.value = "\\" ∨ d.value = "`" := by
    simpa [legalEscapes] using h
  unfold exchanged escape
  rcases hvalue with hvalue | hvalue
  · simp only [hvalue]
    decide
  · simp only [hvalue]
    decide

/-! ## The parser -/

/-- The instruction of an exchanged text. -/
def Instruction.exchanged (i : Instruction) : Instruction :=
  { i with
    written := exchangedWord i.written
    content := DockerfileLint.exchanged i.content }

/-- The keyword of an instruction is exchanged. -/
theorem Instruction.exchanged_keyword (i : Instruction) :
    i.exchanged.keyword = exchangedWord i.keyword :=
  Unicode.upper_exchanged i.written

/-- The text of its arguments is exchanged. -/
theorem Instruction.exchanged_argumentsText (i : Instruction) :
    i.exchanged.argumentsText = DockerfileLint.exchanged i.argumentsText :=
  (exchanged_drop _ i.content).symm

/-- Its arguments are exchanged one by one. -/
theorem Instruction.exchanged_arguments (i : Instruction) (esc : Escape) :
    i.exchanged.arguments (esc.map exchange) = (i.arguments esc).map Argument.exchanged := by
  unfold arguments
  rw [exchanged_argumentsText]
  exact argumentsFrom_exchanged esc i.nameSpan.stop i.argumentsText

/-- It has arguments if it had some. -/
theorem Instruction.exchanged_hasArguments (i : Instruction) (esc : Escape) (finish : Nat) :
    i.exchanged.hasArguments (esc.map exchange) finish = i.hasArguments esc finish := by
  unfold hasArguments
  rw [exchanged_argumentsText]
  exact argumentsPresent_exchanged esc finish i.nameSpan.stop i.argumentsText

/-- The instruction that is read at a place is exchanged with the text. -/
theorem readInstruction_exchanged (esc : Escape) (off : Nat) (cs : List Char) :
    readInstruction (esc.map exchange) off (exchanged cs) =
      (readInstruction esc off cs).exchanged := by
  unfold readInstruction
  simp only [readWord_exchanged, readLine_exchanged, Reading.exchanged_text,
    Reading.exchanged_reach, Reading.exchanged_stop, ← exchanged_take]
  rfl

/-- The instructions of a text are exchanged with it. -/
theorem instructionsFrom_exchanged (esc : Escape) (off : Nat) (cs : List Char) :
    instructionsFrom (esc.map exchange) off (exchanged cs) =
      (instructionsFrom esc off cs).map Instruction.exchanged := by
  induction off, cs using parsing_induction esc with
  | nil off => simp
  | space off c cs hspace ih =>
      rw [instructionsFrom_of_isSpace hspace, exchanged_cons,
        instructionsFrom_of_isSpace (by simpa using hspace), ih]
  | comment off cs ih =>
      have hline := readLine_exchanged esc off ('#' :: cs)
      rw [exchanged_cons, exchange_mark] at hline ⊢
      rw [instructionsFrom_of_mark, instructionsFrom_of_mark, hline]
      exact ih
  | joint off c cs hspace hmark hword ih =>
      have hstep := readWord_exchanged esc off (c :: cs)
      have hword' := (readWord_exchanged_taken esc off (c :: cs)).mpr hword
      rw [exchanged_cons] at hstep hword' ⊢
      rw [instructionsFrom_of_joint hspace hmark hword,
        instructionsFrom_of_joint (by simpa using hspace) (exchange_ne_mark hmark) hword', hstep]
      exact ih
  | word off c cs hspace hmark hword ih =>
      have hread := readInstruction_exchanged esc off (c :: cs)
      have hline := readLine_exchanged esc off (c :: cs)
      have hword' := mt (readWord_exchanged_taken esc off (c :: cs)).mp hword
      rw [exchanged_cons] at hread hline hword' ⊢
      rw [instructionsFrom_of_word hspace hmark hword,
        instructionsFrom_of_word (by simpa using hspace) (exchange_ne_mark hmark) hword', hread,
        hline, List.map_cons]
      exact congrArg _ ih

/-! ## The scan -/

/-- The check of a body in an exchanged text. -/
def BodyScan.exchanged (b : BodyScan) : BodyScan :=
  { b with rest := DockerfileLint.exchanged b.rest }

/-- A body ends where it did. -/
@[simp] theorem BodyScan.exchanged_stop (b : BodyScan) : b.exchanged.stop = b.stop := rfl

/-- What is found in it is the same. -/
@[simp] theorem BodyScan.exchanged_outcome (b : BodyScan) : b.exchanged.outcome = b.outcome := rfl

/-- What is left behind it is exchanged. -/
@[simp] theorem BodyScan.exchanged_rest (b : BodyScan) :
    b.exchanged.rest = DockerfileLint.exchanged b.rest := rfl

/-- The visit in an exchanged text. -/
def Visit.exchanged (v : Visit) : Visit :=
  { v with word := exchangedWord v.word }

/-- The scan of an exchanged text. -/
def Scan.exchanged (s : Scan) : Scan :=
  { s with visits := s.visits.map Visit.exchanged }

/-- A word without the two characters is looked up alike. -/
theorem lookup_exchangedWord {α : Type} {table : List (String × α)}
    (htable : ∀ entry ∈ table, IsPlain entry.1) (s : String) :
    table.lookup (exchangedWord s) = table.lookup s := by
  induction table with
  | nil => rfl
  | cons entry table ih =>
      have hkey : (exchangedWord s == entry.1) = (s == entry.1) := by
        rw [Bool.eq_iff_iff, beq_iff_eq, beq_iff_eq]
        exact exchangedWord_eq_iff (htable entry List.mem_cons_self)
      rw [List.lookup_cons, List.lookup_cons, hkey,
        ih fun entry hentry => htable entry (List.mem_cons_of_mem _ hentry)]

/-- No keyword with a rule holds one of the two characters. -/
theorem rules_plain : ∀ entry ∈ rules, IsPlain entry.1 := by
  decide

/-- What the scan expects behind a word does not change. -/
theorem bodyForm?_exchanged (hkeywords : ∀ k ∈ keywords, IsPlain k) (s : String) :
    bodyForm? keywords (exchangedWord s) = bodyForm? keywords s := by
  unfold bodyForm?
  simp only [lookup_exchangedWord rules_plain, exchangedWord_mem_iff hkeywords]

/-- Nor does what it expects behind the word that stands at a place. -/
theorem visitForm_exchanged (esc : Escape) (hkeywords : ∀ k ∈ keywords, IsPlain k) (off : Nat)
    (cs : List Char) :
    visitForm (esc.map exchange) keywords off (exchanged cs) = visitForm esc keywords off cs := by
  unfold visitForm
  rw [readWord_exchanged, Reading.exchanged_text, Unicode.upper_exchanged,
    bodyForm?_exchanged hkeywords]

/-- The scan of a body is exchanged with the text. -/
theorem scanBody_exchanged (esc : Escape) (form : BodyForm) (off : Nat) (cs : List Char) :
    scanBody (esc.map exchange) form off (exchanged cs) = (scanBody esc form off cs).exchanged := by
  cases form with
  | skipLine =>
      simp only [scanBody, readLine_exchanged]
      rfl
  | stringArray =>
      simp only [scanBody, checkArrayBody_exchanged]
      rfl
  | requireContent =>
      simp only [scanBody, readLine_exchanged]
      simp [Reading.exchanged, BodyScan.exchanged, Function.comp_def]

/-- The scan behind a word is exchanged with the text. -/
theorem visitBody_exchanged (esc : Escape) (hkeywords : ∀ k ∈ keywords, IsPlain k) (off : Nat)
    (cs : List Char) :
    visitBody (esc.map exchange) keywords off (exchanged cs) =
      (visitBody esc keywords off cs).exchanged := by
  unfold visitBody
  rw [visitForm_exchanged esc hkeywords, readWord_exchanged]
  cases visitForm esc keywords off cs with
  | none => rfl
  | some form => exact scanBody_exchanged esc form _ _

/-- A visit is exchanged with the text. -/
theorem readVisit_exchanged (esc : Escape) (hkeywords : ∀ k ∈ keywords, IsPlain k) (off : Nat)
    (cs : List Char) :
    readVisit (esc.map exchange) keywords off (exchanged cs) =
      (readVisit esc keywords off cs).exchanged := by
  unfold readVisit
  simp only [visitBody_exchanged esc hkeywords, readWord_exchanged, Reading.exchanged_text,
    Reading.exchanged_stop, BodyScan.exchanged_outcome, BodyScan.exchanged_stop, Visit.exchanged]

/-- The visits of a text are exchanged with it. -/
theorem scanFrom_exchanged (esc : Escape) (hkeywords : ∀ k ∈ keywords, IsPlain k) (off : Nat)
    (cs : List Char) :
    scanFrom (esc.map exchange) keywords off (exchanged cs) =
      (scanFrom esc keywords off cs).exchanged := by
  induction off, cs using scanning_induction esc keywords with
  | nil off => simp [Scan.exchanged]
  | space off c cs hspace ih =>
      rw [scanFrom_of_isSpace hspace, exchanged_cons,
        scanFrom_of_isSpace (by simpa using hspace), ih]
  | comment off cs ih =>
      have hfirst := firstLine_exchanged ('#' :: cs)
      have hafter := afterFirstLine_exchanged ('#' :: cs)
      rw [exchanged_cons, exchange_mark] at hfirst hafter ⊢
      rw [scanFrom_of_mark, scanFrom_of_mark, hfirst, hafter, exchanged_length, ih]
  | joint off c cs hspace hmark hword ih =>
      have hstep := readWord_exchanged esc off (c :: cs)
      have hword' := (readWord_exchanged_taken esc off (c :: cs)).mpr hword
      rw [exchanged_cons] at hstep hword' ⊢
      rw [scanFrom_of_joint hspace hmark hword,
        scanFrom_of_joint (by simpa using hspace) (exchange_ne_mark hmark) hword', hstep]
      exact ih
  | unknown off c cs hspace hmark hword hform =>
      have hstep := readWord_exchanged esc off (c :: cs)
      have hvisit := readVisit_exchanged esc hkeywords off (c :: cs)
      have hform' := (visitForm_exchanged esc hkeywords off (c :: cs)).trans hform
      have hword' := mt (readWord_exchanged_taken esc off (c :: cs)).mp hword
      rw [exchanged_cons] at hstep hvisit hform' hword' ⊢
      rw [scanFrom_of_unknown hspace hmark hword hform,
        scanFrom_of_unknown (by simpa using hspace) (exchange_ne_mark hmark) hword' hform', hvisit,
        hstep]
      rfl
  | word off c cs hspace hmark hword hform ih =>
      have hvisit := readVisit_exchanged esc hkeywords off (c :: cs)
      have hbody := visitBody_exchanged esc hkeywords off (c :: cs)
      have hform' : (visitForm (esc.map exchange) keywords off (exchanged (c :: cs))).isSome =
          true := by
        rw [visitForm_exchanged esc hkeywords]
        exact hform
      have hword' := mt (readWord_exchanged_taken esc off (c :: cs)).mp hword
      rw [exchanged_cons] at hvisit hbody hform' hword' ⊢
      rw [scanFrom_of_word hspace hmark hword hform,
        scanFrom_of_word (by simpa using hspace) (exchange_ne_mark hmark) hword' hform', hvisit,
        hbody, BodyScan.exchanged_stop, BodyScan.exchanged_rest, ih]
      rfl

end DockerfileLint
