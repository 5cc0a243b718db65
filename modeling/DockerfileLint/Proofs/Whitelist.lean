import DockerfileLint.Proofs.Approach
import DockerfileLint.Proofs.Boundaries
import DockerfileLint.Proofs.Extents

/-!
# What the whitelist governs

The checks of the parsed document ask the whitelist first: an instruction whose
keyword is not on it is reported as unknown and not looked at any further.  The scan
asks the table of rules first, and the whitelist only about keywords without a rule.
So a keyword that has a rule and is not on the whitelist is unknown to the one pass
and checked by the other.

`whitelist_governs_iff` says that this is the only way in which the two disagree: the
whitelist governs both passes, over every text, if and only if every keyword with a
rule is on it.  What carries the proof is `scan_reaches`: whatever the scan does in
comments and broken lists, it reads the keyword of every instruction of the parser
unless it ended before, and what it found until then lies before the instruction.
-/

namespace DockerfileLint

variable {esc : Escape} {keywords : List String}

/-- The word of a visit in upper case. -/
def Visit.keyword (v : Visit) : String :=
  Unicode.upper v.word

/-! ## The words of a scan -/

/-- Every word of a scan was read somewhere in the text. -/
theorem mem_scanFrom {v : Visit} {off : Nat} {cs : List Char}
    (h : v ∈ (scanFrom esc keywords off cs).visits) :
    ∃ start c rest, Onward off cs start (c :: rest) ∧
      v = readVisit esc keywords start (c :: rest) := by
  induction off, cs using scanning_induction esc keywords with
  | nil off => simp at h
  | space off c cs hspace ih =>
      rw [scanFrom_of_isSpace hspace] at h
      obtain ⟨start, d, rest, honward, hread⟩ := ih h
      exact ⟨start, d, rest, honward.cons c, hread⟩
  | comment off cs ih =>
      rw [scanFrom_of_mark] at h
      obtain ⟨start, d, rest, honward, hread⟩ := ih h
      exact ⟨start, d, rest, (onward_afterFirstLine off _).trans honward, hread⟩
  | joint off c cs hspace hmark hword ih =>
      rw [scanFrom_of_joint hspace hmark hword] at h
      obtain ⟨start, d, rest, honward, hread⟩ := ih h
      exact ⟨start, d, rest, (onward_readWord esc off _).trans honward, hread⟩
  | unknown off c cs hspace hmark hword hform =>
      rw [scanFrom_of_unknown hspace hmark hword hform] at h
      exact ⟨off, c, cs, Onward.refl off _, List.mem_singleton.mp h⟩
  | word off c cs hspace hmark hword hform ih =>
      rw [scanFrom_of_word hspace hmark hword hform] at h
      rcases List.mem_cons.mp h with rfl | h
      · exact ⟨off, c, cs, Onward.refl off _, rfl⟩
      · obtain ⟨start, d, rest, honward, hread⟩ := ih h
        exact ⟨start, d, rest, (onward_visitBody esc keywords off _).trans honward, hread⟩

/-- A word is unknown to the scan if it has no rule and is not allowed. -/
theorem outcome_eq_unknown_iff {v : Visit} {off : Nat} {cs : List Char}
    (h : v ∈ (scanFrom esc keywords off cs).visits) :
    v.outcome = .unknown ↔ v.keyword ∉ ruledKeywords ∧ v.keyword ∉ keywords := by
  obtain ⟨start, c, rest, -, rfl⟩ := mem_scanFrom h
  exact readVisit_outcome.trans bodyForm?_eq_none

/-- A body is checked by what a whitelist says about the word before it. -/
theorem visitBody_congr {keywords' : List String} {off : Nat} {cs : List Char}
    (h : visitForm esc keywords off cs = visitForm esc keywords' off cs) :
    visitBody esc keywords off cs = visitBody esc keywords' off cs := by
  unfold visitBody
  rw [h]

/-- Two whitelists that give an instruction the same form give it the same visit. -/
theorem readVisit_congr {keywords' : List String} {off : Nat} {cs : List Char}
    (h : visitForm esc keywords off cs = visitForm esc keywords' off cs) :
    readVisit esc keywords off cs = readVisit esc keywords' off cs := by
  unfold readVisit
  rw [visitBody_congr h]

/-- Two whitelists that say the same about every word of a scan give the same scan. -/
theorem scanFrom_congr {keywords' : List String} {off : Nat} {cs : List Char}
    (h : ∀ v ∈ (scanFrom esc keywords off cs).visits,
      bodyForm? keywords v.keyword = bodyForm? keywords' v.keyword) :
    scanFrom esc keywords off cs = scanFrom esc keywords' off cs := by
  induction off, cs using scanning_induction esc keywords with
  | nil off => rw [scanFrom_nil, scanFrom_nil]
  | space off c cs hspace ih =>
      rw [scanFrom_of_isSpace hspace] at h
      rw [scanFrom_of_isSpace hspace, scanFrom_of_isSpace hspace, ih h]
  | comment off cs ih =>
      rw [scanFrom_of_mark] at h
      rw [scanFrom_of_mark, scanFrom_of_mark, ih h]
  | joint off c cs hspace hmark hword ih =>
      rw [scanFrom_of_joint hspace hmark hword] at h
      rw [scanFrom_of_joint hspace hmark hword, scanFrom_of_joint hspace hmark hword, ih h]
  | unknown off c cs hspace hmark hword hform =>
      rw [scanFrom_of_unknown hspace hmark hword hform] at h
      have hsame : visitForm esc keywords off (c :: cs) = visitForm esc keywords' off (c :: cs) :=
        h (readVisit esc keywords off (c :: cs)) List.mem_cons_self
      rw [scanFrom_of_unknown hspace hmark hword hform,
        scanFrom_of_unknown hspace hmark hword (hsame.symm.trans hform), readVisit_congr hsame]
  | word off c cs hspace hmark hword hform ih =>
      rw [scanFrom_of_word hspace hmark hword hform] at h
      have hsame : visitForm esc keywords off (c :: cs) = visitForm esc keywords' off (c :: cs) :=
        h (readVisit esc keywords off (c :: cs)) List.mem_cons_self
      rw [scanFrom_of_word hspace hmark hword hform,
        scanFrom_of_word hspace hmark hword (by rw [← hsame]; exact hform),
        ih fun v hv => h v (List.mem_cons_of_mem _ hv), readVisit_congr hsame,
        visitBody_congr hsame]

/-- An unknown word reports nothing. -/
theorem Visit.findings_of_unknown {v : Visit} (h : v.outcome = .unknown) : v.findings = [] := by
  unfold Visit.findings
  rw [h]

/-- The scan ends at an unknown word, where it stood behind it. -/
theorem scanFrom_ends {before after : List Visit} {v : Visit} {off : Nat} {cs : List Char}
    (h : (scanFrom esc keywords off cs).visits = before ++ v :: after)
    (hv : v.outcome = .unknown) :
    after = [] ∧ (scanFrom esc keywords off cs).stop = v.bodyStart := by
  induction off, cs using scanning_induction esc keywords generalizing before with
  | nil off => simp at h
  | space off c cs hspace ih =>
      rw [scanFrom_of_isSpace hspace] at h ⊢
      exact ih h
  | comment off cs ih =>
      rw [scanFrom_of_mark] at h ⊢
      exact ih h
  | joint off c cs hspace hmark hword ih =>
      rw [scanFrom_of_joint hspace hmark hword] at h ⊢
      exact ih h
  | unknown off c cs hspace hmark hword hform =>
      rw [scanFrom_of_unknown hspace hmark hword hform] at h ⊢
      cases before with
      | nil =>
          obtain ⟨rfl, rfl⟩ := List.cons.inj h
          exact ⟨rfl, rfl⟩
      | cons w before =>
          obtain ⟨-, hnil⟩ := List.cons.inj h
          simp at hnil
  | word off c cs hspace hmark hword hform ih =>
      rw [scanFrom_of_word hspace hmark hword hform] at h ⊢
      cases before with
      | nil =>
          obtain ⟨rfl, -⟩ := List.cons.inj h
          rw [readVisit_outcome.mp hv] at hform
          cases hform
      | cons w before =>
          obtain ⟨-, htail⟩ := List.cons.inj h
          exact ih htail

/-- What is found before a word stands no further on than the word does.  It can stand
at the word: the check of a list stops at a quote where a comma is due, reports the
quote, and leaves it to be read as a word. -/
theorem findings_start_le {before after : List Visit} {v : Visit} {off : Nat} {cs : List Char}
    (h : (scanFrom esc keywords off cs).visits = before ++ v :: after) :
    ∀ w ∈ before, ∀ f ∈ w.findings, f.span.start ≤ v.start := by
  induction off, cs using scanning_induction esc keywords generalizing before with
  | nil off => simp at h
  | space off c cs hspace ih =>
      rw [scanFrom_of_isSpace hspace] at h
      exact ih h
  | comment off cs ih =>
      rw [scanFrom_of_mark] at h
      exact ih h
  | joint off c cs hspace hmark hword ih =>
      rw [scanFrom_of_joint hspace hmark hword] at h
      exact ih h
  | unknown off c cs hspace hmark hword hform =>
      rw [scanFrom_of_unknown hspace hmark hword hform] at h
      cases before with
      | nil => simp
      | cons w before =>
          obtain ⟨-, hnil⟩ := List.cons.inj h
          simp at hnil
  | word off c cs hspace hmark hword hform ih =>
      rw [scanFrom_of_word hspace hmark hword hform] at h
      cases before with
      | nil => simp
      | cons w before =>
          obtain ⟨rfl, htail⟩ := List.cons.inj h
          have hv : v ∈ (scanFrom esc keywords (visitBody esc keywords off (c :: cs)).stop
              (visitBody esc keywords off (c :: cs)).rest).visits := by
            rw [htail]
            simp
          intro x hx f hf
          rcases List.mem_cons.mp hx with rfl | hx
          · obtain ⟨place, hspan, -, hstop, -⟩ := mem_readVisit_findings hf
            rw [hspan]
            exact Nat.le_trans hstop (scanFrom_within keywords _ _ v hv).le_start
          · exact ih htail x hx f hf

/-! ## The scan reaches every instruction -/

/-- The scan read the keyword of an instruction, or ended before it, and nothing that
it found until then reaches into the instruction. -/
def Scan.Reaches (s : Scan) (i : Instruction) : Prop :=
  ∃ before v after, s.visits = before ++ v :: after ∧
    (∀ w ∈ before, ∀ f ∈ w.findings, f.span.stop ≤ i.span.start) ∧
    ((v.start = i.span.start ∧ v.word = i.written) ∨
      (v.outcome = .unknown ∧ v.start < i.span.start))

/-- The scan reaches every instruction of the parser. -/
theorem scan_reaches (keywords : List String) (hesc : esc.Visible) (off : Nat) (cs : List Char) :
    ∀ i ∈ instructionsFrom esc off cs, (scanFrom esc keywords off cs).Reaches i := by
  intro i hi
  obtain ⟨front, c, rest, rfl, h⟩ := approached_of_mem_instructionsFrom keywords hesc off cs i hi
  obtain rfl := h.reads
  have hfront : ∀ v ∈ (scanFrom esc keywords off front).visits,
      v.Within off (off + front.length) := scanFrom_within keywords off front
  rw [h.passed.scanned]
  unfold Scan.andThen
  cases hended : (scanFrom esc keywords off front).ended with
  | true =>
      obtain ⟨v, hv, hunknown⟩ := List.any_eq_true.mp hended
      obtain ⟨before, after, hvisits⟩ := List.append_of_mem hv
      refine ⟨before, v, after, hvisits, fun w hw f hf => ?_,
        .inr ⟨by simpa using hunknown, (hfront v hv).start_lt⟩⟩
      have hw : w ∈ (scanFrom esc keywords off front).visits := by
        rw [hvisits]
        exact List.mem_append_left _ hw
      exact ((hfront w hw).findings f hf).stop_le
  | false =>
      obtain ⟨after, hvisits⟩ : ∃ after,
          (scanFrom esc keywords (off + front.length) (c :: rest)).visits =
            readVisit esc keywords (off + front.length) (c :: rest) :: after := by
        cases hform : visitForm esc keywords (off + front.length) (c :: rest) with
        | none => exact ⟨[], by rw [scanFrom_of_unknown h.space h.mark h.word hform]⟩
        | some form =>
            have hknown : (visitForm esc keywords (off + front.length) (c :: rest)).isSome =
                true := by
              simp [hform]
            rw [scanFrom_of_word h.space h.mark h.word hknown]
            exact ⟨_, rfl⟩
      refine ⟨(scanFrom esc keywords off front).visits, readVisit esc keywords _ (c :: rest), after,
        by simp [hvisits], fun w hw f hf => ?_, .inl ⟨rfl, rfl⟩⟩
      exact ((hfront w hw).findings f hf).stop_le

/-- The scan of a document reaches every instruction of it. -/
theorem scan_reaches_instructions (keywords : List String) (text : List Char) :
    let file := Dockerfile.parse text
    ∀ i ∈ file.instructions, (scan (some file.escape) keywords file.bodyOffset text).Reaches i :=
  scan_reaches keywords (visible_escape text) _ _

/-! ## Unknown instructions -/

/-- An instruction is reported as unknown exactly if its keyword is not allowed. -/
theorem unknownInstruction_iff (ctx : CheckContext) (i : Instruction) :
    (∃ f ∈ checkInstruction ctx i, f.problem.code = .unknownInstruction) ↔
      i.keyword ∉ ctx.keywords := by
  constructor
  · rintro ⟨f, hf, hcode⟩
    cases mem_checkInstruction hf with
    | unknown hkeyword => exact hkeyword
    | lowercase | deprecated | missing => cases hcode
    | argument hmem hfault => cases hfault <;> cases hcode
  · intro hunknown
    refine ⟨⟨.unknownInstruction i.keyword, i.nameSpan⟩, ?_, rfl⟩
    unfold checkInstruction
    rw [if_pos hunknown]
    exact List.mem_singleton.mpr rfl

/-! ## The whitelist and the rules -/

/-- The whitelist governs both passes over a text.  The scan ends at the first word
outside it: it reports nothing from this word on, and what it reported before stands no
further on than where the word starts.  Of an instruction that is reported as unknown it
checks nothing, and reports nothing there.

What was reported before can start where the word does, so `ends` has a weak inequality: the
quote at which a list breaks off for want of a comma is reported, and then read again as the
start of a word.  This happens under the standard whitelist too, and has nothing to do with
what the whitelist holds. -/
structure WhitelistGoverns (settings : LintSettings) (keywords : List String)
    (text : List Char) : Prop where
  ends : ∀ before v after,
    let file := Dockerfile.parse text
    let found := scan (some file.escape) keywords file.bodyOffset text
    found.visits = before ++ v :: after → v.keyword ∉ keywords →
      after = [] ∧ found.stop = v.bodyStart ∧ found.findings = before.flatMap Visit.findings ∧
        ∀ f ∈ found.findings, f.span.start ≤ v.start
  unchecked : ∀ i,
    let file := Dockerfile.parse text
    let found := scan (some file.escape) keywords file.bodyOffset text
    i ∈ file.instructions →
      (∃ f ∈ checkInstruction (contextOf settings keywords text file) i,
        f.problem.code = .unknownInstruction) →
      (∀ v ∈ found.visits, v.start = i.span.start → v.outcome = .unknown) ∧
        ∀ f ∈ found.findings, f.span.stop ≤ i.span.start

/-- The scan reports what it found before an unknown word, and ends there. -/
theorem scanFrom_findings_before {before after : List Visit} {v : Visit} {off : Nat}
    {cs : List Char} (h : (scanFrom esc keywords off cs).visits = before ++ v :: after)
    (hv : v.outcome = .unknown) :
    (scanFrom esc keywords off cs).findings = before.flatMap Visit.findings := by
  obtain ⟨rfl, -⟩ := scanFrom_ends h hv
  unfold Scan.findings
  rw [h, List.flatMap_append, List.flatMap_singleton, Visit.findings_of_unknown hv,
    List.append_nil]

/-- The scan and the parser read the same word at the same place. -/
theorem keyword_eq_of_start_eq {v : Visit} {i : Instruction} {off : Nat} {cs : List Char}
    (hv : v ∈ (scanFrom esc keywords off cs).visits) (hi : i ∈ instructionsFrom esc off cs)
    (hstart : v.start = i.span.start) : v.keyword = i.keyword := by
  obtain ⟨start, c, rest, honward, rfl⟩ := mem_scanFrom hv
  obtain ⟨start', d, rest', honward', -, -, -, rfl⟩ := mem_instructionsFrom hi
  obtain rfl : start = start' := hstart
  have hsame : c :: rest = d :: rest' := honward.eq_drop.trans honward'.eq_drop.symm
  rw [hsame]
  rfl

/-- With every ruled keyword on the whitelist, a word outside it is unknown. -/
theorem whitelist_governs (settings : LintSettings)
    (hrules : ∀ keyword ∈ ruledKeywords, keyword ∈ keywords) (text : List Char) :
    WhitelistGoverns settings keywords text := by
  have hunruled : ∀ keyword, keyword ∉ keywords → keyword ∉ ruledKeywords :=
    fun keyword hnot hruled => hnot (hrules keyword hruled)
  constructor
  · intro before v after file found hvisits hv
    have hmem : v ∈ found.visits := by
      rw [hvisits]
      simp
    have hunknown := (outcome_eq_unknown_iff hmem).mpr ⟨hunruled _ hv, hv⟩
    obtain ⟨hafter, hstop⟩ := scanFrom_ends hvisits hunknown
    have hfindings : found.findings = before.flatMap Visit.findings :=
      scanFrom_findings_before hvisits hunknown
    refine ⟨hafter, hstop, hfindings, ?_⟩
    intro f hf
    rw [hfindings] at hf
    obtain ⟨w, hw, hf⟩ := List.mem_flatMap.mp hf
    exact findings_start_le hvisits w hw f hf
  · intro i file found hi hreported
    have hkeyword : i.keyword ∉ keywords := (unknownInstruction_iff _ i).mp hreported
    have hword : ∀ v ∈ found.visits, v.keyword = i.keyword → v.outcome = .unknown := by
      intro v hv heq
      apply (outcome_eq_unknown_iff hv).mpr
      rw [heq]
      exact ⟨hunruled _ hkeyword, hkeyword⟩
    refine ⟨fun v hv hstart => hword v hv (keyword_eq_of_start_eq hv hi hstart), ?_⟩
    obtain ⟨before, v, after, hvisits, hbefore, hv⟩ : found.Reaches i :=
      scan_reaches_instructions keywords text i hi
    have hunknown : v.outcome = .unknown := by
      rcases hv with ⟨-, hwritten⟩ | ⟨hunknown, -⟩
      · refine hword v ?_ (congrArg Unicode.upper hwritten)
        rw [hvisits]
        simp
      · exact hunknown
    intro f hf
    rw [show found.findings = _ from scanFrom_findings_before hvisits hunknown] at hf
    obtain ⟨w, hw, hf⟩ := List.mem_flatMap.mp hf
    exact hbefore w hw f hf

/-- A keyword twice, on two lines. -/
def twice (keyword : String) : List Char :=
  keyword.toList ++ '\n' :: keyword.toList

/-- A keyword with a rule does not end the scan, whatever the whitelist. -/
theorem visits_twice (keywords : List String) :
    ∀ keyword ∈ ruledKeywords,
      let file := Dockerfile.parse (twice keyword)
      (scan (some file.escape) keywords file.bodyOffset (twice keyword)).visits.map Visit.keyword =
        [keyword, keyword] := by
  -- with nothing allowed it is a finite check, and the whitelist is not asked about rules
  have hnone : ∀ keyword ∈ ruledKeywords,
      let file := Dockerfile.parse (twice keyword)
      (scan (some file.escape) [] file.bodyOffset (twice keyword)).visits.map Visit.keyword =
        [keyword, keyword] := by
    decide +kernel
  intro keyword hruled file
  have hwords := hnone keyword hruled
  rw [← hwords]
  refine congrArg (fun found : Scan => found.visits.map Visit.keyword) (scanFrom_congr ?_).symm
  intro v hv
  have hword : v.keyword ∈ [keyword, keyword] := hwords ▸ List.mem_map_of_mem hv
  obtain rfl : v.keyword = keyword := by simpa using hword
  exact bodyForm?_of_ruled hruled _ _

/-- **Which whitelists govern both passes.**  The scan ends at the first word outside
the whitelist, and leaves alone what is reported as an unknown instruction, over every
text and under all settings, if and only if every keyword with a rule of its own is on
the whitelist. -/
theorem whitelist_governs_iff (keywords : List String) :
    (∀ settings text, WhitelistGoverns settings keywords text) ↔
      ∀ keyword ∈ ruledKeywords, keyword ∈ keywords := by
  constructor
  · intro hgoverns keyword hruled
    by_cases hmem : keyword ∈ keywords
    · exact hmem
    · exfalso
      have htwice := visits_twice keywords keyword hruled
      obtain ⟨first, others, hvisits, hfirst, hothers⟩ := List.map_eq_cons_iff.mp htwice
      have hnil := (hgoverns {} (twice keyword)).ends [] first others hvisits (hfirst ▸ hmem)
      rw [hnil.1] at hothers
      cases hothers
  · intro hrules settings text
    exact whitelist_governs settings hrules text

/-- The standard whitelist governs both passes. -/
example (settings : LintSettings) (text : List Char) :
    WhitelistGoverns settings standardKeywords text :=
  whitelist_governs settings (by decide) text

/-- A volume that is not allowed, with a comma missing in its list. -/
def forbiddenVolume : List Char := "FROM x\nVOLUME [\"a\" \"b\"]\n".toList

/-- With only `FROM` allowed the volume is unknown, and its list is checked all the
same. -/
theorem forbiddenVolume_is_checked : ¬ WhitelistGoverns {} ["FROM"] forbiddenVolume := by
  intro hgoverns
  have hmem : readInstruction (some '\\') 7 (forbiddenVolume.drop 7) ∈
      (Dockerfile.parse forbiddenVolume).instructions := by
    decide +kernel
  have hkeyword : (readInstruction (some '\\') 7 (forbiddenVolume.drop 7)).keyword = "VOLUME" := by
    decide +kernel
  have hfound : (scan (some (Dockerfile.parse forbiddenVolume).escape) ["FROM"]
      (Dockerfile.parse forbiddenVolume).bodyOffset forbiddenVolume).findings =
        [⟨.unexpectedToken, ⟨19, 20⟩⟩] := by
    decide +kernel
  have hreported := (unknownInstruction_iff
    (contextOf {} ["FROM"] forbiddenVolume (Dockerfile.parse forbiddenVolume)) _).mpr
    (show (readInstruction (some '\\') 7 (forbiddenVolume.drop 7)).keyword ∉ ["FROM"] by
      rw [hkeyword]
      decide)
  have hbefore := (hgoverns.unchecked _ hmem hreported).2 ⟨.unexpectedToken, ⟨19, 20⟩⟩
  rw [hfound] at hbefore
  have hle : 20 ≤ 7 := hbefore List.mem_cons_self
  omega

end DockerfileLint
