import DockerfileLint.Proofs.Partition

/-!
# Whether there are arguments

Two movements go through the text behind a keyword.  One looks for the first character
that is no white space, and a continuation that comes up to the end of the document ends
its search as well.  The other goes past a gap, and what stands behind it is the first
argument.  Both go past the same white space and the same continuations, so they can only
differ in a region that ends with the document.

* `argumentsPresent_of_argumentsFrom`: where there is an argument, it is found;
* `argumentsPresent_of_continuation`: so is a continuation that ends the document;
* `continuation_of_argumentsPresent`: nothing else is found;
* `presence_agrees` says so of the instructions of a document, under any escape character.

White space as the escape character needs an argument of its own, because a continuation
could start in the line break of another one.  There are no line breaks then: a logical
line without any visible character has none.
-/

namespace DockerfileLint

variable {esc : Escape} {text cs tail : List Char} {off start n finish : Nat}

/-- The continuation that ends the text lies under a span of it. -/
def EndsInContinuation (esc : Escape) (text : List Char) (s : Span Nat) : Prop :=
  ∃ start n rest, continuation? esc (text.drop start) = some (n, rest) ∧
    s.start ≤ start ∧ start + n ≤ s.stop ∧ start + n = text.length

/-! ## The two movements -/

/-- Where no arguments are found, the gap goes on to the end. -/
theorem readGap_of_absent (h : argumentsPresent esc finish off cs = false) :
    (readGap esc off cs).rest = [] := by
  unfold readGap
  induction off, cs using splicing_induction esc with
  | splice off cs n rest hcont ih =>
      rw [argumentsPresent_of_continuation? hcont] at h
      rw [readWhile_of_continuation? hcont]
      split at h
      · cases h
      · exact ih h
  | nil off => simp
  | char off c cs hcont ih =>
      rw [argumentsPresent_cons hcont] at h
      cases hspace : isSpace c with
      | true =>
          rw [readWhile_cons_of_keep hcont hspace]
          rw [hspace] at h
          exact ih h
      | false => simp [hspace] at h

/-- Where there are no arguments, the gap goes on to the end. -/
theorem readGap_of_argumentsFrom (h : argumentsFrom esc off cs = []) :
    (readGap esc off cs).rest = [] := by
  cases hrest : (readGap esc off cs).rest with
  | nil => rfl
  | cons c rest =>
      rw [argumentsFrom_of_cons hrest] at h
      cases h

/-- Where there is an argument, arguments are found. -/
theorem argumentsPresent_of_argumentsFrom (h : argumentsFrom esc off cs ≠ []) :
    argumentsPresent esc finish off cs = true := by
  cases hpresent : argumentsPresent esc finish off cs with
  | true => rfl
  | false => exact absurd (argumentsFrom_of_nil (readGap_of_absent hpresent)) h

/-- A gap that goes on to the end passes for arguments only if one of its continuations
comes up to the end of the document. -/
theorem continuation_of_argumentsPresent (hgap : (readGap esc off cs).rest = [])
    (h : argumentsPresent esc finish off cs = true) :
    ∃ start here n rest, Onward off cs start here ∧ continuation? esc here = some (n, rest) ∧
      finish ≤ start + n := by
  unfold readGap at hgap
  induction off, cs using splicing_induction esc with
  | splice off cs n rest hcont ih =>
      rw [argumentsPresent_of_continuation? hcont] at h
      rw [readWhile_of_continuation? hcont] at hgap
      by_cases hend : finish ≤ off + n
      · exact ⟨off, cs, n, rest, Onward.refl off cs, hcont, hend⟩
      · rw [if_neg hend] at h
        obtain ⟨start, here, m, tail, honward, hfound⟩ := ih hgap h
        exact ⟨start, here, m, tail, (onward_of_continuation? off hcont).trans honward, hfound⟩
  | nil off => simp [argumentsPresent_nil] at h
  | char off c cs hcont ih =>
      cases hspace : isSpace c with
      | true =>
          rw [argumentsPresent_cons hcont, if_pos hspace] at h
          rw [readWhile_cons_of_keep hcont hspace] at hgap
          obtain ⟨start, here, m, tail, honward, hfound⟩ := ih hgap h
          exact ⟨start, here, m, tail, honward.cons c, hfound⟩
      | false =>
          rw [readWhile_cons_of_not_keep hcont hspace] at hgap
          cases hgap

/-- In a text that ends before the document does, arguments are found where there are
some. -/
theorem argumentsPresent_iff_of_lt (h : off + cs.length < finish) :
    argumentsPresent esc finish off cs = true ↔ argumentsFrom esc off cs ≠ [] := by
  refine ⟨fun hpresent harguments => ?_, argumentsPresent_of_argumentsFrom⟩
  obtain ⟨start, here, n, rest, honward, hcont, hfinish⟩ :=
    continuation_of_argumentsPresent (readGap_of_argumentsFrom harguments) hpresent
  have hlength := honward.add_length
  have hcount := length_of_continuation? hcont
  omega

/-- A continuation that comes up to the end of the document is found, if nothing is found
before it. -/
theorem argumentsPresent_of_continuation (hesc : esc.Visible) (hcs : cs = text.drop off)
    (hcont : continuation? esc (text.drop start) = some (n, tail)) (hstart : off ≤ start)
    (hfinish : finish ≤ start + n) : argumentsPresent esc finish off cs = true := by
  induction off, cs using splicing_induction esc with
  | splice off cs m rest h ih =>
      rw [argumentsPresent_of_continuation? h]
      by_cases hend : finish ≤ off + m
      · rw [if_pos hend]
      · rw [if_neg hend]
        have hrest := (onward_of_continuation? off h).eq_drop_text hcs
        by_cases hhead : start = off
        · subst hhead
          rw [← hcs, h] at hcont
          cases hcont
          exact absurd hfinish hend
        · by_cases hinside : start < off + m
          · -- Inside a continuation there are only breaks, and none of them starts another.
            have hbreak : BreakAt text start :=
              breakAt_of_continuation? (hcs ▸ h) (by omega) hinside
            rw [hbreak.continuation?_eq_none hesc] at hcont
            cases hcont
          · exact ih hrest (Nat.le_of_not_lt hinside)
  | nil off =>
      have hlength := congrArg List.length hcs
      have hcount := length_of_continuation? hcont
      have htwo := continuation?_two_le hcont
      simp only [List.length_nil, List.length_drop] at hlength hcount
      omega
  | char off c cs h ih =>
      rw [argumentsPresent_cons h]
      split
      · by_cases hhead : start = off
        · subst hhead
          rw [← hcs, h] at hcont
          cases hcont
        · exact ih (eq_drop_succ hcs) (by omega)
      · rfl

/-- With white space for the escape character, nothing is found in white space only. -/
theorem isSpace_of_absent (hesc : ¬ esc.Visible)
    (h : argumentsPresent esc finish off cs = false) : ∀ c ∈ cs, isSpace c = true := by
  induction off, cs using splicing_induction esc with
  | splice off cs n rest hcont ih =>
      rw [argumentsPresent_of_continuation? hcont] at h
      obtain ⟨e, tail, m, rfl, rfl, hbreak, -⟩ := continuation?_eq_some.mp hcont
      obtain ⟨breaks, rfl, -, hbreaks⟩ := lineBreak?_eq_append hbreak
      have he : isSpace e = true := by
        cases hspace : isSpace e with
        | true => rfl
        | false => exact absurd (Escape.visible_some hspace) hesc
      split at h
      · cases h
      · intro c hc
        rcases List.mem_cons.mp hc with rfl | hc
        · exact he
        · rcases List.mem_append.mp hc with hc | hc
          · exact isSpace_of_isBreak (hbreaks c hc)
          · exact ih h c hc
  | nil off => simp
  | char off c cs hcont ih =>
      rw [argumentsPresent_cons hcont] at h
      cases hspace : isSpace c with
      | false => simp [hspace] at h
      | true =>
          rw [if_pos hspace] at h
          intro d hd
          rcases List.mem_cons.mp hd with rfl | hd
          · exact hspace
          · exact ih h d hd

/-- A logical line without any visible character has no line breaks. -/
theorem isBreak_eq_false_of_readLine (hesc : esc.Visible)
    (hspaces : ∀ c ∈ cs, isSpace c = true) (h : (readLine esc off cs).rest = []) :
    ∀ c ∈ cs, isBreak c = false := by
  unfold readLine at h
  induction cs generalizing off with
  | nil => simp
  | cons c cs ih =>
      have hnone := hesc.continuation?_eq_none cs (hspaces c List.mem_cons_self)
      cases hbreak : isBreak c with
      | true =>
          rw [readWhile_cons_of_not_keep hnone (by simp [hbreak])] at h
          cases h
      | false =>
          rw [readWhile_cons_of_keep hnone (by simp [hbreak])] at h
          intro d hd
          rcases List.mem_cons.mp hd with rfl | hd
          · exact hbreak
          · exact ih (fun d hd => hspaces d (List.mem_cons_of_mem c hd)) h d hd

/-! ## Instructions of a document -/

/-- The text of the arguments of an instruction, in its document. -/
theorem argumentsText_of_mem {i : Instruction} (hi : i ∈ (Dockerfile.parse text).instructions) :
    i.argumentsText = (text.take i.span.stop).drop i.nameSpan.stop := by
  obtain ⟨off, c, rest, honward, -, -, hword, rfl⟩ := mem_parse_instructions hi
  exact argumentsText_eq_drop (honward.eq_drop_text rfl) hword

/-- Where nothing is found behind a keyword, no continuation there ends the document. -/
theorem not_endsInContinuation_of_absent {i : Instruction}
    (hi : i ∈ (Dockerfile.parse text).instructions)
    (h : i.hasArguments esc text.length = false) :
    ¬ EndsInContinuation esc text i.argumentsSpan := by
  rintro ⟨start, n, rest, hcont, hstart, hstop, hend⟩
  have hwhole : text.take i.span.stop = text := List.take_of_length_le (hend ▸ hstop)
  have hregion := argumentsText_of_mem hi
  rw [hwhole] at hregion
  unfold Instruction.hasArguments at h
  by_cases hesc : esc.Visible
  · rw [argumentsPresent_of_continuation hesc hregion hcont hstart (Nat.le_of_eq hend.symm)] at h
    cases h
  · -- The break of the continuation would stand in the region, which has none.
    have hnone : ∀ c ∈ i.argumentsText, isBreak c = false := by
      have hspaces := isSpace_of_absent hesc h
      obtain ⟨off, c, tail, -, -, -, -, rfl⟩ := mem_parse_instructions hi
      exact isBreak_eq_false_of_readLine (visible_escape text) hspaces
        (readLine_argumentsText _ off (c :: tail))
    have htwo := continuation?_two_le hcont
    obtain ⟨b, hb, hbreak⟩ : BreakAt text (start + 1) :=
      breakAt_of_continuation? hcont (Nat.lt_succ_self start) (by omega)
    obtain ⟨k, hk⟩ : ∃ k, start + 1 = i.nameSpan.stop + k :=
      ⟨start + 1 - i.nameSpan.stop, by simp only [Instruction.argumentsSpan] at hstart; omega⟩
    rw [hk, ← List.getElem?_drop, ← hregion] at hb
    rw [hnone b (List.mem_of_getElem? hb)] at hbreak
    cases hbreak

/-- Where arguments are found behind a keyword, there is one, or the document ends with a
continuation there. -/
theorem argument_or_endsInContinuation {i : Instruction}
    (hi : i ∈ (Dockerfile.parse text).instructions)
    (h : i.hasArguments esc text.length = true) (harguments : i.arguments esc = []) :
    EndsInContinuation esc text i.argumentsSpan := by
  have hbounds := instruction_within hi
  have hregion := argumentsText_of_mem hi
  obtain ⟨start, here, n, tail, honward, hcont, hfinish⟩ :=
    continuation_of_argumentsPresent (readGap_of_argumentsFrom harguments) h
  rw [honward.eq_drop_text hregion] at hcont
  have hlength := length_of_continuation? hcont
  have htwo := continuation?_two_le hcont
  rw [List.length_drop, List.length_take] at hlength
  have hstop : start + n ≤ i.span.stop := by
    omega
  rw [List.take_of_length_le (by omega)] at hcont
  exact ⟨start, n, tail, hcont, honward.le, hstop, by omega⟩

/-- What is decided of the arguments of an instruction, and what is said of it: whether
there are any, judged by the arguments themselves, and the complaint that there are none,
at the keyword. -/
structure PresenceAgrees (ctx : CheckContext) (text : List Char) (i : Instruction) : Prop where
  absent_iff : i.hasArguments ctx.escape ctx.finish = false ↔
    i.arguments ctx.escape = [] ∧ ¬ EndsInContinuation ctx.escape text i.argumentsSpan
  absent : i.hasArguments ctx.escape ctx.finish = false →
    checkBody ctx i = [⟨.missingArgument, i.nameSpan⟩]
  present : i.hasArguments ctx.escape ctx.finish = true →
    ∀ f ∈ checkBody ctx i, f.problem ≠ .missingArgument

/-- **Arguments are missing where there are none.**  Under any escape character the check
agrees with the arguments themselves, but for a continuation that ends the document. -/
theorem presence_agrees {ctx : CheckContext} {i : Instruction}
    (hi : i ∈ (Dockerfile.parse text).instructions) (hfinish : ctx.finish = text.length) :
    PresenceAgrees ctx text i where
  absent_iff := by
    rw [hfinish]
    constructor
    · intro h
      exact ⟨argumentsFrom_of_nil (readGap_of_absent h), not_endsInContinuation_of_absent hi h⟩
    · rintro ⟨harguments, hends⟩
      cases h : i.hasArguments ctx.escape text.length with
      | false => rfl
      | true => exact absurd (argument_or_endsInContinuation hi h harguments) hends
  absent h := by
    unfold checkBody
    rw [h]
    rfl
  present h f hf hproblem := by
    unfold checkBody at hf
    rw [if_pos h] at hf
    split at hf
    · rename_i rule hrule
      obtain ⟨a, -, -, hfault⟩ := mem_checkArguments hf
      rw [hproblem] at hfault
      rcases hfault with hextra | hcomplaint
      · cases hextra
      · cases argumentFault_of_complaint hrule hcomplaint
    · cases hf

/-- A document cut off behind a continuation. -/
def cutOff : List Char := "FROM x\nUSER \\\n".toList

/-- Nothing follows the keyword in `cutOff`, and yet no argument is missing under its own
escape character: the continuation ends the document.  Under the other one the escape
character is an argument. -/
theorem presence_agrees_cutOff :
    let i := readInstruction (some '\\') 7 (cutOff.drop 7)
    let ctx := contextOf {} standardKeywords cutOff (Dockerfile.parse cutOff)
    i ∈ (Dockerfile.parse cutOff).instructions ∧ ctx.finish = cutOff.length ∧
      i.hasArguments ctx.escape ctx.finish = true ∧ i.arguments ctx.escape = [] ∧
      EndsInContinuation ctx.escape cutOff i.argumentsSpan ∧
      PresenceAgrees { ctx with escape := some '`' } cutOff i ∧
      (i.arguments (some '`')).map (·.value) = ["\\"] := by
  intro i ctx
  have hi : i ∈ (Dockerfile.parse cutOff).instructions := by
    decide +kernel
  have hpresent : i.hasArguments ctx.escape ctx.finish = true := by
    decide +kernel
  have harguments : i.arguments ctx.escape = [] := by
    decide +kernel
  have hends : EndsInContinuation ctx.escape cutOff i.argumentsSpan := by
    apply Classical.byContradiction
    intro hnot
    have hagrees : PresenceAgrees ctx cutOff i := presence_agrees hi rfl
    have habsent := hagrees.absent_iff.mpr ⟨harguments, hnot⟩
    rw [hpresent] at habsent
    cases habsent
  exact ⟨hi, rfl, hpresent, harguments, hends, presence_agrees hi rfl, by decide +kernel⟩

/-- A continuation before an empty line is no argument. -/
example : (validate {} standardKeywords (Document.ofText "FROM x\nUSER \\\n\nRUN y".toList)).map
    (·.code) = [.missingArgument] := by
  decide +kernel

end DockerfileLint
