import DockerfileLint.Proofs.Quotes
import DockerfileLint.Proofs.ReportLines

/-!
# The places of arguments

The span of an argument is exactly its place.  It starts with the first character of the
argument and ends with the last one, so no continuation stands at either end of it; what
continuations stand in between are left out of the value, and nothing else is.  Arguments
do not touch, and around them there is only what separates them: white space and
continuations.

All of this holds under any escape character, not only that of the document.  Under
another one the continuations of the document are line breaks like others, and separate
the arguments with an escape character at the end of the first.

* `readToken_behind`: what a token goes past behind its last character;
* `argumentsFrom_outside`: every character is in an argument or separates arguments;
* `arguments_faithful`: the arguments of a parsed instruction, under any escape character.
-/

namespace DockerfileLint

variable {esc : Escape} {text cs : List Char} {off place : Nat} {c : Char}

/-! ## Tokens -/

/-- A token that starts here starts with the character that stands here. -/
theorem readToken_head (h : continuation? esc (c :: cs) = none) (hspace : isSpace c = false) :
    (readToken esc off (c :: cs)).taken.head? = some (c, off) := by
  by_cases hesc : esc = some c
  · subst hesc
    cases cs with
    | nil => simp [readToken_last hspace]
    | cons d cs => simp [readToken_pair h hspace]
  · simp [readToken_cons h hspace hesc]

/-- A token ends right behind its last character. -/
theorem readToken_getLast? (hcs : cs = text.drop off) (hne : (readToken esc off cs).taken ≠ []) :
    ∃ x, (readToken esc off cs).taken.getLast? = some (x, (readToken esc off cs).reach off - 1) ∧
      text[(readToken esc off cs).reach off - 1]? = some x := by
  have hlast := List.getLast?_eq_some_getLast hne
  obtain ⟨-, tail, honward⟩ := readToken_taken_onward esc off cs _ (List.getLast_mem hne)
  have hreach : (readToken esc off cs).reach off - 1 =
      ((readToken esc off cs).taken.getLast hne).2 := by
    simp only [Reading.reach, hlast, Nat.add_sub_cancel]
  rw [hreach]
  exact ⟨_, hlast, getElem?_of_eq_drop (honward.eq_drop_text hcs)⟩

/-- Behind the last character of a token there are continuations only. -/
theorem readToken_behind (esc : Escape) (off : Nat) (cs : List Char) (hcs : cs = text.drop off) :
    ∀ place, (readToken esc off cs).reach off ≤ place → place < (readToken esc off cs).stop →
      InContinuation esc text off (readToken esc off cs).stop place := by
  induction off, cs using token_induction esc with
  | splice off cs n rest h ih =>
      have hrest := (onward_of_continuation? off h).eq_drop_text hcs
      have hle := (onward_readToken esc (off + n) rest).le
      rw [readToken_of_continuation? h]
      by_cases htaken : (readToken esc (off + n) rest).taken = []
      · rw [reach_of_taken_eq_nil htaken] at ih ⊢
        intro place hplace hlt
        by_cases hjoint : place < off + n
        · exact ⟨off, n, rest, hcs ▸ h, Nat.le_refl off, hplace, hjoint, hle⟩
        · exact (ih hrest place (Nat.le_of_not_lt hjoint) hlt).mono (Nat.le_add_right off n)
            (Nat.le_refl _)
      · rw [reach_of_taken_ne_nil htaken off (off + n)]
        exact fun place hplace hlt =>
          (ih hrest place hplace hlt).mono (Nat.le_add_right off n) (Nat.le_refl _)
  | nil off =>
      rw [readToken_nil]
      intro place hplace hlt
      exact absurd hlt (Nat.not_lt.mpr hplace)
  | space off c cs h hspace =>
      rw [readToken_of_isSpace h hspace]
      intro place hplace hlt
      exact absurd hlt (Nat.not_lt.mpr hplace)
  | last off e hesc hspace =>
      subst hesc
      rw [readToken_last hspace]
      intro place hplace hlt
      exact absurd hlt (Nat.not_lt.mpr hplace)
  | pair off e d cs hesc hspace h ih =>
      subst hesc
      have hrest := eq_drop_succ (eq_drop_succ hcs)
      rw [readToken_reach_pair hspace h, readToken_pair h hspace]
      intro place hplace hlt
      exact (ih hrest place hplace hlt).mono (Nat.le_add_right off 2) (Nat.le_refl _)
  | char off c cs h hspace hne ih =>
      have hreach : (readToken esc off (c :: cs)).reach off =
          (readToken esc (off + 1) cs).reach (off + 1) := by
        rw [readToken_cons h hspace hne]
        exact reach_cons rfl off
      rw [hreach, readToken_cons h hspace hne]
      intro place hplace hlt
      exact (ih (eq_drop_succ hcs) place hplace hlt).mono (Nat.le_succ off) (Nat.le_refl _)

/-! ## The characters at the ends of a span -/

/-- The text under a span starts with the character at its start. -/
theorem textUnder_head? {s : Span Nat} (h : s.start < s.stop) :
    (textUnder text s).head? = text[s.start]? := by
  have hne : s.stop - s.start ≠ 0 := by
    omega
  unfold textUnder
  rw [List.head?_take, if_neg hne, List.head?_drop]

/-- It ends with the character before its stop. -/
theorem textUnder_getLast? {s : Span Nat} (h : s.start < s.stop) {c : Char}
    (hc : text[s.stop - 1]? = some c) : (textUnder text s).getLast? = some c := by
  have hne : s.stop - s.start ≠ 0 := by
    omega
  have hplace : s.start + (s.stop - s.start - 1) = s.stop - 1 := by
    omega
  unfold textUnder
  rw [List.getLast?_take, if_neg hne, List.getElem?_drop, hplace, hc]
  rfl

/-- The text under an argument starts and ends as the argument does. -/
theorem argumentsFrom_ends (esc : Escape) (off : Nat) (cs : List Char) (hcs : cs = text.drop off) :
    ∀ a ∈ argumentsFrom esc off cs,
      (textUnder text a.span).head? = a.value.toList.head? ∧
        (textUnder text a.span).getLast? = a.value.toList.getLast? := by
  induction off, cs using arguments_induction esc with
  | nil off cs hgap => simp [argumentsFrom_of_nil hgap]
  | cons off cs c rest hgap ih =>
      have hfront := onward_readGap esc off cs
      rw [hgap] at hfront
      have hstart := hfront.eq_drop_text hcs
      obtain ⟨hcont, hspace⟩ := readWhile_rest_head hgap
      have hne : (readToken esc (readGap esc off cs).stop (c :: rest)).taken ≠ [] :=
        readToken_taken_ne_nil hcont hspace
      have hlt := (reach_within hne (readToken_taken_within esc (readGap esc off cs).stop
        (c :: rest)) (readGap esc off cs).stop).1
      rw [argumentsFrom_of_cons hgap]
      intro a ha
      rcases List.mem_cons.mp ha with rfl | ha
      · obtain ⟨x, hlast, hplace⟩ := readToken_getLast? hstart hne
        constructor
        · rw [textUnder_head? hlt, getElem?_of_eq_drop hstart]
          simp [Reading.text, readToken_head hcont hspace]
        · rw [textUnder_getLast? hlt hplace]
          simp [Reading.text, hlast]
      · exact ih ((onward_readToken esc _ _).eq_drop_text hstart) a ha

/-! ## What lies between arguments -/

/-- An argument comes behind the gap in front of all arguments. -/
theorem readGap_stop_le (esc : Escape) (off : Nat) (cs : List Char) :
    ∀ a ∈ argumentsFrom esc off cs, (readGap esc off cs).stop ≤ a.span.start := by
  cases hgap : (readGap esc off cs).rest with
  | nil => simp [argumentsFrom_of_nil hgap]
  | cons c rest =>
      have hle := (onward_readToken esc (readGap esc off cs).stop (c :: rest)).le
      rw [argumentsFrom_of_cons hgap]
      intro a ha
      rcases List.mem_cons.mp ha with rfl | ha
      · exact Nat.le_refl _
      · exact Nat.le_trans hle (argumentsFrom_within esc _ _ a ha).1

/-- Behind a token an argument comes after some white space. -/
theorem lt_start_behind_token {a : Argument}
    (ha : a ∈ argumentsFrom esc (readToken esc off cs).stop (readToken esc off cs).rest) :
    (readToken esc off cs).stop < a.span.start := by
  have hle := readGap_stop_le esc _ _ a ha
  cases hrest : (readToken esc off cs).rest with
  | nil =>
      rw [hrest] at ha
      simp [argumentsFrom_of_nil, readGap] at ha
  | cons s more =>
      have hspace := (readToken_rest_head hrest).2
      have hgap := (onward_readGap esc (readToken esc off cs).stop (s :: more)).add_length
      have hshorter : (readGap esc (readToken esc off cs).stop (s :: more)).rest.length <
          (s :: more).length := readWhile_rest_length_lt _ hspace
      rw [hrest] at hle
      omega

/-- White space stands between two arguments. -/
theorem argumentsFrom_apart (esc : Escape) (off : Nat) (cs : List Char) :
    (argumentsFrom esc off cs).Pairwise fun a b => a.span.stop < b.span.start := by
  induction off, cs using arguments_induction esc with
  | nil off cs hgap => simp [argumentsFrom_of_nil hgap]
  | cons off cs c rest hgap ih =>
      obtain ⟨hcont, hspace⟩ := readWhile_rest_head hgap
      have hne : (readToken esc (readGap esc off cs).stop (c :: rest)).taken ≠ [] :=
        readToken_taken_ne_nil hcont hspace
      have hreach := (reach_within hne (readToken_taken_within esc (readGap esc off cs).stop
        (c :: rest)) (readGap esc off cs).stop).2
      rw [argumentsFrom_of_cons hgap]
      refine List.pairwise_cons.mpr ⟨?_, ih⟩
      exact fun b hb => Nat.lt_of_le_of_lt hreach (lt_start_behind_token hb)

/-- A character that separates arguments: white space, or the escape character of a
continuation. -/
def Separates (esc : Escape) (text : List Char) (place : Nat) : Prop :=
  ∃ c, text[place]? = some c ∧
    (isSpace c = true ∨
      esc = some c ∧ ∃ n rest, continuation? esc (text.drop place) = some (n, rest))

/-- All of a continuation separates arguments. -/
theorem InContinuation.separates {lo hi : Nat} (h : InContinuation esc text lo hi place) :
    Separates esc text place := by
  obtain ⟨start, n, rest, hcont, -, hstart, hlt, -⟩ := h
  rcases Nat.eq_or_lt_of_le hstart with rfl | hstart
  · obtain ⟨e, tail, m, hesc, htail, -⟩ := continuation?_eq_some.mp hcont
    exact ⟨e, getElem?_of_eq_drop htail.symm, .inr ⟨hesc, n, rest, hcont⟩⟩
  · obtain ⟨b, hb, hbreak⟩ := breakAt_of_continuation? hcont hstart hlt
    exact ⟨b, hb, .inl (isSpace_of_isBreak hbreak)⟩

/-- A gap is made of characters that separate arguments. -/
theorem readGap_separates (hcs : cs = text.drop off) (hle : off ≤ place)
    (hlt : place < (readGap esc off cs).stop) : Separates esc text place := by
  rcases readWhile_passed esc isSpace off cs hcs place hle hlt with ⟨c, hc, htext⟩ | hin
  · exact ⟨c, htext, .inl (readWhile_taken_keep _ hc)⟩
  · exact hin.separates

/-- A character of a text is in one of its arguments or separates them. -/
theorem argumentsFrom_outside (esc : Escape) (off : Nat) (cs : List Char)
    (hcs : cs = text.drop off) :
    ∀ place, off ≤ place → place < off + cs.length →
      (∀ a ∈ argumentsFrom esc off cs, ¬ a.span.Holds place) → Separates esc text place := by
  induction off, cs using arguments_induction esc with
  | nil off cs hgap =>
      have hlength := (onward_readGap esc off cs).add_length
      rw [hgap, List.length_nil, Nat.add_zero] at hlength
      intro place hle hlt _
      exact readGap_separates hcs hle (by omega)
  | cons off cs c rest hgap ih =>
      have hfront := onward_readGap esc off cs
      rw [hgap] at hfront
      have hstart := hfront.eq_drop_text hcs
      have htoken := onward_readToken esc (readGap esc off cs).stop (c :: rest)
      have hlength := hfront.add_length
      have hleft := htoken.add_length
      rw [argumentsFrom_of_cons hgap]
      intro place hle hlt houtside
      by_cases hbefore : place < (readGap esc off cs).stop
      · exact readGap_separates hcs hle hbefore
      · have hreach := houtside _ List.mem_cons_self
        by_cases hpast : place < (readToken esc (readGap esc off cs).stop (c :: rest)).stop
        · refine (readToken_behind esc _ _ hstart place ?_ hpast).separates
          exact Nat.le_of_not_lt fun hinside => hreach ⟨Nat.le_of_not_lt hbefore, hinside⟩
        · exact ih (htoken.eq_drop_text hstart) place (Nat.le_of_not_lt hpast) (by omega)
            fun a ha => houtside a (List.mem_cons_of_mem _ ha)

/-! ## The arguments of an instruction -/

/-- An argument is what stands under its span: from its first character to its last one,
less the continuations, and with no line break left. -/
structure Argument.Faithful (a : Argument) (esc : Escape) (text : List Char) : Prop where
  value : withoutContinuations esc (textUnder text a.span) = a.value.toList
  first : (textUnder text a.span).head? = a.value.toList.head?
  last : (textUnder text a.span).getLast? = a.value.toList.getLast?
  line : OnOneLine a.value

/-- **The places of arguments.**  For every parsed instruction and any escape character:
the spans of its arguments hold a character each, lie behind the keyword in the
instruction, and come one behind the other with something in between; every argument is
what stands under its span; and every character behind the keyword that lies under no span
is white space or the escape character of a continuation. -/
theorem arguments_faithful (text : List Char) (esc : Escape) :
    ∀ i ∈ (Dockerfile.parse text).instructions,
      (i.arguments esc).Pairwise (fun a b => a.span.stop < b.span.start) ∧
      (∀ a ∈ i.arguments esc, i.argumentsSpan.start ≤ a.span.start ∧ a.span.start < a.span.stop ∧
        a.span.stop ≤ i.argumentsSpan.stop ∧ a.Faithful esc text) ∧
      ∀ place, i.argumentsSpan.Holds place → (∀ a ∈ i.arguments esc, ¬ a.span.Holds place) →
        Separates esc (text.take i.span.stop) place := by
  intro i hi
  obtain ⟨start, c, rest, honward, -, -, hword, rfl⟩ := mem_parse_instructions hi
  have hcs := honward.eq_drop_text rfl
  have htext := argumentsText_eq_drop hcs hword
  have hlength := argumentsText_length hword
  refine ⟨argumentsFrom_apart esc _ _, fun a ha => ?_, fun place hplace houtside => ?_⟩
  · have hwithin := arguments_within hword esc a ha
    have hends := argumentsFrom_ends esc _ _ htext a ha
    rw [textUnder_take hwithin.stop_le] at hends
    exact ⟨hwithin.le_start, (argumentsFrom_within esc _ _ a ha).2.1, hwithin.stop_le,
      arguments_quoted hcs hword esc a ha, hends.1, hends.2, argumentsFrom_onOneLine esc _ _ a ha⟩
  · refine argumentsFrom_outside esc _ _ htext place hplace.1 ?_ houtside
    rw [hlength]
    exact hplace.2

/-- Two arguments over four lines: continuations in the first and behind either, and
escape characters that escape a blank or one another. -/
def scatteredArguments : List Char := "RUN a\\\n\\\r\nb\\ c\\\n d\\\\\\\n".toList

/-- The arguments of `scatteredArguments` under its own escape character, and under
another. -/
theorem arguments_faithful_scattered :
    let i := readInstruction (some '\\') 0 scatteredArguments
    i ∈ (Dockerfile.parse scatteredArguments).instructions ∧
      i.arguments (some '\\') = [⟨"ab\\ c", ⟨4, 14⟩⟩, ⟨"d\\\\", ⟨17, 20⟩⟩] ∧
      (i.arguments (some '`')).map (·.value) = ["a\\", "\\", "b\\", "c\\", "d\\\\\\"] ∧
      (∀ a ∈ i.arguments (some '\\'), a.Faithful (some '\\') scatteredArguments) ∧
      (∀ a ∈ i.arguments (some '`'), a.Faithful (some '`') scatteredArguments) := by
  intro i
  have hi : i ∈ (Dockerfile.parse scatteredArguments).instructions := by
    decide +kernel
  refine ⟨hi, by decide +kernel, by decide +kernel, fun a ha => ?_, fun a ha => ?_⟩
  · exact ((arguments_faithful scatteredArguments (some '\\') i hi).2.1 a ha).2.2.2
  · exact ((arguments_faithful scatteredArguments (some '`') i hi).2.1 a ha).2.2.2

end DockerfileLint
