import DockerfileLint.Proofs.Extents
import DockerfileLint.Proofs.Splicing

/-!
# The parser divides a document

Nothing of a document is lost by the parser.  Every character behind the directive lies
in an instruction, or it is white space, or part of a continuation, or in a comment; and
the instructions lie one behind the other, each up to the end of its logical line.

A logical line ends at a line break that is part of no continuation: `LineEndAt`.  The
movements of the parser stop there and nowhere else, because a movement that comes to
the escape character of a continuation goes past the whole of it
(`readWhile_passes_continuation`).

* `instructionsFrom_covers` follows the parser along the text, with the invariant that
  nothing but white space and continuations comes before it on its logical line;
* `parse_divides` says everything about documents at once.
-/

namespace DockerfileLint

variable {esc : Escape} {keep : Char → Bool} {text cs : List Char} {off body place : Nat}

/-! ## Places in a text -/

/-- The offsets of the characters under a span. -/
def Span.Holds (s : Span Nat) (place : Nat) : Prop :=
  s.start ≤ place ∧ place < s.stop

/-- The text under a span. -/
def textUnder (text : List Char) (s : Span Nat) : List Char :=
  (text.drop s.start).take (s.stop - s.start)

/-- A carriage return or a line feed stands at an offset. -/
def BreakAt (text : List Char) (place : Nat) : Prop :=
  ∃ b, text[place]? = some b ∧ isBreak b = true

/-- The character at `place` belongs to a continuation of the text that lies between two
offsets. -/
def InContinuation (esc : Escape) (text : List Char) (lo hi place : Nat) : Prop :=
  ∃ start n rest, continuation? esc (text.drop start) = some (n, rest) ∧
    lo ≤ start ∧ start ≤ place ∧ place < start + n ∧ start + n ≤ hi

/-- A logical line ends here: at a line break that no continuation takes in. -/
def LineEndAt (esc : Escape) (text : List Char) (place : Nat) : Prop :=
  BreakAt text place ∧ ¬ InContinuation esc text 0 text.length place

/-- What comes between the instructions and comments: white space and continuations. -/
def InGap (esc : Escape) (text : List Char) (place : Nat) : Prop :=
  (∃ c, text[place]? = some c ∧ isSpace c = true) ∨ InContinuation esc text 0 text.length place

/-- Nothing but white space and continuations comes before `start` on its logical line,
which begins at `body` or behind the end of another. -/
def OpensLine (esc : Escape) (text : List Char) (body start : Nat) : Prop :=
  ∃ line, body ≤ line ∧ line ≤ start ∧ (line = body ∨ LineEndAt esc text line) ∧
    ∀ place, line ≤ place → place < start → InGap esc text place

/-- A comment: a number sign that opens its logical line, and what follows it there. -/
def InComment (esc : Escape) (text : List Char) (body place : Nat) : Prop :=
  ∃ start, text[start]? = some '#' ∧ OpensLine esc text body start ∧ start ≤ place ∧
    ∀ p, start ≤ p → p ≤ place → ¬ LineEndAt esc text p

/-- A continuation between two offsets lies between any that are further apart. -/
theorem InContinuation.mono {lo lo' hi hi' : Nat} (h : InContinuation esc text lo hi place)
    (hlo : lo' ≤ lo) (hhi : hi ≤ hi') : InContinuation esc text lo' hi' place := by
  obtain ⟨start, n, rest, hcont, hstart, hle, hlt, hend⟩ := h
  exact ⟨start, n, rest, hcont, Nat.le_trans hlo hstart, hle, hlt, Nat.le_trans hend hhi⟩

/-- A logical line opens with its first character. -/
theorem opensLine_body (esc : Escape) (text : List Char) (body : Nat) :
    OpensLine esc text body body :=
  ⟨body, Nat.le_refl body, Nat.le_refl body, .inl rfl, fun _ hle hlt => by omega⟩

/-- A place stays at the head of its logical line behind more white space and
continuations. -/
theorem OpensLine.extend {stop : Nat} (h : OpensLine esc text body off) (hle : off ≤ stop)
    (hgap : ∀ place, off ≤ place → place < stop → InGap esc text place) :
    OpensLine esc text body stop := by
  obtain ⟨line, hbody, hline, hstart, hbefore⟩ := h
  refine ⟨line, hbody, Nat.le_trans hline hle, hstart, fun place hplace hlt => ?_⟩
  by_cases hoff : place < off
  · exact hbefore place hplace hoff
  · exact hgap place (Nat.le_of_not_lt hoff) hlt

/-- Where a logical line ends, the next one begins. -/
theorem LineEndAt.opensLine (h : LineEndAt esc text place) (hbody : body ≤ place) :
    OpensLine esc text body place :=
  ⟨place, hbody, Nat.le_refl place, .inr h, fun _ hle hlt => by omega⟩

/-- What is left of a text from an offset on tells the character there. -/
theorem getElem?_of_eq_drop {c : Char} (hcs : c :: cs = text.drop off) : text[off]? = some c := by
  rw [← List.head?_drop, ← hcs]
  rfl

/-- Behind its escape character a continuation is made of breaks. -/
theorem breakAt_of_continuation? {rest : List Char} {start n : Nat}
    (h : continuation? esc (text.drop start) = some (n, rest)) (hstart : start < place)
    (hlt : place < start + n) : BreakAt text place := by
  obtain ⟨e, tail, m, -, htail, hm, rfl⟩ := continuation?_eq_some.mp h
  obtain ⟨breaks, rfl, rfl, hbreaks⟩ := lineBreak?_eq_append hm
  obtain ⟨k, rfl⟩ : ∃ k, place = start + (k + 1) := ⟨place - start - 1, by omega⟩
  have hk : k < breaks.length := by
    omega
  refine ⟨breaks[k], ?_, hbreaks _ (List.getElem_mem hk)⟩
  rw [← List.getElem?_drop, htail, List.getElem?_cons_succ, List.getElem?_append_left hk,
    List.getElem?_eq_getElem hk]

/-- No continuation starts at a break. -/
theorem BreakAt.continuation?_eq_none (h : BreakAt text place) (hesc : esc.Visible) :
    continuation? esc (text.drop place) = none := by
  obtain ⟨b, hb, hbreak⟩ := h
  obtain ⟨hlt, hget⟩ := List.getElem?_eq_some_iff.mp hb
  rw [List.drop_eq_getElem_cons hlt, hget]
  exact hesc.continuation?_eq_none _ (isSpace_of_isBreak hbreak)

/-! ## What a movement goes past -/

/-- A movement takes every character it goes past, or goes past it with a continuation. -/
theorem readWhile_passed (esc : Escape) (keep : Char → Bool) (off : Nat) (cs : List Char)
    (hcs : cs = text.drop off) :
    ∀ place, off ≤ place → place < (readWhile esc keep off cs).stop →
      (∃ c, (c, place) ∈ (readWhile esc keep off cs).taken ∧ text[place]? = some c) ∨
        InContinuation esc text off (readWhile esc keep off cs).stop place := by
  induction off, cs using splicing_induction esc with
  | splice off cs n rest h ih =>
      have hrest := (onward_of_continuation? off h).eq_drop_text hcs
      have hle := (onward_readWhile esc keep (off + n) rest).le
      rw [readWhile_of_continuation? h]
      intro place hplace hlt
      by_cases hjoint : place < off + n
      · exact .inr ⟨off, n, rest, hcs ▸ h, Nat.le_refl off, hplace, hjoint, hle⟩
      · rcases ih hrest place (Nat.le_of_not_lt hjoint) hlt with htaken | hin
        · exact .inl htaken
        · exact .inr (hin.mono (Nat.le_add_right off n) (Nat.le_refl _))
  | nil off =>
      intro place hplace hlt
      simp only [readWhile_nil] at hlt
      omega
  | char off c cs h ih =>
      cases hk : keep c with
      | true =>
          rw [readWhile_cons_of_keep h hk]
          intro place hplace hlt
          by_cases hfirst : place = off
          · subst hfirst
            exact .inl ⟨c, List.mem_cons_self, getElem?_of_eq_drop hcs⟩
          · rcases ih (eq_drop_succ hcs) place (by omega) hlt with ⟨d, hd, htext⟩ | hin
            · exact .inl ⟨d, List.mem_cons_of_mem _ hd, htext⟩
            · exact .inr (hin.mono (Nat.le_succ off) (Nat.le_refl _))
      | false =>
          rw [readWhile_cons_of_not_keep h hk]
          intro place hplace hlt
          exact absurd hlt (Nat.not_lt.mpr hplace)

/-- A movement that comes past the head of a continuation goes past the whole of it. -/
theorem readWhile_passes_continuation (hesc : esc.Visible) (keep : Char → Bool) (off : Nat)
    (cs : List Char) (hcs : cs = text.drop off) {start n : Nat} {tail : List Char}
    (hcont : continuation? esc (text.drop start) = some (n, tail)) (hstart : off ≤ start)
    (hlt : start < (readWhile esc keep off cs).stop) :
    start + n ≤ (readWhile esc keep off cs).stop := by
  induction off, cs using splicing_induction esc with
  | splice off cs m rest h ih =>
      have hrest := (onward_of_continuation? off h).eq_drop_text hcs
      have hle := (onward_readWhile esc keep (off + m) rest).le
      rw [readWhile_of_continuation? h] at hlt ⊢
      by_cases hhead : start = off
      · subst hhead
        rw [← hcs, h] at hcont
        cases hcont
        exact hle
      · by_cases hinside : start < off + m
        · -- Inside a continuation there are only breaks, and none of them starts another.
          have hbreak : BreakAt text start :=
            breakAt_of_continuation? (hcs ▸ h) (by omega) hinside
          rw [hbreak.continuation?_eq_none hesc] at hcont
          cases hcont
        · exact ih hrest (Nat.le_of_not_lt hinside) hlt
  | nil off =>
      simp only [readWhile_nil] at hlt
      omega
  | char off c cs h ih =>
      cases hk : keep c with
      | true =>
          rw [readWhile_cons_of_keep h hk] at hlt ⊢
          by_cases hhead : start = off
          · subst hhead
            rw [← hcs, h] at hcont
            cases hcont
          · exact ih (eq_drop_succ hcs) (by omega) hlt
      | false =>
          rw [readWhile_cons_of_not_keep h hk] at hlt
          exact absurd hlt (Nat.not_lt.mpr hstart)

/-- A movement to the end of a line stops where the logical line ends, or with the text. -/
theorem readLine_ends (hesc : esc.Visible) {c : Char} (hcs : c :: cs = text.drop off)
    (hspace : isSpace c = false) :
    (readLine esc off (c :: cs)).stop = text.length ∧ (readLine esc off (c :: cs)).rest = [] ∨
      LineEndAt esc text (readLine esc off (c :: cs)).stop := by
  have honward := onward_readLine esc off (c :: cs)
  cases hrest : (readLine esc off (c :: cs)).rest with
  | nil =>
      have hlength := honward.add_length_text hcs
      rw [hrest] at hlength
      exact .inl ⟨hlength, rfl⟩
  | cons b more =>
      obtain ⟨hnone, hkeep⟩ := readWhile_rest_head hrest
      have hb : isBreak b = true := by simpa using hkeep
      have hstop := honward.eq_drop_text hcs
      rw [hrest] at hstop
      refine .inr ⟨⟨b, getElem?_of_eq_drop hstop, hb⟩, ?_⟩
      rintro ⟨start, n, tail, hcont, -, hle, hlt, -⟩
      by_cases hbefore : start < off
      · -- Then the line would start inside the continuation, at a break.
        have hinside := Nat.lt_of_le_of_lt honward.le hlt
        obtain ⟨d, hd, hbreak⟩ := breakAt_of_continuation? hcont hbefore hinside
        rw [getElem?_of_eq_drop hcs] at hd
        obtain rfl := Option.some.inj hd
        rw [isSpace_of_isBreak hbreak] at hspace
        cases hspace
      · by_cases hhere : start = (readLine esc off (c :: cs)).stop
        · rw [hhere, ← hstop, hnone] at hcont
          cases hcont
        · have hreached : start < (readLine esc off (c :: cs)).stop := by
            omega
          have hwhole : start + n ≤ (readLine esc off (c :: cs)).stop :=
            readWhile_passes_continuation hesc _ off (c :: cs) hcs hcont
              (Nat.le_of_not_lt hbefore) hreached
          omega

/-- The breaks that a movement to the end of a line goes past belong to continuations. -/
theorem readLine_joins (hcs : cs = text.drop off) (hplace : off ≤ place)
    (hlt : place < (readLine esc off cs).stop) (hbreak : BreakAt text place) :
    InContinuation esc text off (readLine esc off cs).stop place := by
  rcases readWhile_passed esc (fun d => !isBreak d) off cs hcs place hplace hlt with
    ⟨c, hc, htext⟩ | hin
  · obtain ⟨b, hb, hbreak⟩ := hbreak
    rw [htext] at hb
    obtain rfl := Option.some.inj hb
    have hkeep := readWhile_taken_keep _ hc
    simp [hbreak] at hkeep
  · exact hin

/-- What a movement takes is what is left, without the continuations, of the text up to
its reach. -/
theorem spliced_take_reach (esc : Escape) (keep : Char → Bool) (off : Nat) (cs : List Char) :
    spliced esc off (cs.take ((readWhile esc keep off cs).reach off - off)) =
      (readWhile esc keep off cs).taken := by
  induction off, cs using splicing_induction esc with
  | splice off cs n rest h ih =>
      rw [readWhile_of_continuation? h]
      by_cases htaken : (readWhile esc keep (off + n) rest).taken = []
      · rw [reach_of_taken_eq_nil htaken, htaken]
        simp
      · have hwithin := readWhile_taken_within esc keep (off + n) rest
        have hreach := reach_within htaken hwithin (off + n)
        rw [reach_of_taken_ne_nil htaken off (off + n),
          spliced_of_continuation? (continuation?_take h (by omega)), Nat.sub_sub]
        exact ih
  | nil off => simp
  | char off c cs h ih =>
      cases hk : keep c with
      | true =>
          rw [readWhile_reach_cons h hk]
          obtain ⟨tail, honward, -⟩ := readWhile_reach esc keep (off + 1) cs
          rw [take_sub_cons honward.le, spliced_cons (continuation?_take_eq_none _ h), ih,
            readWhile_cons_of_keep h hk]
      | false =>
          rw [readWhile_cons_of_not_keep h hk]
          simp [Reading.reach]

/-! ## The instructions -/

/-- How an instruction lies in its document: on the characters from its start to the end
of a logical line, with its keyword in front. -/
structure Instruction.LiesIn (i : Instruction) (text : List Char) (file : Dockerfile) : Prop where
  body_le : file.bodyOffset ≤ i.span.start
  start_lt : i.span.start < i.span.stop
  stop_le : i.span.stop ≤ text.length
  content : i.content = textUnder text i.span
  ends : i.span.stop = text.length ∨ LineEndAt (some file.escape) text i.span.stop
  /-- Every line break inside belongs to a continuation, which lies inside as a whole. -/
  joined : ∀ place, i.span.Holds place → BreakAt text place →
    InContinuation (some file.escape) text i.span.start i.span.stop place
  name_start : i.nameSpan.start = i.span.start
  name_lt : i.nameSpan.start < i.nameSpan.stop
  name_le : i.nameSpan.stop ≤ i.span.stop
  written : withoutContinuations (some file.escape) (textUnder text i.nameSpan) = i.written.toList
  written_ne : i.written.toList ≠ []
  written_visible : ∀ c ∈ i.written.toList, isSpace c = false
  keyword : i.keyword = Unicode.upper i.written

/-- The characters of a keyword, each with its offset, are those under its span less the
continuations. -/
theorem spliced_nameSpan (hcs : cs = text.drop off) :
    spliced esc off (textUnder text (readInstruction esc off cs).nameSpan) =
      (readWord esc off cs).taken := by
  unfold textUnder readInstruction
  simp only
  rw [← hcs]
  exact spliced_take_reach esc (fun c => !isSpace c) off cs

/-- Every instruction of a document lies in it. -/
theorem parse_liesIn (text : List Char) :
    ∀ i ∈ (Dockerfile.parse text).instructions, i.LiesIn text (Dockerfile.parse text) := by
  intro i hi
  obtain ⟨hbody, hname, hlt, hle, hend⟩ := instruction_within hi
  obtain ⟨off, c, rest, honward, hspace, -, hword, rfl⟩ := mem_parse_instructions hi
  have hcs := honward.eq_drop_text rfl
  have hletters : spliced (some (Dockerfile.parse text).escape) off (textUnder text
      (readInstruction (some (Dockerfile.parse text).escape) off (c :: rest)).nameSpan) =
        (readWord (some (Dockerfile.parse text).escape) off (c :: rest)).taken :=
    spliced_nameSpan hcs
  have hwritten : (readInstruction (some (Dockerfile.parse text).escape) off
      (c :: rest)).written.toList =
        (readWord (some (Dockerfile.parse text).escape) off (c :: rest)).taken.map Prod.fst := by
    simp [readInstruction, Reading.text]
  refine ⟨hbody, Nat.lt_of_lt_of_le hlt hle, hend, ?_, ?_, ?_, hname, hname ▸ hlt, hle, ?_, ?_, ?_,
    rfl⟩
  · unfold textUnder readInstruction
    rw [← hcs]
  · exact (readLine_ends (visible_escape text) hcs hspace).imp And.left id
  · intro place hholds hbreak
    exact readLine_joins hcs hholds.1 hholds.2 hbreak
  · unfold withoutContinuations
    rw [spliced_map_fst _ 0 off, hletters, hwritten]
  · rw [hwritten]
    simpa using hword
  · rw [hwritten]
    intro d hd
    obtain ⟨p, hp, rfl⟩ := List.mem_map.mp hd
    simpa using readWhile_taken_keep p hp

/-- Instructions come one behind the other, with the end of a line between them. -/
theorem instructionsFrom_pairwise (esc : Escape) (off : Nat) (cs : List Char) :
    (instructionsFrom esc off cs).Pairwise fun i j => i.span.stop < j.span.start := by
  induction off, cs using parsing_induction esc with
  | nil off => simp
  | space off c cs hspace ih => rwa [instructionsFrom_of_isSpace hspace]
  | comment off cs ih => rwa [instructionsFrom_of_mark]
  | joint off c cs hspace hmark hword ih => rwa [instructionsFrom_of_joint hspace hmark hword]
  | word off c cs hspace hmark hword ih =>
      rw [instructionsFrom_of_word hspace hmark hword]
      refine List.pairwise_cons.mpr ⟨fun j hj => ?_, ih⟩
      obtain ⟨start, d, rest, honward, hd, -, -, rfl⟩ := mem_instructionsFrom hj
      show (readLine esc off (c :: cs)).stop < start
      have hle := honward.le
      have hne : start ≠ (readLine esc off (c :: cs)).stop := by
        intro heq
        have hrest := honward.eq_drop
        rw [heq, Nat.sub_self, List.drop_zero] at hrest
        have hbreak := (readWhile_rest_head hrest.symm).2
        simp [isBreak_eq_false_of_isSpace hd] at hbreak
      omega

/-! ## What lies between the instructions -/

/-- From a place that opens its line on, every character is in one of the instructions
found from there, in a gap or in a comment. -/
theorem instructionsFrom_covers (hesc : esc.Visible) (off : Nat) (cs : List Char)
    (hcs : cs = text.drop off) (hbody : body ≤ off) (hopen : OpensLine esc text body off) :
    ∀ place, off ≤ place → place < text.length →
      (∀ i ∈ instructionsFrom esc off cs, ¬ i.span.Holds place) →
        InGap esc text place ∨ InComment esc text body place := by
  induction off, cs using parsing_induction esc with
  | nil off =>
      intro place hplace hlt _
      have hlength := congrArg List.length hcs
      rw [List.length_nil, List.length_drop] at hlength
      omega
  | space off c cs hspace ih =>
      have hhere : InGap esc text off := .inl ⟨c, getElem?_of_eq_drop hcs, hspace⟩
      have hopen' : OpensLine esc text body (off + 1) := by
        refine hopen.extend (Nat.le_succ off) fun place hle hlt => ?_
        obtain rfl : place = off := by omega
        exact hhere
      rw [instructionsFrom_of_isSpace hspace]
      intro place hplace hlt hout
      by_cases hfirst : place = off
      · subst hfirst
        exact .inl hhere
      · exact ih (eq_drop_succ hcs) (by omega) hopen' place (by omega) hlt hout
  | comment off cs ih =>
      have hle := (onward_readLine esc off ('#' :: cs)).le
      rw [instructionsFrom_of_mark]
      intro place hplace hlt hout
      by_cases hin : place < (readLine esc off ('#' :: cs)).stop
      · refine .inr ⟨off, getElem?_of_eq_drop hcs, hopen, hplace, fun p hp hpplace hend => ?_⟩
        have hjoined : InContinuation esc text off (readLine esc off ('#' :: cs)).stop p :=
          readLine_joins hcs hp (Nat.lt_of_le_of_lt hpplace hin) hend.1
        have hlength := (onward_readLine esc off ('#' :: cs)).add_length_text hcs
        exact hend.2 (hjoined.mono (Nat.zero_le off) (by omega))
      · rcases readLine_ends hesc hcs rfl with hstop | hend
        · omega
        · exact ih ((onward_readLine esc off _).eq_drop_text hcs) (by omega)
            (hend.opensLine (by omega)) place (by omega) hlt hout
  | joint off c cs hspace hmark hword ih =>
      have honward := onward_readWord esc off (c :: cs)
      have hle := honward.le
      have hlength := honward.add_length_text hcs
      have hgap : ∀ p, off ≤ p → p < (readWord esc off (c :: cs)).stop → InGap esc text p := by
        intro p hp hlt
        rcases readWhile_passed esc (fun d => !isSpace d) off (c :: cs) hcs p hp hlt with
          ⟨d, hd, -⟩ | hin
        · have htaken : (readWhile esc (fun d => !isSpace d) off (c :: cs)).taken = [] := hword
          rw [htaken] at hd
          cases hd
        · have hstop : (readWhile esc (fun d => !isSpace d) off (c :: cs)).stop ≤ text.length := by
            show (readWord esc off (c :: cs)).stop ≤ text.length
            omega
          exact .inr (hin.mono (Nat.zero_le off) hstop)
      rw [instructionsFrom_of_joint hspace hmark hword]
      intro place hplace hlt hout
      by_cases hin : place < (readWord esc off (c :: cs)).stop
      · exact .inl (hgap place hplace hin)
      · exact ih (honward.eq_drop_text hcs) (by omega) (hopen.extend hle hgap) place (by omega) hlt
          hout
  | word off c cs hspace hmark hword ih =>
      have hle := (onward_readLine esc off (c :: cs)).le
      rw [instructionsFrom_of_word hspace hmark hword]
      intro place hplace hlt hout
      by_cases hin : place < (readLine esc off (c :: cs)).stop
      · exact absurd ⟨hplace, hin⟩ (hout _ List.mem_cons_self)
      · rcases readLine_ends hesc hcs hspace with hstop | hend
        · omega
        · exact ih ((onward_readLine esc off _).eq_drop_text hcs) (by omega)
            (hend.opensLine (by omega)) place (by omega) hlt
            fun i hi => hout i (List.mem_cons_of_mem _ hi)

/-! ## Documents -/

/-- The instructions of a document lie in it one behind the other, and what is outside
them is white space, continuations and comments. -/
structure Dockerfile.Divides (file : Dockerfile) (text : List Char) : Prop where
  liesIn : ∀ i ∈ file.instructions, i.LiesIn text file
  ordered : file.instructions.Pairwise fun i j => i.span.stop < j.span.start
  covered : ∀ place, file.bodyOffset ≤ place → place < text.length →
    (∀ i ∈ file.instructions, ¬ i.span.Holds place) →
      InGap (some file.escape) text place ∨
        InComment (some file.escape) text file.bodyOffset place

/-- **Parsing divides the document.** -/
theorem parse_divides (text : List Char) : (Dockerfile.parse text).Divides text where
  liesIn := parse_liesIn text
  ordered := instructionsFrom_pairwise _ _ _
  covered := instructionsFrom_covers (visible_escape text) _ _ rfl (Nat.le_refl _)
    (opensLine_body _ text _)

end DockerfileLint
