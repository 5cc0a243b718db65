import DockerfileLint.Proofs.Boundaries
import DockerfileLint.Proofs.Positions
import DockerfileLint.Proofs.Whitelist

/-!
# Diagnostics point at real places

Every check reports the place of something it has read: a word, an argument, a part of
the directive, a character of a list.  Such a place starts where a character starts that
is no line break, and ends where one ends.  So neither end lies within a line break, and
the range of the diagnostic leads back to the very offsets that the check had.

Two findings are not at something: a deprecated instruction is reported at its very
start, and a document without instructions at offset 0.  They alone have an empty range.

`validate_pointsAt` says this of all diagnostics of a document at once.
-/

namespace DockerfileLint

variable {esc : Escape} {keywords : List String} {text : List Char}

/-! ## Places of characters -/

/-- A span from the start of a character to the end of one, neither of them a break. -/
structure Span.Covers (s : Span Nat) (text : List Char) : Prop where
  start_lt : s.start < s.stop
  first : StandsAt text s.start
  last : StandsAt text (s.stop - 1)

/-- The place of a single character. -/
theorem StandsAt.covers {place : Nat} (h : StandsAt text place) :
    Span.Covers ⟨place, place + 1⟩ text :=
  ⟨Nat.lt_succ_self place, h, h⟩

/-- A character at the head of what is left of a text stands there. -/
theorem standsAt_of_eq_drop {off : Nat} {c : Char} {cs : List Char} (hcs : c :: cs = text.drop off)
    (hc : isBreak c = false) : StandsAt text off := by
  refine ⟨c, ?_, hc⟩
  rw [← List.head?_drop, ← hcs]
  rfl

/-- What stands in a text that is cut off stands in the text. -/
theorem StandsAt.of_take {place stop : Nat} (h : StandsAt (text.take stop) place) :
    StandsAt text place := by
  obtain ⟨c, hc, hbreak⟩ := h
  refine ⟨c, ?_, hbreak⟩
  rw [List.getElem?_take] at hc
  split at hc
  · exact hc
  · cases hc

/-- A span of the front of a text is one of the text. -/
theorem Span.Covers.of_take {s : Span Nat} {stop : Nat} (h : s.Covers (text.take stop)) :
    s.Covers text :=
  ⟨h.start_lt, h.first.of_take, h.last.of_take⟩

/-! ## Words and arguments -/

/-- The characters that a movement takes stand in the text, at the offsets they are
taken with. -/
theorem readWhile_taken_standsAt {keep : Char → Bool}
    (hkeep : ∀ c, keep c = true → isBreak c = false) {off : Nat} {cs : List Char}
    (hcs : cs = text.drop off) :
    ∀ p ∈ (readWhile esc keep off cs).taken, StandsAt text p.2 := by
  intro p hp
  obtain ⟨rest, honward⟩ := readWhile_taken_onward esc keep off cs p hp
  exact standsAt_of_eq_drop (honward.eq_drop_text hcs) (hkeep p.1 (readWhile_taken_keep p hp))

/-- The characters of a token stand in the text, at the offsets they are taken with. -/
theorem readToken_taken_standsAt {off : Nat} {cs : List Char} (hcs : cs = text.drop off) :
    ∀ p ∈ (readToken esc off cs).taken, StandsAt text p.2 := by
  intro p hp
  obtain ⟨hbreak, rest, honward⟩ := readToken_taken_onward esc off cs p hp
  exact standsAt_of_eq_drop (honward.eq_drop_text hcs) hbreak

/-- What was taken reaches to the end of a character. -/
theorem standsAt_reach {r : Reading} (hne : r.taken ≠ []) (h : ∀ p ∈ r.taken, StandsAt text p.2)
    (start : Nat) : StandsAt text (r.reach start - 1) := by
  cases hlast : r.taken.getLast? with
  | none => exact absurd (List.getLast?_eq_none_iff.mp hlast) hne
  | some p =>
      simp only [Reading.reach, hlast, Nat.add_sub_cancel]
      exact h p (List.mem_of_getLast? hlast)

/-- The place of a keyword covers characters. -/
theorem nameSpan_covers {off : Nat} {c : Char} {cs : List Char} (hcs : c :: cs = text.drop off)
    (hspace : isSpace c = false) (hword : (readWord esc off (c :: cs)).taken ≠ []) :
    (readInstruction esc off (c :: cs)).nameSpan.Covers text := by
  obtain ⟨-, -, hname, -, -⟩ := readInstruction_within hword
  have hkeep : ∀ d, (!isSpace d) = true → isBreak d = false := by
    intro d hd
    exact isBreak_eq_false_of_isSpace (by simpa using hd)
  exact ⟨hname, standsAt_of_eq_drop hcs (isBreak_eq_false_of_isSpace hspace),
    standsAt_reach hword (readWhile_taken_standsAt hkeep hcs) off⟩

/-- The places of arguments cover characters. -/
theorem argumentsFrom_covers (off : Nat) (cs : List Char) (hcs : cs = text.drop off) :
    ∀ a ∈ argumentsFrom esc off cs, a.span.Covers text := by
  induction off, cs using arguments_induction esc with
  | nil off cs hgap => simp [argumentsFrom_of_nil hgap]
  | cons off cs c rest hgap ih =>
      have hfront := onward_readGap esc off cs
      rw [hgap] at hfront
      have hstart := hfront.eq_drop_text hcs
      obtain ⟨hcont, hspace⟩ := readWhile_rest_head hgap
      have hne : (readToken esc (readGap esc off cs).stop (c :: rest)).taken ≠ [] :=
        readToken_taken_ne_nil hcont hspace
      have hreach := reach_within hne
        (readToken_taken_within esc (readGap esc off cs).stop (c :: rest))
        (readGap esc off cs).stop
      rw [argumentsFrom_of_cons hgap]
      intro a ha
      rcases List.mem_cons.mp ha with rfl | ha
      · exact ⟨hreach.1, standsAt_of_eq_drop hstart (isBreak_eq_false_of_isSpace hspace),
          standsAt_reach hne (readToken_taken_standsAt hstart) _⟩
      · exact ih ((onward_readToken esc _ _).eq_drop_text hstart) a ha

/-- The arguments of an instruction that is read off a text are spans of that text. -/
theorem arguments_covers {off : Nat} {cs : List Char} (hcs : cs = text.drop off)
    (hword : (readWord esc off cs).taken ≠ []) (esc' : Escape) :
    ∀ a ∈ (readInstruction esc off cs).arguments esc', a.span.Covers text := by
  intro a ha
  exact (argumentsFrom_covers _ _ (argumentsText_eq_drop hcs hword) a ha).of_take

/-! ## Lists -/

/-- The places that a walk remembers are those of characters. -/
structure ArrayState.Sees (s : ArrayState) (text : List Char) : Prop where
  last : StandsAt text s.last
  fault : ∀ f, s.fault = some f → StandsAt text f

namespace ArrayState.Sees

variable {s : ArrayState} {off : Nat}

/-- A step in a string remembers the place of a character. -/
theorem insideString (h : s.Sees text) (c : Char) (hoff : StandsAt text off) :
    (s.insideString off c).Sees text := by
  unfold ArrayState.insideString
  split
  · exact ⟨hoff, h.fault⟩
  · split
    · exact h
    · exact ⟨hoff, h.fault⟩

/-- So does a step between strings. -/
theorem betweenStrings (h : s.Sees text) (c : Char) (hoff : StandsAt text off) :
    (s.betweenStrings off c).Sees text := by
  unfold ArrayState.betweenStrings
  repeat' split
  · exact ⟨hoff, h.fault⟩
  · exact h
  · exact ⟨hoff, h.fault⟩
  · exact ⟨hoff, h.fault⟩
  · refine ⟨hoff, ?_⟩
    intro f hf
    rcases Option.or_eq_some_iff.mp hf with hold | ⟨-, hnew⟩
    · exact h.fault f hold
    · obtain rfl := Option.some.inj hnew
      exact hoff

/-- What is reported at the end of a list is the place of a character too. -/
theorem or_last (h : s.Sees text) {b : Bool} {f : Nat}
    (hf : s.fault.or (if b then some s.last else none) = some f) : StandsAt text f := by
  rcases Option.or_eq_some_iff.mp hf with hold | ⟨-, hlast⟩
  · exact h.fault f hold
  · cases b with
    | false => cases hlast
    | true =>
        obtain rfl := Option.some.inj hlast
        exact h.last

end ArrayState.Sees

/-- The place where a list breaks is that of a character. -/
theorem walkArray_fault_standsAt (s : ArrayState) (off : Nat) (cs : List Char)
    (hcs : cs = text.drop off) (hs : s.Sees text) :
    ∀ f, (walkArray esc s off cs).fault = some f → StandsAt text f := by
  fun_induction walkArray esc s off cs with
  | case1 s off cs n rest h ih =>
      have hcont := (ArrayState.continuation?_eq_some h).2
      exact ih ((onward_of_continuation? off hcont).eq_drop_text hcs) hs
  | case2 s off =>
      intro f hf
      exact hs.or_last hf
  | case3 s off c cs =>
      intro f hf
      rw [s.faultAtBreak_eq] at hf
      exact hs.or_last hf
  | case4 s off c cs _ hc _ ih =>
      have hoff := standsAt_of_eq_drop hcs (by simpa using hc)
      exact ih (eq_drop_succ hcs) (hs.insideString c hoff)
  | case5 s off c cs _ hc =>
      intro f hf
      obtain rfl := Option.some.inj hf
      exact standsAt_of_eq_drop hcs (by simpa using hc)
  | case6 s off c cs _ hc _ _ ih =>
      have hoff := standsAt_of_eq_drop hcs (by simpa using hc)
      exact ih (eq_drop_succ hcs) (hs.betweenStrings c hoff)

/-- The place where a body breaks is that of a character. -/
theorem checkArrayBody_fault_standsAt (opening : Bool) (off : Nat) (cs : List Char)
    (hcs : cs = text.drop off) :
    ∀ f, (checkArrayBody esc opening off cs).fault = some f → StandsAt text f := by
  fun_induction checkArrayBody esc opening off cs with
  | case1 opening off cs n rest h ih =>
      exact ih ((onward_of_continuation? off h).eq_drop_text hcs)
  | case2 => simp
  | case3 => simp
  | case4 opening off c cs _ hc =>
      have hoff := standsAt_of_eq_drop hcs (by simpa using hc)
      have hstart : ArrayState.Sees { last := off } text :=
        ⟨hoff, by simp⟩
      exact walkArray_fault_standsAt _ (off + 1) cs (eq_drop_succ hcs) hstart
  | case5 opening off c cs _ _ _ ih => exact ih (eq_drop_succ hcs)

/-- What the scan finds covers a character. -/
theorem scanFrom_findings_covers {off : Nat} {cs : List Char} (hcs : cs = text.drop off)
    {f : Finding} (hf : f ∈ (scanFrom esc keywords off cs).findings) :
    f.problem = .unexpectedToken ∧ f.span.Covers text := by
  obtain ⟨v, hv, hf⟩ := List.mem_flatMap.mp hf
  obtain ⟨start, c, rest, honward, rfl⟩ := mem_scanFrom hv
  have hbody := (onward_readWord esc start (c :: rest)).eq_drop_text (honward.eq_drop_text hcs)
  obtain ⟨-, place, rfl, hplace⟩ := fault_of_mem_readVisit_findings hf
  exact ⟨rfl, (checkArrayBody_fault_standsAt true _ _ hbody place hplace).covers⟩

/-! ## Directives -/

/-- The characters of the first line stand in the text. -/
theorem standsAt_of_lt_firstLine {place : Nat} (h : place < (firstLine text).length) :
    StandsAt text place := by
  refine ⟨(firstLine text)[place], ?_, ?_⟩
  · conv => lhs; rw [← firstLine_append_afterFirstLine text]
    rw [List.getElem?_append_left h, List.getElem?_eq_getElem h]
  · exact isBreak_eq_false_of_mem_firstLine (List.getElem_mem h)

/-- The name of a directive is not empty. -/
theorem Directive.nameSpan_lt {line : List Char} {d : Directive}
    (h : Directive.ofLine? line = some d) : d.nameSpan.start < d.nameSpan.stop := by
  unfold Directive.ofLine? at h
  split at h
  · rename_i mark hmark
    simp only at h
    split at h
    · rename_i hletter
      split at h
      · obtain rfl := (Option.some.inj h).symm
        have hne : (mark.dropWhile isBlank).takeWhile isNameChar ≠ [] := by
          intro hnil
          simp [hnil] at hletter
        have hpos := List.length_pos_iff.mpr hne
        exact Nat.lt_add_of_pos_right hpos
      · cases h
    · cases h
  · cases h

/-- A value that is not empty takes characters. -/
theorem Directive.valueSpan_lt {line : List Char} {d : Directive}
    (h : Directive.ofLine? line = some d) (hvalue : d.value ≠ "") :
    d.valueSpan.start < d.valueSpan.stop := by
  obtain ⟨mark, valued, -, -, rfl⟩ := Directive.ofLine?_eq_some h
  apply Nat.lt_add_of_pos_right
  apply List.length_pos_iff.mpr
  intro hnil
  apply hvalue
  simp [hnil]

/-- A span of the first line that is not empty covers characters. -/
theorem Span.covers_of_within_firstLine {s : Span Nat} (hlt : s.start < s.stop)
    (hstop : s.stop ≤ (firstLine text).length) : s.Covers text :=
  ⟨hlt, standsAt_of_lt_firstLine (by omega), standsAt_of_lt_firstLine (by omega)⟩

/-- A fault of the directive is reported under a span of the text. -/
theorem checkDirective_covers {f : Finding} (hf : f ∈ checkDirective (Directive.parse? text)) :
    f.span.Covers text := by
  have hwithin := checkDirective_within hf
  refine Span.covers_of_within_firstLine ?_ hwithin.stop_le
  obtain ⟨d, hd, hfault⟩ := mem_checkDirective hf
  cases hfault with
  | name => exact Directive.nameSpan_lt hd
  | value hvalue => exact Directive.valueSpan_lt hd hvalue

/-! ## Findings -/

/-- A finding about nothing in particular: a deprecated instruction, or a document with
no instruction at all. -/
def Finding.isBare (f : Finding) (instructions : List Instruction) : Prop :=
  f.problem.code = .deprecatedMaintainer ∨ (f.problem.code = .noSourceImage ∧ instructions = [])

/-- Where a finding is: over characters, or at the start of a character or of the text
if it is about nothing in particular. -/
inductive Finding.Placed (text : List Char) (instructions : List Instruction) (f : Finding) : Prop
  | covering (hspan : f.span.Covers text) (hbare : ¬ f.isBare instructions)
  | bare (hbare : f.isBare instructions) (hempty : f.span.start = f.span.stop)
      (hplace : SplitsNoBreak text f.span.start)

/-- What is wrong with an instruction is placed in the text. -/
theorem checkInstruction_placed (ctx : CheckContext) {off : Nat} {c : Char} {cs : List Char}
    (hcs : c :: cs = text.drop off) (hspace : isSpace c = false)
    (hword : (readWord esc off (c :: cs)).taken ≠ []) (instructions : List Instruction) :
    ∀ f ∈ checkInstruction ctx (readInstruction esc off (c :: cs)),
      f.Placed text instructions := by
  intro f hf
  have hname := nameSpan_covers hcs hspace hword
  cases mem_checkInstruction hf with
  | unknown | lowercase | missing =>
      exact .covering hname (by simp [Finding.isBare, Problem.code])
  | deprecated severity => exact .bare (.inl rfl) rfl hname.first.splitsNoBreak
  | argument hmem hfault =>
      refine .covering (arguments_covers hcs hword ctx.escape _ hmem) ?_
      cases hfault <;> simp [Finding.isBare, Problem.code]

/-- Every finding of a document is placed in its text. -/
theorem lint_placed (settings : LintSettings) (keywords : List String) (text : List Char) :
    ∀ f ∈ (lint settings keywords text).findings,
      f.Placed text (Dockerfile.parse text).instructions := by
  intro f hf
  cases mem_lint_findings hf with
  | directive hf =>
      refine .covering (checkDirective_covers hf) ?_
      rcases code_of_mem_checkDirective hf with hcode | hcode
      · simp [Finding.isBare, hcode]
      · simp [Finding.isBare, hcode]
  | sourceImage hf =>
      rcases mem_checkSourceImage hf with ⟨hnone, rfl⟩ | ⟨first, hfirst, rfl⟩
      · exact .bare (.inr ⟨rfl, hnone⟩) rfl (splitsNoBreak_zero text)
      · have hmem := List.mem_of_head? hfirst
        obtain ⟨start, c, rest, honward, hspace, -, hword, rfl⟩ := mem_parse_instructions hmem
        refine .covering (nameSpan_covers (honward.eq_drop_text rfl) hspace hword) ?_
        simp [Finding.isBare, Problem.code, List.ne_nil_of_mem hmem]
  | instruction i hi hf =>
      obtain ⟨start, c, rest, honward, hspace, -, hword, rfl⟩ := mem_parse_instructions hi
      exact checkInstruction_placed _ (honward.eq_drop_text rfl) hspace hword _ f hf
  | scan hf =>
      obtain ⟨hproblem, hspan⟩ := scanFrom_findings_covers rfl hf
      exact .covering hspan (by simp [Finding.isBare, hproblem, Problem.code])

/-! ## Diagnostics -/

/-- A range of a document that points at a span of its text: its ends are positions of
the document in their order, they lead back to the ends of the span, and no line break
runs across either. -/
structure Document.PointsAt (d : Document) (r : Range) (s : Span Nat) : Prop where
  ordered : r.start ≤ r.stop
  holds_start : d.Holds r.start
  holds_stop : d.Holds r.stop
  offsetAt_start : d.offsetAt r.start = s.start
  offsetAt_stop : d.offsetAt r.stop = s.stop
  whole_start : SplitsNoBreak d.text s.start
  whole_stop : SplitsNoBreak d.text s.stop

/-- Between offsets that split no line break a range points at the span. -/
theorem pointsAt_rangeAt {s : Span Nat} (hle : s.start ≤ s.stop)
    (hstart : SplitsNoBreak text s.start) (hstop : SplitsNoBreak text s.stop) :
    (Document.ofText text).PointsAt ((Document.ofText text).rangeAt s.start s.stop) s :=
  ⟨positionAt_mono text hle, holds_positionAt hstart, holds_positionAt hstop,
    offsetAt_positionAt hstart, offsetAt_positionAt hstop, hstart, hstop⟩

/-- A range that points at a span is empty if the span is. -/
theorem Document.PointsAt.isEmpty_iff {d : Document} {r : Range} {s : Span Nat}
    (h : d.PointsAt r s) (hr : r = d.rangeAt s.start s.stop) :
    r.isEmpty = true ↔ s.start = s.stop := by
  unfold Range.isEmpty
  rw [beq_iff_eq]
  constructor
  · intro hsame
    rw [← h.offsetAt_start, hsame, h.offsetAt_stop]
  · intro hsame
    rw [hr, hsame]
    rfl

/-- A finding that is placed in the text is reported there. -/
theorem Finding.Placed.pointsAt {instructions : List Instruction} {f : Finding}
    (h : f.Placed text instructions) :
    let d := Document.ofText text
    d.PointsAt (f.diagnostic d).range f.span ∧
      ((f.diagnostic d).range.isEmpty = true ↔ f.isBare instructions) := by
  intro d
  cases h with
  | covering hspan hbare =>
      have hstop : f.span.stop = f.span.stop - 1 + 1 := by
        have hlt := hspan.start_lt
        omega
      have hpoints := pointsAt_rangeAt (Nat.le_of_lt hspan.start_lt) hspan.first.splitsNoBreak
        (hstop ▸ hspan.last.splitsNoBreak_succ)
      refine ⟨hpoints, (hpoints.isEmpty_iff rfl).trans ?_⟩
      exact ⟨fun hsame => absurd hsame (Nat.ne_of_lt hspan.start_lt),
        fun h => absurd h hbare⟩
  | bare hbare hempty hplace =>
      have hpoints := pointsAt_rangeAt (Nat.le_of_eq hempty) hplace (hempty ▸ hplace)
      exact ⟨hpoints, (hpoints.isEmpty_iff rfl).trans ⟨fun _ => hbare, fun _ => hempty⟩⟩

/-- **Diagnostics point at real places.**  The diagnostics of a document are those of
its findings, one for one.  The range of each is one of the document, its start not
behind its end, and leads back to the offsets that the check found.  It is empty for a
deprecated instruction, and for a missing base image where there is no instruction, and
for nothing else. -/
theorem validate_pointsAt (settings : LintSettings) (keywords : List String)
    (text : List Char) :
    let d := Document.ofText text
    let findings := (lint settings keywords text).findings
    validate settings keywords d = findings.map (fun f => f.diagnostic d) ∧
      ∀ f ∈ findings,
        d.PointsAt (f.diagnostic d).range f.span ∧
          ((f.diagnostic d).range.isEmpty = true ↔
            (f.diagnostic d).code = .deprecatedMaintainer ∨
              ((f.diagnostic d).code = .noSourceImage ∧
                (Dockerfile.parse text).instructions = [])) := by
  intro d findings
  refine ⟨rfl, fun f hf => ?_⟩
  exact (lint_placed settings keywords text f hf).pointsAt

end DockerfileLint
