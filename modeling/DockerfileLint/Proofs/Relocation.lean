import DockerfileLint.Proofs.Extents
import DockerfileLint.Proofs.Relining

/-!
# Reading a text with other line endings

No reader tells one line break from another, and none looks at an offset but to report
it.  So a text with other line endings is read alike, and every place that is reported is
the one that `φ` takes it to.  The one check that compares offsets compares two of them:
an instruction whose continuation ends with the document is not missing its arguments,
and the end of the document goes where `φ` takes it as well.

With line feeds for line feeds this says how a text is read that stands somewhere else.
-/

namespace DockerfileLint

variable {esc : Escape} {ending : LineEnding} {θ : List Char → List Char} {φ : Nat → Nat}
  {off : Nat} {cs : List Char}

/-! ## Places elsewhere -/

namespace Reading

/-- The reading elsewhere: of the text that `θ` makes of the text, with the places that `φ`
takes its places to. -/
def relocate (θ : List Char → List Char) (φ : Nat → Nat) (r : Reading) : Reading where
  taken := r.taken.map fun p => (p.1, φ p.2)
  stop := φ r.stop
  rest := θ r.rest

/-- A moved reading stops where its stop goes. -/
@[simp] theorem relocate_stop (r : Reading) : (r.relocate θ φ).stop = φ r.stop := rfl

/-- It leaves the moved text. -/
@[simp] theorem relocate_rest (r : Reading) : (r.relocate θ φ).rest = θ r.rest := rfl

/-- Its characters are the same. -/
@[simp] theorem relocate_text (r : Reading) : (r.relocate θ φ).text = r.text := by
  simp [relocate, text, Function.comp_def]

/-- It takes nothing if nothing was taken. -/
@[simp] theorem relocate_taken_eq_nil (r : Reading) :
    (r.relocate θ φ).taken = [] ↔ r.taken = [] := by
  simp [relocate]

/-- What was taken reaches as far, if one character further on is one further on. -/
theorem relocate_reach (r : Reading) (h : ∀ p ∈ r.taken, φ (p.2 + 1) = φ p.2 + 1) (start : Nat) :
    (r.relocate θ φ).reach (φ start) = φ (r.reach start) := by
  cases hlast : r.taken.getLast? with
  | none => simp [relocate, reach, hlast]
  | some p =>
      simp only [relocate, reach, List.getLast?_map, hlast, Option.map_some]
      exact (h p (List.mem_of_getLast? hlast)).symm

end Reading

/-- The instruction elsewhere. -/
def Instruction.relocate (θ : List Char → List Char) (φ : Nat → Nat) (i : Instruction) :
    Instruction :=
  { i with
    content := θ i.content
    span := i.span.relocate φ
    nameSpan := i.nameSpan.relocate φ }

/-- The state of a walk elsewhere. -/
def ArrayState.relocate (φ : Nat → Nat) (s : ArrayState) : ArrayState :=
  { s with fault := s.fault.map φ, last := φ s.last }

/-- The verdict on a list elsewhere. -/
def ArrayVerdict.relocate (θ : List Char → List Char) (φ : Nat → Nat) (v : ArrayVerdict) :
    ArrayVerdict where
  fault := v.fault.map φ
  stop := φ v.stop
  rest := θ v.rest

/-- What a scan found elsewhere. -/
def VisitOutcome.relocate (φ : Nat → Nat) : VisitOutcome → VisitOutcome
  | .array fault => .array (fault.map φ)
  | outcome => outcome

/-- The check of a body elsewhere. -/
def BodyScan.relocate (θ : List Char → List Char) (φ : Nat → Nat) (b : BodyScan) :
    BodyScan where
  outcome := b.outcome.relocate φ
  stop := φ b.stop
  rest := θ b.rest

/-- The visit elsewhere. -/
def Visit.relocate (φ : Nat → Nat) (v : Visit) : Visit :=
  { v with
    start := φ v.start
    bodyStart := φ v.bodyStart
    outcome := v.outcome.relocate φ
    stop := φ v.stop }

/-- The scan elsewhere. -/
def Scan.relocate (φ : Nat → Nat) (s : Scan) : Scan :=
  ⟨s.visits.map (Visit.relocate φ), φ s.stop⟩

/-! ## Movements -/

/-- A movement that stops at line breaks, or one where nothing changes. -/
theorem readWhile_relocate {keep : Char → Bool} (hesc : esc.Suits ending)
    (hkeep : ending = .lf ∨ ∀ c, isBreak c = true → keep c = false)
    (h : Relines ending φ off cs) :
    readWhile esc keep (φ off) (relined ending cs) =
      (readWhile esc keep off cs).relocate (relined ending) φ := by
  induction off, cs using splicing_induction esc with
  | splice off cs n rest hcont ih =>
      obtain ⟨m, hrelined, hm⟩ := h.continuation? hesc hcont
      rw [readWhile_of_continuation? hcont, readWhile_of_continuation? hrelined, ← hm,
        ih (h.of_onward (onward_of_continuation? off hcont))]
  | nil off => simp [Reading.relocate]
  | char off c cs hcont ih =>
      have hrelined := continuation?_relined_eq_none hesc hcont
      cases hk : keep c with
      | true =>
          have hc : ending = .lf ∨ c ≠ '\n' := by
            refine hkeep.imp_right fun hkeep => ?_
            rintro rfl
            rw [hkeep '\n' rfl] at hk
            cases hk
          rw [relined_cons hc] at hrelined ⊢
          rw [readWhile_cons_of_keep hcont hk, readWhile_cons_of_keep hrelined hk,
            ← h.succ_of_kept hc, ih h.of_cons]
          rfl
      | false =>
          obtain ⟨d, tail, htail, hd⟩ : ∃ d tail, relined ending (c :: cs) = d :: tail ∧
              keep d = false := by
            rcases hkeep with rfl | hkeep
            · exact ⟨c, _, relined_cons (.inl rfl) cs, hk⟩
            · cases hc : isBreak c with
              | true =>
                  obtain ⟨d, tail, htail, hd⟩ := relined_cons_of_isBreak ending hc cs
                  exact ⟨d, tail, htail, hkeep d hd⟩
              | false => exact ⟨c, _, relined_cons_of_ne (ne_newline_of_isBreak hc) cs, hk⟩
          rw [htail] at hrelined ⊢
          rw [readWhile_cons_of_not_keep hcont hk, readWhile_cons_of_not_keep hrelined hd, ← htail]
          rfl

/-- Words move with their text. -/
theorem readWord_relocate (hesc : esc.Suits ending) (h : Relines ending φ off cs) :
    readWord esc (φ off) (relined ending cs) =
      (readWord esc off cs).relocate (relined ending) φ := by
  refine readWhile_relocate hesc (.inr fun c hc => ?_) h
  simp [isSpace_of_isBreak hc]

/-- So does what is left of a line. -/
theorem readLine_relocate (hesc : esc.Suits ending) (h : Relines ending φ off cs) :
    readLine esc (φ off) (relined ending cs) =
      (readLine esc off cs).relocate (relined ending) φ := by
  refine readWhile_relocate hesc (.inr fun c hc => ?_) h
  simp [hc]

/-- Behind a character taken that is no break there is the next place. -/
theorem Relines.succ_of_onward (h : Relines ending φ off cs) {place : Nat} {c : Char}
    {rest : List Char} (honward : Onward off cs place (c :: rest)) (hc : isBreak c = false) :
    φ (place + 1) = φ place + 1 :=
  (h.of_onward honward).succ_of_ne (ne_newline_of_isBreak hc)

/-- A word reaches as far. -/
theorem readWord_reach_relocate (hesc : esc.Suits ending) (h : Relines ending φ off cs) :
    (readWord esc (φ off) (relined ending cs)).reach (φ off) =
      φ ((readWord esc off cs).reach off) := by
  rw [readWord_relocate hesc h]
  apply Reading.relocate_reach
  intro p hp
  obtain ⟨rest, honward⟩ := readWhile_taken_onward esc _ off cs p hp
  have hspace : isSpace p.1 = false := by
    simpa using readWhile_taken_keep p hp
  exact h.succ_of_onward honward (isBreak_eq_false_of_isSpace hspace)

/-! ## Tokens -/

/-- White space at the head of a text is gone past. -/
theorem readGap_append_spaces (hesc : esc.Visible) (off : Nat) {spaces : List Char}
    (hspaces : ∀ c ∈ spaces, isSpace c = true) (cs : List Char) :
    (readGap esc off (spaces ++ cs)).stop = (readGap esc (off + spaces.length) cs).stop ∧
      (readGap esc off (spaces ++ cs)).rest = (readGap esc (off + spaces.length) cs).rest := by
  induction spaces generalizing off with
  | nil => exact ⟨rfl, rfl⟩
  | cons c spaces ih =>
      have hc := hspaces c List.mem_cons_self
      have hrest := ih (off + 1) fun d hd => hspaces d (List.mem_cons_of_mem c hd)
      rw [List.cons_append, List.length_cons, Nat.add_comm spaces.length, ← Nat.add_assoc]
      unfold readGap at hrest ⊢
      rw [readWhile_cons_of_keep (hesc.continuation?_eq_none _ hc) hc]
      exact hrest

/-- A gap may hold line breaks, so that it is not as long, but it is gone past. -/
theorem readGap_relocate (hesc : esc.Suits ending) (h : Relines ending φ off cs) :
    (readGap esc (φ off) (relined ending cs)).stop = φ (readGap esc off cs).stop ∧
      (readGap esc (φ off) (relined ending cs)).rest =
        relined ending (readGap esc off cs).rest := by
  induction off, cs using splicing_induction esc with
  | splice off cs n rest hcont ih =>
      obtain ⟨m, hrelined, hm⟩ := h.continuation? hesc hcont
      have hrest := ih (h.of_onward (onward_of_continuation? off hcont))
      unfold readGap at hrest ⊢
      rw [readWhile_of_continuation? hcont, readWhile_of_continuation? hrelined, ← hm]
      exact hrest
  | nil off => exact ⟨by simp [readGap], by simp [readGap]⟩
  | char off c cs hcont ih =>
      cases hc : isSpace c with
      | true =>
          have hread : readGap esc off (c :: cs) =
              { readGap esc (off + 1) cs with
                taken := (c, off) :: (readGap esc (off + 1) cs).taken } :=
            readWhile_cons_of_keep hcont hc
          rcases hesc with rfl | hesc
          · have hrest := ih h.of_cons
            have hmoved := continuation?_relined_eq_none (.inl rfl) hcont
            rw [h.succ_of_kept (.inl rfl)] at hrest
            rw [relined_cons (.inl rfl)] at hmoved ⊢
            rw [hread]
            unfold readGap at hrest ⊢
            rw [readWhile_cons_of_keep hmoved hc]
            exact hrest
          · have hspaces := (relined_singleton_spaces ending hc).2
            have hsplit : relined ending (c :: cs) = relined ending [c] ++ relined ending cs :=
              relined_append ending [c] cs
            obtain ⟨hstop, hrest⟩ :=
              readGap_append_spaces hesc (φ off) hspaces (relined ending cs)
            rw [hsplit, hstop, hrest, ← h.succ, hread]
            exact ih h.of_cons
      | false =>
          have hne : c ≠ '\n' := ne_newline_of_isBreak (isBreak_eq_false_of_isSpace hc)
          have hrelined := continuation?_relined_eq_none hesc hcont
          rw [relined_cons_of_ne hne] at hrelined ⊢
          unfold readGap
          rw [readWhile_cons_of_not_keep hcont hc, readWhile_cons_of_not_keep hrelined hc]
          exact ⟨rfl, (relined_cons_of_ne hne cs).symm⟩

/-- Tokens move with their text. -/
theorem readToken_relocate (hesc : esc.Suits ending) (h : Relines ending φ off cs) :
    readToken esc (φ off) (relined ending cs) =
      (readToken esc off cs).relocate (relined ending) φ := by
  induction off, cs using token_induction esc with
  | splice off cs n rest hcont ih =>
      obtain ⟨m, hrelined, hm⟩ := h.continuation? hesc hcont
      rw [readToken_of_continuation? hcont, readToken_of_continuation? hrelined, ← hm,
        ih (h.of_onward (onward_of_continuation? off hcont))]
  | nil off => simp [Reading.relocate]
  | space off c cs hcont hspace =>
      have hrelined := continuation?_relined_eq_none hesc hcont
      obtain ⟨hne, hspaces⟩ := relined_singleton_spaces ending hspace
      obtain ⟨d, tail, htail⟩ := List.exists_cons_of_ne_nil hne
      have hsplit : relined ending (c :: cs) = d :: (tail ++ relined ending cs) := by
        rw [← List.cons_append, ← htail]
        exact relined_append ending [c] cs
      have hd : isSpace d = true := hspaces d (by rw [htail]; exact List.mem_cons_self)
      rw [hsplit] at hrelined ⊢
      rw [readToken_of_isSpace hcont hspace, readToken_of_isSpace hrelined hd, ← hsplit]
      rfl
  | last off e he hspace =>
      subst he
      have hne : e ≠ '\n' := ne_newline_of_isBreak (isBreak_eq_false_of_isSpace hspace)
      rw [relined_cons_of_ne hne, relined_nil, readToken_last hspace, readToken_last hspace,
        ← h.succ_of_ne hne]
      rfl
  | pair off e d cs he hspace hcont ih =>
      subst he
      have hne : e ≠ '\n' := ne_newline_of_isBreak (isBreak_eq_false_of_isSpace hspace)
      have hd : d ≠ '\n' := ne_newline_of_isBreak (isBreak_eq_false_of_continuation?_eq_none hcont)
      have hrelined := continuation?_relined_eq_none hesc hcont
      have hsecond := h.of_cons.succ_of_ne hd
      rw [relined_cons_of_ne hne, relined_cons_of_ne hd] at hrelined ⊢
      rw [readToken_pair hcont hspace, readToken_pair hrelined hspace, ← h.succ_of_ne hne,
        show φ off + 2 = φ off + 1 + 1 from rfl, ← h.succ_of_ne hne, ← hsecond,
        ih h.of_cons.of_cons]
      rfl
  | char off c cs hcont hspace he ih =>
      have hne : c ≠ '\n' := ne_newline_of_isBreak (isBreak_eq_false_of_isSpace hspace)
      have hrelined := continuation?_relined_eq_none hesc hcont
      rw [relined_cons_of_ne hne] at hrelined ⊢
      rw [readToken_cons hcont hspace he, readToken_cons hrelined hspace he, ← h.succ_of_ne hne,
        ih h.of_cons]
      rfl

/-- A token reaches as far. -/
theorem readToken_reach_relocate (hesc : esc.Suits ending) (h : Relines ending φ off cs) :
    (readToken esc (φ off) (relined ending cs)).reach (φ off) =
      φ ((readToken esc off cs).reach off) := by
  rw [readToken_relocate hesc h]
  apply Reading.relocate_reach
  intro p hp
  obtain ⟨hbreak, rest, honward⟩ := readToken_taken_onward esc off cs p hp
  exact h.succ_of_onward honward hbreak

/-- Arguments move with their text, and keep their values. -/
theorem argumentsFrom_relocate (hesc : esc.Suits ending) (h : Relines ending φ off cs) :
    argumentsFrom esc (φ off) (relined ending cs) =
      (argumentsFrom esc off cs).map (Argument.relocate φ) := by
  induction off, cs using arguments_induction esc with
  | nil off cs hgap =>
      have hgap' : (readGap esc (φ off) (relined ending cs)).rest = [] := by
        rw [(readGap_relocate hesc h).2, hgap]
        rfl
      rw [argumentsFrom_of_nil hgap, argumentsFrom_of_nil hgap']
      rfl
  | cons off cs c rest hgap ih =>
      obtain ⟨hstop, hrest⟩ := readGap_relocate hesc h
      obtain ⟨-, hspace⟩ := readWhile_rest_head hgap
      have hne : c ≠ '\n' := ne_newline_of_isBreak (isBreak_eq_false_of_isSpace hspace)
      rw [hgap, relined_cons_of_ne hne] at hrest
      have hfront := onward_readGap esc off cs
      rw [hgap] at hfront
      have hstart := h.of_onward hfront
      have htoken := readToken_relocate hesc hstart
      have hreach := readToken_reach_relocate hesc hstart
      have hbehind := hstart.of_onward (onward_readToken esc _ _)
      rw [relined_cons_of_ne hne] at htoken hreach
      rw [argumentsFrom_of_cons hgap, argumentsFrom_of_cons hrest, hstop]
      simp only [hreach]
      rw [htoken, Reading.relocate_text, Reading.relocate_stop, Reading.relocate_rest, ih hbehind]
      rfl

/-- White space at the head of a text is no argument. -/
theorem argumentsPresent_append_spaces {finish : Nat} (hesc : esc.Visible) (off : Nat)
    {spaces : List Char} (hspaces : ∀ c ∈ spaces, isSpace c = true) (cs : List Char) :
    argumentsPresent esc finish off (spaces ++ cs) =
      argumentsPresent esc finish (off + spaces.length) cs := by
  induction spaces generalizing off with
  | nil => rfl
  | cons c spaces ih =>
      have hc := hspaces c List.mem_cons_self
      rw [List.cons_append, argumentsPresent_cons (hesc.continuation?_eq_none _ hc), if_pos hc,
        ih (off + 1) fun d hd => hspaces d (List.mem_cons_of_mem c hd), List.length_cons,
        Nat.add_comm spaces.length, ← Nat.add_assoc]

/-- Whether there are arguments is a matter of where the document ends, and that goes
along. -/
theorem argumentsPresent_relocate {finish finish' : Nat} (hesc : esc.Suits ending)
    (h : Relines ending φ off cs)
    (hfinish : ∀ stop rest, Onward off cs stop rest → (finish' ≤ φ stop ↔ finish ≤ stop)) :
    argumentsPresent esc finish' (φ off) (relined ending cs) =
      argumentsPresent esc finish off cs := by
  induction off, cs using splicing_induction esc with
  | splice off cs n rest hcont ih =>
      have honward := onward_of_continuation? off hcont
      obtain ⟨m, hrelined, hm⟩ := h.continuation? hesc hcont
      rw [argumentsPresent_of_continuation? hcont, argumentsPresent_of_continuation? hrelined, ← hm,
        ih (h.of_onward honward) fun stop tail htail => hfinish stop tail (honward.trans htail)]
      simp only [hfinish _ _ honward]
  | nil off => simp
  | char off c cs hcont ih =>
      rw [argumentsPresent_cons hcont]
      cases hc : isSpace c with
      | true =>
          have hrest := ih h.of_cons fun stop tail htail => hfinish stop tail (htail.cons c)
          rw [if_pos rfl, ← hrest]
          rcases hesc with rfl | hesc
          · have hmoved := continuation?_relined_eq_none (.inl rfl) hcont
            rw [relined_cons (.inl rfl)] at hmoved ⊢
            rw [argumentsPresent_cons hmoved, if_pos hc, h.succ_of_kept (.inl rfl)]
          · have hspaces := (relined_singleton_spaces ending hc).2
            have hsplit : relined ending (c :: cs) = relined ending [c] ++ relined ending cs :=
              relined_append ending [c] cs
            rw [hsplit, argumentsPresent_append_spaces hesc _ hspaces, ← h.succ]
      | false =>
          have hne : c ≠ '\n' := ne_newline_of_isBreak (isBreak_eq_false_of_isSpace hc)
          have hrelined := continuation?_relined_eq_none hesc hcont
          rw [relined_cons_of_ne hne] at hrelined ⊢
          rw [argumentsPresent_cons hrelined, hc]
          rfl

/-! ## Lists -/

namespace ArrayState

/-- A state that is moved is in a string if the state is. -/
@[simp] theorem relocate_inString (s : ArrayState) : (s.relocate φ).inString = s.inString := rfl

/-- A step in a string moves with its place. -/
theorem relocate_insideString (s : ArrayState) (off : Nat) (c : Char) :
    (s.relocate φ).insideString (φ off) c = (s.insideString off c).relocate φ := by
  unfold insideString
  repeat' split
  all_goals rfl

/-- So does a step between strings. -/
theorem relocate_betweenStrings (s : ArrayState) (off : Nat) (c : Char) :
    (s.relocate φ).betweenStrings (φ off) c = (s.betweenStrings off c).relocate φ := by
  unfold betweenStrings
  repeat' split
  · rfl
  · rfl
  · rfl
  · rfl
  · cases hfault : s.fault <;> simp [relocate, hfault]

/-- What is reported at the last place moves with it. -/
theorem relocate_or_last (s : ArrayState) (b : Bool) :
    (s.relocate φ).fault.or (if b then some (s.relocate φ).last else none) =
      (s.fault.or (if b then some s.last else none)).map φ := by
  cases hfault : s.fault <;> cases b <;> simp [relocate, hfault]

/-- So does what is reported at a line break. -/
theorem relocate_faultAtBreak (s : ArrayState) :
    (s.relocate φ).faultAtBreak = s.faultAtBreak.map φ := by
  rw [faultAtBreak_eq, faultAtBreak_eq]
  exact s.relocate_or_last (!s.closed)

/-- So does what is reported at the end of the text. -/
theorem relocate_faultAtEnd (s : ArrayState) :
    (s.relocate φ).faultAtEnd = s.faultAtEnd.map φ :=
  s.relocate_or_last (s.inString || !s.closed)

/-- Where a list meets a continuation, it meets it with other line endings. -/
theorem relocate_continuation? {s : ArrayState} {n : Nat} {rest : List Char}
    (hesc : esc.Suits ending) (h : Relines ending φ off cs) (hcont : s.continuation? esc cs = some (n, rest)) :
    ∃ m, (s.relocate φ).continuation? esc (relined ending cs) = some (m, relined ending rest) ∧
      φ (off + n) = φ off + m := by
  obtain ⟨hout, hcont⟩ := continuation?_eq_some hcont
  obtain ⟨m, hrelined, hm⟩ := h.continuation? hesc hcont
  refine ⟨m, ?_, hm⟩
  unfold continuation?
  rw [relocate_inString, hout]
  exact hrelined

/-- A walk that meets no continuation meets none in the moved text. -/
theorem relocate_continuation?_eq_none {s : ArrayState} (φ : Nat → Nat)
    (hesc : esc.Suits ending) (hcont : s.continuation? esc cs = none) :
    (s.relocate φ).continuation? esc (relined ending cs) = none := by
  unfold continuation? at hcont ⊢
  rw [relocate_inString]
  split
  · rfl
  · rename_i hout
    rw [if_neg hout] at hcont
    exact continuation?_relined_eq_none hesc hcont

end ArrayState

/-- The walk along a list moves with its text. -/
theorem walkArray_relocate (hesc : esc.Suits ending) (s : ArrayState)
    (h : Relines ending φ off cs) :
    walkArray esc (s.relocate φ) (φ off) (relined ending cs) =
      (walkArray esc s off cs).relocate (relined ending) φ := by
  fun_induction walkArray esc s off cs with
  | case1 s off cs n rest hcont ih =>
      obtain ⟨m, hrelined, hm⟩ := ArrayState.relocate_continuation? hesc h hcont
      have honward := onward_of_continuation? off (ArrayState.continuation?_eq_some hcont).2
      rw [walkArray_of_continuation? hrelined, ← hm, ih (h.of_onward honward)]
  | case2 s off =>
      rw [relined_nil, walkArray_nil, ArrayState.relocate_faultAtEnd]
      rfl
  | case3 s off c cs hcont hc =>
      have hrelined := ArrayState.relocate_continuation?_eq_none φ hesc hcont
      obtain ⟨d, tail, htail, hd⟩ := relined_cons_of_isBreak ending hc cs
      rw [htail] at hrelined ⊢
      rw [walkArray_cons hrelined, if_pos hd, ArrayState.relocate_faultAtBreak, ← htail]
      rfl
  | case4 s off c cs hcont hc hstring ih =>
      have hrelined := ArrayState.relocate_continuation?_eq_none φ hesc hcont
      have hne : c ≠ '\n' := ne_newline_of_isBreak (by simpa using hc)
      rw [relined_cons_of_ne hne] at hrelined ⊢
      rw [walkArray_cons hrelined, if_neg hc, ArrayState.relocate_inString, if_pos hstring,
        ArrayState.relocate_insideString, ← h.succ_of_ne hne, ih h.of_cons]
  | case5 s off c cs hcont hc hstring hdue =>
      have hrelined := ArrayState.relocate_continuation?_eq_none φ hesc hcont
      have hne : c ≠ '\n' := ne_newline_of_isBreak (by simpa using hc)
      have hdue' : c = '"' ∧ (s.relocate φ).commaDue = true ∧ (s.relocate φ).fault = none :=
        ⟨hdue.1, hdue.2.1, by simp [ArrayState.relocate, hdue.2.2]⟩
      rw [relined_cons_of_ne hne] at hrelined ⊢
      rw [walkArray_cons hrelined, if_neg hc, ArrayState.relocate_inString, if_neg hstring,
        if_pos hdue', ← relined_cons_of_ne hne]
      rfl
  | case6 s off c cs hcont hc hstring hdue ih =>
      have hrelined := ArrayState.relocate_continuation?_eq_none φ hesc hcont
      have hne : c ≠ '\n' := ne_newline_of_isBreak (by simpa using hc)
      have hdue' : ¬(c = '"' ∧ (s.relocate φ).commaDue = true ∧ (s.relocate φ).fault = none) := by
        simpa [ArrayState.relocate] using hdue
      rw [relined_cons_of_ne hne] at hrelined ⊢
      rw [walkArray_cons hrelined, if_neg hc, ArrayState.relocate_inString, if_neg hstring,
        if_neg hdue', ArrayState.relocate_betweenStrings, ← h.succ_of_ne hne, ih h.of_cons]

/-- The verdict on a list moves with its text. -/
theorem checkArrayBody_relocate (hesc : esc.Suits ending) (opening : Bool)
    (h : Relines ending φ off cs) :
    checkArrayBody esc opening (φ off) (relined ending cs) =
      (checkArrayBody esc opening off cs).relocate (relined ending) φ := by
  fun_induction checkArrayBody esc opening off cs with
  | case1 opening off cs n rest hcont ih =>
      obtain ⟨m, hrelined, hm⟩ := h.continuation? hesc hcont
      rw [checkArrayBody_of_continuation? hrelined, ← hm,
        ih (h.of_onward (onward_of_continuation? off hcont))]
  | case2 opening off =>
      rw [relined_nil, checkArrayBody_nil]
      rfl
  | case3 opening off c cs hcont hc =>
      have hrelined := continuation?_relined_eq_none hesc hcont
      obtain ⟨d, tail, htail, hd⟩ := relined_cons_of_isBreak ending hc cs
      rw [htail] at hrelined ⊢
      rw [checkArrayBody_cons hrelined, if_pos hd, ← htail]
      rfl
  | case4 opening off c cs hcont hc hopen =>
      have hrelined := continuation?_relined_eq_none hesc hcont
      have hne : c ≠ '\n' := ne_newline_of_isBreak (by simpa using hc)
      rw [relined_cons_of_ne hne] at hrelined ⊢
      rw [checkArrayBody_cons hrelined, if_neg hc, if_pos hopen]
      unfold checkArray
      rw [← h.succ_of_ne hne, ← walkArray_relocate hesc _ h.of_cons]
      rfl
  | case5 opening off c cs hcont hc hopen ih =>
      have hrelined := continuation?_relined_eq_none hesc hcont
      have hne : c ≠ '\n' := ne_newline_of_isBreak (by simpa using hc)
      rw [relined_cons_of_ne hne] at hrelined ⊢
      rw [checkArrayBody_cons hrelined, if_neg hc, if_neg hopen, ← h.succ_of_ne hne,
        ih h.of_cons]

/-! ## The parser -/

/-- What is left of a text behind a place, with other line endings. -/
theorem Relines.drop_relined (h : Relines ending φ off cs) {stop : Nat} {rest : List Char}
    (honward : Onward off cs stop rest) :
    (relined ending cs).drop (φ stop - φ off) = relined ending rest ∧
      (relined ending cs).take (φ stop - φ off) = relined ending (cs.take (stop - off)) := by
  obtain ⟨passed, rfl, rfl⟩ := honward
  rw [h.place passed rest rfl, Nat.add_sub_cancel_left, Nat.add_sub_cancel_left, relined_append,
    List.take_left, List.take_left]
  exact ⟨List.drop_left, rfl⟩

/-- An instruction moves with its text. -/
theorem readInstruction_relocate (hesc : esc.Suits ending) (h : Relines ending φ off cs) :
    readInstruction esc (φ off) (relined ending cs) =
      (readInstruction esc off cs).relocate (relined ending) φ := by
  unfold readInstruction
  simp only [readWord_reach_relocate hesc h]
  rw [readWord_relocate hesc h, readLine_relocate hesc h, Reading.relocate_text,
    Reading.relocate_stop, (h.drop_relined (onward_readLine esc off cs)).2]
  rfl

/-- The text of the arguments, with other line endings. -/
theorem argumentsText_relocate (h : Relines ending φ off cs)
    (hword : (readWord esc off cs).taken ≠ []) :
    let i := readInstruction esc off cs
    Relines ending φ i.nameSpan.stop i.argumentsText ∧
      (i.relocate (relined ending) φ).argumentsText = relined ending i.argumentsText := by
  intro i
  obtain ⟨-, -, hname, hstop, hend⟩ := readInstruction_within hword
  have hcontent : Relines ending φ off i.content := h.take _
  have hlength : i.content.length = i.span.stop - off :=
    List.length_take_of_le (show i.span.stop - off ≤ cs.length from Nat.sub_le_iff_le_add'.mpr hend)
  have honward : Onward off i.content i.nameSpan.stop i.argumentsText := by
    refine ⟨i.content.take (i.nameSpan.stop - off), (List.take_append_drop _ _).symm, ?_⟩
    rw [List.length_take, hlength, Nat.min_eq_left (Nat.sub_le_sub_right hstop off),
      Nat.add_sub_cancel' (Nat.le_of_lt hname)]
  exact ⟨hcontent.of_onward honward, (hcontent.drop_relined honward).1⟩

/-- White space at the head of a text is gone past. -/
theorem instructionsFrom_append_spaces (esc : Escape) (off : Nat) {spaces : List Char}
    (hspaces : ∀ c ∈ spaces, isSpace c = true) (cs : List Char) :
    instructionsFrom esc off (spaces ++ cs) = instructionsFrom esc (off + spaces.length) cs := by
  induction spaces generalizing off with
  | nil => rfl
  | cons c spaces ih =>
      rw [List.cons_append, instructionsFrom_of_isSpace (hspaces c List.mem_cons_self),
        ih (off + 1) fun d hd => hspaces d (List.mem_cons_of_mem c hd), List.length_cons,
        Nat.add_comm spaces.length, ← Nat.add_assoc]

/-- The instructions of a text move with it. -/
theorem instructionsFrom_relocate (hesc : esc.Suits ending) (h : Relines ending φ off cs) :
    instructionsFrom esc (φ off) (relined ending cs) =
      (instructionsFrom esc off cs).map (Instruction.relocate (relined ending) φ) := by
  induction off, cs using parsing_induction esc with
  | nil off => simp
  | space off c cs hspace ih =>
      have hspaces := (relined_singleton_spaces ending hspace).2
      have hsplit : relined ending (c :: cs) = relined ending [c] ++ relined ending cs :=
        relined_append ending [c] cs
      rw [hsplit, instructionsFrom_append_spaces esc _ hspaces, ← h.succ,
        instructionsFrom_of_isSpace hspace, ih h.of_cons]
  | comment off cs ih =>
      have hline := readLine_relocate hesc h
      rw [relined_cons_of_ne (by decide)] at hline ⊢
      rw [instructionsFrom_of_mark, instructionsFrom_of_mark, hline]
      exact ih (h.of_onward (onward_readLine esc off _))
  | joint off c cs hspace hmark hword ih =>
      have hne : c ≠ '\n' := ne_newline_of_isBreak (isBreak_eq_false_of_isSpace hspace)
      have hread := readWord_relocate hesc h
      rw [relined_cons_of_ne hne] at hread ⊢
      have hword' : (readWord esc (φ off) (c :: relined ending cs)).taken = [] := by
        rw [hread, Reading.relocate_taken_eq_nil]
        exact hword
      rw [instructionsFrom_of_joint hspace hmark hword,
        instructionsFrom_of_joint hspace hmark hword', hread]
      exact ih (h.of_onward (onward_readWord esc off _))
  | word off c cs hspace hmark hword ih =>
      have hne : c ≠ '\n' := ne_newline_of_isBreak (isBreak_eq_false_of_isSpace hspace)
      have hread := readWord_relocate hesc h
      have hline := readLine_relocate hesc h
      have hinstruction := readInstruction_relocate hesc h
      rw [relined_cons_of_ne hne] at hread hline hinstruction ⊢
      have hword' : (readWord esc (φ off) (c :: relined ending cs)).taken ≠ [] := by
        rw [hread, ne_eq, Reading.relocate_taken_eq_nil]
        exact hword
      rw [instructionsFrom_of_word hspace hmark hword,
        instructionsFrom_of_word hspace hmark hword', hinstruction, hline, List.map_cons]
      exact congrArg _ (ih (h.of_onward (onward_readLine esc off _)))

/-! ## The scan -/

variable {keywords : List String}

/-- What became of an instruction moves with its places. -/
@[simp] theorem BodyScan.relocate_outcome (b : BodyScan) :
    (b.relocate θ φ).outcome = b.outcome.relocate φ := rfl

/-- The scan of an instruction stops where its stop goes. -/
@[simp] theorem BodyScan.relocate_stop (b : BodyScan) : (b.relocate θ φ).stop = φ b.stop := rfl

/-- It leaves the moved text. -/
@[simp] theorem BodyScan.relocate_rest (b : BodyScan) : (b.relocate θ φ).rest = θ b.rest := rfl

/-- A scan moves visit by visit. -/
theorem Scan.relocate_cons (v : Visit) (s : Scan) :
    (s.cons v).relocate φ = (s.relocate φ).cons (v.relocate φ) := rfl

/-- An instruction has the same form wherever its text is moved. -/
theorem visitForm_relocate (hesc : esc.Suits ending) (keywords : List String)
    (h : Relines ending φ off cs) :
    visitForm esc keywords (φ off) (relined ending cs) = visitForm esc keywords off cs := by
  unfold visitForm
  rw [readWord_relocate hesc h, Reading.relocate_text]

/-- The scan of a body moves with its text. -/
theorem scanBody_relocate (hesc : esc.Suits ending) (form : BodyForm)
    (h : Relines ending φ off cs) :
    scanBody esc form (φ off) (relined ending cs) =
      (scanBody esc form off cs).relocate (relined ending) φ := by
  cases form with
  | skipLine =>
      simp only [scanBody, readLine_relocate hesc h]
      rfl
  | stringArray =>
      simp only [scanBody, checkArrayBody_relocate hesc true h]
      rfl
  | requireContent =>
      simp only [scanBody, readLine_relocate hesc h]
      simp only [Reading.relocate, List.any_map, BodyScan.relocate, VisitOutcome.relocate]
      rfl

/-- So does the visit of an instruction. -/
theorem visitBody_relocate (hesc : esc.Suits ending) (keywords : List String)
    (h : Relines ending φ off cs) :
    visitBody esc keywords (φ off) (relined ending cs) =
      (visitBody esc keywords off cs).relocate (relined ending) φ := by
  unfold visitBody
  rw [visitForm_relocate hesc keywords h, readWord_relocate hesc h]
  cases visitForm esc keywords off cs with
  | none => rfl
  | some form => exact scanBody_relocate hesc form (h.of_onward (onward_readWord esc off cs))

/-- A visit that reads its keyword moves with its text. -/
theorem readVisit_relocate (hesc : esc.Suits ending) (keywords : List String)
    (h : Relines ending φ off cs) :
    readVisit esc keywords (φ off) (relined ending cs) =
      (readVisit esc keywords off cs).relocate φ := by
  unfold readVisit
  simp only [visitBody_relocate hesc keywords h, readWord_relocate hesc h, Reading.relocate_text,
    Reading.relocate_stop, BodyScan.relocate_outcome, BodyScan.relocate_stop, Visit.relocate]

/-- White space at the head of a text is gone past. -/
theorem scanFrom_append_spaces (esc : Escape) (keywords : List String) (off : Nat)
    {spaces : List Char} (hspaces : ∀ c ∈ spaces, isSpace c = true) (cs : List Char) :
    scanFrom esc keywords off (spaces ++ cs) =
      scanFrom esc keywords (off + spaces.length) cs := by
  induction spaces generalizing off with
  | nil => rfl
  | cons c spaces ih =>
      rw [List.cons_append, scanFrom_of_isSpace (hspaces c List.mem_cons_self),
        ih (off + 1) fun d hd => hspaces d (List.mem_cons_of_mem c hd), List.length_cons,
        Nat.add_comm spaces.length, ← Nat.add_assoc]

/-- The first line stays what it is, and the text behind it is the same with other line
endings. -/
theorem firstLine_relined (ending : LineEnding) (cs : List Char) :
    firstLine (relined ending cs) = firstLine cs ∧
      afterFirstLine (relined ending cs) = relined ending (afterFirstLine cs) := by
  induction cs with
  | nil => exact ⟨rfl, rfl⟩
  | cons c cs ih =>
      cases hc : isBreak c with
      | true =>
          obtain ⟨d, tail, htail, hd⟩ := relined_cons_of_isBreak ending hc cs
          have hafter : afterFirstLine (c :: cs) = c :: cs := by
            simp [afterFirstLine, hc]
          rw [hafter, htail]
          simp [firstLine, afterFirstLine, hc, hd]
      | false =>
          rw [relined_cons_of_ne (ne_newline_of_isBreak hc)]
          simp only [firstLine, afterFirstLine] at ih ⊢
          simp [hc, ih]

/-- Up to the end of the first line places are as far apart. -/
theorem Relines.add_of_le_firstLine (h : Relines ending φ off cs) {count : Nat}
    (hcount : count ≤ (firstLine cs).length) : φ (off + count) = φ off + count := by
  have hline : ∀ c ∈ (firstLine cs).take count, isBreak c = false :=
    fun c hc => isBreak_eq_false_of_mem_firstLine (List.mem_of_mem_take hc)
  have hlength : ((firstLine cs).take count).length = count := List.length_take_of_le hcount
  have hplace := h.place ((firstLine cs).take count)
    ((firstLine cs).drop count ++ afterFirstLine cs) (by
      rw [← List.append_assoc, List.take_append_drop, firstLine_append_afterFirstLine])
  rwa [relined_of_no_break hline, hlength] at hplace

/-- The scan moves with its text. -/
theorem scanFrom_relocate (hesc : esc.Suits ending) (keywords : List String)
    (h : Relines ending φ off cs) :
    scanFrom esc keywords (φ off) (relined ending cs) =
      (scanFrom esc keywords off cs).relocate φ := by
  induction off, cs using scanning_induction esc keywords with
  | nil off => simp [Scan.relocate]
  | space off c cs hspace ih =>
      have hspaces := (relined_singleton_spaces ending hspace).2
      have hsplit : relined ending (c :: cs) = relined ending [c] ++ relined ending cs :=
        relined_append ending [c] cs
      rw [hsplit, scanFrom_append_spaces esc keywords _ hspaces, ← h.succ,
        scanFrom_of_isSpace hspace, ih h.of_cons]
  | comment off cs ih =>
      have honward := onward_afterFirstLine off ('#' :: cs)
      obtain ⟨hfirst, hafter⟩ := firstLine_relined ending ('#' :: cs)
      have hplace := h.add_of_le_firstLine (Nat.le_refl _)
      rw [relined_cons_of_ne (by decide)] at hfirst hafter ⊢
      rw [scanFrom_of_mark, scanFrom_of_mark, hfirst, hafter, ← hplace]
      exact ih (h.of_onward honward)
  | joint off c cs hspace hmark hword ih =>
      have hne : c ≠ '\n' := ne_newline_of_isBreak (isBreak_eq_false_of_isSpace hspace)
      have hread := readWord_relocate hesc h
      rw [relined_cons_of_ne hne] at hread ⊢
      have hword' : (readWord esc (φ off) (c :: relined ending cs)).taken = [] := by
        rw [hread, Reading.relocate_taken_eq_nil]
        exact hword
      rw [scanFrom_of_joint hspace hmark hword, scanFrom_of_joint hspace hmark hword', hread]
      exact ih (h.of_onward (onward_readWord esc off _))
  | unknown off c cs hspace hmark hword hform =>
      have hne : c ≠ '\n' := ne_newline_of_isBreak (isBreak_eq_false_of_isSpace hspace)
      have hread := readWord_relocate hesc h
      have hvisit := readVisit_relocate hesc keywords h
      have hform' := (visitForm_relocate hesc keywords h).trans hform
      rw [relined_cons_of_ne hne] at hread hvisit hform' ⊢
      have hword' : (readWord esc (φ off) (c :: relined ending cs)).taken ≠ [] := by
        rw [hread, ne_eq, Reading.relocate_taken_eq_nil]
        exact hword
      rw [scanFrom_of_unknown hspace hmark hword hform,
        scanFrom_of_unknown hspace hmark hword' hform', hvisit, hread]
      rfl
  | word off c cs hspace hmark hword hform ih =>
      have hne : c ≠ '\n' := ne_newline_of_isBreak (isBreak_eq_false_of_isSpace hspace)
      have hread := readWord_relocate hesc h
      have hvisit := readVisit_relocate hesc keywords h
      have hbody := visitBody_relocate hesc keywords h
      have hform' := visitForm_relocate hesc keywords h
      have honward := onward_visitBody esc keywords off (c :: cs)
      rw [relined_cons_of_ne hne] at hread hvisit hbody hform' ⊢
      have hword' : (readWord esc (φ off) (c :: relined ending cs)).taken ≠ [] := by
        rw [hread, ne_eq, Reading.relocate_taken_eq_nil]
        exact hword
      rw [scanFrom_of_word hspace hmark hword hform,
        scanFrom_of_word hspace hmark hword' (by rw [hform']; exact hform), hvisit, hbody,
        BodyScan.relocate_stop, BodyScan.relocate_rest, ih (h.of_onward honward),
        Scan.relocate_cons]

/-- The findings of a visit move with it, where the offset behind each is still one further. -/
theorem Visit.relocate_findings {v : Visit}
    (h : ∀ f ∈ v.findings, φ (f.span.start + 1) = φ f.span.start + 1) :
    (v.relocate φ).findings = v.findings.map (Finding.relocate φ) := by
  unfold Visit.findings at h ⊢
  unfold Visit.relocate
  cases hv : v.outcome with
  | array fault =>
      cases fault with
      | none => rfl
      | some place =>
          rw [hv] at h
          have hplace := h ⟨.unexpectedToken, ⟨place, place + 1⟩⟩ List.mem_cons_self
          simp only at hplace
          simp [VisitOutcome.relocate, Finding.relocate, Span.relocate, hplace]
  | unknown => rfl
  | skipped => rfl
  | content found => rfl

/-- So do those of a scan. -/
theorem Scan.relocate_findings {s : Scan}
    (h : ∀ f ∈ s.findings, φ (f.span.start + 1) = φ f.span.start + 1) :
    (s.relocate φ).findings = s.findings.map (Finding.relocate φ) := by
  unfold Scan.findings Scan.relocate at *
  rw [List.flatMap_map, List.map_flatMap, List.flatMap_def, List.flatMap_def]
  refine congrArg List.flatten (List.map_congr_left fun v hv => ?_)
  exact v.relocate_findings fun f hf => h f (List.mem_flatMap.mpr ⟨v, hv, hf⟩)

/-! ## The checks -/

/-- What is said of the first instruction is said of it elsewhere.  Where there is none it is
said of the head of the text, which has to stay there. -/
theorem checkSourceImage_relocate {instructions : List Instruction}
    (hzero : instructions = [] → φ 0 = 0) :
    checkSourceImage (instructions.map (Instruction.relocate θ φ)) =
      (checkSourceImage instructions).map (Finding.relocate φ) := by
  cases instructions with
  | nil => simp [checkSourceImage, Finding.relocate, Span.relocate, hzero rfl]
  | cons first others =>
      have hkeyword : (first.relocate θ φ).keyword = first.keyword := rfl
      simp only [List.map_cons, checkSourceImage, hkeyword]
      split <;> rfl

end DockerfileLint
