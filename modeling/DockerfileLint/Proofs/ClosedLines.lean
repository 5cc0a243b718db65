import DockerfileLint.Proofs.Seams

/-!
# Texts whose last line is closed

The end of a text is a safe place to append to if the text ends in a line break
and that break is not part of a continuation: no reader that stops at line breaks
goes past it, whatever comes behind.  Such a text is *closed*, and so is the
empty one.  Every ending of a closed text is closed again, which is what lets a
reader be followed step by step.
-/

namespace DockerfileLint

/-- The text is empty, or ends in a line break, and no continuation runs up to its
end. -/
def linesClosed (esc : Escape) : List Char → Bool
  | [] => true
  | c :: cs =>
    (if cs = [] then isBreak c else linesClosed esc cs) &&
      (continuation? esc (c :: cs)).all fun (_, rest) => rest ≠ []

variable {esc : Escape} {keep : Char → Bool}

/-- A text without lines is closed. -/
@[simp] theorem linesClosed_nil : linesClosed esc [] = true := rfl

/-- A closed text, from its first character on. -/
theorem linesClosed_cons {c : Char} {cs : List Char} :
    linesClosed esc (c :: cs) = true ↔
      (cs = [] → isBreak c = true) ∧ linesClosed esc cs = true ∧
        ∀ n rest, continuation? esc (c :: cs) = some (n, rest) → rest ≠ [] := by
  cases cs with
  | nil => rcases h : continuation? esc [c] with _ | ⟨n, rest⟩ <;> simp [linesClosed, h]
  | cons d cs =>
      rcases h : continuation? esc (c :: d :: cs) with _ | ⟨n, rest⟩ <;>
        simp [linesClosed.eq_2 esc c, h]

/-- What is left of a closed text behind its first character is closed. -/
theorem linesClosed_of_cons {c : Char} {cs : List Char} (h : linesClosed esc (c :: cs) = true) :
    linesClosed esc cs = true :=
  (linesClosed_cons.mp h).2.1

/-- Every ending of a closed text is closed. -/
theorem linesClosed_of_suffix {cs rest : List Char} (hsuffix : rest <:+ cs)
    (h : linesClosed esc cs = true) : linesClosed esc rest = true := by
  obtain ⟨passed, rfl⟩ := hsuffix
  induction passed with
  | nil => exact h
  | cons c passed ih => exact ih (linesClosed_of_cons h)

/-- A character that is no break leaves something of a closed text behind it. -/
theorem ne_nil_of_linesClosed_cons {c : Char} {cs : List Char}
    (h : linesClosed esc (c :: cs) = true) (hc : isBreak c = false) : cs ≠ [] := by
  intro hnil
  rw [(linesClosed_cons.mp h).1 hnil] at hc
  cases hc

/-- No continuation ends a closed text. -/
theorem ne_nil_of_continuation? {cs rest : List Char} {n : Nat}
    (hclosed : linesClosed esc cs = true) (h : continuation? esc cs = some (n, rest)) :
    rest ≠ [] := by
  cases cs with
  | nil => cases h
  | cons c cs => exact (linesClosed_cons.mp hclosed).2.2 n rest h

/-- The last line of a closed text does not run on into what is appended. -/
theorem continuation?_append {cs : List Char} (hesc : esc.Visible)
    (hclosed : linesClosed esc cs = true) (hne : cs ≠ []) (more : List Char) :
    continuation? esc (cs ++ more) =
      (continuation? esc cs).map fun (n, rest) => (n, rest ++ more) := by
  obtain ⟨c, tail, rfl⟩ := List.exists_cons_of_ne_nil hne
  by_cases hc : esc = some c
  · subst hc
    have htail : tail ≠ [] :=
      ne_nil_of_linesClosed_cons hclosed (isBreak_eq_false_of_isSpace (hesc c rfl))
    obtain ⟨d, tail, rfl⟩ := List.exists_cons_of_ne_nil htail
    simp only [continuation?, List.cons_append, if_true]
    cases hd : isBreak d with
    | false => simp [lineBreak?_eq_none hd]
    | true =>
        obtain ⟨⟨m, rest⟩, hm⟩ := Option.isSome_iff_exists.mp (lineBreak?_isSome tail hd)
        have hrest : rest ≠ [] := ne_nil_of_continuation? hclosed
          (continuation?_eq_some.mpr ⟨c, d :: tail, m, rfl, rfl, hm, rfl⟩)
        rw [hm]
        rcases lineBreak?_cases hm with ⟨rfl, heq⟩ | ⟨rfl, heq, hhead⟩ | ⟨rfl, heq⟩
        · cases heq
          rfl
        · cases heq
          obtain ⟨x, more', rfl⟩ := List.exists_cons_of_ne_nil hrest
          have hbreak : lineBreak? ('\r' :: x :: (more' ++ more)) =
              some (1, x :: (more' ++ more)) :=
            lineBreak?_return (by simpa using hhead)
          rw [List.cons_append, hbreak]
          rfl
        · cases heq
          rfl
  · simp [continuation?, hc]

/-- Where no continuation starts in a closed text, none does with more behind it. -/
theorem continuation?_cons_append {c : Char} {cs : List Char} (hesc : esc.Visible)
    (hclosed : linesClosed esc (c :: cs) = true) (h : continuation? esc (c :: cs) = none)
    (more : List Char) : continuation? esc (c :: (cs ++ more)) = none := by
  have happend := continuation?_append hesc hclosed (List.cons_ne_nil c cs) more
  rw [h] at happend
  exact happend

/-- A movement that stops at line breaks leaves something of a closed text. -/
theorem readWhile_rest_ne_nil (hkeep : ∀ c, isBreak c = true → keep c = false) (off : Nat)
    {cs : List Char} (hclosed : linesClosed esc cs = true) (hne : cs ≠ []) :
    (readWhile esc keep off cs).rest ≠ [] := by
  induction off, cs using splicing_induction esc with
  | splice off cs n rest h ih =>
      rw [readWhile_of_continuation? h]
      exact ih (linesClosed_of_suffix (onward_of_continuation? off h).suffix hclosed)
        (ne_nil_of_continuation? hclosed h)
  | nil off => exact absurd rfl hne
  | char off c cs h ih =>
      cases hk : keep c with
      | true =>
          rw [readWhile_cons_of_keep h hk]
          have hc : isBreak c = false := by
            cases hb : isBreak c with
            | false => rfl
            | true => rw [hkeep c hb] at hk; cases hk
          exact ih (linesClosed_of_cons hclosed) (ne_nil_of_linesClosed_cons hclosed hc)
      | false =>
          rw [readWhile_cons_of_not_keep h hk]
          exact List.cons_ne_nil c cs

/-! ## Texts that nothing behind them changes -/

/-- A movement that stops at line breaks does not learn of `more` behind `cs`: no
continuation runs into it, and the line ends before it, with `cs` or with the break that
`more` starts with. -/
structure Sealed (esc : Escape) (cs more : List Char) : Prop where
  seam : Seam esc cs more
  stops : linesClosed esc cs = true ∨ ∃ b tail, more = b :: tail ∧ isBreak b = true

namespace Sealed

variable {cs rest more : List Char}

/-- A closed text is sealed against everything. -/
theorem of_closed (hesc : esc.Visible) (hclosed : linesClosed esc cs = true)
    (more : List Char) : Sealed esc cs more where
  seam := fun _ hsuffix hne =>
    continuation?_append hesc (linesClosed_of_suffix hsuffix hclosed) hne more
  stops := .inl hclosed

/-- What is sealed off is so from any place on. -/
theorem of_suffix (h : Sealed esc cs more) (hsuffix : rest <:+ cs) : Sealed esc rest more where
  seam := h.seam.of_suffix hsuffix
  stops := h.stops.imp_left (linesClosed_of_suffix hsuffix)

/-- What is sealed off is so behind its first character. -/
theorem of_cons {c : Char} (h : Sealed esc (c :: cs) more) : Sealed esc cs more :=
  h.of_suffix (List.suffix_cons c cs)

end Sealed

/-- A movement that stops at line breaks stops at a break behind the text if it comes
there. -/
theorem readWhile_append_break (hesc : esc.Visible)
    (hkeep : ∀ c, isBreak c = true → keep c = false) (off : Nat) {cs tail : List Char} {b : Char}
    (h : Seam esc cs (b :: tail)) (hb : isBreak b = true) :
    readWhile esc keep off (cs ++ b :: tail) =
      { readWhile esc keep off cs with
        rest := (readWhile esc keep off cs).rest ++ b :: tail } :=
  readWhile_append_of_stop off h fun _ =>
    readWhile_cons_of_not_keep (hesc.continuation?_eq_none tail (isSpace_of_isBreak hb))
      (hkeep b hb)

/-- A movement that stops at line breaks never learns what is behind a text that is
sealed. -/
theorem readWhile_append (hesc : esc.Visible) (hkeep : ∀ c, isBreak c = true → keep c = false)
    (off : Nat) {cs more : List Char} (h : Sealed esc cs more) (hne : cs ≠ []) :
    readWhile esc keep off (cs ++ more) =
      { readWhile esc keep off cs with rest := (readWhile esc keep off cs).rest ++ more } := by
  rcases h.stops with hclosed | ⟨b, tail, rfl, hb⟩
  · exact readWhile_append_of_rest_ne_nil h.seam (readWhile_rest_ne_nil hkeep off hclosed hne)
  · exact readWhile_append_break hesc hkeep off h.seam hb

/-! ## Physical lines -/

/-- The first line has no break. -/
theorem isBreak_eq_false_of_mem_firstLine {c : Char} {cs : List Char} (h : c ∈ firstLine cs) :
    isBreak c = false := by
  have hall := List.all_takeWhile (p := fun c => !isBreak c) (l := cs)
  simpa using List.all_eq_true.mp hall c h

/-- The first line and the text behind it make up the text. -/
theorem firstLine_append_afterFirstLine (cs : List Char) :
    firstLine cs ++ afterFirstLine cs = cs :=
  List.takeWhile_append_dropWhile

/-- The text behind the first line starts with a break. -/
theorem isBreak_of_afterFirstLine {c : Char} {cs more : List Char}
    (h : afterFirstLine cs = c :: more) : isBreak c = true := by
  have hhead := List.head?_dropWhile_not (fun c => !isBreak c) cs
  unfold afterFirstLine at h
  rw [h] at hhead
  simpa using hhead

/-- The text behind the first line is found behind its characters. -/
theorem onward_afterFirstLine (off : Nat) (cs : List Char) :
    Onward off cs (off + (firstLine cs).length) (afterFirstLine cs) :=
  ⟨firstLine cs, (firstLine_append_afterFirstLine cs).symm, rfl⟩

/-- A text that has a line break keeps its first line, whatever is appended. -/
theorem firstLine_append {cs : List Char} (h : cs.any isBreak = true) (more : List Char) :
    firstLine (cs ++ more) = firstLine cs ∧
      afterFirstLine (cs ++ more) = afterFirstLine cs ++ more := by
  induction cs with
  | nil => cases h
  | cons c cs ih =>
      simp only [firstLine, afterFirstLine] at ih ⊢
      cases hc : isBreak c with
      | true => simp [hc]
      | false =>
          have hcs : cs.any isBreak = true := by simpa [hc] using h
          simp [hc, ih hcs]

/-- A first line ends where breaks are put behind the text. -/
theorem firstLine_append_breaks {breaks : List Char} (hbreaks : ∀ c ∈ breaks, isBreak c = true)
    (cs : List Char) :
    firstLine (cs ++ breaks) = firstLine cs ∧
      afterFirstLine (cs ++ breaks) = afterFirstLine cs ++ breaks := by
  induction cs with
  | nil =>
      cases breaks with
      | nil => exact ⟨rfl, rfl⟩
      | cons b breaks => simp [firstLine, afterFirstLine, hbreaks b List.mem_cons_self]
  | cons c cs ih =>
      simp only [firstLine, afterFirstLine] at ih ⊢
      cases hc : isBreak c with
      | true => simp [hc]
      | false => simp [hc, ih]

/-- A closed text that is not empty ends in a break. -/
theorem linesClosed_getLast? {cs : List Char} (hclosed : linesClosed esc cs = true)
    (hne : cs ≠ []) : ∃ b, cs.getLast? = some b ∧ isBreak b = true := by
  induction cs with
  | nil => exact absurd rfl hne
  | cons c cs ih =>
      cases cs with
      | nil => exact ⟨c, rfl, (linesClosed_cons.mp hclosed).1 rfl⟩
      | cons d ds =>
          obtain ⟨b, hb, hbreak⟩ := ih (linesClosed_of_cons hclosed) (List.cons_ne_nil d ds)
          exact ⟨b, by simpa using hb, hbreak⟩

/-- A text that ends in a break has a break. -/
theorem any_isBreak_of_getLast? {cs : List Char}
    (h : ∃ b, cs.getLast? = some b ∧ isBreak b = true) : cs.any isBreak = true := by
  obtain ⟨b, hb, hbreak⟩ := h
  exact List.any_eq_true.mpr ⟨b, List.mem_of_getLast? hb, hbreak⟩

/-- The first line ends before the text does, if the text has a break. -/
theorem firstLine_length_lt {text : List Char} (h : text.any isBreak = true) :
    (firstLine text).length < text.length := by
  have hall := firstLine_append_afterFirstLine text
  have hafter : afterFirstLine text ≠ [] := by
    intro hnil
    rw [hnil, List.append_nil] at hall
    obtain ⟨b, hb, hbreak⟩ := List.any_eq_true.mp h
    rw [← hall] at hb
    rw [isBreak_eq_false_of_mem_firstLine hb] at hbreak
    cases hbreak
  have hpos := List.length_pos_iff.mpr hafter
  have hlength := congrArg List.length hall
  rw [List.length_append] at hlength
  omega

/-- A text is closed if it ends in a break, and no continuation ends with the text. -/
theorem linesClosed_iff {cs : List Char} :
    linesClosed esc cs = true ↔
      (cs ≠ [] → ∃ b, cs.getLast? = some b ∧ isBreak b = true) ∧
        ∀ tail n, tail <:+ cs → continuation? esc tail ≠ some (n, []) := by
  constructor
  · intro h
    refine ⟨linesClosed_getLast? h, ?_⟩
    intro tail n hsuffix hcont
    exact ne_nil_of_continuation? (linesClosed_of_suffix hsuffix h) hcont rfl
  · rintro ⟨hlast, hfree⟩
    induction cs with
    | nil => rfl
    | cons c cs ih =>
        obtain ⟨b, hb, hbreak⟩ := hlast (List.cons_ne_nil c cs)
        refine linesClosed_cons.mpr ⟨?_, ih ?_ ?_, ?_⟩
        · rintro rfl
          obtain rfl : c = b := Option.some.inj hb
          exact hbreak
        · intro hne
          obtain ⟨d, ds, rfl⟩ := List.exists_cons_of_ne_nil hne
          exact ⟨b, by simpa using hb, hbreak⟩
        · intro tail n hsuffix
          exact hfree tail n (hsuffix.trans (List.suffix_cons c cs))
        · rintro n rest hcont rfl
          exact hfree (c :: cs) n List.suffix_rfl hcont

/-! ## Where a logical line ends -/

/-- A character in front of a closed text leaves it closed, unless it makes a
continuation of it. -/
theorem linesClosed_cons_of_continuation?_eq_none {c : Char} {cs : List Char} (hne : cs ≠ [])
    (hclosed : linesClosed esc cs = true) (h : continuation? esc (c :: cs) = none) :
    linesClosed esc (c :: cs) = true := by
  refine linesClosed_cons.mpr ⟨fun hnil => absurd hnil hne, hclosed, fun n rest hsome => ?_⟩
  rw [h] at hsome
  cases hsome

/-- A single line break is closed. -/
theorem linesClosed_singleton (hesc : esc.Visible) {b : Char} (hb : isBreak b = true) :
    linesClosed esc [b] = true := by
  simp [linesClosed, hb, hesc.continuation?_eq_none [] (isSpace_of_isBreak hb)]

/-- Breaks in front of a closed text leave it closed. -/
theorem linesClosed_breaks_append (hesc : esc.Visible) {breaks cs : List Char}
    (hbreaks : ∀ c ∈ breaks, isBreak c = true) (hcs : linesClosed esc cs = true) :
    linesClosed esc (breaks ++ cs) = true := by
  induction breaks with
  | nil => exact hcs
  | cons c breaks ih =>
      have hc := hbreaks c List.mem_cons_self
      have hrest := ih fun d hd => hbreaks d (List.mem_cons_of_mem c hd)
      by_cases hnil : breaks ++ cs = []
      · rw [List.cons_append, hnil]
        exact linesClosed_singleton hesc hc
      · exact linesClosed_cons_of_continuation?_eq_none hnil hrest
          (hesc.continuation?_eq_none _ (isSpace_of_isBreak hc))

/-- Any text in front of a closed text leaves it closed, if no continuation runs across and
the closed text is not empty. -/
theorem linesClosed_append_of_seam {cs more : List Char} (h : Seam esc cs more) (hne : more ≠ [])
    (hmore : linesClosed esc more = true) : linesClosed esc (cs ++ more) = true := by
  induction cs with
  | nil => exact hmore
  | cons c cs ih =>
      have hbehind : cs ++ more ≠ [] := List.append_ne_nil_of_right_ne_nil cs hne
      rw [List.cons_append]
      refine linesClosed_cons.mpr ⟨fun hnil => absurd hnil hbehind, ih h.of_cons, ?_⟩
      intro n rest hcont
      have hcross := h (c :: cs) List.suffix_rfl (List.cons_ne_nil c cs)
      rw [List.cons_append, hcont] at hcross
      obtain ⟨⟨m, tail⟩, -, heq⟩ := Option.map_eq_some_iff.mp hcross.symm
      obtain ⟨-, rfl⟩ := Prod.mk.inj heq
      exact List.append_ne_nil_of_right_ne_nil tail hne

/-- A continuation in front of a closed text leaves it closed, unless the text is
empty. -/
theorem linesClosed_of_continuation? (hesc : esc.Visible) {cs rest : List Char} {n : Nat}
    (h : continuation? esc cs = some (n, rest)) (hne : rest ≠ [])
    (hrest : linesClosed esc rest = true) : linesClosed esc cs = true := by
  obtain ⟨e, tail, m, rfl, rfl, hm, rfl⟩ := continuation?_eq_some.mp h
  obtain ⟨breaks, rfl, -, hbreaks⟩ := lineBreak?_eq_append hm
  refine linesClosed_cons.mpr
    ⟨by simp [hne], linesClosed_breaks_append hesc hbreaks hrest, fun k found hk => ?_⟩
  rw [h] at hk
  cases hk
  exact hne

/-- Where a movement to the end of a logical line stops at a break, the text up to
and including the break is closed. -/
theorem linesClosed_of_readLine (hesc : esc.Visible) {off : Nat} {cs : List Char}
    (hrest : (readLine esc off cs).rest ≠ []) :
    linesClosed esc (cs.take ((readLine esc off cs).stop - off + 1)) = true := by
  unfold readLine at hrest ⊢
  induction off, cs using splicing_induction esc with
  | splice off cs n rest h ih =>
      have hle := (onward_readWhile esc (fun c => !isBreak c) (off + n) rest).le
      rw [readWhile_of_continuation? h] at hrest ⊢
      have hclosed := ih hrest
      have hsub : (readWhile esc (fun c => !isBreak c) (off + n) rest).stop - off + 1 - n =
          (readWhile esc (fun c => !isBreak c) (off + n) rest).stop - (off + n) + 1 := by
        omega
      have hcut := continuation?_take h
        (m := (readWhile esc (fun c => !isBreak c) (off + n) rest).stop - off + 1) (by omega)
      rw [hsub] at hcut
      refine linesClosed_of_continuation? hesc hcut ?_ hclosed
      intro hnil
      rw [List.take_eq_nil_iff] at hnil
      rcases hnil with hzero | rfl
      · omega
      · simp at hrest
  | nil off => simp at hrest
  | char off c cs h ih =>
      cases hk : !isBreak c with
      | true =>
          have hle := (onward_readWhile esc (fun c => !isBreak c) (off + 1) cs).le
          rw [readWhile_cons_of_keep h hk] at hrest ⊢
          have hsub : (readWhile esc (fun c => !isBreak c) (off + 1) cs).stop - off + 1 =
              (readWhile esc (fun c => !isBreak c) (off + 1) cs).stop - (off + 1) + 1 + 1 := by
            omega
          simp only [hsub, List.take_succ_cons]
          refine linesClosed_cons_of_continuation?_eq_none ?_ (ih hrest)
            (continuation?_take_eq_none _ h)
          intro hnil
          rw [List.take_eq_nil_iff] at hnil
          rcases hnil with hzero | rfl
          · omega
          · simp at hrest
      | false =>
          rw [readWhile_cons_of_not_keep h hk]
          have hb : isBreak c = true := by simpa using hk
          simpa using linesClosed_singleton hesc hb

/-- A text splits behind the break that ends its first logical line, and what comes
before is closed. -/
theorem split_of_readLine (hesc : esc.Visible) {off : Nat} {b : Char} {cs more : List Char}
    (hrest : (readLine esc off cs).rest = b :: more) :
    ∃ front, cs = front ++ more ∧ off + front.length = (readLine esc off cs).stop + 1 ∧
      linesClosed esc front = true := by
  obtain ⟨passed, hcs, hstop⟩ := onward_readLine esc off cs
  have hne : (readLine esc off cs).rest ≠ [] := by
    simp [hrest]
  have hclosed := linesClosed_of_readLine hesc hne
  have hcount : (readLine esc off cs).stop - off + 1 = (passed ++ [b]).length := by
    simp only [List.length_append, List.length_singleton]
    omega
  have hsplit : cs = (passed ++ [b]) ++ more := by
    rw [hcs, hrest]
    simp
  refine ⟨passed ++ [b], hsplit, ?_, ?_⟩
  · simp only [List.length_append, List.length_singleton]
    omega
  · have htake : cs.take ((readLine esc off cs).stop - off + 1) = passed ++ [b] := by
      rw [hcount, hsplit]
      exact List.take_left
    rwa [htake] at hclosed

end DockerfileLint
