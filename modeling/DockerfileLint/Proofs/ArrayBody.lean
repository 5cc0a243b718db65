import DockerfileLint.Proofs.Movement
import DockerfileLint.StringArray

/-!
# How far the check of a list goes

The check of a bracketed list walks along its text like every other reader, with
one difference: inside a string an escape character continues nothing.  It can
therefore stop before the logical line ends, at the break of a continuation that
stands in a string or at a quote where a comma is due, but it never goes past the
end of the logical line.
-/

namespace DockerfileLint

variable {esc : Escape} {s : ArrayState} {opening : Bool} {off n : Nat} {c : Char}
  {cs rest : List Char}

/-! ## The steps of the check -/

/-- A walk goes past a continuation. -/
theorem walkArray_of_continuation? (h : s.continuation? esc cs = some (n, rest)) :
    walkArray esc s off cs = walkArray esc s (off + n) rest := by
  rw [walkArray]
  split
  · rename_i heq
    rw [h] at heq
    cases heq
    rfl
  · rename_i heq
    rw [h] at heq
    cases heq

/-- At the end of the text a walk is over. -/
@[simp] theorem walkArray_nil : walkArray esc s off [] = ⟨s.faultAtEnd, off, []⟩ := by
  have hnone : s.continuation? esc [] = none := by
    simp [ArrayState.continuation?, DockerfileLint.continuation?]
  rw [walkArray]
  split
  · rename_i heq
    rw [hnone] at heq
    cases heq
  · rfl

/-- One step of a walk where no continuation starts. -/
theorem walkArray_cons (h : s.continuation? esc (c :: cs) = none) :
    walkArray esc s off (c :: cs) =
      if isBreak c then
        ⟨s.faultAtBreak, off, c :: cs⟩
      else if s.inString then
        walkArray esc (s.insideString off c) (off + 1) cs
      else if c = '"' ∧ s.commaDue ∧ s.fault = none then
        ⟨some off, off, c :: cs⟩
      else
        walkArray esc (s.betweenStrings off c) (off + 1) cs := by
  rw [walkArray]
  split
  · rename_i heq
    rw [h] at heq
    cases heq
  · rfl

/-- In front of a list a continuation is gone past. -/
theorem checkArrayBody_of_continuation? (h : continuation? esc cs = some (n, rest)) :
    checkArrayBody esc opening off cs = checkArrayBody esc opening (off + n) rest := by
  rw [checkArrayBody]
  split
  · rename_i heq
    rw [h] at heq
    cases heq
    rfl
  · rename_i heq
    rw [h] at heq
    cases heq

/-- At the end of the text there is no list. -/
@[simp] theorem checkArrayBody_nil : checkArrayBody esc opening off [] = ⟨none, off, []⟩ := by
  rw [checkArrayBody]
  simp [continuation?]

/-- One step towards a list where no continuation starts. -/
theorem checkArrayBody_cons (h : continuation? esc (c :: cs) = none) :
    checkArrayBody esc opening off (c :: cs) =
      if isBreak c then
        ⟨none, off, c :: cs⟩
      else if c = '[' ∧ opening then
        checkArray esc off cs
      else
        checkArrayBody esc (opening && isBlank c) (off + 1) cs := by
  rw [checkArrayBody]
  split
  · rename_i heq
    rw [h] at heq
    cases heq
  · rfl

/-- At a break only a closing bracket counts. -/
theorem ArrayState.faultAtBreak_eq (s : ArrayState) :
    s.faultAtBreak = s.fault.or (if !s.closed then some s.last else none) := by
  unfold ArrayState.faultAtBreak
  cases s.closed <;> rfl

/-! ## How far it goes -/

/-- Between strings a list goes past the continuations of its text, inside them
past none. -/
theorem ArrayState.continuation?_eq_some
    (h : s.continuation? esc cs = some (n, rest)) :
    s.inString = false ∧ DockerfileLint.continuation? esc cs = some (n, rest) := by
  unfold ArrayState.continuation? at h
  split at h
  · cases h
  · rename_i hout
    exact ⟨by simpa using hout, h⟩

/-- A walk goes on in its text. -/
theorem onward_walkArray (esc : Escape) (s : ArrayState) (off : Nat) (cs : List Char) :
    Onward off cs (walkArray esc s off cs).stop (walkArray esc s off cs).rest := by
  fun_induction walkArray esc s off cs with
  | case1 s off cs n rest h ih =>
      exact (onward_of_continuation? off (ArrayState.continuation?_eq_some h).2).trans ih
  | case2 s off => exact Onward.refl off []
  | case3 s off c cs => exact Onward.refl off (c :: cs)
  | case4 s off c cs _ _ _ ih => exact ih.cons c
  | case5 s off c cs => exact Onward.refl off (c :: cs)
  | case6 s off c cs _ _ _ _ ih => exact ih.cons c

/-- So does the check of what stands behind a keyword. -/
theorem onward_checkArrayBody (esc : Escape) (opening : Bool) (off : Nat) (cs : List Char) :
    Onward off cs (checkArrayBody esc opening off cs).stop
      (checkArrayBody esc opening off cs).rest := by
  fun_induction checkArrayBody esc opening off cs with
  | case1 opening off cs n rest h ih => exact (onward_of_continuation? off h).trans ih
  | case2 opening off => exact Onward.refl off []
  | case3 opening off c cs => exact Onward.refl off (c :: cs)
  | case4 opening off c cs => exact (onward_walkArray esc _ (off + 1) cs).cons c
  | case5 opening off c cs _ _ _ ih => exact ih.cons c

/-- A walk that stands at a break stops there. -/
theorem walkArray_of_isBreak (hesc : esc.Visible) (s : ArrayState) (off : Nat) {b : Char}
    {cs : List Char} (hb : isBreak b = true) :
    (walkArray esc s off (b :: cs)).stop = off := by
  have hcont : s.continuation? esc (b :: cs) = none := by
    unfold ArrayState.continuation?
    simp [hesc.continuation?_eq_none cs (isSpace_of_isBreak hb)]
  rw [walkArray_cons hcont]
  simp [hb]

/-- The end of the logical line, one character further on. -/
theorem readLine_stop_cons {off : Nat} {c : Char} {cs : List Char} (hc : isBreak c = false)
    (h : continuation? esc (c :: cs) = none) :
    (readLine esc off (c :: cs)).stop = (readLine esc (off + 1) cs).stop := by
  unfold readLine
  rw [readWhile_cons_of_keep h (by simp [hc])]

/-- A walk never goes past the end of its logical line. -/
theorem walkArray_stop_le (hesc : esc.Visible) (s : ArrayState) (off : Nat) (cs : List Char) :
    (walkArray esc s off cs).stop ≤ (readLine esc off cs).stop := by
  have hle : ∀ off cs, off ≤ (readLine esc off cs).stop :=
    fun off cs => (onward_readWhile esc _ off cs).le
  fun_induction walkArray esc s off cs with
  | case1 s off cs n rest h ih =>
      unfold readLine
      rw [readWhile_of_continuation? (ArrayState.continuation?_eq_some h).2]
      exact ih
  | case2 s off => exact hle off []
  | case3 s off c cs => exact hle off (c :: cs)
  | case4 s off c cs _ hc hstring ih =>
      have hc : isBreak c = false := by simpa using hc
      cases h : continuation? esc (c :: cs) with
      | none => rwa [readLine_stop_cons hc h]
      | some found =>
          -- An escape character in a string: the walk stops at the break behind it.
          obtain ⟨n, rest⟩ := found
          obtain ⟨e, tail, m, -, heq, hm, rfl⟩ := continuation?_eq_some.mp h
          obtain ⟨rfl, rfl⟩ := List.cons.inj heq
          have hstop : (walkArray esc (s.insideString off c) (off + 1) cs).stop = off + 1 := by
            rcases lineBreak?_cases hm with ⟨-, rfl⟩ | ⟨-, rfl, -⟩ | ⟨-, rfl⟩ <;>
              exact walkArray_of_isBreak hesc _ _ rfl
          have hpos := lineBreak?_pos hm
          have := hle (off + (m + 1)) rest
          rw [hstop]
          unfold readLine at this ⊢
          rw [readWhile_of_continuation? h]
          omega
  | case5 s off c cs => exact hle off (c :: cs)
  | case6 s off c cs h hc hout _ ih =>
      have hcont : continuation? esc (c :: cs) = none := by
        simpa [ArrayState.continuation?, hout] using h
      rwa [readLine_stop_cons (by simpa using hc) hcont]

/-- The check of a body never goes past the end of its logical line. -/
theorem checkArrayBody_stop_le (hesc : esc.Visible) (opening : Bool) (off : Nat)
    (cs : List Char) :
    (checkArrayBody esc opening off cs).stop ≤ (readLine esc off cs).stop := by
  fun_induction checkArrayBody esc opening off cs with
  | case1 opening off cs n rest h ih =>
      unfold readLine
      rw [readWhile_of_continuation? h]
      exact ih
  | case2 opening off => exact (onward_readWhile esc _ off []).le
  | case3 opening off c cs => exact (onward_readWhile esc _ off (c :: cs)).le
  | case4 opening off c cs h hc hopen =>
      rw [readLine_stop_cons (by simpa using hc) h]
      exact walkArray_stop_le hesc _ (off + 1) cs
  | case5 opening off c cs h hc _ ih =>
      rwa [readLine_stop_cons (by simpa using hc) h]

/-- The check of a body starts behind the continuations at its head. -/
theorem checkArrayBody_passContinuations (esc : Escape) (opening : Bool) (off : Nat)
    (cs : List Char) :
    checkArrayBody esc opening off cs =
      let start := passContinuations esc off cs
      checkArrayBody esc opening start.stop start.rest := by
  induction off, cs using splicing_induction esc with
  | splice off cs n rest h ih =>
      have hpass : passContinuations esc off cs = passContinuations esc (off + n) rest :=
        readWhile_of_continuation? h
      rw [hpass, checkArrayBody_of_continuation? h]
      exact ih
  | nil off => simp [passContinuations]
  | char off c cs h ih =>
      have hpass : passContinuations esc off (c :: cs) = ⟨[], off, c :: cs⟩ :=
        readWhile_cons_of_not_keep h rfl
      rw [hpass]

end DockerfileLint
