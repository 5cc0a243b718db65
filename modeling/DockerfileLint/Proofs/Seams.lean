import DockerfileLint.Proofs.Movement

/-!
# Reading across a seam

Two texts one behind the other have a seam where they meet.  If no continuation runs
across it, a movement along both is a movement along the first, and goes on along the
second only if it came to the end of the first: `readWhile_append_of_seam`.

A seam is clean wherever the first text does not end in the escape character and no
line break is torn apart.
-/

namespace DockerfileLint

variable {esc : Escape} {keep : Char → Bool} {cs rest front back more : List Char} {n : Nat}

/-! ## Line breaks -/

/-- No line break runs from the one text into the other. -/
def Apart (front back : List Char) : Prop :=
  front.getLast? = some '\r' → back.head? ≠ some '\n'

/-- A line break of the first text stays what it is. -/
theorem Apart.lineBreak?_append (hapart : Apart cs back) (h : lineBreak? cs = some (n, rest)) :
    lineBreak? (cs ++ back) = some (n, rest ++ back) := by
  rcases lineBreak?_cases h with ⟨rfl, rfl⟩ | ⟨rfl, rfl, hhead⟩ | ⟨rfl, rfl⟩
  · rfl
  · have hhead' : (rest ++ back).head? ≠ some '\n' := by
      cases rest with
      | nil => exact hapart rfl
      | cons d ds => exact hhead
    exact lineBreak?_return hhead'
  · rfl

/-- What is apart from the end of a text is apart from the end of its suffixes. -/
theorem Apart.of_suffix (hapart : Apart front back) (hsuffix : rest <:+ front) :
    Apart rest back := by
  intro hlast
  obtain ⟨passed, rfl⟩ := hsuffix
  exact hapart (by simp [List.getLast?_append, hlast])

/-! ## Continuations -/

/-- A continuation ends in a break, and takes it in whole. -/
theorem continuation?_eq_append (h : continuation? esc cs = some (n, rest)) :
    ∃ passed, cs = passed ++ rest ∧ passed.length = n ∧ Apart passed rest ∧
      ∃ b, passed.getLast? = some b ∧ isBreak b = true := by
  obtain ⟨e, tail, m, -, rfl, hm, rfl⟩ := continuation?_eq_some.mp h
  rcases lineBreak?_cases hm with ⟨rfl, rfl⟩ | ⟨rfl, rfl, hhead⟩ | ⟨rfl, rfl⟩
  · exact ⟨[e, '\r', '\n'], rfl, rfl, by simp [Apart], '\n', rfl, rfl⟩
  · exact ⟨[e, '\r'], rfl, rfl, fun _ => hhead, '\r', rfl, rfl⟩
  · exact ⟨[e, '\n'], rfl, rfl, by simp [Apart], '\n', rfl, rfl⟩

/-- No continuation runs from the one text into the other: wherever the first is looked
at, it makes no difference that the second follows. -/
def Seam (esc : Escape) (front back : List Char) : Prop :=
  ∀ cs, cs <:+ front → cs ≠ [] →
    continuation? esc (cs ++ back) = (continuation? esc cs).map fun (n, rest) => (n, rest ++ back)

namespace Seam

/-- A seam behind a text is one behind its suffixes. -/
theorem of_suffix (h : Seam esc front back) (hsuffix : cs <:+ front) : Seam esc cs back :=
  fun _ hcs => h _ (hcs.trans hsuffix)

/-- It is one behind what a movement leaves. -/
theorem of_onward {off stop : Nat} (h : Seam esc front back) (honward : Onward off front stop cs) :
    Seam esc cs back :=
  h.of_suffix honward.suffix

/-- It is one behind the text without its first character. -/
theorem of_cons {c : Char} (h : Seam esc (c :: front) back) : Seam esc front back :=
  h.of_suffix (List.suffix_cons c front)

/-- Nothing runs into an empty text. -/
theorem nil_right (esc : Escape) (front : List Char) : Seam esc front [] := by
  intro cs _ _
  simp

/-- A continuation in the first text stays one. -/
theorem continuation?_append (h : Seam esc front back)
    (hcont : continuation? esc front = some (n, rest)) :
    continuation? esc (front ++ back) = some (n, rest ++ back) := by
  have hne : front ≠ [] := by
    rintro rfl
    cases hcont
  rw [h front List.suffix_rfl hne, hcont]
  rfl

/-- Where no continuation starts in the first text, none does with the second behind
it. -/
theorem continuation?_cons_append {c : Char} (h : Seam esc (c :: front) back)
    (hcont : continuation? esc (c :: front) = none) :
    continuation? esc (c :: (front ++ back)) = none := by
  have happend := h (c :: front) List.suffix_rfl (List.cons_ne_nil c front)
  rw [hcont] at happend
  exact happend

/-- Nothing runs across the end of a text that is not the escape character, if no line
break does. -/
theorem of_apart (hlast : ∀ e, esc = some e → front.getLast? ≠ some e)
    (hapart : Apart front back) : Seam esc front back := by
  intro cs hcs hne
  obtain ⟨c, tail, rfl⟩ := List.exists_cons_of_ne_nil hne
  by_cases hc : esc = some c
  · subst hc
    obtain ⟨passed, rfl⟩ := hcs
    have htail : tail ≠ [] := by
      rintro rfl
      exact hlast c rfl (by simp)
    obtain ⟨d, tail, rfl⟩ := List.exists_cons_of_ne_nil htail
    simp only [continuation?, List.cons_append, if_true]
    cases hbreak : lineBreak? (d :: tail) with
    | some found =>
        obtain ⟨n, rest⟩ := found
        have hsuffix : d :: tail <:+ passed ++ c :: d :: tail :=
          ⟨passed ++ [c], by simp⟩
        have happend := (hapart.of_suffix hsuffix).lineBreak?_append hbreak
        rw [List.cons_append] at happend
        rw [happend]
        rfl
    | none =>
        have hd : isBreak d = false := by
          cases hd : isBreak d with
          | false => rfl
          | true =>
              have hsome := lineBreak?_isSome tail hd
              rw [hbreak] at hsome
              cases hsome
        rw [lineBreak?_eq_none hd]
        rfl
  · rw [List.cons_append, continuation?_cons_of_ne _ hc, continuation?_cons_of_ne _ hc]
    rfl

end Seam

/-! ## Movements -/

/-- A movement along two texts is one along the first, and goes on along the second only
where it came to the end of the first. -/
theorem readWhile_append_of_seam (keep : Char → Bool) (off : Nat) (h : Seam esc cs more) :
    readWhile esc keep off (cs ++ more) =
      let near := readWhile esc keep off cs
      let far := readWhile esc keep near.stop more
      if near.rest = [] then { far with taken := near.taken ++ far.taken }
      else { near with rest := near.rest ++ more } := by
  induction off, cs using splicing_induction esc with
  | splice off cs n rest hcont ih =>
      rw [readWhile_of_continuation? hcont,
        readWhile_of_continuation? (h.continuation?_append hcont)]
      exact ih (h.of_onward (onward_of_continuation? off hcont))
  | nil off => simp
  | char off c cs hcont ih =>
      have happend := h.continuation?_cons_append hcont
      rw [List.cons_append]
      cases hk : keep c with
      | true =>
          rw [readWhile_cons_of_keep happend hk, readWhile_cons_of_keep hcont hk, ih h.of_cons]
          simp only
          split <;> rfl
      | false =>
          rw [readWhile_cons_of_not_keep happend hk, readWhile_cons_of_not_keep hcont hk]
          simp

/-- A movement that stops in the first of two texts learns nothing of the second. -/
theorem readWhile_append_of_rest_ne_nil {off : Nat} (h : Seam esc cs more)
    (hrest : (readWhile esc keep off cs).rest ≠ []) :
    readWhile esc keep off (cs ++ more) =
      { readWhile esc keep off cs with rest := (readWhile esc keep off cs).rest ++ more } := by
  rw [readWhile_append_of_seam keep off h]
  exact if_neg hrest

/-- A movement that comes to the end of the first of two texts goes on in the second. -/
theorem readWhile_append_of_rest_eq_nil {off : Nat} (h : Seam esc cs more)
    (hrest : (readWhile esc keep off cs).rest = []) :
    readWhile esc keep off (cs ++ more) =
      { readWhile esc keep (off + cs.length) more with
        taken := (readWhile esc keep off cs).taken ++
          (readWhile esc keep (off + cs.length) more).taken } := by
  have hstop : (readWhile esc keep off cs).stop = off + cs.length := by
    have hlength := (onward_readWhile esc keep off cs).add_length
    rw [hrest] at hlength
    exact hlength
  rw [readWhile_append_of_seam keep off h, ← hstop]
  exact if_pos hrest

/-- A movement that does not get into the second text stops where the second text starts,
if it comes there. -/
theorem readWhile_append_of_stop (off : Nat) (h : Seam esc cs more)
    (hmore : ∀ off, readWhile esc keep off more = ⟨[], off, more⟩) :
    readWhile esc keep off (cs ++ more) =
      { readWhile esc keep off cs with rest := (readWhile esc keep off cs).rest ++ more } := by
  by_cases hrest : (readWhile esc keep off cs).rest = []
  · have hlength := (onward_readWhile esc keep off cs).add_length
    rw [hrest, List.length_nil, Nat.add_zero] at hlength
    rw [readWhile_append_of_rest_eq_nil h hrest, hmore]
    simp only [hrest, hlength, List.append_nil, List.nil_append]
  · exact readWhile_append_of_rest_ne_nil h hrest

end DockerfileLint
