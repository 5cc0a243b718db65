import DockerfileLint.Proofs.Movement

/-!
# The text less its continuations

`spliced` is the stream that every movement reads: the characters of a text with
their offsets, less its continuations.  A movement takes the longest prefix of
wanted characters of that stream and leaves the rest of it.  Without the offsets
the same holds of `withoutContinuations`, which does not depend on where the text
starts.
-/

namespace DockerfileLint

variable {esc : Escape} {keep : Char → Bool} {off : Nat} {c : Char} {cs rest : List Char} {n : Nat}

/-- A continuation is left out. -/
theorem spliced_of_continuation? (h : continuation? esc cs = some (n, rest)) :
    spliced esc off cs = spliced esc (off + n) rest := by
  rw [spliced]
  split
  · rename_i h'
    rw [h] at h'
    cases h'
    rfl
  · rename_i h'
    rw [h] at h'
    cases h'

/-- Nothing is left of an empty text. -/
@[simp] theorem spliced_nil : spliced esc off [] = [] := by
  rw [spliced]
  simp [continuation?]

/-- Where no continuation starts, the first character stays, with its offset. -/
theorem spliced_cons (h : continuation? esc (c :: cs) = none) :
    spliced esc off (c :: cs) = (c, off) :: spliced esc (off + 1) cs := by
  rw [spliced]
  split
  · rename_i h'
    rw [h] at h'
    cases h'
  · rfl

/-- Without the offsets the stream does not depend on where the text starts. -/
theorem spliced_map_fst (esc : Escape) (off off' : Nat) (cs : List Char) :
    (spliced esc off cs).map Prod.fst = (spliced esc off' cs).map Prod.fst := by
  induction off, cs using splicing_induction esc generalizing off' with
  | splice off cs n rest h ih =>
      rw [spliced_of_continuation? h, spliced_of_continuation? h]
      exact ih (off' + n)
  | nil off => simp
  | char off c cs h ih =>
      rw [spliced_cons h, spliced_cons h, List.map_cons, List.map_cons, ih (off' + 1)]

/-- A continuation is left out, offsets or not. -/
theorem withoutContinuations_of_continuation? (h : continuation? esc cs = some (n, rest)) :
    withoutContinuations esc cs = withoutContinuations esc rest := by
  unfold withoutContinuations
  rw [spliced_of_continuation? h]
  exact spliced_map_fst esc (0 + n) 0 rest

/-- Nothing is left of an empty text. -/
@[simp] theorem withoutContinuations_nil : withoutContinuations esc [] = [] := by
  simp [withoutContinuations]

/-- Where no continuation starts, the first character stays. -/
theorem withoutContinuations_cons (h : continuation? esc (c :: cs) = none) :
    withoutContinuations esc (c :: cs) = c :: withoutContinuations esc cs := by
  unfold withoutContinuations
  rw [spliced_cons h, List.map_cons, spliced_map_fst esc (0 + 1) 0 cs]

/-- Breaks in front stay: no continuation starts with a break. -/
theorem withoutContinuations_breaks_append (hesc : esc.Visible) {breaks : List Char}
    (hbreaks : ∀ b ∈ breaks, isBreak b = true) :
    withoutContinuations esc (breaks ++ cs) = breaks ++ withoutContinuations esc cs := by
  induction breaks with
  | nil => rfl
  | cons b breaks ih =>
      have hb := hesc.continuation?_eq_none (breaks ++ cs)
        (isSpace_of_isBreak (hbreaks b List.mem_cons_self))
      rw [List.cons_append, withoutContinuations_cons hb,
        ih fun b' hb' => hbreaks b' (List.mem_cons_of_mem b hb')]
      rfl

/-- What a movement leaves is what is left of the stream behind its wanted
characters. -/
theorem withoutContinuations_rest (esc : Escape) (keep : Char → Bool) (off : Nat)
    (cs : List Char) :
    withoutContinuations esc (readWhile esc keep off cs).rest =
      (withoutContinuations esc cs).dropWhile keep := by
  induction off, cs using splicing_induction esc with
  | splice off cs n rest h ih =>
      rw [readWhile_of_continuation? h, withoutContinuations_of_continuation? h, ih]
  | nil off => simp
  | char off c cs h ih =>
      rw [withoutContinuations_cons h]
      cases hk : keep c with
      | true =>
          rw [readWhile_cons_of_keep h hk, List.dropWhile_cons_of_pos hk]
          exact ih
      | false =>
          rw [readWhile_cons_of_not_keep h hk, List.dropWhile_cons_of_neg (by simp [hk])]
          exact withoutContinuations_cons h

/-- What a movement takes is the longest prefix of wanted characters. -/
theorem readWhile_taken (esc : Escape) (keep : Char → Bool) (off : Nat) (cs : List Char) :
    (readWhile esc keep off cs).taken.map Prod.fst =
      (withoutContinuations esc cs).takeWhile keep := by
  induction off, cs using splicing_induction esc with
  | splice off cs n rest h ih =>
      rw [readWhile_of_continuation? h, withoutContinuations_of_continuation? h, ih]
  | nil off => simp
  | char off c cs h ih =>
      rw [withoutContinuations_cons h]
      cases hk : keep c with
      | true =>
          rw [readWhile_cons_of_keep h hk, List.takeWhile_cons_of_pos hk, List.map_cons, ih]
      | false =>
          rw [readWhile_cons_of_not_keep h hk, List.takeWhile_cons_of_neg (by simp [hk])]
          rfl

/-- A movement splits the stream in two. -/
theorem withoutContinuations_eq_append (esc : Escape) (keep : Char → Bool) (off : Nat)
    (cs : List Char) :
    withoutContinuations esc cs =
      (readWhile esc keep off cs).taken.map Prod.fst ++
        withoutContinuations esc (readWhile esc keep off cs).rest := by
  rw [readWhile_taken, withoutContinuations_rest, List.takeWhile_append_dropWhile]

/-- A text that a movement reads to the end holds only wanted characters, besides
its continuations. -/
theorem keep_of_readWhile_rest_eq_nil (h : (readWhile esc keep off cs).rest = []) :
    ∀ c ∈ withoutContinuations esc cs, keep c = true := by
  intro c hc
  rw [withoutContinuations_eq_append esc keep off cs, h, withoutContinuations_nil,
    List.append_nil] at hc
  obtain ⟨p, hp, rfl⟩ := List.mem_map.mp hc
  exact readWhile_taken_keep p hp

end DockerfileLint
