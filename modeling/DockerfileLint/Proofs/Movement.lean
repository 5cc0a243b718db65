import DockerfileLint.Text.Reading

/-!
# Movements along a text

Every reader of this library is handed an offset and the text from there on, and
hands back a later offset and a later text.  `Onward` says that the two belong
together: what was passed in between is as long as the offsets are apart.  All
that is ever needed about bounds follows from it.

The second half says what `readWhile` is on the stream that is left of a text
when its continuations are dropped: it takes the longest prefix of wanted
characters, and leaves the rest.  Two movements in a row are one, and a movement
over no more than what it passed takes the same characters.
-/

namespace DockerfileLint

/-- The place `stop`, where `rest` is left, lies onward from the place `off`, where
the text is `cs`. -/
def Onward (off : Nat) (cs : List Char) (stop : Nat) (rest : List Char) : Prop :=
  ∃ passed, cs = passed ++ rest ∧ stop = off + passed.length

namespace Onward

variable {off stop last : Nat} {cs rest tail : List Char}

/-- A place lies onward from itself. -/
theorem refl (off : Nat) (cs : List Char) : Onward off cs off cs :=
  ⟨[], rfl, rfl⟩

/-- Two movements in a row are one. -/
theorem trans (hfirst : Onward off cs stop rest) (hnext : Onward stop rest last tail) :
    Onward off cs last tail := by
  obtain ⟨passed, rfl, rfl⟩ := hfirst
  obtain ⟨more, rfl, rfl⟩ := hnext
  exact ⟨passed ++ more, by simp, by simp [Nat.add_assoc]⟩

/-- One character further. -/
theorem cons (c : Char) (h : Onward (off + 1) cs stop rest) : Onward off (c :: cs) stop rest :=
  trans ⟨[c], rfl, rfl⟩ h

/-- A later place has no smaller offset. -/
theorem le (h : Onward off cs stop rest) : off ≤ stop := by
  obtain ⟨passed, rfl, rfl⟩ := h
  omega

/-- Offsets count characters. -/
theorem add_length (h : Onward off cs stop rest) : stop + rest.length = off + cs.length := by
  obtain ⟨passed, rfl, rfl⟩ := h
  simp only [List.length_append]
  omega

/-- What is left is a suffix of the text. -/
theorem suffix (h : Onward off cs stop rest) : rest <:+ cs := by
  obtain ⟨passed, rfl, rfl⟩ := h
  exact List.suffix_append passed rest

/-- What is left is found by its offset. -/
theorem eq_drop (h : Onward off cs stop rest) : rest = cs.drop (stop - off) := by
  obtain ⟨passed, rfl, rfl⟩ := h
  simp

/-- A place in a text is found by its offset there. -/
theorem eq_drop_text {text : List Char} (h : Onward off cs stop rest)
    (hcs : cs = text.drop off) : rest = text.drop stop := by
  have hle := h.le
  rw [h.eq_drop, hcs, List.drop_drop]
  congr 1
  omega

/-- From a character of a text on, offsets count up to its end. -/
theorem add_length_text {text : List Char} {c : Char} (h : Onward off (c :: cs) stop rest)
    (hcs : c :: cs = text.drop off) : stop + rest.length = text.length := by
  have hlength := h.add_length
  have htext := congrArg List.length hcs
  rw [List.length_drop, List.length_cons] at htext
  rw [List.length_cons] at hlength
  omega

end Onward

/-- What is left of a text behind its first character. -/
theorem eq_drop_succ {text cs : List Char} {off : Nat} {c : Char} (hcs : c :: cs = text.drop off) :
    cs = text.drop (off + 1) :=
  ((Onward.refl (off + 1) cs).cons c).eq_drop_text hcs

/-! ## Line breaks and continuations -/

/-- White space continues no line. -/
def Escape.Visible (esc : Escape) : Prop :=
  ∀ c, esc = some c → isSpace c = false

/-- An escape character that is no white space is visible. -/
theorem Escape.visible_some {e : Char} (he : isSpace e = false) : Escape.Visible (some e) := by
  intro c hc
  obtain rfl := Option.some.inj hc
  exact he

/-- One character names itself. -/
theorem Escape.ofString_singleton (e : Char) :
    Escape.ofString (String.singleton e) = some e := by
  simp [Escape.ofString]

/-- There are two break characters. -/
theorem eq_of_isBreak {c : Char} (h : isBreak c = true) : c = '\r' ∨ c = '\n' := by
  simpa [isBreak] using h

/-- A break is white space. -/
theorem isSpace_of_isBreak {c : Char} (h : isBreak c = true) : isSpace c = true := by
  simp [isSpace, h]

/-- What is no white space is no break. -/
theorem isBreak_eq_false_of_isSpace {c : Char} (h : isSpace c = false) : isBreak c = false := by
  simp only [isSpace, Bool.or_eq_false_iff] at h
  exact h.2

/-- What is no white space is no blank. -/
theorem isBlank_eq_false_of_isSpace {c : Char} (h : isSpace c = false) : isBlank c = false := by
  simp only [isSpace, Bool.or_eq_false_iff] at h
  exact h.1

/-- The three line breaks there are. -/
theorem lineBreak?_cases {cs rest : List Char} {n : Nat} (h : lineBreak? cs = some (n, rest)) :
    (n = 2 ∧ cs = '\r' :: '\n' :: rest) ∨
    (n = 1 ∧ cs = '\r' :: rest ∧ rest.head? ≠ some '\n') ∨
    (n = 1 ∧ cs = '\n' :: rest) := by
  unfold lineBreak? at h
  split at h
  · cases h
    exact .inl ⟨rfl, rfl⟩
  · rename_i tail hne
    cases h
    refine .inr (.inl ⟨rfl, rfl, fun hhead => ?_⟩)
    obtain ⟨more, rfl⟩ := List.head?_eq_some_iff.mp hhead
    exact hne more rfl
  · cases h
    exact .inr (.inr ⟨rfl, rfl⟩)
  · cases h

/-- A carriage return that no line feed follows is a line break. -/
theorem lineBreak?_return {cs : List Char} (h : cs.head? ≠ some '\n') :
    lineBreak? ('\r' :: cs) = some (1, cs) := by
  unfold lineBreak?
  split <;> simp_all

/-- A character that is no break starts no line break. -/
theorem lineBreak?_eq_none {c : Char} {cs : List Char} (h : isBreak c = false) :
    lineBreak? (c :: cs) = none := by
  cases hb : lineBreak? (c :: cs) with
  | none => rfl
  | some found =>
      obtain ⟨n, rest⟩ := found
      rcases lineBreak?_cases hb with ⟨_, heq⟩ | ⟨_, heq, _⟩ | ⟨_, heq⟩ <;>
        cases heq <;> simp [isBreak] at h

/-- A break starts a line break. -/
theorem lineBreak?_isSome {c : Char} (cs : List Char) (h : isBreak c = true) :
    (lineBreak? (c :: cs)).isSome = true := by
  simp only [isBreak, Bool.or_eq_true, beq_iff_eq] at h
  rcases h with rfl | rfl
  · cases cs with
    | nil => rfl
    | cons d ds =>
        by_cases hd : d = '\n'
        · subst hd
          rfl
        · rw [lineBreak?_return (by simpa using hd)]
          rfl
  · rfl

/-- A continuation is the escape character and the line break behind it. -/
theorem continuation?_eq_some {esc : Escape} {cs rest : List Char} {n : Nat} :
    continuation? esc cs = some (n, rest) ↔
      ∃ e tail m, esc = some e ∧ cs = e :: tail ∧ lineBreak? tail = some (m, rest) ∧
        n = m + 1 := by
  constructor
  · intro h
    unfold continuation? at h
    split at h
    · cases h
    · rename_i c tail
      split at h
      · rename_i hesc
        obtain ⟨⟨m, more⟩, hm, heq⟩ := Option.map_eq_some_iff.mp h
        cases heq
        exact ⟨c, tail, m, hesc, rfl, hm, rfl⟩
      · cases h
  · rintro ⟨e, tail, m, rfl, rfl, hm, rfl⟩
    simp [continuation?, hm]

/-- Only the escape character starts a continuation. -/
theorem continuation?_cons_of_ne {esc : Escape} {c : Char} (cs : List Char) (h : esc ≠ some c) :
    continuation? esc (c :: cs) = none := by
  simp [continuation?, h]

/-- No continuation starts with a character of white space. -/
theorem Escape.Visible.continuation?_eq_none {esc : Escape} (hesc : esc.Visible) {c : Char}
    (cs : List Char) (h : isSpace c = true) : continuation? esc (c :: cs) = none := by
  apply continuation?_cons_of_ne
  intro heq
  rw [hesc c heq] at h
  cases h

/-- An escape character that starts no continuation has no break behind it. -/
theorem isBreak_eq_false_of_continuation?_eq_none {e d : Char} {cs : List Char}
    (h : continuation? (some e) (e :: d :: cs) = none) : isBreak d = false := by
  cases hd : isBreak d with
  | false => rfl
  | true =>
      have := lineBreak?_isSome cs hd
      simp [continuation?, Option.isSome_iff_ne_none] at h this
      exact absurd h this

/-- A line break is made of breaks. -/
theorem lineBreak?_eq_append {cs rest : List Char} {n : Nat} (h : lineBreak? cs = some (n, rest)) :
    ∃ breaks, cs = breaks ++ rest ∧ breaks.length = n ∧ ∀ b ∈ breaks, isBreak b = true := by
  rcases lineBreak?_cases h with ⟨rfl, rfl⟩ | ⟨rfl, rfl, -⟩ | ⟨rfl, rfl⟩
  · exact ⟨['\r', '\n'], rfl, rfl, by simp [isBreak]⟩
  · exact ⟨['\r'], rfl, rfl, by simp [isBreak]⟩
  · exact ⟨['\n'], rfl, rfl, by simp [isBreak]⟩

/-- A line break stays one when the text is cut off behind it. -/
theorem lineBreak?_take {cs rest : List Char} {n m : Nat} (h : lineBreak? cs = some (n, rest))
    (hm : n ≤ m) : lineBreak? (cs.take m) = some (n, rest.take (m - n)) := by
  rcases lineBreak?_cases h with ⟨rfl, rfl⟩ | ⟨rfl, rfl, hhead⟩ | ⟨rfl, rfl⟩
  · obtain ⟨k, rfl⟩ : ∃ k, m = k + 2 := ⟨m - 2, by omega⟩
    rfl
  · obtain ⟨k, rfl⟩ : ∃ k, m = k + 1 := ⟨m - 1, by omega⟩
    have hhead' : (rest.take k).head? ≠ some '\n' := by
      cases k <;> cases rest <;> simp_all
    simp only [List.take_succ_cons, Nat.add_sub_cancel]
    exact lineBreak?_return hhead'
  · obtain ⟨k, rfl⟩ : ∃ k, m = k + 1 := ⟨m - 1, by omega⟩
    rfl

/-- A line break is passed as a whole. -/
theorem onward_of_lineBreak? {cs rest : List Char} {n : Nat} (off : Nat)
    (h : lineBreak? cs = some (n, rest)) : Onward off cs (off + n) rest := by
  obtain ⟨breaks, rfl, rfl, -⟩ := lineBreak?_eq_append h
  exact ⟨breaks, rfl, rfl⟩

/-- A continuation is passed as a whole. -/
theorem onward_of_continuation? {esc : Escape} {cs rest : List Char} {n : Nat} (off : Nat)
    (h : continuation? esc cs = some (n, rest)) : Onward off cs (off + n) rest := by
  obtain ⟨e, tail, m, -, rfl, hm, rfl⟩ := continuation?_eq_some.mp h
  have hbehind := (onward_of_lineBreak? (off + 1) hm).cons e
  rwa [Nat.add_right_comm] at hbehind

/-- A continuation stays one when the text is cut off behind it. -/
theorem continuation?_take {esc : Escape} {cs rest : List Char} {n m : Nat}
    (h : continuation? esc cs = some (n, rest)) (hm : n ≤ m) :
    continuation? esc (cs.take m) = some (n, rest.take (m - n)) := by
  obtain ⟨e, tail, k, rfl, rfl, hk, rfl⟩ := continuation?_eq_some.mp h
  obtain ⟨j, rfl⟩ : ∃ j, m = j + 1 := ⟨m - 1, by omega⟩
  have hcut := lineBreak?_take (m := j) hk (by omega)
  have hsub : j + 1 - (k + 1) = j - k := by omega
  exact continuation?_eq_some.mpr ⟨e, tail.take j, k, rfl, rfl, by rw [hcut, hsub], rfl⟩

/-- Where no continuation starts, none does when the text is cut off. -/
theorem continuation?_take_eq_none {esc : Escape} {c : Char} {cs : List Char} (m : Nat)
    (h : continuation? esc (c :: cs) = none) : continuation? esc (c :: cs.take m) = none := by
  by_cases hc : esc = some c
  · subst hc
    cases m with
    | zero => simp [continuation?, lineBreak?]
    | succ m =>
        cases cs with
        | nil => simpa using h
        | cons d cs =>
            have hd := isBreak_eq_false_of_continuation?_eq_none h
            simp [continuation?, lineBreak?_eq_none hd]
  · exact continuation?_cons_of_ne _ hc

/-- A character of a line starts a continuation only at the end of the line. -/
theorem continuation?_eq_none_of_line {esc : Escape} {c : Char} {line tail : List Char}
    (hline : ∀ d ∈ line, isBreak d = false)
    (htail : esc = some c → line = [] → ∀ d ds, tail = d :: ds → isBreak d = false) :
    continuation? esc (c :: (line ++ tail)) = none := by
  by_cases hesc : esc = some c
  · subst hesc
    cases line with
    | nil =>
        cases tail with
        | nil => simp [continuation?, lineBreak?]
        | cons d ds =>
            have hd := htail rfl rfl d ds rfl
            simp [continuation?, lineBreak?_eq_none hd]
    | cons d ds =>
        have hd := hline d List.mem_cons_self
        simp [continuation?, lineBreak?_eq_none hd]
  · exact continuation?_cons_of_ne _ hesc

/-! ## Readings -/

variable {esc : Escape} {keep keep' : Char → Bool}

/-- A reading ends onward from its start. -/
theorem onward_readWhile (esc : Escape) (keep : Char → Bool) (off : Nat) (cs : List Char) :
    Onward off cs (readWhile esc keep off cs).stop (readWhile esc keep off cs).rest := by
  induction off, cs using splicing_induction esc with
  | splice off cs n rest h ih =>
      rw [readWhile_of_continuation? h]
      exact (onward_of_continuation? off h).trans ih
  | nil off => simpa using Onward.refl off []
  | char off c cs h ih =>
      cases hk : keep c with
      | true =>
          rw [readWhile_cons_of_keep h hk]
          exact ih.cons c
      | false =>
          rw [readWhile_cons_of_not_keep h hk]
          exact Onward.refl off (c :: cs)

/-- So does a word. -/
theorem onward_readWord (esc : Escape) (off : Nat) (cs : List Char) :
    Onward off cs (readWord esc off cs).stop (readWord esc off cs).rest :=
  onward_readWhile esc _ off cs

/-- So does the rest of a line. -/
theorem onward_readLine (esc : Escape) (off : Nat) (cs : List Char) :
    Onward off cs (readLine esc off cs).stop (readLine esc off cs).rest :=
  onward_readWhile esc _ off cs

/-- Every character taken was wanted. -/
theorem readWhile_taken_keep {off : Nat} {cs : List Char} :
    ∀ p ∈ (readWhile esc keep off cs).taken, keep p.1 = true := by
  induction off, cs using splicing_induction esc with
  | splice off cs n rest h ih => rwa [readWhile_of_continuation? h]
  | nil off => simp
  | char off c cs h ih =>
      cases hk : keep c with
      | true =>
          rw [readWhile_cons_of_keep h hk]
          intro p hp
          rcases List.mem_cons.mp hp with rfl | hp
          · exact hk
          · exact ih p hp
      | false =>
          rw [readWhile_cons_of_not_keep h hk]
          simp

/-- Every character taken stands in the text at the offset it was taken with. -/
theorem readWhile_taken_onward (esc : Escape) (keep : Char → Bool) (off : Nat) (cs : List Char) :
    ∀ p ∈ (readWhile esc keep off cs).taken, ∃ rest, Onward off cs p.2 (p.1 :: rest) := by
  induction off, cs using splicing_induction esc with
  | splice off cs n rest h ih =>
      rw [readWhile_of_continuation? h]
      intro p hp
      obtain ⟨tail, honward⟩ := ih p hp
      exact ⟨tail, (onward_of_continuation? off h).trans honward⟩
  | nil off => simp
  | char off c cs h ih =>
      cases hk : keep c with
      | true =>
          rw [readWhile_cons_of_keep h hk]
          intro p hp
          rcases List.mem_cons.mp hp with rfl | hp
          · exact ⟨cs, Onward.refl off (c :: cs)⟩
          · obtain ⟨tail, honward⟩ := ih p hp
            exact ⟨tail, honward.cons c⟩
      | false =>
          rw [readWhile_cons_of_not_keep h hk]
          simp

/-- A movement that wants less is the first part of one that wants more. -/
theorem readWhile_trans (esc : Escape) (hkeep : ∀ c, keep c = true → keep' c = true)
    (off : Nat) (cs : List Char) :
    readWhile esc keep' off cs =
      let near := readWhile esc keep off cs
      let far := readWhile esc keep' near.stop near.rest
      { far with taken := near.taken ++ far.taken } := by
  induction off, cs using splicing_induction esc with
  | splice off cs n rest h ih =>
      rw [readWhile_of_continuation? h, readWhile_of_continuation? h]
      exact ih
  | nil off => simp
  | char off c cs h ih =>
      cases hk : keep c with
      | true =>
          rw [readWhile_cons_of_keep h hk, readWhile_cons_of_keep h (hkeep c hk), ih]
          rfl
      | false => simp [readWhile_cons_of_not_keep h hk]

/-- What a text is cut to at an offset behind its first character. -/
theorem take_sub_cons {off stop : Nat} (h : off < stop) (c : Char) (cs : List Char) :
    (c :: cs).take (stop - off) = c :: cs.take (stop - (off + 1)) := by
  have hsub : stop - off = stop - (off + 1) + 1 := by
    omega
  rw [hsub, List.take_succ_cons]

/-- A movement over no more than what it passed takes the same and reaches the
end. -/
theorem readWhile_take (esc : Escape) (keep : Char → Bool) (off : Nat) (cs : List Char) :
    readWhile esc keep off (cs.take ((readWhile esc keep off cs).stop - off)) =
      { readWhile esc keep off cs with rest := [] } := by
  induction off, cs using splicing_induction esc with
  | splice off cs n rest h ih =>
      have hle := (onward_readWhile esc keep (off + n) rest).le
      rw [readWhile_of_continuation? h,
        readWhile_of_continuation? (continuation?_take h (by omega)), Nat.sub_sub, ih]
  | nil off => simp
  | char off c cs h ih =>
      cases hk : keep c with
      | true =>
          have hle := (onward_readWhile esc keep (off + 1) cs).le
          rw [readWhile_cons_of_keep h hk]
          simp only [take_sub_cons hle]
          rw [readWhile_cons_of_keep (continuation?_take_eq_none _ h) hk, ih]
      | false => simp [readWhile_cons_of_not_keep h hk]

/-- Goes past the continuations at the head of a text and no further. -/
def passContinuations (esc : Escape) (off : Nat) (cs : List Char) : Reading :=
  readWhile esc (fun _ => false) off cs

/-- Passing continuations takes no character. -/
@[simp] theorem passContinuations_taken (esc : Escape) (off : Nat) (cs : List Char) :
    (passContinuations esc off cs).taken = [] := by
  rw [List.eq_nil_iff_forall_not_mem]
  intro p hp
  have := readWhile_taken_keep p hp
  cases this

/-- Every movement starts behind the continuations at its head. -/
theorem readWhile_passContinuations (esc : Escape) (keep : Char → Bool) (off : Nat)
    (cs : List Char) :
    readWhile esc keep off cs =
      let start := passContinuations esc off cs
      readWhile esc keep start.stop start.rest := by
  have hnone : ∀ c : Char, false = true → keep c = true := fun _ h => absurd h Bool.false_ne_true
  have h := readWhile_trans esc hnone off cs
  have htaken := passContinuations_taken esc off cs
  unfold passContinuations at htaken ⊢
  simpa [htaken] using h

/-- The reach of a movement that took nothing is where it started. -/
theorem reach_of_taken_eq_nil {r : Reading} (h : r.taken = []) (start : Nat) :
    r.reach start = start := by
  simp [Reading.reach, h]

/-- The reach of a movement that took something does not depend on its start. -/
theorem reach_of_taken_ne_nil {r : Reading} (h : r.taken ≠ []) (start start' : Nat) :
    r.reach start = r.reach start' := by
  cases hlast : r.taken.getLast? with
  | none => exact absurd (List.getLast?_eq_none_iff.mp hlast) h
  | some p => simp [Reading.reach, hlast]

/-- A character in front of others leaves the reach where it is; alone, it reaches to its
own end. -/
theorem reach_cons {r r' : Reading} {c : Char} {place : Nat}
    (h : r'.taken = (c, place) :: r.taken) (start : Nat) :
    r'.reach start = r.reach (place + 1) := by
  cases htaken : r.taken with
  | nil => simp [Reading.reach, h, htaken]
  | cons p ps =>
      simp only [Reading.reach, h, htaken, List.getLast?_cons_cons]
      rfl

/-- A wanted character carries the reach along. -/
theorem readWhile_reach_cons {off : Nat} {c : Char} {cs : List Char}
    (h : continuation? esc (c :: cs) = none) (hk : keep c = true) :
    (readWhile esc keep off (c :: cs)).reach off =
      (readWhile esc keep (off + 1) cs).reach (off + 1) := by
  rw [readWhile_cons_of_keep h hk]
  exact reach_cons rfl off

/-- Between the reach of a movement and the place where it stopped there are only
continuations. -/
theorem readWhile_reach (esc : Escape) (keep : Char → Bool) (off : Nat) (cs : List Char) :
    ∃ tail, Onward off cs ((readWhile esc keep off cs).reach off) tail ∧
      passContinuations esc ((readWhile esc keep off cs).reach off) tail =
        { readWhile esc keep off cs with taken := [] } := by
  induction off, cs using splicing_induction esc with
  | splice off cs n rest h ih =>
      rw [readWhile_of_continuation? h]
      obtain ⟨tail, honward, hpass⟩ := ih
      by_cases htaken : (readWhile esc keep (off + n) rest).taken = []
      · rw [reach_of_taken_eq_nil htaken] at honward hpass ⊢
        refine ⟨cs, Onward.refl off cs, ?_⟩
        have htail : tail = rest := by simpa using honward.eq_drop
        rw [← hpass, htail]
        exact readWhile_of_continuation? h
      · rw [reach_of_taken_ne_nil htaken off (off + n)]
        exact ⟨tail, (onward_of_continuation? off h).trans honward, hpass⟩
  | nil off => exact ⟨[], by simpa [Reading.reach] using Onward.refl off [],
      by simp [passContinuations, Reading.reach]⟩
  | char off c cs h ih =>
      cases hk : keep c with
      | true =>
          obtain ⟨tail, honward, hpass⟩ := ih
          rw [readWhile_reach_cons h hk]
          refine ⟨tail, honward.cons c, ?_⟩
          rw [hpass, readWhile_cons_of_keep h hk]
      | false =>
          rw [readWhile_cons_of_not_keep h hk]
          refine ⟨c :: cs, by simpa [Reading.reach] using Onward.refl off (c :: cs), ?_⟩
          simp [passContinuations, Reading.reach, readWhile_cons_of_not_keep h]

end DockerfileLint
