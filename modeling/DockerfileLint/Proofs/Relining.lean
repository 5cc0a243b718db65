import DockerfileLint.Proofs.Movement

/-!
# Texts with other line endings

`relined` writes every line feed of a text as a line break of another style.  A text
without carriage returns keeps its lines that way: each line break stays one, each
continuation stays one, and no other character moves but by the width of the breaks
before it.  `Relines` says where the characters go.

With line feeds for line feeds nothing changes, and carriage returns do no harm.  What is
said of texts with other line endings then holds of a text that is only moved.
-/

namespace DockerfileLint

/-- The three styles of line breaks. -/
inductive LineEnding
  | lf
  | crlf
  | cr
deriving DecidableEq, Repr

/-- The line break of a style. -/
def LineEnding.chars : LineEnding → List Char
  | .lf => ['\n']
  | .crlf => ['\r', '\n']
  | .cr => ['\r']

/-- A text with every line feed written as a line break of the style. -/
def relined (ending : LineEnding) (cs : List Char) : List Char :=
  cs.flatMap fun c => if c = '\n' then ending.chars else [c]

variable {esc : Escape} {ending : LineEnding} {φ : Nat → Nat} {off stop n : Nat} {c : Char}
  {cs rest : List Char}

/-! ## Characters -/

/-- An empty text has no line break to rewrite. -/
@[simp] theorem relined_nil (ending : LineEnding) : relined ending [] = [] := rfl

/-- Two texts are rewritten one after the other. -/
theorem relined_append (ending : LineEnding) (xs ys : List Char) :
    relined ending (xs ++ ys) = relined ending xs ++ relined ending ys :=
  List.flatMap_append

/-- A line feed is rewritten. -/
theorem relined_newline (ending : LineEnding) (cs : List Char) :
    relined ending ('\n' :: cs) = ending.chars ++ relined ending cs :=
  List.flatMap_cons

/-- Any other character is kept. -/
theorem relined_cons_of_ne (h : c ≠ '\n') (cs : List Char) :
    relined ending (c :: cs) = c :: relined ending cs := by
  unfold relined
  rw [List.flatMap_cons, if_neg h]
  rfl

/-- What is no break is no line feed. -/
theorem ne_newline_of_isBreak (h : isBreak c = false) : c ≠ '\n' := by
  rintro rfl
  cases h

/-- A text on one line stays what it is. -/
theorem relined_of_no_break (h : ∀ c ∈ cs, isBreak c = false) : relined ending cs = cs := by
  induction cs with
  | nil => rfl
  | cons c cs ih =>
      rw [relined_cons_of_ne (ne_newline_of_isBreak (h c List.mem_cons_self)),
        ih fun d hd => h d (List.mem_cons_of_mem c hd)]

/-- With line feeds for line feeds a text stays what it is. -/
@[simp] theorem relined_lf (cs : List Char) : relined .lf cs = cs := by
  induction cs with
  | nil => rfl
  | cons c cs ih =>
      by_cases hc : c = '\n'
      · rw [hc, relined_newline, ih]
        rfl
      · rw [relined_cons_of_ne hc, ih]

/-- Writing line feeds as line feeds changes nothing. -/
theorem relined_lf_eq_id : relined .lf = id :=
  funext relined_lf

/-- A character that is no line feed stays, and where nothing changes every character does. -/
theorem relined_cons (h : ending = .lf ∨ c ≠ '\n') (cs : List Char) :
    relined ending (c :: cs) = c :: relined ending cs := by
  rcases h with rfl | h
  · rw [relined_lf, relined_lf]
  · exact relined_cons_of_ne h cs

/-- A character of white space becomes white space. -/
theorem relined_singleton_spaces (ending : LineEnding) (h : isSpace c = true) :
    relined ending [c] ≠ [] ∧ ∀ d ∈ relined ending [c], isSpace d = true := by
  by_cases hc : c = '\n'
  · subst hc
    cases ending <;> simp [relined, LineEnding.chars, isSpace, isBreak]
  · rw [relined_cons_of_ne hc]
    simpa using h

/-- A break becomes a line break. -/
theorem relined_cons_of_isBreak (ending : LineEnding) (h : isBreak c = true) (cs : List Char) :
    ∃ d tail, relined ending (c :: cs) = d :: tail ∧ isBreak d = true := by
  by_cases hc : c = '\n'
  · subst hc
    rw [relined_newline]
    cases ending
    · exact ⟨_, _, rfl, rfl⟩
    · exact ⟨_, _, rfl, rfl⟩
    · exact ⟨_, _, rfl, rfl⟩
  · exact ⟨c, _, relined_cons_of_ne hc cs, h⟩

/-- With lone carriage returns no line feed is left. -/
theorem newline_not_mem_relined_cr (cs : List Char) : '\n' ∉ relined .cr cs := by
  unfold relined
  rw [List.mem_flatMap]
  rintro ⟨c, -, hmem⟩
  split at hmem
  · simp [LineEnding.chars] at hmem
  · rename_i hc
    exact hc (List.mem_singleton.mp hmem).symm

/-! ## Line breaks and continuations -/

/-- The style leaves the line breaks of a text apart: it is that of the text, or the text
has no carriage returns. -/
def LineEnding.Suits (ending : LineEnding) (cs : List Char) : Prop :=
  ending = .lf ∨ '\r' ∉ cs

/-- A line break that suits a text suits its suffixes. -/
theorem LineEnding.Suits.of_suffix (h : ending.Suits cs) (hsuffix : rest <:+ cs) :
    ending.Suits rest :=
  h.imp_right fun hnot hmem => hnot (hsuffix.subset hmem)

/-- A line break stays one. -/
theorem lineBreak?_relined (hsuits : ending.Suits cs) (h : lineBreak? cs = some (n, rest)) :
    ∃ passed, cs = passed ++ rest ∧ passed.length = n ∧
      lineBreak? (relined ending cs) =
        some ((relined ending passed).length, relined ending rest) := by
  obtain ⟨passed, hcs, hlength, -⟩ := lineBreak?_eq_append h
  refine ⟨passed, hcs, hlength, ?_⟩
  rcases hsuits with rfl | hplain
  · simp [h, hlength]
  · rcases lineBreak?_cases h with ⟨rfl, rfl⟩ | ⟨rfl, rfl, -⟩ | ⟨rfl, rfl⟩
    · simp at hplain
    · simp at hplain
    · obtain ⟨c, rfl⟩ := List.length_eq_one_iff.mp hlength
      obtain ⟨rfl, -⟩ := List.cons.inj hcs
      rw [relined_newline]
      cases ending with
      | lf => rfl
      | crlf => rfl
      | cr =>
          apply lineBreak?_return
          intro hhead
          exact newline_not_mem_relined_cr rest (List.mem_of_head? hhead)

/-- Where no line break starts, none does with other line endings. -/
theorem lineBreak?_relined_eq_none (h : lineBreak? cs = none) :
    lineBreak? (relined ending cs) = none := by
  cases cs with
  | nil => rfl
  | cons c cs =>
      have hc : isBreak c = false := by
        cases hc : isBreak c with
        | false => rfl
        | true =>
            have hsome := lineBreak?_isSome cs hc
            rw [h] at hsome
            cases hsome
      rw [relined_cons_of_ne (ne_newline_of_isBreak hc)]
      exact lineBreak?_eq_none hc

/-- The style leaves the continuations of a text apart: nothing changes, or the escape
character is not among what does. -/
def Escape.Suits (esc : Escape) (ending : LineEnding) : Prop :=
  ending = .lf ∨ esc.Visible

/-- A continuation stays one. -/
theorem continuation?_relined (hesc : esc.Suits ending) (hsuits : ending.Suits cs)
    (h : continuation? esc cs = some (n, rest)) :
    ∃ passed, cs = passed ++ rest ∧ passed.length = n ∧
      continuation? esc (relined ending cs) =
        some ((relined ending passed).length, relined ending rest) := by
  rcases hesc with rfl | hesc
  · obtain ⟨passed, rfl, hn⟩ := onward_of_continuation? 0 h
    rw [Nat.zero_add, Nat.zero_add] at hn
    exact ⟨passed, rfl, hn.symm, by simp [h, hn]⟩
  obtain ⟨e, tail, m, rfl, rfl, hm, rfl⟩ := continuation?_eq_some.mp h
  have he : e ≠ '\n' := by
    rintro rfl
    cases hesc '\n' rfl
  obtain ⟨passed, rfl, rfl, hbreak⟩ :=
    lineBreak?_relined (hsuits.of_suffix (List.suffix_cons e tail)) hm
  refine ⟨e :: passed, rfl, rfl, ?_⟩
  rw [relined_cons_of_ne he, relined_cons_of_ne he]
  exact continuation?_eq_some.mpr ⟨e, _, _, rfl, rfl, hbreak, rfl⟩

/-- Where no continuation starts, none does with other line endings. -/
theorem continuation?_relined_eq_none (hesc : esc.Suits ending)
    (h : continuation? esc cs = none) :
    continuation? esc (relined ending cs) = none := by
  rcases hesc with rfl | hesc
  · rwa [relined_lf]
  cases cs with
  | nil => rfl
  | cons c cs =>
      cases hc : isBreak c with
      | true =>
          obtain ⟨d, tail, hrelined, hd⟩ := relined_cons_of_isBreak ending hc cs
          rw [hrelined]
          exact hesc.continuation?_eq_none tail (isSpace_of_isBreak hd)
      | false =>
          rw [relined_cons_of_ne (ne_newline_of_isBreak hc)]
          by_cases he : esc = some c
          · subst he
            have hbreak : lineBreak? cs = none := by
              simpa [continuation?] using h
            simp [continuation?, lineBreak?_relined_eq_none hbreak]
          · exact continuation?_cons_of_ne _ he

/-! ## Places -/

/-- `φ` takes the places in a text at `off` to those in the text with other line
endings. -/
structure Relines (ending : LineEnding) (φ : Nat → Nat) (off : Nat) (cs : List Char) : Prop where
  place : ∀ passed rest, cs = passed ++ rest →
    φ (off + passed.length) = φ off + (relined ending passed).length
  suits : ending.Suits cs

namespace Relines

/-- Places `k` characters further on, where nothing else changes. -/
theorem moved (k off : Nat) (cs : List Char) : Relines .lf (· + k) off cs where
  place passed rest _ := by
    rw [relined_lf, Nat.add_right_comm]
  suits := .inl rfl

/-- The offsets of a text are those of what a movement leaves. -/
theorem of_onward (h : Relines ending φ off cs) (honward : Onward off cs stop rest) :
    Relines ending φ stop rest := by
  obtain ⟨passed, rfl, rfl⟩ := honward
  refine ⟨?_, h.suits.of_suffix (List.suffix_append passed rest)⟩
  rintro more tail rfl
  have hboth := h.place (passed ++ more) tail (by simp)
  rw [h.place passed (more ++ tail) rfl, Nat.add_assoc off, ← List.length_append, hboth,
    relined_append, List.length_append, Nat.add_assoc]

/-- They are those of the text without its first character. -/
theorem of_cons (h : Relines ending φ off (c :: cs)) : Relines ending φ (off + 1) cs :=
  h.of_onward ((Onward.refl (off + 1) cs).cons c)

/-- What is left of a text that is cut off. -/
theorem take (h : Relines ending φ off cs) (m : Nat) : Relines ending φ off (cs.take m) := by
  refine ⟨fun passed rest hcs => h.place passed (rest ++ cs.drop m) ?_, ?_⟩
  · rw [← List.append_assoc, ← hcs, List.take_append_drop]
  · exact h.suits.imp_right fun hnot hmem => hnot (List.mem_of_mem_take hmem)

/-- Behind the first character. -/
theorem succ (h : Relines ending φ off (c :: cs)) :
    φ (off + 1) = φ off + (relined ending [c]).length :=
  h.place [c] cs rfl

/-- The offset behind a character that is kept is one further. -/
theorem succ_of_kept (h : Relines ending φ off (c :: cs)) (hc : ending = .lf ∨ c ≠ '\n') :
    φ (off + 1) = φ off + 1 := by
  rw [h.succ, relined_cons hc]
  rfl

/-- So it is behind any character but a line feed. -/
theorem succ_of_ne (h : Relines ending φ off (c :: cs)) (hc : c ≠ '\n') :
    φ (off + 1) = φ off + 1 :=
  h.succ_of_kept (.inr hc)

/-- A continuation is passed as a whole. -/
theorem continuation? (h : Relines ending φ off cs) (hesc : esc.Suits ending)
    (hcont : continuation? esc cs = some (n, rest)) :
    ∃ m, DockerfileLint.continuation? esc (relined ending cs) = some (m, relined ending rest) ∧
      φ (off + n) = φ off + m := by
  obtain ⟨passed, hcs, rfl, hrelined⟩ := continuation?_relined hesc h.suits hcont
  exact ⟨_, hrelined, h.place passed rest hcs⟩

end Relines

end DockerfileLint
