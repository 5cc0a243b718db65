import DockerfileLint.Instruction.Argument
import DockerfileLint.Proofs.Movement

/-!
# The steps of the tokenizer

A token is read by four kinds of steps: past a continuation, past an escape character
and the character behind it, past an escape character that ends the text, and past any
other character.  `token_induction` follows them; what is said of tokens elsewhere is
proved along it.

Arguments are tokens with gaps between them, and `arguments_induction` goes from token
to token.  Whether there are any is decided by a movement of its own, whose steps stand
at the end.
-/

namespace DockerfileLint

variable {esc : Escape} {e : Char} {off : Nat} {c d : Char} {cs rest : List Char} {n : Nat}

/-! ## One token -/

/-- A continuation is passed wherever it starts in a token. -/
theorem readTokenFrom_of_continuation? {acc : List (Char × Nat)}
    (h : continuation? esc cs = some (n, rest)) :
    readTokenFrom esc acc off cs = readTokenFrom esc acc (off + n) rest := by
  rw [readTokenFrom]
  split
  · rename_i h'
    rw [h] at h'
    cases h'
    rfl
  · rename_i h'
    rw [h] at h'
    cases h'

/-- Where no continuation starts, the tokenizer looks at one character, or at two if
the first escapes the second. -/
theorem readTokenFrom_cons {acc : List (Char × Nat)} (h : continuation? esc (c :: cs) = none) :
    readTokenFrom esc acc off (c :: cs) =
      if isSpace c then
        ⟨acc.reverse, off, c :: cs⟩
      else if esc = some c then
        match cs with
        | [] => ⟨((c, off) :: acc).reverse, off + 1, []⟩
        | d :: cs => readTokenFrom esc ((d, off + 1) :: (c, off) :: acc) (off + 2) cs
      else
        readTokenFrom esc ((c, off) :: acc) (off + 1) cs := by
  rw [readTokenFrom]
  split
  · rename_i h'
    rw [h] at h'
    cases h'
  · rfl

/-- What was taken before only goes in front. -/
theorem readTokenFrom_append (esc : Escape) (acc acc' : List (Char × Nat)) (off : Nat)
    (cs : List Char) :
    readTokenFrom esc (acc ++ acc') off cs =
      { readTokenFrom esc acc off cs with
        taken := acc'.reverse ++ (readTokenFrom esc acc off cs).taken } := by
  fun_induction readTokenFrom esc acc off cs with
  | case1 acc off cs n rest h ih => rw [readTokenFrom_of_continuation? h, ih]
  | case2 acc off h =>
      rw [readTokenFrom]
      simp [continuation?]
  | case3 acc off c cs h hspace =>
      rw [readTokenFrom_cons h]
      simp [hspace]
  | case4 acc off c hspace hesc h =>
      rw [readTokenFrom_cons h]
      simp [hspace, hesc]
  | case5 acc off c hspace hesc d cs h ih =>
      rw [readTokenFrom_cons h]
      simpa [hspace, hesc] using ih
  | case6 acc off c cs h hspace hesc ih =>
      rw [readTokenFrom_cons h]
      simpa [hspace, hesc] using ih

/-- So it is in front of the token. -/
theorem readToken_of_continuation? (h : continuation? esc cs = some (n, rest)) :
    readToken esc off cs = readToken esc (off + n) rest :=
  readTokenFrom_of_continuation? h

/-- There is no token at the end of a text. -/
@[simp] theorem readToken_nil : readToken esc off [] = ⟨[], off, []⟩ := by
  unfold readToken
  rw [readTokenFrom]
  simp [continuation?]

/-- White space ends a token. -/
theorem readToken_of_isSpace (h : continuation? esc (c :: cs) = none) (hspace : isSpace c = true) :
    readToken esc off (c :: cs) = ⟨[], off, c :: cs⟩ := by
  unfold readToken
  rw [readTokenFrom_cons h]
  simp [hspace]

/-- An escape character at the end of the text stays alone. -/
theorem readToken_last (hspace : isSpace e = false) :
    readToken (some e) off [e] = ⟨[(e, off)], off + 1, []⟩ := by
  unfold readToken
  rw [readTokenFrom_cons (by simp [continuation?, lineBreak?])]
  simp [hspace]

/-- An escape character is taken together with the character behind it. -/
theorem readToken_pair (h : continuation? (some e) (e :: d :: cs) = none)
    (hspace : isSpace e = false) :
    readToken (some e) off (e :: d :: cs) =
      { readToken (some e) (off + 2) cs with
        taken := (e, off) :: (d, off + 1) :: (readToken (some e) (off + 2) cs).taken } := by
  unfold readToken
  rw [readTokenFrom_cons h]
  simpa [hspace] using readTokenFrom_append (some e) [] [(d, off + 1), (e, off)] (off + 2) cs

/-- Any other character is taken alone. -/
theorem readToken_cons (h : continuation? esc (c :: cs) = none) (hspace : isSpace c = false)
    (hesc : esc ≠ some c) :
    readToken esc off (c :: cs) =
      { readToken esc (off + 1) cs with
        taken := (c, off) :: (readToken esc (off + 1) cs).taken } := by
  unfold readToken
  rw [readTokenFrom_cons h]
  simpa [hspace, hesc] using readTokenFrom_append esc [] [(c, off)] (off + 1) cs

/-- A text is taken apart by the steps of the tokenizer. -/
theorem token_induction (esc : Escape) {motive : Nat → List Char → Prop}
    (splice : ∀ off cs n rest, continuation? esc cs = some (n, rest) →
      motive (off + n) rest → motive off cs)
    (nil : ∀ off, motive off [])
    (space : ∀ off c cs, continuation? esc (c :: cs) = none → isSpace c = true →
      motive off (c :: cs))
    (last : ∀ off e, esc = some e → isSpace e = false → motive off [e])
    (pair : ∀ off e d cs, esc = some e → isSpace e = false →
      continuation? (some e) (e :: d :: cs) = none → motive (off + 2) cs →
      motive off (e :: d :: cs))
    (char : ∀ off c cs, continuation? esc (c :: cs) = none → isSpace c = false →
      esc ≠ some c → motive (off + 1) cs → motive off (c :: cs))
    (off : Nat) (cs : List Char) : motive off cs :=
  readTokenFrom.induct esc (fun _ => motive)
    (fun _ off cs n rest h ih => splice off cs n rest h ih)
    (fun _ off _ => nil off)
    (fun _ off c cs h hspace => space off c cs h hspace)
    (fun _ off c hspace hesc _ => last off c hesc (by simpa using hspace))
    (fun _ off c hspace hesc d cs h ih =>
      pair off c d cs hesc (by simpa using hspace) (hesc ▸ h) ih)
    (fun _ off c cs h hspace hesc ih => char off c cs h (by simpa using hspace) hesc ih)
    [] off cs

/-- A token ends with the text or before white space. -/
theorem readToken_rest_head {more : List Char} (h : (readToken esc off cs).rest = c :: more) :
    continuation? esc (c :: more) = none ∧ isSpace c = true := by
  induction off, cs using token_induction esc with
  | splice off cs n rest hcont ih =>
      rw [readToken_of_continuation? hcont] at h
      exact ih h
  | nil off => simp at h
  | space off d cs hcont hspace =>
      rw [readToken_of_isSpace hcont hspace] at h
      cases h
      exact ⟨hcont, hspace⟩
  | last off e hesc hspace =>
      subst hesc
      rw [readToken_last hspace] at h
      cases h
  | pair off e d cs hesc hspace hcont ih =>
      subst hesc
      rw [readToken_pair hcont hspace] at h
      exact ih h
  | char off d cs hcont hspace hesc ih =>
      rw [readToken_cons hcont hspace hesc] at h
      exact ih h

/-- A token that starts here has a character. -/
theorem readToken_taken_ne_nil (h : continuation? esc (c :: cs) = none)
    (hspace : isSpace c = false) : (readToken esc off (c :: cs)).taken ≠ [] := by
  by_cases hesc : esc = some c
  · subst hesc
    cases cs with
    | nil => simp [readToken_last hspace]
    | cons d cs => simp [readToken_pair h hspace]
  · simp [readToken_cons h hspace hesc]

/-- A token ends onward from its start. -/
theorem onward_readToken (esc : Escape) (off : Nat) (cs : List Char) :
    Onward off cs (readToken esc off cs).stop (readToken esc off cs).rest := by
  induction off, cs using token_induction esc with
  | splice off cs n rest h ih =>
      rw [readToken_of_continuation? h]
      exact (onward_of_continuation? off h).trans ih
  | nil off => simpa using Onward.refl off []
  | space off c cs h hspace =>
      rw [readToken_of_isSpace h hspace]
      exact Onward.refl off (c :: cs)
  | last off e he hspace =>
      subst he
      rw [readToken_last hspace]
      exact (Onward.refl (off + 1) []).cons e
  | pair off e d cs he hspace h ih =>
      subst he
      rw [readToken_pair h hspace]
      exact (ih.cons d).cons e
  | char off c cs h hspace hne ih =>
      rw [readToken_cons h hspace hne]
      exact ih.cons c

/-- The characters of a token stand in the text, at the offsets they are taken with, and
are no breaks. -/
theorem readToken_taken_onward (esc : Escape) (off : Nat) (cs : List Char) :
    ∀ p ∈ (readToken esc off cs).taken,
      isBreak p.1 = false ∧ ∃ rest, Onward off cs p.2 (p.1 :: rest) := by
  induction off, cs using token_induction esc with
  | splice off cs n rest h ih =>
      rw [readToken_of_continuation? h]
      intro p hp
      obtain ⟨hbreak, tail, honward⟩ := ih p hp
      exact ⟨hbreak, tail, (onward_of_continuation? off h).trans honward⟩
  | nil off => simp
  | space off c cs h hspace => simp [readToken_of_isSpace h hspace]
  | last off e he hspace =>
      subst he
      rw [readToken_last hspace]
      intro p hp
      obtain rfl := List.mem_singleton.mp hp
      exact ⟨isBreak_eq_false_of_isSpace hspace, [], Onward.refl off [e]⟩
  | pair off e d cs he hspace h ih =>
      subst he
      rw [readToken_pair h hspace]
      intro p hp
      rcases List.mem_cons.mp hp with rfl | hp
      · exact ⟨isBreak_eq_false_of_isSpace hspace, d :: cs, Onward.refl off _⟩
      · rcases List.mem_cons.mp hp with rfl | hp
        · exact ⟨isBreak_eq_false_of_continuation?_eq_none h, cs,
            (Onward.refl (off + 1) (d :: cs)).cons e⟩
        · obtain ⟨hbreak, tail, honward⟩ := ih p hp
          exact ⟨hbreak, tail, (honward.cons d).cons e⟩
  | char off c cs h hspace hne ih =>
      rw [readToken_cons h hspace hne]
      intro p hp
      rcases List.mem_cons.mp hp with rfl | hp
      · exact ⟨isBreak_eq_false_of_isSpace hspace, cs, Onward.refl off (c :: cs)⟩
      · obtain ⟨hbreak, tail, honward⟩ := ih p hp
        exact ⟨hbreak, tail, honward.cons c⟩

/-! ## One token after the other -/

/-- A gap ends onward from its start. -/
theorem onward_readGap (esc : Escape) (off : Nat) (cs : List Char) :
    Onward off cs (readGap esc off cs).stop (readGap esc off cs).rest :=
  onward_readWhile esc _ off cs

/-- A text of nothing but a gap has no arguments. -/
theorem argumentsFrom_of_nil (h : (readGap esc off cs).rest = []) :
    argumentsFrom esc off cs = [] := by
  rw [argumentsFrom]
  split
  · rfl
  · rename_i heq
    rw [heq] at h
    cases h

/-- Behind the gap there is an argument, and then the others. -/
theorem argumentsFrom_of_cons (h : (readGap esc off cs).rest = c :: rest) :
    argumentsFrom esc off cs =
      let start := (readGap esc off cs).stop
      let token := readToken esc start (c :: rest)
      { value := token.text, span := ⟨start, token.reach start⟩ } ::
        argumentsFrom esc token.stop token.rest := by
  rw [argumentsFrom]
  split
  · rename_i heq
    rw [heq] at h
    cases h
  · rename_i heq
    rw [heq] at h ⊢
    cases h
    rfl

/-- A text is taken apart token by token. -/
theorem arguments_induction (esc : Escape) {motive : Nat → List Char → Prop}
    (nil : ∀ off cs, (readGap esc off cs).rest = [] → motive off cs)
    (cons : ∀ off cs c rest, (readGap esc off cs).rest = c :: rest →
      motive (readToken esc (readGap esc off cs).stop (c :: rest)).stop
        (readToken esc (readGap esc off cs).stop (c :: rest)).rest → motive off cs)
    (off : Nat) (cs : List Char) : motive off cs := by
  induction off, cs using argumentsFrom.induct esc with
  | case1 off cs taken stop h => exact nil off cs (by rw [h])
  | case2 off cs taken start c rest h token ih =>
      exact cons off cs c rest (by rw [h]) (by rw [h]; exact ih)

/-! ## Whether there are arguments -/

/-- A continuation counts as something only where it ends the document. -/
theorem argumentsPresent_of_continuation? {finish : Nat}
    (h : continuation? esc cs = some (n, rest)) :
    argumentsPresent esc finish off cs =
      if finish ≤ off + n then true else argumentsPresent esc finish (off + n) rest := by
  rw [argumentsPresent]
  split
  · rename_i heq
    rw [h] at heq
    cases heq
    rfl
  · rename_i heq
    rw [h] at heq
    cases heq

/-- There are no arguments at the end of a text. -/
@[simp] theorem argumentsPresent_nil {finish : Nat} :
    argumentsPresent esc finish off [] = false := by
  rw [argumentsPresent]
  simp [continuation?]

/-- White space is passed in search of arguments, and anything else is one. -/
theorem argumentsPresent_cons {finish : Nat} (h : continuation? esc (c :: cs) = none) :
    argumentsPresent esc finish off (c :: cs) =
      if isSpace c then argumentsPresent esc finish (off + 1) cs else true := by
  rw [argumentsPresent]
  split
  · rename_i heq
    rw [h] at heq
    cases heq
  · rfl

end DockerfileLint
