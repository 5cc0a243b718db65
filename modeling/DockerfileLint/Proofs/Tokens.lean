import DockerfileLint.Proofs.Boundaries
import DockerfileLint.Proofs.Splicing
import DockerfileLint.Proofs.Tokenizer

/-!
# Arguments and continuations

There are two readings of the text behind a keyword.  One takes out every
continuation, from left to right as all movements do, and then splits what is left
at blanks; an escape character keeps itself and the character behind it.  The
other is the tokenizer, which looks for continuations and for escaped characters
at the same time: an escape character that is itself escaped starts no
continuation there.

The two agree unless a line break stands behind an even number of escape
characters, two or more.  The movements join the lines at such a break, with the
last of the escape characters, while the tokenizer pairs the escape characters off
and ends the token at the break.  `arguments_eq_splitAtBlanks_iff` says that this
is the only difference and that it always shows.
-/

namespace DockerfileLint

variable {esc : Escape} {e : Char} {off run : Nat} {c d : Char} {cs rest : List Char} {n : Nat}

/-! ## The two notions -/

/-- Splits a text at blanks, with the token begun so far in front.  An escape
character keeps itself and the character behind it. -/
def splitAtBlanks (esc : Escape) : List Char → List Char → List (List Char)
  | token, [] => if token = [] then [] else [token]
  | token, c :: cs =>
    if isBlank c then
      if token = [] then splitAtBlanks esc [] cs else token :: splitAtBlanks esc [] cs
    else if esc = some c then
      match cs with
      | [] => [token ++ [c]]
      | d :: cs => splitAtBlanks esc (token ++ [c, d]) cs
    else
      splitAtBlanks esc (token ++ [c]) cs

/-- A line break stands behind an even number of escape characters, two or more;
`run` escape characters come before the text. -/
def hasEscapedBreak (esc : Escape) : Nat → List Char → Bool
  | _, [] => false
  | run, c :: cs =>
    (isBreak c && run ≠ 0 && run % 2 = 0) ||
      hasEscapedBreak esc (if esc = some c then run + 1 else 0) cs

/-- A blank ends the token before it. -/
theorem splitAtBlanks_blank {token : List Char} (h : isBlank c = true) :
    splitAtBlanks esc token (c :: cs) =
      if token = [] then splitAtBlanks esc [] cs else token :: splitAtBlanks esc [] cs := by
  rw [splitAtBlanks.eq_def]
  simp [h]

/-- An escape character takes the character behind it into the token. -/
theorem splitAtBlanks_pair {token : List Char} (h : isBlank e = false) :
    splitAtBlanks (some e) token (e :: d :: cs) =
      splitAtBlanks (some e) (token ++ [e, d]) cs := by
  rw [splitAtBlanks.eq_def]
  simp [h]

/-- Any other character goes into the token. -/
theorem splitAtBlanks_char {token : List Char} (h : isBlank c = false) (hesc : esc ≠ some c) :
    splitAtBlanks esc token (c :: cs) = splitAtBlanks esc (token ++ [c]) cs := by
  rw [splitAtBlanks.eq_def]
  simp [h, hesc]

/-! ## Counting escape characters -/

/-- A character that is neither the escape nor a break ends a run of escapes. -/
theorem hasEscapedBreak_of_ne (h : esc ≠ some c) (hc : isBreak c = false) :
    hasEscapedBreak esc run (c :: cs) = hasEscapedBreak esc 0 cs := by
  simp [hasEscapedBreak, h, hc]

/-- An escape character makes the run longer. -/
theorem hasEscapedBreak_escape (he : isBreak e = false) :
    hasEscapedBreak (some e) run (e :: cs) = hasEscapedBreak (some e) (run + 1) cs := by
  simp [hasEscapedBreak, he]

/-- White space breaks a run of escape characters off. -/
theorem hasEscapedBreak_zero_of_isSpace (hesc : esc.Visible) (h : isSpace c = true) :
    hasEscapedBreak esc 0 (c :: cs) = hasEscapedBreak esc 0 cs := by
  have hne : esc ≠ some c := by
    intro heq
    rw [hesc c heq] at h
    cases h
  simp [hasEscapedBreak, hne]

/-- Behind one escape character at least only the parity of their number counts. -/
theorem hasEscapedBreak_add_two (run : Nat) :
    hasEscapedBreak esc (run + 3) cs = hasEscapedBreak esc (run + 1) cs := by
  induction cs generalizing run with
  | nil => rfl
  | cons c cs ih =>
      have hparity : (run + 3) % 2 = (run + 1) % 2 := by omega
      simp only [hasEscapedBreak, hparity]
      split
      · rw [ih (run + 1)]
        simp
      · simp

/-- Two escape characters count for nothing unless a break follows at once. -/
theorem hasEscapedBreak_two (h : ∀ d ds, cs = d :: ds → isBreak d = false) :
    hasEscapedBreak esc 2 cs = hasEscapedBreak esc 0 cs := by
  cases cs with
  | nil => rfl
  | cons d ds =>
      have hd := h d ds rfl
      by_cases hesc : esc = some d
      · subst hesc
        rw [hasEscapedBreak_escape hd, hasEscapedBreak_escape hd]
        exact hasEscapedBreak_add_two 0
      · rw [hasEscapedBreak_of_ne hesc hd, hasEscapedBreak_of_ne hesc hd]

/-- Breaks behind no escape character or an odd number of them are not escaped. -/
theorem hasEscapedBreak_breaks_append (hesc : esc.Visible) {breaks : List Char}
    (hbreaks : ∀ b ∈ breaks, isBreak b = true) :
    hasEscapedBreak esc 0 (breaks ++ cs) = hasEscapedBreak esc 0 cs := by
  induction breaks with
  | nil => rfl
  | cons b breaks ih =>
      rw [List.cons_append,
        hasEscapedBreak_zero_of_isSpace hesc (isSpace_of_isBreak (hbreaks b List.mem_cons_self)),
        ih fun b' hb' => hbreaks b' (List.mem_cons_of_mem b hb')]

/-- A continuation is no escaped break. -/
theorem hasEscapedBreak_of_continuation? (hesc : esc.Visible)
    (h : continuation? esc cs = some (n, rest)) :
    hasEscapedBreak esc 0 cs = hasEscapedBreak esc 0 rest := by
  obtain ⟨e, tail, m, rfl, rfl, hm, rfl⟩ := continuation?_eq_some.mp h
  obtain ⟨breaks, rfl, hlen, hbreaks⟩ := lineBreak?_eq_append hm
  have he : isBreak e = false := isBreak_eq_false_of_isSpace (hesc e rfl)
  rw [hasEscapedBreak_escape he]
  cases breaks with
  | nil =>
      have := lineBreak?_pos hm
      simp at hlen
      omega
  | cons b breaks =>
      have hb := hbreaks b List.mem_cons_self
      have hne : some e ≠ some b := by
        intro heq
        obtain rfl := Option.some.inj heq
        rw [hb] at he
        cases he
      have hfirst : hasEscapedBreak (some e) (0 + 1) (b :: breaks ++ rest) =
          hasEscapedBreak (some e) 0 (breaks ++ rest) := by
        simp [hasEscapedBreak, hne]
      rw [hfirst, hasEscapedBreak_breaks_append hesc fun b' hb' =>
        hbreaks b' (List.mem_cons_of_mem b hb')]

/-! ## A token and the text less its continuations -/

/-- Two escape characters hold an escaped break if a break follows at once. -/
theorem isBreak_eq_false_of_hasEscapedBreak_two (h : hasEscapedBreak esc 2 cs = false) :
    ∀ d ds, cs = d :: ds → isBreak d = false := by
  rintro d ds rfl
  simp only [hasEscapedBreak, Bool.or_eq_false_iff] at h
  simpa using h.1

/-- A break behind a pair of escape characters is the only thing that makes the
tokenizer and the movements see different characters. -/
theorem withoutContinuations_pair (he : isBreak e = false)
    (h : continuation? (some e) (e :: d :: cs) = none)
    (hnext : d = e → ∀ x xs, cs = x :: xs → isBreak x = false) :
    withoutContinuations (some e) (e :: d :: cs) = e :: d :: withoutContinuations (some e) cs ∧
      hasEscapedBreak (some e) 0 (e :: d :: cs) = hasEscapedBreak (some e) 0 cs := by
  have hd := isBreak_eq_false_of_continuation?_eq_none h
  rw [hasEscapedBreak_escape he, withoutContinuations_cons h]
  by_cases hde : d = e
  · subst hde
    have hcont : continuation? (some d) (d :: cs) = none := by
      cases cs with
      | nil => simp [continuation?, lineBreak?]
      | cons x xs => simp [continuation?, lineBreak?_eq_none (hnext rfl x xs rfl)]
    rw [hasEscapedBreak_escape he, withoutContinuations_cons hcont]
    exact ⟨rfl, hasEscapedBreak_two (hnext rfl)⟩
  · have hne : some e ≠ some d := fun heq => hde (Option.some.inj heq).symm
    rw [withoutContinuations_cons (continuation?_cons_of_ne cs hne)]
    exact ⟨rfl, hasEscapedBreak_of_ne hne hd⟩

/-- Where no break is escaped, none stands behind a pair of escape characters. -/
theorem isBreak_eq_false_behind_pair (he : isBreak e = false)
    (hescaped : hasEscapedBreak (some e) 0 (e :: d :: cs) = false) :
    d = e → ∀ x xs, cs = x :: xs → isBreak x = false := by
  rintro rfl
  rw [hasEscapedBreak_escape he, hasEscapedBreak_escape he] at hescaped
  exact isBreak_eq_false_of_hasEscapedBreak_two hescaped

/-- Without escaped breaks a token takes the first characters of the text less its
continuations, and no escaped break is left behind it. -/
theorem withoutContinuations_readToken (hesc : esc.Visible) (off : Nat) (cs : List Char)
    (hescaped : hasEscapedBreak esc 0 cs = false) :
    withoutContinuations esc cs =
        (readToken esc off cs).taken.map Prod.fst ++
          withoutContinuations esc (readToken esc off cs).rest ∧
      hasEscapedBreak esc 0 (readToken esc off cs).rest = false := by
  induction off, cs using token_induction esc with
  | splice off cs n rest h ih =>
      rw [withoutContinuations_of_continuation? h, readToken_of_continuation? h]
      exact ih ((hasEscapedBreak_of_continuation? hesc h).symm.trans hescaped)
  | nil off => simp [hasEscapedBreak]
  | space off c cs h hspace =>
      rw [readToken_of_isSpace h hspace]
      simpa using hescaped
  | last off e he hspace =>
      subst he
      have hcont : continuation? (some e) [e] = none := by simp [continuation?, lineBreak?]
      rw [readToken_last hspace, withoutContinuations_cons hcont]
      simp [hasEscapedBreak]
  | pair off e d cs he hspace h ih =>
      subst he
      have hbreak := isBreak_eq_false_of_isSpace hspace
      obtain ⟨hsplice, hsame⟩ :=
        withoutContinuations_pair hbreak h (isBreak_eq_false_behind_pair hbreak hescaped)
      obtain ⟨htaken, hrest⟩ := ih (hsame.symm.trans hescaped)
      rw [hsplice, readToken_pair h hspace, htaken]
      exact ⟨rfl, hrest⟩
  | char off c cs h hspace hne ih =>
      rw [hasEscapedBreak_of_ne hne (isBreak_eq_false_of_isSpace hspace)] at hescaped
      obtain ⟨htaken, hrest⟩ := ih hescaped
      rw [withoutContinuations_cons h, readToken_cons h hspace hne, htaken]
      exact ⟨rfl, hrest⟩

/-- Splitting goes through the characters of a token as the tokenizer does. -/
theorem splitAtBlanks_taken (off : Nat) (cs : List Char) {more : List Char}
    (hmore : (readToken esc off cs).rest = [] → more = []) (token : List Char) :
    splitAtBlanks esc token ((readToken esc off cs).taken.map Prod.fst ++ more) =
      splitAtBlanks esc (token ++ (readToken esc off cs).taken.map Prod.fst) more := by
  induction off, cs using token_induction esc generalizing token with
  | splice off cs n rest h ih =>
      rw [readToken_of_continuation? h] at hmore ⊢
      exact ih hmore token
  | nil off => simp
  | space off c cs h hspace => simp [readToken_of_isSpace h hspace]
  | last off e he hspace =>
      subst he
      rw [readToken_last hspace] at hmore ⊢
      rw [hmore rfl]
      simp [splitAtBlanks, isBlank_eq_false_of_isSpace hspace]
  | pair off e d cs he hspace h ih =>
      subst he
      rw [readToken_pair h hspace] at hmore ⊢
      simp only [List.map_cons, List.cons_append]
      rw [splitAtBlanks_pair (isBlank_eq_false_of_isSpace hspace), ih hmore (token ++ [e, d])]
      simp
  | char off c cs h hspace hne ih =>
      rw [readToken_cons h hspace hne] at hmore ⊢
      simp only [List.map_cons, List.cons_append]
      rw [splitAtBlanks_char (isBlank_eq_false_of_isSpace hspace) hne, ih hmore (token ++ [c])]
      simp

/-- Blanks in front of a token do not count. -/
theorem splitAtBlanks_dropWhile (hbreaks : ∀ c ∈ cs, isBreak c = false) :
    splitAtBlanks esc [] cs = splitAtBlanks esc [] (cs.dropWhile isSpace) := by
  induction cs with
  | nil => rfl
  | cons c cs ih =>
      cases hspace : isSpace c with
      | true =>
          have hblank : isBlank c = true := by
            simpa [isSpace, hbreaks c List.mem_cons_self] using hspace
          rw [List.dropWhile_cons_of_pos hspace,
            ← ih fun d hd => hbreaks d (List.mem_cons_of_mem c hd), splitAtBlanks_blank hblank]
          simp
      | false => rw [List.dropWhile_cons_of_neg (by simp [hspace])]

/-- A token ends where white space follows, or nothing. -/
theorem splitAtBlanks_token {token : List Char} (htoken : token ≠ [])
    (hspace : ∀ c ds, cs = c :: ds → isBlank c = true) :
    splitAtBlanks esc token cs = token :: splitAtBlanks esc [] cs := by
  cases cs with
  | nil => simp [splitAtBlanks, htoken]
  | cons c ds => simp [splitAtBlanks_blank (hspace c ds rfl), htoken]

/-- Going past white space does not change which breaks are escaped. -/
theorem hasEscapedBreak_readGap (hesc : esc.Visible) (off : Nat) (cs : List Char) :
    hasEscapedBreak esc 0 (readGap esc off cs).rest = hasEscapedBreak esc 0 cs := by
  unfold readGap
  induction off, cs using splicing_induction esc with
  | splice off cs n rest h ih =>
      rw [readWhile_of_continuation? h, ih, hasEscapedBreak_of_continuation? hesc h]
  | nil off => simp
  | char off c cs h ih =>
      cases hspace : isSpace c with
      | true =>
          rw [readWhile_cons_of_keep h hspace, hasEscapedBreak_zero_of_isSpace hesc hspace]
          exact ih
      | false => rw [readWhile_cons_of_not_keep h hspace]

/-! ## The equation -/

/-- In a text whose line breaks are all in continuations a blank stands behind a
token. -/
theorem isBlank_behind_token {ds : List Char}
    (hbreaks : ∀ x ∈ withoutContinuations esc (readToken esc off cs).rest, isBreak x = false)
    (h : withoutContinuations esc (readToken esc off cs).rest = d :: ds) : isBlank d = true := by
  cases hrest : (readToken esc off cs).rest with
  | nil => simp [hrest] at h
  | cons x xs =>
      obtain ⟨hcont, hspace⟩ := readToken_rest_head hrest
      rw [hrest, withoutContinuations_cons hcont] at hbreaks h
      obtain ⟨rfl, -⟩ := List.cons.inj h
      simpa [isSpace, hbreaks x List.mem_cons_self] using hspace

/-- The gap in front of a token is the white space in front of the text less its
continuations. -/
theorem withoutContinuations_readGap (esc : Escape) (off : Nat) (cs : List Char) :
    withoutContinuations esc (readGap esc off cs).rest =
      (withoutContinuations esc cs).dropWhile isSpace :=
  withoutContinuations_rest esc isSpace off cs

/-- Without escaped breaks, and with every line break in a continuation, the
arguments are what splitting at blanks makes of the text less its continuations. -/
theorem argumentsFrom_values (hesc : esc.Visible) (off : Nat) (cs : List Char)
    (hbreaks : ∀ c ∈ withoutContinuations esc cs, isBreak c = false)
    (hescaped : hasEscapedBreak esc 0 cs = false) :
    (argumentsFrom esc off cs).map (fun a => a.value.toList) =
      splitAtBlanks esc [] (withoutContinuations esc cs) := by
  induction off, cs using arguments_induction esc with
  | nil off cs hgap =>
      have hrest := withoutContinuations_readGap esc off cs
      rw [hgap] at hrest
      rw [argumentsFrom_of_nil hgap, splitAtBlanks_dropWhile hbreaks, ← hrest]
      simp [splitAtBlanks]
  | cons off cs c rest hgap ih =>
      have hrest := withoutContinuations_readGap esc off cs
      have hescapedRest := hasEscapedBreak_readGap hesc off cs
      rw [hgap] at hrest
      rw [hgap, hescaped] at hescapedRest
      obtain ⟨hcont, hspace⟩ := readWhile_rest_head hgap
      obtain ⟨htaken, hleft⟩ := withoutContinuations_readToken hesc (readGap esc off cs).stop
        (c :: rest) hescapedRest
      have hbreaksLeft : ∀ d ∈ withoutContinuations esc
          (readToken esc (readGap esc off cs).stop (c :: rest)).rest, isBreak d = false := by
        intro d hd
        apply hbreaks d
        apply (List.dropWhile_suffix isSpace).subset
        rw [← hrest, htaken]
        exact List.mem_append_right _ hd
      have hnil : (readToken esc (readGap esc off cs).stop (c :: rest)).rest = [] →
          withoutContinuations esc
            (readToken esc (readGap esc off cs).stop (c :: rest)).rest = [] := by
        intro h
        simp [h]
      have hnonempty : (readToken esc (readGap esc off cs).stop (c :: rest)).taken.map Prod.fst ≠
          [] := by
        simpa using readToken_taken_ne_nil hcont hspace
      rw [argumentsFrom_of_cons hgap, splitAtBlanks_dropWhile hbreaks, ← hrest, htaken,
        splitAtBlanks_taken _ _ hnil, List.nil_append,
        splitAtBlanks_token hnonempty fun d ds => isBlank_behind_token hbreaksLeft,
        ← ih hbreaksLeft hleft]
      simp [Reading.text]

/-! ## An escaped break always shows -/

/-- Splitting loses no escape character. -/
theorem count_splitAtBlanks (he : isBlank e = false) (token cs : List Char) :
    (splitAtBlanks (some e) token cs).flatten.count e = token.count e + cs.count e := by
  have hne : ∀ c, isBlank c = true → (c == e) = false := by
    rintro c hc
    simp only [beq_eq_false_iff_ne]
    rintro rfl
    rw [hc] at he
    cases he
  fun_induction splitAtBlanks (some e) token cs with
  | case1 => simp
  | case2 token htoken => simp
  | case3 c cs hblank ih => simp [ih, List.count_cons, hne c hblank]
  | case4 token c cs hblank htoken ih =>
      simp only [List.flatten_cons, List.count_append, ih, List.count_cons, hne c hblank]
      simp
  | case5 token c hblank hesc => simp
  | case6 token c hblank hesc d cs ih =>
      rw [ih]
      simp only [List.count_append, List.count_cons, List.count_nil]
      omega
  | case7 token c cs hblank hesc ih =>
      rw [ih]
      simp only [List.count_append, List.count_cons, List.count_nil]
      omega

/-- White space in front holds no escape character. -/
theorem count_readGap (he : isSpace e = false) (off : Nat) (cs : List Char) :
    (withoutContinuations (some e) (readGap (some e) off cs).rest).count e =
      (withoutContinuations (some e) cs).count e := by
  have hgap : ((readGap (some e) off cs).taken.map Prod.fst).count e = 0 := by
    rw [List.count_eq_zero]
    intro hmem
    obtain ⟨p, hp, rfl⟩ := List.mem_map.mp hmem
    rw [readWhile_taken_keep p hp] at he
    cases he
  rw [withoutContinuations_eq_append (some e) isSpace off cs, List.count_append]
  unfold readGap at hgap ⊢
  omega

/-- A pair of escape characters before a break loses one of them to the
continuation that the movements see there. -/
theorem count_withoutContinuations_pair (hesc : Escape.Visible (some e)) {x : Char}
    (cs : List Char) (hx : isBreak x = true) :
    (withoutContinuations (some e) (e :: e :: x :: cs)).count e <
      (withoutContinuations (some e) (x :: cs)).count e + 2 := by
  have hspace := hesc e rfl
  have hfirst : continuation? (some e) (e :: e :: x :: cs) = none := by
    simp [continuation?, lineBreak?_eq_none (isBreak_eq_false_of_isSpace hspace)]
  obtain ⟨⟨m, rest⟩, hm⟩ := Option.isSome_iff_exists.mp (lineBreak?_isSome cs hx)
  have hsecond : continuation? (some e) (e :: x :: cs) = some (m + 1, rest) := by
    simp [continuation?, hm]
  obtain ⟨breaks, hbreaks, -, hbreak⟩ := lineBreak?_eq_append hm
  rw [withoutContinuations_cons hfirst, withoutContinuations_of_continuation? hsecond, hbreaks,
    withoutContinuations_breaks_append hesc hbreak]
  simp only [List.count_cons, List.count_append, beq_self_eq_true, if_true]
  omega

/-- A token has all the escape characters that the movements see in it, and more
if one of its pairs stands before a break. -/
theorem count_readToken (hesc : Escape.Visible (some e)) (off : Nat) (cs : List Char) :
    let token := readToken (some e) off cs
    (withoutContinuations (some e) cs).count e ≤
        (token.taken.map Prod.fst).count e + (withoutContinuations (some e) token.rest).count e ∧
      (hasEscapedBreak (some e) 0 cs = true → hasEscapedBreak (some e) 0 token.rest = false →
        (withoutContinuations (some e) cs).count e <
          (token.taken.map Prod.fst).count e +
            (withoutContinuations (some e) token.rest).count e) := by
  induction off, cs using token_induction (some e) with
  | splice off cs n rest h ih =>
      rw [readToken_of_continuation? h, withoutContinuations_of_continuation? h,
        hasEscapedBreak_of_continuation? hesc h]
      exact ih
  | nil off => simp [hasEscapedBreak]
  | space off c cs h hspace =>
      rw [readToken_of_isSpace h hspace]
      simp_all
  | last off d hd hspace =>
      obtain rfl := Option.some.inj hd
      rw [readToken_last hspace, withoutContinuations_cons (by simp [continuation?, lineBreak?])]
      simp [hasEscapedBreak, isBreak_eq_false_of_isSpace hspace]
  | pair off d x cs hd hspace h ih =>
      obtain rfl := Option.some.inj hd
      have hbreak := isBreak_eq_false_of_isSpace hspace
      rw [readToken_pair h hspace]
      by_cases hnext : x = e → ∀ y ys, cs = y :: ys → isBreak y = false
      · obtain ⟨hsplice, hsame⟩ := withoutContinuations_pair hbreak h hnext
        rw [hsplice, hsame]
        simp only [List.map_cons, List.count_cons] at ih ⊢
        refine ⟨by omega, fun htrue hfalse => ?_⟩
        have := ih.2 htrue hfalse
        omega
      · simp only [Classical.not_imp, Classical.not_forall, Bool.not_eq_false] at hnext
        obtain ⟨rfl, y, ys, rfl, hy⟩ := hnext
        have hlost := count_withoutContinuations_pair hesc ys hy
        have htaken := ih.1
        simp only [List.map_cons, List.count_cons, beq_self_eq_true, if_true] at htaken ⊢
        exact ⟨by omega, fun _ _ => by omega⟩
  | char off c cs h hspace hne ih =>
      rw [readToken_cons h hspace hne, withoutContinuations_cons h,
        hasEscapedBreak_of_ne hne (isBreak_eq_false_of_isSpace hspace)]
      simp only [List.map_cons, List.count_cons] at ih ⊢
      refine ⟨by omega, fun htrue hfalse => ?_⟩
      have := ih.2 htrue hfalse
      omega

/-- The arguments have all the escape characters that the movements see, and more
if a break is escaped. -/
theorem count_argumentsFrom (hesc : Escape.Visible (some e)) (off : Nat) (cs : List Char) :
    let values := (argumentsFrom (some e) off cs).map fun a => a.value.toList
    (withoutContinuations (some e) cs).count e ≤ values.flatten.count e ∧
      (hasEscapedBreak (some e) 0 cs = true →
        (withoutContinuations (some e) cs).count e < values.flatten.count e) := by
  induction off, cs using arguments_induction (some e) with
  | nil off cs hgap =>
      have hcount := count_readGap (hesc e rfl) off cs
      have hescaped := hasEscapedBreak_readGap hesc off cs
      rw [hgap] at hcount hescaped
      rw [← hescaped, ← hcount]
      simp [hasEscapedBreak]
  | cons off cs c rest hgap ih =>
      have hcount := count_readGap (hesc e rfl) off cs
      have hescaped := hasEscapedBreak_readGap hesc off cs
      rw [hgap] at hcount hescaped
      obtain ⟨hle, hlt⟩ := count_readToken hesc (readGap (some e) off cs).stop (c :: rest)
      rw [argumentsFrom_of_cons hgap, ← hcount, ← hescaped]
      simp only [List.map_cons, List.flatten_cons, List.count_append, Reading.text,
        String.toList_ofList] at ih ⊢
      refine ⟨by omega, fun htrue => ?_⟩
      cases hleft : hasEscapedBreak (some e) 0
          (readToken (some e) (readGap (some e) off cs).stop (c :: rest)).rest with
      | true =>
          have := ih.2 hleft
          omega
      | false =>
          have := hlt htrue hleft
          omega

/-- In a text whose line breaks are all in continuations the arguments are what
splitting makes of the text less its continuations, except where a break is
escaped. -/
theorem argumentsFrom_values_iff (hesc : Escape.Visible (some e)) (off : Nat) (cs : List Char)
    (hbreaks : ∀ c ∈ withoutContinuations (some e) cs, isBreak c = false) :
    (argumentsFrom (some e) off cs).map (fun a => a.value.toList) =
        splitAtBlanks (some e) [] (withoutContinuations (some e) cs) ↔
      hasEscapedBreak (some e) 0 cs = false := by
  constructor
  · intro heq
    cases hescaped : hasEscapedBreak (some e) 0 cs with
    | false => rfl
    | true =>
        have hlt := (count_argumentsFrom hesc off cs).2 hescaped
        have hsplit := count_splitAtBlanks (isBlank_eq_false_of_isSpace (hesc e rfl)) []
          (withoutContinuations (some e) cs)
        rw [← heq] at hsplit
        simp only [List.count_nil, Nat.zero_add] at hsplit
        omega
  · exact argumentsFrom_values hesc off cs hbreaks

/-- Strings are compared character by character. -/
theorem eq_map_ofList_iff {values : List String} {tokens : List (List Char)} :
    values = tokens.map String.ofList ↔ values.map String.toList = tokens := by
  constructor
  · rintro rfl
    simp
  · rintro rfl
    simp

/-- **The tokenizer and the continuations.**  The arguments of a parsed instruction
under the escape character of its document are what splitting at blanks makes of
their text less its continuations, if and only if no line break in that text stands
behind an even number of escape characters, two or more. -/
theorem arguments_eq_splitAtBlanks_iff (text : List Char) (i : Instruction)
    (hi : i ∈ (Dockerfile.parse text).instructions) :
    let esc : Escape := some (Dockerfile.parse text).escape
    (i.arguments esc).map (·.value) =
        (splitAtBlanks esc [] (withoutContinuations esc i.argumentsText)).map String.ofList ↔
      hasEscapedBreak esc 0 i.argumentsText = false := by
  obtain ⟨start, c, rest, -, -, -, -, heq⟩ := mem_parse_instructions hi
  intro esc
  have hbreaks : ∀ d ∈ withoutContinuations esc i.argumentsText, isBreak d = false := by
    intro d hd
    have hline := readLine_argumentsText esc start (c :: rest)
    rw [← heq] at hline
    simpa using keep_of_readWhile_rest_eq_nil hline d hd
  rw [eq_map_ofList_iff, List.map_map]
  exact argumentsFrom_values_iff (visible_escape text) i.nameSpan.stop _ hbreaks

/-- One instruction over two lines, which a single escape character joins. -/
def joinedLines : List Char := "USER ad\\\nmin x".toList

/-- In `joinedLines` the first argument goes on behind the continuation. -/
theorem arguments_eq_splitAtBlanks_joinedLines :
    readInstruction (some '\\') 0 joinedLines ∈ (Dockerfile.parse joinedLines).instructions ∧
      hasEscapedBreak (some '\\') 0 (readInstruction (some '\\') 0 joinedLines).argumentsText =
        false ∧
      ((readInstruction (some '\\') 0 joinedLines).arguments (some '\\')).map (·.value) =
        (splitAtBlanks (some '\\') [] (withoutContinuations (some '\\')
          (readInstruction (some '\\') 0 joinedLines).argumentsText)).map String.ofList := by
  have hi : readInstruction (some '\\') 0 joinedLines ∈
      (Dockerfile.parse joinedLines).instructions := by
    decide +kernel
  have hescaped : hasEscapedBreak (some '\\') 0
      (readInstruction (some '\\') 0 joinedLines).argumentsText = false := by
    decide +kernel
  exact ⟨hi, hescaped, (arguments_eq_splitAtBlanks_iff joinedLines _ hi).mpr hescaped⟩

/-- Behind two escape characters the line break belongs to the instruction, whose
span goes on behind it, and yet separates two arguments. -/
theorem arguments_split_at_escaped_break :
    let text := "FROM a\\\\\nb".toList
    let i := readInstruction (some '\\') 0 text
    (Dockerfile.parse text).instructions = [i] ∧ i.span = ⟨0, text.length⟩ ∧
      (i.arguments (some '\\')).map (·.value) = ["a\\\\", "b"] ∧
      (splitAtBlanks (some '\\') [] (withoutContinuations (some '\\') i.argumentsText)).map
          String.ofList = ["a\\b"] := by
  decide +kernel

end DockerfileLint
