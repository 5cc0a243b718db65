import DockerfileLint.Proofs.ListVerdict

/-!
# The shape of a list

A list is documented as a bracket, strings in double quotes with one comma between each two,
and a bracket that closes it; the first place where this shape breaks is to be reported.  The
walk along a list misses some of these places.  It asks for a comma between two strings, but
not for a string on both sides of a comma, and it asks for a closing bracket, but not that the
list ends there.  Where it ends at a line break behind the bracket, it does not ask for the
last quote either.

What it does enforce is a property of the tokens of the list: a bracket closes it, no two
strings come without a comma between them, and only the last string can be left open, at a
line break.  With two more properties a list in which nothing is reported has the documented
shape, and without one of them it has not: the closing bracket is the last of the tokens, and
every comma stands between two strings.

* `Spells`: a text as a row of tokens with blanks around them;
* `Tokenizes.step`: what one more character of a list makes of its tokens;
* `accepted_list_shape`: the shape of a list in which nothing is reported;
* `Spells.unique`: a list of whole strings can be taken apart in one way only;
* `accepted_stringList_iff`: when that shape is the documented one.
-/

namespace DockerfileLint

variable {esc : Escape} {text cs rest : List Char} {off n bracket : Nat} {c : Char}
  {quoted : Bool}

/-! ## Tokens -/

/-- The text of a string: no quote and no line break is in it. -/
structure QuotedText where
  chars : List Char
  plain : ∀ c ∈ chars, c ≠ '"' ∧ isBreak c = false

namespace QuotedText

/-- The text of a string that has just been opened. -/
def empty : QuotedText where
  chars := []
  plain := by simp

/-- The text with one more character. -/
def snoc (q : QuotedText) (c : Char) (hquote : c ≠ '"') (hbreak : isBreak c = false) :
    QuotedText where
  chars := q.chars ++ [c]
  plain := by
    intro d hd
    rcases List.mem_append.mp hd with hd | hd
    · exact q.plain d hd
    · rw [List.mem_singleton.mp hd]
      exact ⟨hquote, hbreak⟩

end QuotedText

/-- The tokens of a list behind its bracket. -/
inductive ListToken
  | comma
  | closing
  | string (q : QuotedText)
  /-- A string that has not been closed. -/
  | unclosed (q : QuotedText)

namespace ListToken

/-- How a token is written. -/
def spelling : ListToken → List Char
  | comma => [',']
  | closing => [']']
  | string q => '"' :: (q.chars ++ ['"'])
  | unclosed q => '"' :: q.chars

/-- A token is a string, closed or not. -/
def isString : ListToken → Bool
  | comma | closing => false
  | string _ | unclosed _ => true

end ListToken

/-- A text is made of the tokens in their order, with only blanks around them. -/
inductive Spells : List ListToken → List Char → Prop
  | nil : Spells [] []
  | blank {tokens : List ListToken} {cs : List Char} (c : Char) (hc : isBlank c = true)
      (h : Spells tokens cs) : Spells tokens (c :: cs)
  | token {tokens : List ListToken} {cs : List Char} (t : ListToken) (h : Spells tokens cs) :
      Spells (t :: tokens) (t.spelling ++ cs)

/-- The documented shape of a list: strings with one comma between each two, in brackets. -/
def IsStringList (cs : List Char) : Prop :=
  ∃ (strings : List QuotedText) (inner : List Char), cs = '[' :: inner ∧
    Spells ((strings.map ListToken.string).intersperse .comma ++ [.closing]) inner

/-- Between any two strings there is a comma. -/
def CommasBetween (tokens : List ListToken) : Prop :=
  ∀ front a between b back, tokens = front ++ a :: between ++ b :: back →
    a.isString = true → b.isString = true → .comma ∈ between

/-- A string has come, and no comma since. -/
def StringPending (tokens : List ListToken) : Prop :=
  ∃ front a back, tokens = front ++ a :: back ∧ a.isString = true ∧ .comma ∉ back

section

variable {tokens : List ListToken} {t : ListToken}

/-- A token can be put behind a text of tokens. -/
theorem Spells.snoc (h : Spells tokens cs) (t : ListToken) :
    Spells (tokens ++ [t]) (cs ++ t.spelling) := by
  induction h with
  | nil =>
      have halone := Spells.token t .nil
      rwa [List.append_nil] at halone
  | blank c hc _ ih => exact ih.blank c hc
  | token u _ ih =>
      rw [List.append_assoc]
      exact ih.token u

/-- So can a blank, which makes no token. -/
theorem Spells.snoc_blank (h : Spells tokens cs) (hc : isBlank c = true) :
    Spells tokens (cs ++ [c]) := by
  induction h with
  | nil => exact .blank c hc .nil
  | blank d hd _ ih => exact ih.blank d hd
  | token u _ ih =>
      rw [List.append_assoc]
      exact ih.token u

/-- A character that is not blank is the first of a token. -/
theorem Spells.token_head (h : Spells tokens (c :: cs)) (hc : isBlank c = false) :
    ∃ t more, tokens = t :: more ∧ t.spelling.head? = some c := by
  generalize htext : c :: cs = text at h
  cases h with
  | nil => cases htext
  | blank d hd _ =>
      cases htext
      rw [hc] at hd
      cases hd
  | token t _ =>
      refine ⟨t, _, rfl, ?_⟩
      cases t <;> cases htext <;> rfl

/-- Where there is no token, no comma is missing. -/
theorem commasBetween_nil : CommasBetween [] := by
  intro front a between b back h
  simp at h

/-- Nothing is pending before the first token. -/
theorem stringPending_nil : ¬ StringPending [] := by
  rintro ⟨front, a, back, h, -⟩
  simp at h

/-- A string is pending behind a token if it is that token, or if it was pending before and the
token is no comma. -/
theorem stringPending_snoc (h : StringPending (tokens ++ [t])) :
    t.isString = true ∨ StringPending tokens ∧ t ≠ .comma := by
  obtain ⟨front, a, back, htokens, ha, hback⟩ := h
  rcases append_cons_eq_snoc_iff.mp htokens with ⟨-, rfl, -⟩ | ⟨back', rfl, rfl⟩
  · exact .inl ha
  · rw [List.mem_append, List.mem_singleton, not_or] at hback
    exact .inr ⟨⟨front, a, back', rfl, ha, hback.1⟩, Ne.symm hback.2⟩

/-- A token can follow if it is no string, or if no string is pending. -/
theorem CommasBetween.snoc (h : CommasBetween tokens)
    (ht : t.isString = true → ¬ StringPending tokens) : CommasBetween (tokens ++ [t]) := by
  intro front a between b back htokens ha hb
  rcases append_cons_eq_snoc_iff.mp htokens with ⟨rfl, rfl, -⟩ | ⟨back', rfl, -⟩
  · apply Classical.byContradiction
    intro hcomma
    exact ht hb ⟨front, a, between, rfl, ha, hcomma⟩
  · exact h front a between b back' rfl ha hb

end

/-! ## The tokens of a list -/

/-- The text of a string that is open behind the tokens. -/
def openText : Option QuotedText → List Char
  | none => []
  | some q => (ListToken.unclosed q).spelling

/-- What the tokens say of the characters of a list, with the string that is open behind
them. -/
structure Tokenizes (marks : List ListMark) (tokens : List ListToken)
    (pending : Option QuotedText) : Prop where
  spells : ∃ front, Spells tokens front ∧ marks.map ListMark.char = front ++ openText pending
  isOpen : endsOpen marks = pending.isSome
  closed : ∀ q, .unclosed q ∉ tokens
  closing : marks.any ListMark.isBracket = true → .closing ∈ tokens
  separated : CommasBetween tokens
  owed : pending = none → StringPending tokens → CommaOwed marks
  apart : pending.isSome = true → ¬ StringPending tokens

/-- Before the first character there are no tokens and no open string. -/
theorem tokenizes_nil : Tokenizes [] [] none where
  spells := ⟨[], .nil, rfl⟩
  isOpen := rfl
  closed := by simp
  closing := by simp
  separated := commasBetween_nil
  owed := fun _ h => absurd h stringPending_nil
  apart := by simp

section

variable {before : List ListMark} {m : ListMark} {tokens : List ListToken} {q : QuotedText}

/-- A character of a string goes to its text. -/
theorem Tokenizes.plain (h : Tokenizes before tokens (some q)) (hquoted : m.quoted = true)
    (hquote : m.char ≠ '"') (hbreak : isBreak m.char = false) :
    Tokenizes (before ++ [m]) tokens (some (q.snoc m.char hquote hbreak)) where
  spells := by
    obtain ⟨front, hspells, hmap⟩ := h.spells
    refine ⟨front, hspells, ?_⟩
    rw [List.map_append, hmap, List.append_assoc]
    rfl
  isOpen := by
    simp [ListMark.leavesOpen, hquote, hquoted]
  closed := h.closed
  closing := by
    simpa [ListMark.isBracket, hquoted] using h.closing
  separated := h.separated
  owed := by simp
  apart := fun _ => h.apart rfl

/-- A quote in a string closes it. -/
theorem Tokenizes.close (h : Tokenizes before tokens (some q)) (hcloses : m.closes = true) :
    Tokenizes (before ++ [m]) (tokens ++ [.string q]) none := by
  obtain ⟨hchar, hquoted⟩ : m.char = '"' ∧ m.quoted = true := by
    simpa [ListMark.closes] using hcloses
  constructor
  case spells =>
      obtain ⟨front, hspells, hmap⟩ := h.spells
      refine ⟨_, hspells.snoc (.string q), ?_⟩
      rw [List.map_append, hmap, List.map_singleton, hchar]
      simp [openText, ListToken.spelling]
  case isOpen => simp [ListMark.leavesOpen, hchar, hquoted]
  case closed => simpa using h.closed
  case closing =>
      intro hbracket
      apply List.mem_append_left
      exact h.closing (by simpa [ListMark.isBracket, hquoted] using hbracket)
  case separated => exact h.separated.snoc fun _ => h.apart rfl
  case owed => exact fun _ _ => commaOwed_snoc.mpr (.inl hcloses)
  case apart => simp

/-- A quote between strings opens one, if no comma is owed. -/
theorem Tokenizes.open (h : Tokenizes before tokens none) (hopens : m.opens = true)
    (howed : ¬ CommaOwed before) : Tokenizes (before ++ [m]) tokens (some .empty) := by
  obtain ⟨hchar, hquoted⟩ : m.char = '"' ∧ m.quoted = false := by
    simpa [ListMark.opens] using hopens
  constructor
  case spells =>
      obtain ⟨front, hspells, hmap⟩ := h.spells
      refine ⟨front, hspells, ?_⟩
      rw [List.map_append, hmap, List.map_singleton, hchar]
      simp [openText, ListToken.spelling, QuotedText.empty]
  case isOpen => simp [ListMark.leavesOpen, hchar, hquoted]
  case closed => exact h.closed
  case closing => simpa [ListMark.isBracket, hchar] using h.closing
  case separated => exact h.separated
  case owed => simp
  case apart => exact fun _ hpending => howed (h.owed rfl hpending)

/-- A comma and a bracket between strings are tokens themselves. -/
theorem Tokenizes.mark {t : ListToken} (h : Tokenizes before tokens none)
    (hquoted : m.quoted = false) (hchar : [m.char] = t.spelling) (ht : t.isString = false) :
    Tokenizes (before ++ [m]) (tokens ++ [t]) none := by
  have hquote : m.char ≠ '"' := by
    rintro hquote
    rw [hquote] at hchar
    cases t <;> simp [ListToken.spelling, ListToken.isString] at hchar ht
  have hclosing : m.isBracket = true → t = .closing := by
    cases t <;> simp_all [ListToken.spelling, ListToken.isString, ListMark.isBracket]
  have hcomma : m.isComma = true → t = .comma := by
    cases t <;> simp_all [ListToken.spelling, ListToken.isString, ListMark.isComma]
  constructor
  case spells =>
      obtain ⟨front, hspells, hmap⟩ := h.spells
      refine ⟨_, hspells.snoc t, ?_⟩
      rw [List.map_append, hmap, List.map_singleton, hchar]
      simp [openText]
  case isOpen => simp [ListMark.leavesOpen, hquote, hquoted]
  case closed =>
      intro q hq
      rcases List.mem_append.mp hq with hq | hq
      · exact h.closed q hq
      · rw [← List.mem_singleton.mp hq] at ht
        cases ht
  case closing =>
      rw [List.any_append, Bool.or_eq_true, List.mem_append, List.mem_singleton]
      rintro (hbefore | hm)
      · exact .inl (h.closing hbefore)
      · exact .inr (hclosing (by simpa using hm)).symm
  case separated =>
      refine h.separated.snoc fun hstring => ?_
      rw [ht] at hstring
      cases hstring
  case owed =>
      intro _ hpending
      rcases stringPending_snoc hpending with hstring | ⟨hpending, hne⟩
      · rw [ht] at hstring
        cases hstring
      · refine commaOwed_snoc.mpr (.inr ⟨h.owed rfl hpending, ?_⟩)
        exact eq_false_of_ne_true fun hm => hne (hcomma hm)
  case apart => simp

/-- A blank between strings makes no token. -/
theorem Tokenizes.blank (h : Tokenizes before tokens none) (hquoted : m.quoted = false)
    (hblank : isBlank m.char = true) : Tokenizes (before ++ [m]) tokens none := by
  have hquote : m.char ≠ '"' := ne_of_isBlank hblank rfl
  have hcomma : m.char ≠ ',' := ne_of_isBlank hblank rfl
  have hclosing : m.char ≠ ']' := ne_of_isBlank hblank rfl
  constructor
  case spells =>
      obtain ⟨front, hspells, hmap⟩ := h.spells
      refine ⟨_, hspells.snoc_blank hblank, ?_⟩
      rw [List.map_append, hmap]
      simp [openText]
  case isOpen => simp [ListMark.leavesOpen, hquote, hquoted]
  case closed => exact h.closed
  case closing => simpa [ListMark.isBracket, hclosing] using h.closing
  case separated => exact h.separated
  case owed =>
      intro _ hpending
      refine commaOwed_snoc.mpr (.inr ⟨h.owed rfl hpending, ?_⟩)
      simp [ListMark.isComma, hcomma]
  case apart => simp

/-- One more character of a list that does not break it. -/
theorem Tokenizes.step {pending : Option QuotedText} (h : Tokenizes before tokens pending)
    (hquoted : m.quoted = endsOpen before) (hbreak : isBreak m.char = false)
    (hbreaks : ¬ Breaks before m) :
    ∃ tokens' pending', Tokenizes (before ++ [m]) tokens' pending' := by
  rw [h.isOpen] at hquoted
  cases pending with
  | some q =>
      by_cases hchar : m.char = '"'
      · exact ⟨_, _, h.close (by simp [ListMark.closes, hchar, hquoted])⟩
      · exact ⟨_, _, h.plain hquoted hchar hbreak⟩
  | none =>
      by_cases hchar : m.char = '"'
      · have hopens : m.opens = true := by
          simpa [ListMark.opens, hchar] using hquoted
        exact ⟨_, _, h.open hopens fun howed => hbreaks (.inr ⟨hopens, howed⟩)⟩
      by_cases hcomma : m.char = ','
      · exact ⟨_, _, h.mark (t := .comma) hquoted (by rw [hcomma]; rfl) rfl⟩
      by_cases hclosing : m.char = ']'
      · exact ⟨_, _, h.mark (t := .closing) hquoted (by rw [hclosing]; rfl) rfl⟩
      by_cases hblank : isBlank m.char = true
      · exact ⟨_, _, h.blank hquoted hblank⟩
      · have hforeign : m.isForeign = true := by
          simp_all [ListMark.isForeign]
        exact absurd (.inl hforeign) hbreaks

end

/-! ## The text of a list -/

/-- A reading of a list goes past a continuation, or comes to the end of the text or to a
line break, or takes a character. -/
theorem list_induction (esc : Escape) {motive : Bool → Nat → List Char → Prop}
    (splice : ∀ quoted off cs n rest, outerContinuation? esc quoted cs = some (n, rest) →
      motive quoted (off + n) rest → motive quoted off cs)
    (nil : ∀ quoted off, motive quoted off [])
    (stop : ∀ quoted off c cs, outerContinuation? esc quoted (c :: cs) = none →
      isBreak c = true → motive quoted off (c :: cs))
    (char : ∀ quoted off c cs, outerContinuation? esc quoted (c :: cs) = none →
      isBreak c = false → motive (ListMark.leavesOpen ⟨c, off, quoted⟩) (off + 1) cs →
      motive quoted off (c :: cs))
    (quoted : Bool) (off : Nat) (cs : List Char) : motive quoted off cs := by
  fun_induction listMarks esc quoted off cs with
  | case1 quoted off cs n rest h ih => exact splice quoted off cs n rest h ih
  | case2 quoted off => exact nil quoted off
  | case3 quoted off c cs h ih =>
      cases hc : isBreak c with
      | true => exact stop quoted off c cs h hc
      | false => exact char quoted off c cs h hc ih

/-- A reading ends no further back than it starts. -/
theorem le_finish (esc : Escape) (quoted : Bool) (off : Nat) (cs : List Char) :
    off ≤ (readListFrom esc quoted off cs).finish := by
  induction quoted, off, cs using list_induction esc with
  | splice quoted off cs n rest h ih =>
      rw [readListFrom_of_outerContinuation? h]
      exact Nat.le_of_add_right_le ih
  | nil quoted off => simp
  | stop quoted off c cs h hc => simp [readListFrom_break h hc]
  | char quoted off c cs h hc ih =>
      rw [readListFrom_cons h hc]
      exact Nat.le_of_succ_le ih

/-- A reading that does not come to the end of the text ends at a line break. -/
theorem isBreak_finish (hcs : cs = text.drop off)
    (hbreak : (readListFrom esc quoted off cs).atBreak = true) :
    (text[(readListFrom esc quoted off cs).finish]?).any isBreak = true := by
  induction quoted, off, cs using list_induction esc with
  | splice quoted off cs n rest h ih =>
      rw [readListFrom_of_outerContinuation? h] at hbreak ⊢
      have honward := onward_of_continuation? off (continuation?_of_outerContinuation? h)
      exact ih (honward.eq_drop_text hcs) hbreak
  | nil quoted off => simp at hbreak
  | stop quoted off c cs h hc =>
      rw [readListFrom_break h hc]
      have hhead := congrArg List.head? hcs
      rw [List.head?_drop] at hhead
      simp [← hhead, hc]
  | char quoted off c cs h hc ih =>
      rw [readListFrom_cons h hc] at hbreak ⊢
      exact ih ((Onward.refl (off + 1) cs).cons c |>.eq_drop_text hcs) hbreak

/-- Where a text is cut off behind the continuation that it starts with, or where it starts
with none, the cut makes no difference to that. -/
theorem outerContinuation?_take {m : Nat} (h : outerContinuation? esc quoted cs = some (n, rest))
    (hm : n ≤ m) : outerContinuation? esc quoted (cs.take m) = some (n, rest.take (m - n)) := by
  cases quoted with
  | true => cases h
  | false => exact continuation?_take h hm

/-- A cut makes no continuation outside strings where there was none. -/
theorem outerContinuation?_take_eq_none (m : Nat)
    (h : outerContinuation? esc quoted (c :: cs) = none) :
    outerContinuation? esc quoted (c :: cs.take m) = none := by
  cases quoted with
  | true => rfl
  | false => exact continuation?_take_eq_none m h

/-- The characters of a reading are those of the text that it goes over. -/
theorem listMarks_take_finish (esc : Escape) (quoted : Bool) (off : Nat) (cs : List Char) :
    listMarks esc quoted off (cs.take ((readListFrom esc quoted off cs).finish - off)) =
      (readListFrom esc quoted off cs).marks := by
  induction quoted, off, cs using list_induction esc with
  | splice quoted off cs n rest h ih =>
      rw [readListFrom_of_outerContinuation? h]
      have hle := le_finish esc quoted (off + n) rest
      rw [listMarks_of_outerContinuation? (outerContinuation?_take h (by omega)), Nat.sub_sub]
      exact ih
  | nil quoted off => simp
  | stop quoted off c cs h hc => simp [readListFrom_break h hc]
  | char quoted off c cs h hc ih =>
      rw [readListFrom_cons h hc]
      have hle := le_finish esc (ListMark.leavesOpen ⟨c, off, quoted⟩) (off + 1) cs
      rw [ListReading.marks_cons, ← ih, ← listMarks_cons (outerContinuation?_take_eq_none _ h)]
      exact congrArg _ (take_sub_cons hle c cs)

/-- The run of the tokens: a reading that does not break the list makes tokens of all its
characters. -/
theorem Tokenizes.run {before : List ListMark} {tokens : List ListToken}
    {pending : Option QuotedText} (h : Tokenizes before tokens pending)
    (hquoted : quoted = endsOpen before)
    (hunbroken : Unbroken (before ++ (readListFrom esc quoted off cs).marks)) :
    ∃ tokens' pending',
      Tokenizes (before ++ (readListFrom esc quoted off cs).marks) tokens' pending' := by
  induction quoted, off, cs using list_induction esc generalizing before tokens pending with
  | splice quoted off cs n rest hcont ih =>
      rw [readListFrom_of_outerContinuation? hcont] at hunbroken ⊢
      exact ih h hquoted hunbroken
  | nil quoted off => exact ⟨_, _, by simpa using h⟩
  | stop quoted off c cs hcont hc =>
      rw [readListFrom_break hcont hc]
      exact ⟨_, _, by simpa using h⟩
  | char quoted off c cs hcont hc ih =>
      rw [readListFrom_cons hcont hc] at hunbroken ⊢
      have hbreaks := hunbroken before ⟨c, off, quoted⟩ _ rfl
      obtain ⟨_, _, hstep⟩ := h.step hquoted hc hbreaks
      rw [ListReading.marks_cons, List.append_cons] at hunbroken ⊢
      exact ih hstep endsOpen_snoc.symm hunbroken

/-- The text of a list: its bracket and what stands behind it up to offset `stop`, less the
continuations outside strings. -/
def listText (esc : Escape) (text : List Char) (bracket stop : Nat) : List Char :=
  '[' :: (listMarks esc false (bracket + 1) ((text.take stop).drop (bracket + 1))).map
    ListMark.char

/-- The text of a list, as far as it is read, is its bracket and the characters read. -/
theorem listText_finish (h : text[bracket]? = some '[') :
    listText esc text bracket (readList esc text bracket).finish =
      '[' :: (readList esc text bracket).marks.map ListMark.char := by
  unfold listText
  rw [readList_eq_readListFrom (List.getElem?_eq_some_iff.mp h).1, List.drop_take,
    listMarks_take_finish]

/-- A list that is read up to a line break stops in front of one. -/
theorem isBreak_readList_finish (h : text[bracket]? = some '[')
    (hbreak : (readList esc text bracket).atBreak = true) :
    (text[(readList esc text bracket).finish]?).any isBreak = true := by
  rw [readList_eq_readListFrom (List.getElem?_eq_some_iff.mp h).1] at hbreak ⊢
  exact isBreak_finish rfl hbreak

/-- A list that nothing breaks is made of tokens. -/
theorem exists_tokenizes (h : text[bracket]? = some '[')
    (hunbroken : Unbroken (readList esc text bracket).marks) :
    ∃ tokens pending, Tokenizes (readList esc text bracket).marks tokens pending := by
  rw [readList_eq_readListFrom (List.getElem?_eq_some_iff.mp h).1] at hunbroken ⊢
  exact tokenizes_nil.run rfl hunbroken

/-- A list in which nothing is reported is not broken and does not break off. -/
theorem unbroken_of_fault_eq_none (h : text[bracket]? = some '[')
    (hnone : (checkArray esc bracket (text.drop (bracket + 1))).fault = none) :
    let r := readList esc text bracket
    Unbroken r.marks ∧ breaksOff r.atBreak r.marks = false ∧
      (checkArray esc bracket (text.drop (bracket + 1))).stop = r.finish := by
  intro r
  cases judged_checkArray esc h with
  | broken _ m _ _ _ _ hfault =>
      rw [hnone] at hfault
      cases hfault
  | unbroken hunbroken hfault hstop =>
      rw [List.nil_append] at hunbroken hfault
      refine ⟨hunbroken, ?_, hstop⟩
      apply eq_false_of_ne_true
      intro hoff
      rw [hnone, if_pos hoff] at hfault
      cases hfault

/-- The tokens of a list that does not break off, with the string that is open behind
them. -/
theorem Tokenizes.shape {marks : List ListMark} {tokens : List ListToken}
    {pending : Option QuotedText} {atBreak : Bool} (h : Tokenizes marks tokens pending)
    (hwhole : breaksOff atBreak marks = false) :
    let row := tokens ++ (pending.map ListToken.unclosed).toList
    Spells row (marks.map ListMark.char) ∧ .closing ∈ row ∧ CommasBetween row ∧
      ∀ front q back, row = front ++ .unclosed q :: back → back = [] ∧ atBreak = true := by
  obtain ⟨hclosing, hopen⟩ :
      marks.any ListMark.isBracket = true ∧ (endsOpen marks = true → atBreak = true) := by
    unfold breaksOff at hwhole
    rw [Bool.or_eq_false_iff, Bool.not_eq_false'] at hwhole
    refine ⟨hwhole.1, fun hopen => ?_⟩
    rw [hopen] at hwhole
    simpa using hwhole.2
  have hunclosed : ∀ front q back, tokens ≠ front ++ .unclosed q :: back := by
    rintro front q back rfl
    exact h.closed q (by simp)
  obtain ⟨front, hspells, hmap⟩ := h.spells
  rw [hmap]
  cases pending with
  | none =>
      simp only [openText, Option.map_none, Option.toList_none, List.append_nil]
      refine ⟨hspells, h.closing hclosing, h.separated, ?_⟩
      intro front q back htokens
      exact absurd htokens (hunclosed front q back)
  | some q =>
      refine ⟨hspells.snoc (.unclosed q), List.mem_append_left _ (h.closing hclosing),
        h.separated.snoc fun _ => h.apart rfl, ?_⟩
      intro front q' back htokens
      rcases append_cons_eq_snoc_iff.mp htokens with ⟨-, -, rfl⟩ | ⟨back', hback, -⟩
      · exact ⟨rfl, hopen h.isOpen⟩
      · exact absurd hback (hunclosed front q' back')

/-- **The shape of a list in which nothing is reported.**  Its text is a bracket and a row of
tokens with only blanks around them: commas, closing brackets and strings.  A closing bracket
is among them, and between any two strings there is a comma.  Only the last token can be a
string that is not closed, and only if the list ends at a line break. -/
theorem accepted_list_shape (esc : Escape) (h : text[bracket]? = some '[')
    (hnone : (checkArray esc bracket (text.drop (bracket + 1))).fault = none) :
    let stop := (checkArray esc bracket (text.drop (bracket + 1))).stop
    ∃ tokens inner, listText esc text bracket stop = '[' :: inner ∧ Spells tokens inner ∧
      .closing ∈ tokens ∧ CommasBetween tokens ∧
      ∀ front q back, tokens = front ++ .unclosed q :: back →
        back = [] ∧ (text[stop]?).any isBreak = true := by
  intro stop
  obtain ⟨hunbroken, hwhole, hstop⟩ := unbroken_of_fault_eq_none h hnone
  obtain ⟨tokens, pending, htokens⟩ := exists_tokenizes h hunbroken
  obtain ⟨hspells, hclosing, hseparated, hunclosed⟩ := htokens.shape hwhole
  have hfinish : stop = (readList esc text bracket).finish := hstop
  rw [hfinish]
  refine ⟨_, _, listText_finish h, hspells, hclosing, hseparated, ?_⟩
  intro front q back hrow
  obtain ⟨hback, hbreak⟩ := hunclosed front q back hrow
  exact ⟨hback, isBreak_readList_finish h hbreak⟩

/-! ## The documented shape -/

/-- Every comma stands between two strings. -/
def CommasJoin (tokens : List ListToken) : Prop :=
  ∀ front back, tokens = front ++ .comma :: back →
    front.getLast?.any ListToken.isString = true ∧ back.head?.any ListToken.isString = true

/-- Nothing stands behind a closing bracket. -/
def ClosingLast (tokens : List ListToken) : Prop :=
  ∀ front back, tokens = front ++ .closing :: back → back = []

/-- Only the last token can be a string that is not closed. -/
def UnclosedLast (tokens : List ListToken) : Prop :=
  ∀ front q back, tokens = front ++ .unclosed q :: back → back = []

/-- The tokens of a list of whole strings. -/
def stringRow (strings : List QuotedText) : List ListToken :=
  (strings.map ListToken.string).intersperse .comma ++ [.closing]

/-- Two strings in a row have a comma between them. -/
theorem stringRow_cons_cons (q q' : QuotedText) (strings : List QuotedText) :
    stringRow (q :: q' :: strings) = .string q :: .comma :: stringRow (q' :: strings) := rfl

section

variable {tokens tokens' row : List ListToken} {t u : ListToken} {q q' : QuotedText}

/-- The tokens behind the first keep the closing bracket last. -/
theorem ClosingLast.tail (h : ClosingLast (t :: tokens)) : ClosingLast tokens :=
  fun front back htokens => h (t :: front) back (by rw [htokens]; rfl)

/-- They keep the open string last. -/
theorem UnclosedLast.tail (h : UnclosedLast (t :: tokens)) : UnclosedLast tokens :=
  fun front q back htokens => h (t :: front) q back (by rw [htokens]; rfl)

/-- They keep the commas between their strings. -/
theorem CommasBetween.tail (h : CommasBetween (t :: tokens)) : CommasBetween tokens :=
  fun front a between b back htokens =>
    h (t :: front) a between b back (by rw [htokens]; rfl)

/-- Behind a comma there is a string, so no comma behind it is the first. -/
theorem CommasJoin.tail_tail (h : CommasJoin (t :: .comma :: tokens)) : CommasJoin tokens := by
  intro front back htokens
  obtain ⟨-, hstring⟩ := h [t] tokens rfl
  obtain ⟨hlast, hhead⟩ := h (t :: .comma :: front) back (by rw [htokens]; rfl)
  refine ⟨?_, hhead⟩
  cases front with
  | nil =>
      rw [htokens] at hstring
      cases hstring
  | cons a front =>
      rwa [List.getLast?_cons_cons, List.getLast?_cons_cons] at hlast

/-- No string of a list of whole strings is left open. -/
theorem unclosed_not_mem_stringRow (strings : List QuotedText) :
    .unclosed q ∉ stringRow strings := by
  match strings with
  | [] => simp [stringRow]
  | [_] => simp [stringRow]
  | _ :: p :: strings =>
      rw [stringRow_cons_cons]
      simpa using unclosed_not_mem_stringRow (p :: strings)

/-- Such a list ends with its bracket, and its commas stand between two strings each. -/
theorem stringRow_shape (strings : List QuotedText) :
    ClosingLast (stringRow strings) ∧ CommasJoin (stringRow strings) := by
  match strings with
  | [] =>
      constructor
      · intro front back h
        cases front <;> simp_all [stringRow]
      · intro front back h
        cases front <;> simp_all [stringRow]
  | [q] =>
      constructor
      · intro front back h
        rcases front with _ | ⟨a, _ | ⟨b, front⟩⟩ <;> simp_all [stringRow]
      · intro front back h
        rcases front with _ | ⟨a, _ | ⟨b, front⟩⟩ <;> simp_all [stringRow]
  | q :: q' :: strings =>
      obtain ⟨hclosing, hcommas⟩ := stringRow_shape (q' :: strings)
      rw [stringRow_cons_cons]
      constructor
      · intro front back h
        rcases front with _ | ⟨a, _ | ⟨b, front⟩⟩
        · cases h
        · cases h
        · exact hclosing front back (List.cons.inj (List.cons.inj h).2).2
      · intro front back h
        rcases front with _ | ⟨a, _ | ⟨b, front⟩⟩
        · cases h
        · cases h
          exact ⟨rfl, by cases strings <;> rfl⟩
        · obtain ⟨hlast, hhead⟩ := hcommas front back (List.cons.inj (List.cons.inj h).2).2
          refine ⟨?_, hhead⟩
          cases front with
          | nil => cases hlast
          | cons c front => rwa [List.getLast?_cons_cons, List.getLast?_cons_cons]

/-- A row with a closing bracket that keeps to the four rules is a list of whole strings. -/
theorem exists_stringRow (tokens : List ListToken) (hmem : .closing ∈ tokens)
    (hclosing : ClosingLast tokens) (hcommas : CommasJoin tokens)
    (hbetween : CommasBetween tokens) (hunclosed : UnclosedLast tokens) :
    ∃ strings, tokens = stringRow strings := by
  match tokens with
  | [] => cases hmem
  | .comma :: tokens => cases (hcommas [] tokens rfl).1
  | .closing :: tokens =>
      obtain rfl := hclosing [] tokens rfl
      exact ⟨[], rfl⟩
  | .unclosed q :: tokens =>
      obtain rfl := hunclosed [] q tokens rfl
      simp at hmem
  | .string q :: [] => simp at hmem
  | .string q :: .closing :: tokens =>
      obtain rfl := hclosing [.string q] tokens rfl
      exact ⟨[q], rfl⟩
  | .string q :: .string q' :: tokens => cases hbetween [] _ [] _ tokens rfl rfl rfl
  | .string q :: .unclosed q' :: tokens => cases hbetween [] _ [] _ tokens rfl rfl rfl
  | .string q :: .comma :: tokens =>
      have hrest : .closing ∈ tokens := by simpa using hmem
      obtain ⟨strings, rfl⟩ := exists_stringRow tokens hrest hclosing.tail.tail
        hcommas.tail_tail hbetween.tail.tail hunclosed.tail.tail
      cases strings with
      | nil => cases (hcommas [.string q] _ rfl).2
      | cons q' strings => exact ⟨q :: q' :: strings, rfl⟩

/-- A closed string can be read off a text in one way only. -/
theorem QuotedText.eq_of_append {more more' : List Char}
    (h : q.chars ++ '"' :: more = q'.chars ++ '"' :: more') : q = q' ∧ more = more' := by
  have hplain (q : QuotedText) : ∀ c ∈ q.chars, (c != '"') = true := by
    intro c hc
    simpa using (q.plain c hc).1
  have hquote (more : List Char) : ∀ c ∈ ('"' :: more).head?, (c != '"') = false := by
    rintro c ⟨⟩
    rfl
  obtain ⟨hchars, hmore⟩ := append_inj_of_head? h (hplain q) (hquote more) (hplain q')
    (hquote more')
  obtain ⟨chars, _⟩ := q
  obtain ⟨chars', _⟩ := q'
  obtain rfl : chars = chars' := hchars
  exact ⟨rfl, (List.cons.inj hmore).2⟩

/-- Where no token stands, there are only blanks. -/
theorem Spells.isBlank_of_nil (h : Spells [] cs) : ∀ c ∈ cs, isBlank c = true := by
  generalize htokens : [] = tokens at h
  induction h with
  | nil => simp
  | blank c hc _ ih => simpa [hc] using ih htokens
  | token t _ => cases htokens

/-- A text that starts with a token starts with no blank. -/
theorem ListToken.isBlank_head (t : ListToken) (cs : List Char) :
    ∃ c rest, t.spelling ++ cs = c :: rest ∧ isBlank c = false := by
  cases t <;> exact ⟨_, _, rfl, rfl⟩

/-- The first token of a text that starts with a closed token is that token, unless it is a
string that is left open and goes further. -/
theorem Spells.cons_inv (h : Spells tokens' (t.spelling ++ cs)) (ht : ∀ q, t ≠ .unclosed q)
    (hunclosed : UnclosedLast tokens') :
    ∃ more, tokens' = t :: more ∧ Spells more cs := by
  generalize htext : t.spelling ++ cs = text at h
  cases h with
  | nil => cases t <;> cases htext
  | blank c hc _ =>
      obtain ⟨d, rest, hd, hblank⟩ := t.isBlank_head cs
      cases hd.symm.trans htext
      rw [hblank] at hc
      cases hc
  | @token more cs' t' h =>
      cases t with
      | unclosed q => exact absurd rfl (ht q)
      | comma =>
          cases t' <;> cases htext
          exact ⟨_, rfl, h⟩
      | closing =>
          cases t' <;> cases htext
          exact ⟨_, rfl, h⟩
      | string q =>
          cases t' with
          | comma => cases htext
          | closing => cases htext
          | string q' =>
              have hrest : q.chars ++ '"' :: cs = q'.chars ++ '"' :: cs' := by
                simpa [ListToken.spelling] using htext
              obtain ⟨rfl, rfl⟩ := QuotedText.eq_of_append hrest
              exact ⟨_, rfl, h⟩
          | unclosed q' =>
              -- Nothing but blanks stands behind it, so no quote does.
              obtain rfl := hunclosed [] q' more rfl
              have hrest : q.chars ++ ['"'] ++ cs = q'.chars ++ cs' := (List.cons.inj htext).2
              have hquote : '"' ∈ q'.chars ++ cs' := by
                rw [← hrest]
                simp
              rcases List.mem_append.mp hquote with hmem | hmem
              · exact absurd rfl (q'.plain _ hmem).1
              · cases h.isBlank_of_nil _ hmem

/-- **A list of whole strings can be taken apart in one way only.**  In any other way in which
only the last string can be left open, none is. -/
theorem Spells.unique (h : Spells tokens cs) (hwhole : ∀ q, .unclosed q ∉ tokens)
    (h' : Spells tokens' cs) (hunclosed : UnclosedLast tokens') : tokens = tokens' := by
  induction h generalizing tokens' with
  | nil =>
      generalize htext : [] = text at h'
      cases h' with
      | nil => rfl
      | blank => cases htext
      | token t => cases t <;> cases htext
  | @blank tokens cs c hc h ih =>
      generalize htext : c :: cs = text at h'
      cases h' with
      | nil => cases htext
      | blank d hd h' =>
          cases htext
          exact ih hwhole h' hunclosed
      | token t' h' =>
          obtain ⟨d, rest, hd, hblank⟩ := t'.isBlank_head _
          cases htext.trans hd
          rw [hblank] at hc
          cases hc
  | @token tokens cs t h ih =>
      have ht : ∀ q, t ≠ .unclosed q := by
        rintro q rfl
        exact hwhole q List.mem_cons_self
      obtain ⟨more, rfl, hmore⟩ := h'.cons_inv ht hunclosed
      rw [ih (fun q hq => hwhole q (List.mem_cons_of_mem t hq)) hmore hunclosed.tail]

/-- **The documented shape.**  A list in which nothing is reported is a row of commas, closing
brackets and strings with only blanks around them, as `accepted_list_shape` says.  It has the
documented shape if and only if nothing stands behind a closing bracket and every comma
stands between two strings. -/
theorem accepted_stringList_iff (esc : Escape) (h : text[bracket]? = some '[')
    (hnone : (checkArray esc bracket (text.drop (bracket + 1))).fault = none) :
    let stop := (checkArray esc bracket (text.drop (bracket + 1))).stop
    ∃ tokens inner, listText esc text bracket stop = '[' :: inner ∧ Spells tokens inner ∧
      .closing ∈ tokens ∧ CommasBetween tokens ∧
      (∀ front q back, tokens = front ++ .unclosed q :: back →
        back = [] ∧ (text[stop]?).any isBreak = true) ∧
      (IsStringList (listText esc text bracket stop) ↔
        (∀ front back, tokens = front ++ .closing :: back → back = []) ∧
        ∀ front back, tokens = front ++ .comma :: back →
          front.getLast?.any ListToken.isString = true ∧
            back.head?.any ListToken.isString = true) := by
  intro stop
  obtain ⟨tokens, inner, htext, hspells, hmem, hbetween, hopen⟩ := accepted_list_shape esc h hnone
  refine ⟨tokens, inner, htext, hspells, hmem, hbetween, hopen, ?_, ?_⟩
  · rintro ⟨strings, inner', htext', hspells'⟩
    obtain rfl : inner = inner' := (List.cons.inj (htext.symm.trans htext')).2
    have hunclosed : UnclosedLast tokens := fun front q back hrow => (hopen front q back hrow).1
    obtain rfl : stringRow strings = tokens :=
      Spells.unique hspells' (fun _ => unclosed_not_mem_stringRow strings) hspells hunclosed
    exact stringRow_shape strings
  · rintro ⟨hclosing, hcommas⟩
    obtain ⟨strings, rfl⟩ := exists_stringRow tokens hmem hclosing hcommas hbetween
      fun front q back hrow => (hopen front q back hrow).1
    exact ⟨strings, inner, htext, hspells⟩

end

/-- A list over two lines, with a string left open behind the bracket that closes it. -/
def lenientList : List Char := "VOLUME [\"/a\" ,\\\n \"/b\" ],, \"/c\n".toList

/-- Nothing is reported in `lenientList`.  It keeps to the tokens of a list, and would have to
keep to two more rules. -/
theorem accepted_stringList_iff_lenientList :
    lenientList[7]? = some '[' ∧
      checkArray (some '\\') 7 (lenientList.drop 8) = ⟨none, 29, ['\n']⟩ ∧
      ∃ tokens, Spells tokens "\"/a\" , \"/b\" ],, \"/c".toList ∧
        .closing ∈ tokens ∧ CommasBetween tokens ∧
        (∀ front q back, tokens = front ++ .unclosed q :: back →
          back = [] ∧ (lenientList[29]?).any isBreak = true) ∧
        (IsStringList "[\"/a\" , \"/b\" ],, \"/c".toList ↔
          ClosingLast tokens ∧ CommasJoin tokens) := by
  have hbracket : lenientList[7]? = some '[' := by
    decide +kernel
  have hverdict : checkArray (some '\\') 7 (lenientList.drop 8) = ⟨none, 29, ['\n']⟩ := by
    decide +kernel
  have hlist : listText (some '\\') lenientList 7 29 =
      "[\"/a\" , \"/b\" ],, \"/c".toList := by
    decide +kernel
  refine ⟨hbracket, hverdict, ?_⟩
  obtain ⟨tokens, inner, htext, hspells, hclosing, hseparated, hunclosed, hshape⟩ :=
    accepted_stringList_iff (some '\\') hbracket (congrArg ArrayVerdict.fault hverdict)
  rw [hverdict, hlist] at htext hshape
  rw [hverdict] at hunclosed
  obtain rfl : _ = inner := List.tail_eq_of_cons_eq htext
  exact ⟨tokens, hspells, hclosing, hseparated, hunclosed, hshape⟩

/-- A list that holds a comma and nothing else. -/
def loneComma : List Char := "[,]".toList

/-- Nothing is reported in `loneComma`, though it has not the documented shape. -/
theorem loneComma_is_accepted :
    loneComma[0]? = some '[' ∧ checkArray (some '\\') 0 (loneComma.drop 1) = ⟨none, 3, []⟩ ∧
      ¬ IsStringList (listText (some '\\') loneComma 0 3) := by
  refine ⟨by decide +kernel, by decide +kernel, ?_⟩
  have hlist : listText (some '\\') loneComma 0 3 = ['[', ',', ']'] := by
    decide +kernel
  rw [hlist]
  rintro ⟨strings, inner, hinner, hspells⟩
  cases hinner
  obtain ⟨t, more, htokens, hhead⟩ := hspells.token_head rfl
  cases strings with
  | nil =>
      cases htokens
      cases hhead
  | cons q strings =>
      cases strings <;>
      · cases htokens
        cases hhead

end DockerfileLint
