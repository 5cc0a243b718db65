/-!
# Layout characters

Four characters lay a Dockerfile out: spaces and tabs separate the words of a
line, carriage returns and line feeds end it.  No other character counts as
white space, whatever Unicode says of it.

A line break is a line feed, a carriage return, or the pair of both in that
order, which is one break and not two.
-/

namespace DockerfileLint

/-- Spaces and tabs separate words within a line. -/
def isBlank (c : Char) : Bool :=
  c == ' ' || c == '\t'

/-- A carriage return or a line feed ends a physical line. -/
def isBreak (c : Char) : Bool :=
  c == '\r' || c == '\n'

/-- Blanks and breaks are the white space around instructions. -/
def isSpace (c : Char) : Bool :=
  isBlank c || isBreak c

/-- The line break at the head of a text: how many characters it takes and what
follows it. -/
def lineBreak? : List Char → Option (Nat × List Char)
  | '\r' :: '\n' :: rest => some (2, rest)
  | '\r' :: rest => some (1, rest)
  | '\n' :: rest => some (1, rest)
  | _ => none

/-- A text up to its first line break; no continuation counts here. -/
def firstLine (cs : List Char) : List Char :=
  cs.takeWhile fun c => !isBreak c

/-- A text from its first line break on. -/
def afterFirstLine (cs : List Char) : List Char :=
  cs.dropWhile fun c => !isBreak c

/-- Drops from the end of a text the characters that satisfy `p`. -/
def trimEnd (p : Char → Bool) (cs : List Char) : List Char :=
  (cs.reverse.dropWhile p).reverse

/-- What is trimmed off the end of a text does not count. -/
theorem trimEnd_append {p : Char → Bool} (cs : List Char) {tail : List Char}
    (htail : ∀ c ∈ tail, p c = true) : trimEnd p (cs ++ tail) = trimEnd p cs := by
  unfold trimEnd
  rw [List.reverse_append, List.dropWhile_append_of_pos (by simpa using htail)]

/-- A text is what is left of it with nothing but what was trimmed off behind. -/
theorem exists_eq_trimEnd_append (p : Char → Bool) (cs : List Char) :
    ∃ tail, cs = trimEnd p cs ++ tail ∧ ∀ c ∈ tail, p c = true := by
  refine ⟨(cs.reverse.takeWhile p).reverse, ?_, ?_⟩
  · unfold trimEnd
    rw [← List.reverse_append, List.takeWhile_append_dropWhile, List.reverse_reverse]
  · intro c hc
    exact List.all_eq_true.mp List.all_takeWhile c (List.mem_reverse.mp hc)

/-- A run of a class ends where something else follows. -/
theorem takeWhile_of_head? {p : Char → Bool} {front back : List Char}
    (hfront : ∀ c ∈ front, p c = true)
    (hback : ∀ c ∈ back.head?, p c = false) :
    (front ++ back).takeWhile p = front ∧ (front ++ back).dropWhile p = back := by
  rw [List.takeWhile_append_of_pos hfront, List.dropWhile_append_of_pos hfront]
  cases back with
  | nil => simp
  | cons c back => simp [hback c rfl]

/-- A text has only one run of a class at its head that something else follows. -/
theorem append_inj_of_head? {p : Char → Bool} {front back front' back' : List Char}
    (h : front ++ back = front' ++ back')
    (hfront : ∀ c ∈ front, p c = true) (hback : ∀ c ∈ back.head?, p c = false)
    (hfront' : ∀ c ∈ front', p c = true) (hback' : ∀ c ∈ back'.head?, p c = false) :
    front = front' ∧ back = back' := by
  obtain ⟨htake, hdrop⟩ := takeWhile_of_head? hfront hback
  obtain ⟨htake', hdrop'⟩ := takeWhile_of_head? hfront' hback'
  rw [h] at htake hdrop
  exact ⟨htake.symm.trans htake', hdrop.symm.trans hdrop'⟩

/-- A line break takes as many characters as it says. -/
theorem length_of_lineBreak? {cs rest : List Char} {n : Nat}
    (h : lineBreak? cs = some (n, rest)) : cs.length = n + rest.length := by
  unfold lineBreak? at h
  split at h <;> simp_all <;> omega

/-- A line break is never empty. -/
theorem lineBreak?_pos {cs rest : List Char} {n : Nat}
    (h : lineBreak? cs = some (n, rest)) : 0 < n := by
  unfold lineBreak? at h
  split at h <;> simp_all <;> omega

/-- A line that is not empty is gone behind its break. -/
theorem afterFirstLine_length_lt {c : Char} {cs : List Char} (h : isBreak c = false) :
    (afterFirstLine (c :: cs)).length < (c :: cs).length := by
  have := (List.dropWhile_suffix (l := cs) fun c => !isBreak c).length_le
  simp only [afterFirstLine, List.dropWhile_cons, h, List.length_cons]
  simpa using Nat.lt_succ_of_le this

end DockerfileLint
