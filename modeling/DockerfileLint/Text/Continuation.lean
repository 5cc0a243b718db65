import DockerfileLint.Text.Layout

/-!
# Continuations

A continuation is the escape character immediately followed by a line break.
It joins the next physical line to the current logical one, so a reader goes
past it as if it were not there.  An escape character that ends the text
continues nothing.

`spliced` is what is left of a text when its continuations are dropped from
left to right, each character kept with its offset.  Dropping is not
idempotent: taking a continuation out can bring an escape character and a line
break together, and that pair stays.
-/

namespace DockerfileLint

/-- The character that continues a line, if there is one. -/
abbrev Escape := Option Char

/-- Only a text of exactly one character names an escape character. -/
def Escape.ofString (s : String) : Escape :=
  match s.toList with
  | [c] => some c
  | _ => none

/-- The continuation at the head of a text: how many characters it takes and
what follows it. -/
def continuation? (esc : Escape) : List Char → Option (Nat × List Char)
  | [] => none
  | c :: cs =>
    if esc = some c then
      (lineBreak? cs).map fun (n, rest) => (n + 1, rest)
    else
      none

/-- A continuation takes as many characters as it says. -/
theorem length_of_continuation? {esc : Escape} {cs rest : List Char} {n : Nat}
    (h : continuation? esc cs = some (n, rest)) : cs.length = n + rest.length := by
  unfold continuation? at h
  split at h
  · simp at h
  · split at h
    · obtain ⟨⟨m, r⟩, hm, heq⟩ := Option.map_eq_some_iff.mp h
      obtain ⟨rfl, rfl⟩ := Prod.mk.injEq .. ▸ heq
      have := length_of_lineBreak? hm
      simp only [List.length_cons]
      omega
    · simp at h

/-- A continuation takes two characters at least. -/
theorem continuation?_two_le {esc : Escape} {cs rest : List Char} {n : Nat}
    (h : continuation? esc cs = some (n, rest)) : 2 ≤ n := by
  unfold continuation? at h
  split at h
  · simp at h
  · split at h
    · obtain ⟨⟨m, r⟩, hm, heq⟩ := Option.map_eq_some_iff.mp h
      obtain ⟨rfl, rfl⟩ := Prod.mk.injEq .. ▸ heq
      have := lineBreak?_pos hm
      omega
    · simp at h

/-- What follows a continuation is shorter than the text it stands in. -/
theorem length_lt_of_continuation? {esc : Escape} {cs rest : List Char} {n : Nat}
    (h : continuation? esc cs = some (n, rest)) : rest.length < cs.length := by
  have := length_of_continuation? h
  have := continuation?_two_le h
  omega

/-- The characters of a text that starts at offset `off`, with their offsets,
less its continuations. -/
def spliced (esc : Escape) (off : Nat) (cs : List Char) : List (Char × Nat) :=
  match _h : continuation? esc cs with
  | some (n, rest) => spliced esc (off + n) rest
  | none =>
    match cs with
    | [] => []
    | c :: cs => (c, off) :: spliced esc (off + 1) cs
termination_by cs.length
decreasing_by
  · exact length_lt_of_continuation? _h
  · simp

/-- A text less its continuations. -/
def withoutContinuations (esc : Escape) (cs : List Char) : List Char :=
  (spliced esc 0 cs).map Prod.fst

end DockerfileLint
