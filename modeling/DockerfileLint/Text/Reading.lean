import DockerfileLint.Text.Continuation

/-!
# Reading along a text

Every pass reads a text forward, past its continuations, as long as the
characters it meets are wanted.  `readWhile` is that one movement: it returns
the characters taken, each with its offset, and the place where it stopped.
It stops at the first character that is not wanted or at the end of the text,
and it never stops before a continuation.

The four equations below say what one step does; nothing later unfolds the
loop itself.
-/

namespace DockerfileLint

/-- What a movement along a text took, the offset where it stopped, and the text
from there on. -/
structure Reading where
  taken : List (Char × Nat)
  stop : Nat
  rest : List Char
deriving DecidableEq, Repr

/-- Reads on, with the characters taken so far in reverse. -/
def readWhileFrom (esc : Escape) (keep : Char → Bool) (acc : List (Char × Nat))
    (off : Nat) (cs : List Char) : Reading :=
  match _h : continuation? esc cs with
  | some (n, rest) => readWhileFrom esc keep acc (off + n) rest
  | none =>
    match cs with
    | [] => ⟨acc.reverse, off, []⟩
    | c :: cs =>
      if keep c then
        readWhileFrom esc keep ((c, off) :: acc) (off + 1) cs
      else
        ⟨acc.reverse, off, c :: cs⟩
termination_by cs.length
decreasing_by
  · exact length_lt_of_continuation? _h
  · simp

/-- Reads past continuations as long as the characters satisfy `keep`, from
offset `off` on. -/
def readWhile (esc : Escape) (keep : Char → Bool) (off : Nat) (cs : List Char) : Reading :=
  readWhileFrom esc keep [] off cs

/-- Reads a word: everything up to white space. -/
def readWord (esc : Escape) (off : Nat) (cs : List Char) : Reading :=
  readWhile esc (fun c => !isSpace c) off cs

/-- Reads to the next line break that is not part of a continuation. -/
def readLine (esc : Escape) (off : Nat) (cs : List Char) : Reading :=
  readWhile esc (fun c => !isBreak c) off cs

/-- The characters taken, without their offsets. -/
def Reading.text (r : Reading) : String :=
  String.ofList (r.taken.map Prod.fst)

/-- The offset just past the last character taken, which leaves out any
continuation behind it; `start` if nothing was taken. -/
def Reading.reach (r : Reading) (start : Nat) : Nat :=
  match r.taken.getLast? with
  | some (_, off) => off + 1
  | none => start

/-- What was taken before only goes in front. -/
theorem readWhileFrom_eq (esc : Escape) (keep : Char → Bool) (acc : List (Char × Nat))
    (off : Nat) (cs : List Char) :
    readWhileFrom esc keep acc off cs =
      { readWhile esc keep off cs with
        taken := acc.reverse ++ (readWhile esc keep off cs).taken } := by
  suffices general : ∀ acc acc' off,
      readWhileFrom esc keep (acc ++ acc') off cs =
        { readWhileFrom esc keep acc off cs with
          taken := acc'.reverse ++ (readWhileFrom esc keep acc off cs).taken } by
    simpa [readWhile] using general [] acc off
  induction hn : cs.length using Nat.strongRecOn generalizing cs with
  | _ n ih =>
    intro acc acc' off
    subst hn
    rw [readWhileFrom, readWhileFrom.eq_def esc keep acc off cs]
    split
    · rename_i m rest h
      exact ih _ (length_lt_of_continuation? h) rest rfl acc acc' (off + m)
    · split
      · simp
      · rename_i c cs _ _
        by_cases hk : keep c
        · simpa [hk] using ih cs.length (by simp) cs rfl ((c, off) :: acc) acc' (off + 1)
        · simp [hk]

/-- A continuation is passed over. -/
theorem readWhile_of_continuation? {esc : Escape} {keep : Char → Bool} {off n : Nat}
    {cs rest : List Char} (h : continuation? esc cs = some (n, rest)) :
    readWhile esc keep off cs = readWhile esc keep (off + n) rest := by
  unfold readWhile
  rw [readWhileFrom]
  split
  · rename_i h'
    rw [h] at h'
    cases h'
    rfl
  · rename_i h'
    rw [h] at h'
    cases h'

/-- At the end of the text nothing is taken. -/
@[simp] theorem readWhile_nil (esc : Escape) (keep : Char → Bool) (off : Nat) :
    readWhile esc keep off [] = ⟨[], off, []⟩ := by
  unfold readWhile
  rw [readWhileFrom]
  simp [continuation?]

/-- A wanted character is taken. -/
theorem readWhile_cons_of_keep {esc : Escape} {keep : Char → Bool} {off : Nat} {c : Char}
    {cs : List Char} (h : continuation? esc (c :: cs) = none) (hk : keep c = true) :
    readWhile esc keep off (c :: cs) =
      { readWhile esc keep (off + 1) cs with
        taken := (c, off) :: (readWhile esc keep (off + 1) cs).taken } := by
  conv => lhs; unfold readWhile
  rw [readWhileFrom]
  split
  · rename_i h'
    rw [h] at h'
    cases h'
  · simp [hk, readWhileFrom_eq esc keep [(c, off)]]

/-- The first unwanted character ends the movement and stays unread. -/
theorem readWhile_cons_of_not_keep {esc : Escape} {keep : Char → Bool} {off : Nat} {c : Char}
    {cs : List Char} (h : continuation? esc (c :: cs) = none) (hk : keep c = false) :
    readWhile esc keep off (c :: cs) = ⟨[], off, c :: cs⟩ := by
  unfold readWhile
  rw [readWhileFrom]
  split
  · rename_i h'
    rw [h] at h'
    cases h'
  · simp [hk]

/-- A text with its offset is taken apart by continuations, then characters. -/
theorem splicing_induction (esc : Escape) {motive : Nat → List Char → Prop}
    (splice : ∀ off cs n rest, continuation? esc cs = some (n, rest) →
      motive (off + n) rest → motive off cs)
    (nil : ∀ off, motive off [])
    (char : ∀ off c cs, continuation? esc (c :: cs) = none →
      motive (off + 1) cs → motive off (c :: cs))
    (off : Nat) (cs : List Char) : motive off cs := by
  induction hn : cs.length using Nat.strongRecOn generalizing off cs with
  | _ n ih =>
    subst hn
    match h : continuation? esc cs with
    | some (m, rest) =>
      exact splice off cs m rest h (ih _ (length_lt_of_continuation? h) _ _ rfl)
    | none =>
      match cs with
      | [] => exact nil off
      | c :: cs => exact char off c cs h (ih _ (by simp) _ _ rfl)

/-- Offsets count characters: what a movement goes past and what it leaves make
up the text. -/
theorem readWhile_stop_add (esc : Escape) (keep : Char → Bool) (off : Nat) (cs : List Char) :
    (readWhile esc keep off cs).stop + (readWhile esc keep off cs).rest.length =
      off + cs.length := by
  induction off, cs using splicing_induction esc with
  | splice off cs n rest h ih =>
    rw [readWhile_of_continuation? h, ih, length_of_continuation? h]
    omega
  | nil off => simp
  | char off c cs h ih =>
    cases hk : keep c with
    | true =>
      rw [readWhile_cons_of_keep h hk]
      simp only [List.length_cons]
      omega
    | false => rw [readWhile_cons_of_not_keep h hk]

/-- What is left is never longer than the text. -/
theorem readWhile_rest_length_le (esc : Escape) (keep : Char → Bool) (off : Nat)
    (cs : List Char) : (readWhile esc keep off cs).rest.length ≤ cs.length := by
  induction off, cs using splicing_induction esc with
  | splice off cs n rest h ih =>
    rw [readWhile_of_continuation? h]
    exact Nat.le_trans ih (Nat.le_of_lt (length_lt_of_continuation? h))
  | nil off => simp
  | char off c cs h ih =>
    cases hk : keep c with
    | true =>
      rw [readWhile_cons_of_keep h hk]
      exact Nat.le_succ_of_le ih
    | false => simp [readWhile_cons_of_not_keep h hk]

/-- A movement that meets a wanted character first, behind continuations or not,
leaves less than it found. -/
theorem readWhile_rest_length_lt {esc : Escape} {keep : Char → Bool} (off : Nat) {c : Char}
    {cs : List Char} (hk : keep c = true) :
    (readWhile esc keep off (c :: cs)).rest.length < (c :: cs).length := by
  match h : continuation? esc (c :: cs) with
  | some (n, rest) =>
    rw [readWhile_of_continuation? h]
    exact Nat.lt_of_le_of_lt (readWhile_rest_length_le ..) (length_lt_of_continuation? h)
  | none =>
    rw [readWhile_cons_of_keep h hk]
    exact Nat.lt_succ_of_le (readWhile_rest_length_le ..)

/-- A movement stops at the end of the text or before an unwanted character, and
never before a continuation. -/
theorem readWhile_rest_head {esc : Escape} {keep : Char → Bool} {off : Nat} {c : Char}
    {cs rest : List Char} (h : (readWhile esc keep off cs).rest = c :: rest) :
    continuation? esc (c :: rest) = none ∧ keep c = false := by
  induction off, cs using splicing_induction esc with
  | splice off cs n rest' hcont ih =>
    rw [readWhile_of_continuation? hcont] at h
    exact ih h
  | nil off => simp at h
  | char off d cs hcont ih =>
    cases hk : keep d with
    | true =>
      rw [readWhile_cons_of_keep hcont hk] at h
      exact ih h
    | false =>
      rw [readWhile_cons_of_not_keep hcont hk] at h
      cases h
      exact ⟨hcont, hk⟩

end DockerfileLint
