import DockerfileLint.Instruction

/-!
# Arguments

The arguments of an instruction are the tokens behind its keyword, separated by
white space.  Continuations are taken out of a token.  An escape character that
is followed by anything but a line break stays in the token together with the
character it escapes, so an escaped blank does not end the token; an escape
character at the very end stays alone.

The span of an argument starts at its first character and ends just past its
last one, which leaves out the continuations behind it.
-/

namespace DockerfileLint

/-- One argument and its place in the document. -/
structure Argument where
  value : String
  span : Span Nat
deriving DecidableEq, Repr

/-- Reads on in a token, with the characters taken so far in reverse. -/
def readTokenFrom (esc : Escape) (acc : List (Char × Nat)) (off : Nat) (cs : List Char) :
    Reading :=
  match _h : continuation? esc cs with
  | some (n, rest) => readTokenFrom esc acc (off + n) rest
  | none =>
    match cs with
    | [] => ⟨acc.reverse, off, []⟩
    | c :: cs =>
      if isSpace c then
        ⟨acc.reverse, off, c :: cs⟩
      else if esc = some c then
        match cs with
        | [] => ⟨((c, off) :: acc).reverse, off + 1, []⟩
        | d :: cs => readTokenFrom esc ((d, off + 1) :: (c, off) :: acc) (off + 2) cs
      else
        readTokenFrom esc ((c, off) :: acc) (off + 1) cs
termination_by cs.length
decreasing_by
  · exact length_lt_of_continuation? _h
  · simp only [List.length_cons]; omega
  · simp

/-- Reads a token: everything up to white space that no escape character keeps. -/
def readToken (esc : Escape) (off : Nat) (cs : List Char) : Reading :=
  readTokenFrom esc [] off cs

/-- What is left behind a token is never longer than the text. -/
theorem readTokenFrom_rest_length_le (esc : Escape) (acc : List (Char × Nat)) (off : Nat)
    (cs : List Char) : (readTokenFrom esc acc off cs).rest.length ≤ cs.length := by
  fun_induction readTokenFrom esc acc off cs with
  | case1 acc off cs n rest h ih =>
    exact Nat.le_trans ih (Nat.le_of_lt (length_lt_of_continuation? h))
  | case2 => simp
  | case3 => simp
  | case4 => simp
  | case5 acc off c d cs _ _ _ ih => simp only [List.length_cons]; omega
  | case6 acc off c cs _ _ _ ih => simp only [List.length_cons]; omega

/-- A token that starts here takes at least one character. -/
theorem readToken_rest_length_lt {esc : Escape} (off : Nat) {c : Char} {cs : List Char}
    (h : isSpace c = false) : (readToken esc off (c :: cs)).rest.length < (c :: cs).length := by
  unfold readToken
  rw [readTokenFrom]
  split
  · rename_i n rest hcont
    exact Nat.lt_of_le_of_lt (readTokenFrom_rest_length_le ..) (length_lt_of_continuation? hcont)
  · simp only [h, Bool.false_eq_true, if_false]
    split
    · split
      · simp
      · exact Nat.lt_of_le_of_lt (readTokenFrom_rest_length_le ..)
          (by simp only [List.length_cons]; omega)
    · exact Nat.lt_of_le_of_lt (readTokenFrom_rest_length_le ..) (by simp)

/-- Goes past white space to where the next token starts. -/
def readGap (esc : Escape) (off : Nat) (cs : List Char) : Reading :=
  readWhile esc isSpace off cs

/-- The arguments in a text that starts at offset `off`. -/
def argumentsFrom (esc : Escape) (off : Nat) (cs : List Char) : List Argument :=
  match _h : readGap esc off cs with
  | ⟨_, _, []⟩ => []
  | ⟨_, start, c :: rest⟩ =>
    let token := readToken esc start (c :: rest)
    { value := token.text, span := ⟨start, token.reach start⟩ } ::
      argumentsFrom esc token.stop token.rest
termination_by cs.length
decreasing_by
  have hle := readWhile_rest_length_le esc isSpace off cs
  have hstop : continuation? esc (c :: rest) = none ∧ isSpace c = false :=
    readWhile_rest_head (by rw [← readGap, _h])
  rw [← readGap, _h] at hle
  exact Nat.lt_of_lt_of_le (readToken_rest_length_lt start hstop.2) hle

/-- The arguments of an instruction under an escape character, which need not be
the one the document was parsed with. -/
def Instruction.arguments (i : Instruction) (esc : Escape) : List Argument :=
  argumentsFrom esc i.nameSpan.stop i.argumentsText

/-- Something besides white space follows a keyword in a text that starts at
offset `off`.  A continuation that ends at `finish`, the end of the document,
counts as something: a document cut off in the middle of an instruction is not
held against it. -/
def argumentsPresent (esc : Escape) (finish : Nat) (off : Nat) (cs : List Char) : Bool :=
  match _h : continuation? esc cs with
  | some (n, rest) =>
    if finish ≤ off + n then true else argumentsPresent esc finish (off + n) rest
  | none =>
    match cs with
    | [] => false
    | c :: cs => if isSpace c then argumentsPresent esc finish (off + 1) cs else true
termination_by cs.length
decreasing_by
  · exact length_lt_of_continuation? _h
  · simp

/-- An instruction has arguments, in a document of `finish` characters. -/
def Instruction.hasArguments (i : Instruction) (esc : Escape) (finish : Nat) : Bool :=
  argumentsPresent esc finish i.nameSpan.stop i.argumentsText

end DockerfileLint
