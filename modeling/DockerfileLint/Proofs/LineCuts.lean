import DockerfileLint.Proofs.Partition
import DockerfileLint.Proofs.Translation

/-!
# Cutting a document at the end of a line

A document can be cut behind any line break that belongs to no continuation, and parsed
piece by piece.  The upper piece has the directive, and with it the escape character of
both; the lower one is read from offset 0 as if there were no directive, and what is found
in it is moved down by the length of the upper one.

Such a break is one that the parser always comes to by itself, in a comment as behind an
instruction or between the two halves of a keyword that a continuation splits.  That is
`instructionsFrom_append`; here it is said of the breaks themselves.

* `endsLine_iff`: the last line of a document has ended, said in terms of its characters;
* `parse_concatenation`: parsing takes one text below another to one list of instructions
  behind another.
-/

namespace DockerfileLint

variable {esc : Escape} {text above : List Char}

/-- A text whose last character is a break. -/
theorem breakAt_last_iff :
    BreakAt text (text.length - 1) ↔ ∃ b, text.getLast? = some b ∧ isBreak b = true := by
  unfold BreakAt
  rw [List.getLast?_eq_getElem?]

/-- A continuation takes in the last character of a text if it ends with the text. -/
theorem inContinuation_last_iff {lo : Nat} (hlo : lo ≤ text.length) :
    InContinuation esc text lo text.length (text.length - 1) ↔
      ∃ tail n, tail <:+ text.drop lo ∧ continuation? esc tail = some (n, []) := by
  constructor
  · rintro ⟨start, n, rest, hcont, hstart, hle, hlt, -⟩
    have hlength := length_of_continuation? hcont
    rw [List.length_drop] at hlength
    obtain rfl : rest = [] := List.length_eq_zero_iff.mp (by omega)
    obtain ⟨k, rfl⟩ := Nat.exists_eq_add_of_le hstart
    refine ⟨text.drop (lo + k), n, ?_, hcont⟩
    rw [← List.drop_drop]
    exact List.drop_suffix k _
  · rintro ⟨tail, n, hsuffix, hcont⟩
    have hdrop := List.suffix_iff_eq_drop.mp (hsuffix.trans (List.drop_suffix lo text))
    have hlength := length_of_continuation? hcont
    have htwo := continuation?_two_le hcont
    have hle := hsuffix.length_le
    rw [List.length_nil] at hlength
    rw [List.length_drop] at hle
    exact ⟨text.length - tail.length, n, [], hdrop ▸ hcont, by omega, by omega, by omega,
      by omega⟩

/-- Instructions start before the end of a text that has a break. -/
theorem bodyOffset_lt (h : text.any isBreak = true) :
    (Dockerfile.parse text).bodyOffset < text.length :=
  Nat.lt_of_le_of_lt (bodyOffset_le_firstLine text) (firstLine_length_lt h)

/-- A document ends its last line if its last character is a line break, and no
continuation behind the directive takes this break in. -/
theorem endsLine_iff :
    EndsLine text ↔
      BreakAt text (text.length - 1) ∧
        ¬ InContinuation (some (Dockerfile.parse text).escape) text
          (Dockerfile.parse text).bodyOffset text.length (text.length - 1) := by
  rw [inContinuation_last_iff (bodyOffset_le text), breakAt_last_iff]
  constructor
  · intro h
    refine ⟨h.getLast?, ?_⟩
    rintro ⟨tail, n, hsuffix, hcont⟩
    exact (linesClosed_iff.mp h.2).2 tail n hsuffix hcont
  · rintro ⟨hlast, hfree⟩
    have hlt := bodyOffset_lt (any_isBreak_of_getLast? hlast)
    refine ⟨?_, linesClosed_iff.mpr ⟨?_, ?_⟩⟩
    · intro hnil
      exact absurd (List.drop_eq_nil_iff.mp hnil) (Nat.not_le.mpr hlt)
    · intro _
      rw [List.getLast?_drop, if_neg (Nat.not_le.mpr hlt)]
      exact hlast
    · intro tail n hsuffix hcont
      exact hfree ⟨tail, n, hsuffix, hcont⟩

/-- **Parsing one text below another.**  If a document ends in a line break that belongs to
no continuation, then with any text below it the directive is that of the document, and
the instructions are those of the document and then those that the parser finds in the
text below from offset 0 on, without a directive and with the escape character of the
document, moved down by the length of the document. -/
theorem parse_concatenation (hbreak : BreakAt above (above.length - 1))
    (hfree : ¬ InContinuation (some (Dockerfile.parse above).escape) above
      (Dockerfile.parse above).bodyOffset above.length (above.length - 1))
    (below : List Char) :
    let file := Dockerfile.parse above
    Dockerfile.parse (above ++ below) =
      { directive := file.directive
        instructions := file.instructions ++
          (instructionsFrom (some file.escape) 0 below).map (Instruction.shift above.length) } := by
  intro file
  have happend := parse_append (endsLine_iff.mpr ⟨hbreak, hfree⟩) below
  rw [happend, ← instructionsFrom_shift, Nat.zero_add]

/-- A document with a directive that ends in a carriage return, behind a comment that
runs over two lines. -/
def commentEnded : List Char := "# escape=`\nFROM x\n# a `\n b\r".toList

/-- A text with a keyword over two lines, and with a line feed in front. -/
def splitBelow : List Char := "\nRU`\nN a\n# b\nUSER c".toList

/-- `commentEnded` and `splitBelow` are parsed apart from each other, although the carriage
return and the line feed between them make one line break. -/
theorem parse_concatenation_commentEnded :
    BreakAt commentEnded (commentEnded.length - 1) ∧
      ¬ InContinuation (some (Dockerfile.parse commentEnded).escape) commentEnded
        (Dockerfile.parse commentEnded).bodyOffset commentEnded.length
        (commentEnded.length - 1) ∧
      (Dockerfile.parse commentEnded).instructions.map Instruction.keyword = ["FROM"] ∧
      (instructionsFrom (some '`') 0 splitBelow).map Instruction.keyword = ["RUN", "USER"] ∧
      (Dockerfile.parse (commentEnded ++ splitBelow)).instructions =
        (Dockerfile.parse commentEnded).instructions ++
          (instructionsFrom (some '`') 0 splitBelow).map
            (Instruction.shift commentEnded.length) := by
  have hends : EndsLine commentEnded := by
    decide +kernel
  obtain ⟨hbreak, hfree⟩ := endsLine_iff.mp hends
  have hescape : (Dockerfile.parse commentEnded).escape = '`' := by
    decide +kernel
  refine ⟨hbreak, hfree, by decide +kernel, by decide +kernel, ?_⟩
  rw [parse_concatenation hbreak hfree splitBelow, hescape]

end DockerfileLint
