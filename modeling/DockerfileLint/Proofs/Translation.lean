import DockerfileLint.Proofs.Relocation

/-!
# Moving a text

A text that starts `k` characters further on is a text with the same line endings whose
places are `k` characters further on.  So what is said of texts with other line endings is
said of it as well: it is read alike, and every place that is reported lies `k` characters
further on.  Nothing changes but the places, so this holds under any escape character.
-/

namespace DockerfileLint

variable {esc : Escape} {k : Nat}

/-! ## Places that move -/

/-- The span `k` characters further on. -/
abbrev Span.shift (k : Nat) (s : Span Nat) : Span Nat :=
  s.relocate (· + k)

/-- The reading `k` characters further on. -/
abbrev Reading.shift (k : Nat) (r : Reading) : Reading :=
  r.relocate id (· + k)

/-- The argument `k` characters further on. -/
abbrev Argument.shift (k : Nat) (a : Argument) : Argument :=
  a.relocate (· + k)

/-- The instruction `k` characters further on. -/
abbrev Instruction.shift (k : Nat) (i : Instruction) : Instruction :=
  i.relocate id (· + k)

/-- The finding `k` characters further on. -/
abbrev Finding.shift (k : Nat) (f : Finding) : Finding :=
  f.relocate (· + k)

/-- The scan `k` characters further on. -/
abbrev Scan.shift (k : Nat) (s : Scan) : Scan :=
  s.relocate (· + k)

/-- The findings of a scan move along. -/
theorem Scan.shift_findings (s : Scan) :
    (s.shift k).findings = s.findings.map (Finding.shift k) :=
  s.relocate_findings fun f _ => Nat.add_right_comm f.span.start 1 k

/-! ## Movements -/

/-- A reading starts wherever its offset says. -/
theorem readWhile_shift (esc : Escape) (keep : Char → Bool) (k off : Nat) (cs : List Char) :
    readWhile esc keep (off + k) cs = (readWhile esc keep off cs).shift k := by
  have h : readWhile esc keep (off + k) (relined .lf cs) =
      (readWhile esc keep off cs).relocate (relined .lf) (· + k) :=
    readWhile_relocate (.inl rfl) (.inl rfl) (.moved k off cs)
  rwa [relined_lf_eq_id] at h

/-- So does a gap. -/
theorem readGap_shift (esc : Escape) (k off : Nat) (cs : List Char) :
    readGap esc (off + k) cs = (readGap esc off cs).shift k :=
  readWhile_shift esc _ k off cs

/-- So does a token. -/
theorem readToken_shift (esc : Escape) (k off : Nat) (cs : List Char) :
    readToken esc (off + k) cs = (readToken esc off cs).shift k := by
  have h : readToken esc (off + k) (relined .lf cs) =
      (readToken esc off cs).relocate (relined .lf) (· + k) :=
    readToken_relocate (.inl rfl) (.moved k off cs)
  rwa [relined_lf_eq_id] at h

/-- Arguments move with the offset of their text. -/
theorem argumentsFrom_shift (esc : Escape) (k off : Nat) (cs : List Char) :
    argumentsFrom esc (off + k) cs = (argumentsFrom esc off cs).map (Argument.shift k) := by
  have h : argumentsFrom esc (off + k) (relined .lf cs) =
      (argumentsFrom esc off cs).map (Argument.relocate (· + k)) :=
    argumentsFrom_relocate (.inl rfl) (.moved k off cs)
  rwa [relined_lf] at h

/-- Whether an instruction lacks its arguments depends on where the document ends, and that
moves along. -/
theorem argumentsPresent_shift (esc : Escape) (k finish off : Nat) (cs : List Char) :
    argumentsPresent esc (finish + k) (off + k) cs = argumentsPresent esc finish off cs := by
  have h : argumentsPresent esc (finish + k) (off + k) (relined .lf cs) =
      argumentsPresent esc finish off cs :=
    argumentsPresent_relocate (.inl rfl) (.moved k off cs) fun _ _ _ => Nat.add_le_add_iff_right
  rwa [relined_lf] at h

/-! ## The passes -/

/-- So do instructions. -/
theorem instructionsFrom_shift (esc : Escape) (k off : Nat) (cs : List Char) :
    instructionsFrom esc (off + k) cs =
      (instructionsFrom esc off cs).map (Instruction.shift k) := by
  have h : instructionsFrom esc (off + k) (relined .lf cs) =
      (instructionsFrom esc off cs).map (Instruction.relocate (relined .lf) (· + k)) :=
    instructionsFrom_relocate (.inl rfl) (.moved k off cs)
  rwa [relined_lf_eq_id] at h

/-- So does a scan. -/
theorem scanFrom_shift (esc : Escape) (keywords : List String) (k off : Nat) (cs : List Char) :
    scanFrom esc keywords (off + k) cs = (scanFrom esc keywords off cs).shift k := by
  have h : scanFrom esc keywords (off + k) (relined .lf cs) =
      (scanFrom esc keywords off cs).relocate (· + k) :=
    scanFrom_relocate (.inl rfl) keywords (.moved k off cs)
  rwa [relined_lf] at h

/-! ## The checks -/

/-- An instruction that is moved has the same text of arguments. -/
theorem Instruction.shift_argumentsText (i : Instruction) :
    (i.shift k).argumentsText = i.argumentsText := by
  unfold argumentsText shift relocate Span.relocate
  simp only [Nat.add_sub_add_right, id]

/-- Its arguments move with it. -/
theorem Instruction.shift_arguments (i : Instruction) (esc : Escape) :
    (i.shift k).arguments esc = (i.arguments esc).map (Argument.shift k) := by
  unfold arguments
  rw [shift_argumentsText]
  exact argumentsFrom_shift esc k i.nameSpan.stop i.argumentsText

/-- It has arguments if it had them before. -/
theorem Instruction.shift_hasArguments (i : Instruction) (esc : Escape) (finish : Nat) :
    (i.shift k).hasArguments esc (finish + k) = i.hasArguments esc finish := by
  unfold hasArguments
  rw [shift_argumentsText]
  exact argumentsPresent_shift esc k finish i.nameSpan.stop i.argumentsText

/-- The checks of an instruction find the same further on, in a document that ends
further on. -/
theorem checkInstruction_shift (ctx : CheckContext) (k : Nat) (i : Instruction) :
    checkInstruction { ctx with finish := ctx.finish + k } (i.shift k) =
      (checkInstruction ctx i).map (Finding.shift k) :=
  checkInstruction_relocate (· + k) ctx rfl rfl (i.shift_arguments ctx.escape)
    (i.shift_hasArguments ctx.escape ctx.finish)

/-- The findings about instructions move with them. -/
theorem checkInstructions_shift (ctx : CheckContext) (k : Nat) (instructions : List Instruction) :
    checkInstructions { ctx with finish := ctx.finish + k }
        (instructions.map (Instruction.shift k)) =
      (checkInstructions ctx instructions).map (Finding.shift k) := by
  unfold checkInstructions
  simp only [List.flatMap_map, List.map_flatMap, checkInstruction_shift]

end DockerfileLint
