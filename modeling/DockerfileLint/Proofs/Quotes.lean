import DockerfileLint.Proofs.Partition
import DockerfileLint.Proofs.Places

/-!
# Diagnostics quote the text they point at

Four diagnostics carry a piece of the document in their message: the name of an unknown
directive, the value that is no escape character, the keyword that is not allowed and the
argument that is no port.  The piece is what stands under the range of the diagnostic,
less the continuations of the document, and for a keyword in upper case.

For a keyword that is how words are read.  For an argument it has to be shown, because
the tokenizer takes an escape character and the character behind it in one step: the
second of two escape characters in a row never starts a continuation for it.
`spliced_take_token` says that no continuation of the text is lost on that account; a
break behind such a pair ends the token, and the text under its span with it.

* `arguments_quoted`: an argument is the text under its span, less the continuations;
* `lint_quoted`: every finding that quotes something quotes what is under its span;
* `validate_quotes`: so does every diagnostic, from its range alone.
-/

namespace DockerfileLint

variable {esc : Escape} {text cs : List Char} {off : Nat}

/-! ## Text under spans -/

/-- The text under a span does not depend on what comes behind the span. -/
theorem textUnder_take {s : Span Nat} {stop : Nat} (h : s.stop ≤ stop) :
    textUnder (text.take stop) s = textUnder text s := by
  unfold textUnder
  rw [List.drop_take, List.take_take, Nat.min_eq_left (by omega)]

/-- A text on one line holds no continuation. -/
theorem withoutContinuations_of_line (hline : ∀ c ∈ cs, isBreak c = false) :
    withoutContinuations esc cs = cs := by
  induction cs with
  | nil => simp
  | cons c cs ih =>
      have hrest : ∀ d ∈ cs, isBreak d = false :=
        fun d hd => hline d (List.mem_cons_of_mem c hd)
      have hcont : continuation? esc (c :: (cs ++ [])) = none := by
        apply continuation?_eq_none_of_line hrest
        intro _ _ d ds hnil
        cases hnil
      rw [List.append_nil] at hcont
      rw [withoutContinuations_cons hcont, ih hrest]

/-! ## Arguments -/

/-- A token does not reach back before its start. -/
theorem le_reach_readToken (esc : Escape) (off : Nat) (cs : List Char) :
    off ≤ (readToken esc off cs).reach off := by
  by_cases htaken : (readToken esc off cs).taken = []
  · exact Nat.le_of_eq (reach_of_taken_eq_nil htaken off).symm
  · have hbounds := reach_within htaken (readToken_taken_within esc off cs) off
    exact Nat.le_of_lt hbounds.1

/-- An escape character and the one behind it carry the reach along. -/
theorem readToken_reach_pair {e d : Char} (he : isSpace e = false)
    (h : continuation? (some e) (e :: d :: cs) = none) :
    (readToken (some e) off (e :: d :: cs)).reach off =
      (readToken (some e) (off + 2) cs).reach (off + 2) := by
  let behind : Reading :=
    ⟨(d, off + 1) :: (readToken (some e) (off + 2) cs).taken, off, cs⟩
  have hfirst : (readToken (some e) off (e :: d :: cs)).reach off = behind.reach (off + 1) := by
    rw [readToken_pair h he]
    exact reach_cons rfl off
  exact hfirst.trans (reach_cons rfl (off + 1))

/-- Behind an escape character that is taken as a pair with the next one, the text up to
the reach of the token starts with no continuation. -/
theorem continuation?_behind_pair {e d : Char} (he : isSpace e = false)
    (h : continuation? (some e) (e :: d :: cs) = none) :
    continuation? (some e)
      (d :: cs.take ((readToken (some e) off cs).reach off - off)) = none := by
  have hesc : Escape.Visible (some e) := Escape.visible_some he
  by_cases hd : some e = some d
  · cases cs with
    | nil => simp [continuation?, lineBreak?]
    | cons x xs =>
        by_cases hx : isBreak x = true
        · -- The break ends the token, so nothing of it is left under the span.
          have hspace := isSpace_of_isBreak hx
          have htoken : readToken (some e) off (x :: xs) = ⟨[], off, x :: xs⟩ :=
            readToken_of_isSpace (hesc.continuation?_eq_none xs hspace) hspace
          rw [htoken]
          simp [Reading.reach, continuation?, lineBreak?]
        · apply continuation?_take_eq_none
          have hnone : lineBreak? (x :: xs) = none := lineBreak?_eq_none (Bool.not_eq_true _ ▸ hx)
          simp [continuation?, hnone]
  · exact continuation?_cons_of_ne _ hd

/-- What the tokenizer takes is what is left, without the continuations, of the text up to
the reach of the token. -/
theorem spliced_take_token (esc : Escape) (off : Nat) (cs : List Char) :
    spliced esc off (cs.take ((readToken esc off cs).reach off - off)) =
      (readToken esc off cs).taken := by
  induction off, cs using token_induction esc with
  | splice off cs n rest h ih =>
      rw [readToken_of_continuation? h]
      by_cases htaken : (readToken esc (off + n) rest).taken = []
      · rw [reach_of_taken_eq_nil htaken, htaken]
        simp
      · have hle := le_reach_readToken esc (off + n) rest
        rw [reach_of_taken_ne_nil htaken off (off + n),
          spliced_of_continuation? (continuation?_take h (by omega)), Nat.sub_sub]
        exact ih
  | nil off => simp
  | space off c cs h hspace =>
      rw [readToken_of_isSpace h hspace]
      simp [Reading.reach]
  | last off e hesc hspace =>
      subst hesc
      have hcont : continuation? (some e) [e] = none := by
        simp [continuation?, lineBreak?]
      rw [readToken_last hspace]
      simp [Reading.reach, spliced_cons hcont]
  | pair off e d cs hesc hspace h ih =>
      subst hesc
      have hle := le_reach_readToken (some e) (off + 2) cs
      have hcut := continuation?_take_eq_none
        ((readToken (some e) (off + 2) cs).reach (off + 2) - (off + 1)) h
      rw [take_sub_cons hle] at hcut
      rw [readToken_reach_pair hspace h, take_sub_cons (Nat.lt_of_succ_lt hle), take_sub_cons hle,
        spliced_cons hcut, spliced_cons (continuation?_behind_pair hspace h), ih,
        readToken_pair h hspace]
  | char off c cs h hspace hne ih =>
      have hle := le_reach_readToken esc (off + 1) cs
      have hreach : (readToken esc off (c :: cs)).reach off =
          (readToken esc (off + 1) cs).reach (off + 1) := by
        rw [readToken_cons h hspace hne]
        exact reach_cons rfl off
      rw [hreach, take_sub_cons hle, spliced_cons (continuation?_take_eq_none _ h), ih,
        readToken_cons h hspace hne]

/-- The value of an argument is the text under its span, less the continuations. -/
theorem argumentsFrom_quoted (esc : Escape) (off : Nat) (cs : List Char)
    (hcs : cs = text.drop off) :
    ∀ a ∈ argumentsFrom esc off cs,
      withoutContinuations esc (textUnder text a.span) = a.value.toList := by
  induction off, cs using arguments_induction esc with
  | nil off cs hgap => simp [argumentsFrom_of_nil hgap]
  | cons off cs c rest hgap ih =>
      have hfront := onward_readGap esc off cs
      rw [hgap] at hfront
      have hstart := hfront.eq_drop_text hcs
      rw [argumentsFrom_of_cons hgap]
      intro a ha
      rcases List.mem_cons.mp ha with rfl | ha
      · have htoken := spliced_take_token esc (readGap esc off cs).stop (c :: rest)
        unfold withoutContinuations textUnder
        simp only
        rw [← hstart, spliced_map_fst esc 0 (readGap esc off cs).stop, htoken]
        exact String.toList_ofList.symm
      · exact ih ((onward_readToken esc _ _).eq_drop_text hstart) a ha

/-- The arguments of an instruction are read off the text under their spans, whatever
escape character they are asked for. -/
theorem arguments_quoted (hcs : cs = text.drop off) (hword : (readWord esc off cs).taken ≠ [])
    (esc' : Escape) :
    ∀ a ∈ (readInstruction esc off cs).arguments esc',
      withoutContinuations esc' (textUnder text a.span) = a.value.toList := by
  intro a ha
  have hstop := (arguments_within hword esc' a ha).stop_le
  rw [← textUnder_take hstop]
  exact argumentsFrom_quoted esc' _ _ (argumentsText_eq_drop hcs hword) a ha

/-! ## Directives -/

/-- A piece of the first line lies under the same span in the text. -/
theorem Span.Marks.textUnder {s : Span Nat} {piece : List Char}
    (h : s.Marks (firstLine text) piece) : textUnder text s = piece := by
  have hline : firstLine text = text.take (firstLine text).length :=
    List.prefix_iff_eq_take.mp (List.takeWhile_prefix _)
  rw [← textUnder_take h.stop_le, ← hline]
  exact h.under

/-- A piece of the first line holds no continuation. -/
theorem Span.Marks.withoutContinuations {s : Span Nat} {piece : List Char} (esc : Escape)
    (h : s.Marks (firstLine text) piece) : withoutContinuations esc piece = piece := by
  apply withoutContinuations_of_line
  intro c hc
  rw [← h.under] at hc
  exact isBreak_eq_false_of_mem_firstLine (List.mem_of_mem_drop (List.mem_of_mem_take hc))

/-! ## Findings -/

/-- The codes whose messages quote the document. -/
def Code.quotes : Code → Bool
  | .unknownDirective | .invalidEscapeDirective | .unknownInstruction | .invalidPort => true
  | _ => false

/-- The messages that quote something are those with a slot. -/
theorem Code.quotes_iff {code : Code} :
    code.quotes = true ↔ ∃ lead tail, code.wording = ⟨lead, some tail⟩ := by
  cases code <;> simp [Code.quotes, Code.wording]

/-- What a code quotes of the text under its range: the text less its continuations, and
in upper case if it is a keyword. -/
def Code.quotation (code : Code) (esc : Escape) (under : List Char) : String :=
  let piece := String.ofList (withoutContinuations esc under)
  if code = .unknownInstruction then Unicode.upper piece else piece

/-- A finding quotes the text under its span. -/
def Finding.Quotes (f : Finding) (esc : Escape) (text : List Char) : Prop :=
  f.problem.quote = f.problem.code.quotation esc (textUnder text f.span)

/-- What is said of a directive quotes its name or its value. -/
theorem checkDirective_quotes {f : Finding} (hf : f ∈ checkDirective (Directive.parse? text)) :
    f.Quotes esc text := by
  obtain ⟨d, hd, hfault⟩ := mem_checkDirective hf
  obtain ⟨hname, hvalue⟩ := Directive.marks hd
  unfold Finding.Quotes Code.quotation
  cases hfault with
  | name =>
      rw [hname.textUnder, hname.withoutContinuations esc, String.ofList_toList]
      rfl
  | value =>
      rw [hvalue.textUnder, hvalue.withoutContinuations esc, String.ofList_toList]
      rfl

/-- What is said of an instruction quotes its keyword or an argument, if it quotes
anything. -/
theorem checkInstruction_quotes {ctx : CheckContext} {i : Instruction} {f : Finding}
    (hi : i ∈ (Dockerfile.parse text).instructions) (hf : f ∈ checkInstruction ctx i)
    (hctx : ctx.escape = some (Dockerfile.parse text).escape)
    (hcode : f.problem.code.quotes = true) :
    f.Quotes (some (Dockerfile.parse text).escape) text := by
  unfold Finding.Quotes Code.quotation
  cases mem_checkInstruction hf with
  | unknown hkeyword =>
      rw [(parse_liesIn text i hi).written, String.ofList_toList]
      rfl
  | lowercase | deprecated | missing => cases hcode
  | argument hmem hfault =>
      cases hfault with
      | extra | signal => cases hcode
      | port =>
          obtain ⟨off, c, rest, honward, -, -, hword, rfl⟩ := mem_parse_instructions hi
          rw [hctx] at hmem
          rw [arguments_quoted (honward.eq_drop_text rfl) hword _ _ hmem, String.ofList_toList]
          rfl

/-- Whatever a finding of a document quotes is what is under its span. -/
theorem lint_quoted (settings : LintSettings) (keywords : List String) (text : List Char) :
    ∀ f ∈ (lint settings keywords text).findings, f.problem.code.quotes = true →
      f.Quotes (some (Dockerfile.parse text).escape) text := by
  intro f hf hcode
  cases mem_lint_findings hf with
  | directive hf => exact checkDirective_quotes hf
  | sourceImage hf =>
      rw [code_of_mem_checkSourceImage hf] at hcode
      cases hcode
  | instruction i hi hf => exact checkInstruction_quotes hi hf rfl hcode
  | scan hf =>
      rw [(scanFrom_findings_covers rfl hf).1] at hcode
      cases hcode

/-! ## Diagnostics -/

/-- **Diagnostics quote the text they point at.**  A diagnostic about an unknown
directive, an illegal escape character, an unknown instruction or a port that is none has
a message with a slot.  In the slot stands, character by character, the text between the
offsets that its range leads back to, less the continuations of the document, and in
upper case if it is a keyword. -/
theorem validate_quotes (settings : LintSettings) (keywords : List String)
    (text : List Char) :
    let d := Document.ofText text
    let esc : Escape := some (Dockerfile.parse text).escape
    ∀ dg ∈ validate settings keywords d, dg.code.quotes = true →
      ∃ lead tail, dg.code.wording = ⟨lead, some tail⟩ ∧
        dg.message = lead ++
          dg.code.quotation esc (d.slice (d.offsetAt dg.range.start) (d.offsetAt dg.range.stop)) ++
            tail := by
  intro d esc dg hdg hcode
  obtain ⟨f, hf, rfl⟩ := List.mem_map.mp hdg
  have hpoints := (lint_placed settings keywords text f hf).pointsAt.1
  have hquote : f.problem.quote = _ := lint_quoted settings keywords text f hf hcode
  obtain ⟨lead, tail, hwording⟩ := Code.quotes_iff.mp hcode
  refine ⟨lead, tail, hwording, ?_⟩
  rw [hpoints.offsetAt_start, hpoints.offsetAt_stop]
  show f.problem.code.wording.fill f.problem.quote = _
  have hwording' : f.problem.code.wording = ⟨lead, some tail⟩ := hwording
  rw [hwording', hquote]
  rfl

/-- An escape character that is none, and a port over two lines, both of them with braces
and with a character beyond the basic plane. -/
def bracedPort : List Char := "# escape=\x7b0\x7d😀\nFROM x\nEXPOSE 😀8\\\n\x7b0\x7d\n".toList

/-- The two diagnostics of `bracedPort` quote the document as it stands. -/
theorem validate_quotes_bracedPort :
    let d := Document.ofText bracedPort
    let messages := ["invalid ESCAPE '\x7b0\x7d😀'. Must be ` or \\",
      "Invalid containerPort: 😀8\x7b0\x7d"]
    (validate {} standardKeywords d).map Diagnostic.message = messages ∧
      ∀ dg ∈ validate {} standardKeywords d, dg.code.quotes = true ∧
        ∃ lead tail, dg.code.wording = ⟨lead, some tail⟩ ∧
          dg.message = lead ++ dg.code.quotation (some '\\')
            (d.slice (d.offsetAt dg.range.start) (d.offsetAt dg.range.stop)) ++ tail := by
  have hescape : (Dockerfile.parse bracedPort).escape = '\\' := by
    decide +kernel
  have hcodes : ∀ dg ∈ validate {} standardKeywords (Document.ofText bracedPort),
      dg.code.quotes = true := by
    decide +kernel
  refine ⟨by decide +kernel, fun dg hdg => ⟨hcodes dg hdg, ?_⟩⟩
  have hquotes := validate_quotes {} standardKeywords bracedPort dg hdg (hcodes dg hdg)
  rw [hescape] at hquotes
  exact hquotes

end DockerfileLint
