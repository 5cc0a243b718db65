import DockerfileLint.Proofs.Concatenation
import DockerfileLint.Proofs.CursorArrays
import DockerfileLint.Proofs.CursorParser

/-!
# The structural scan as a machine

The scan along a cursor is a machine of three states: it looks for the next word on a
line, it is in a comment, or it is at a word.  Where it goes on behind a list of strings is
an offset that the check of the list hands back.

* `loop_next`: the machine stops, with the visits of the scan of what is left of the text;
* `ScanRun.Placed.next`: what one transition does.  From every state that the machine can be
  in it succeeds, and a word or a comment takes a character at least, so that no state in
  which a line is scanned is at the same offset as the one before.
-/

namespace DockerfileLint

variable {c : Cursor} {esc : Escape} {off : Nat} {cs : List Char} {keywords : List String}

/-! ## The machine -/

/-- Where the scan is. -/
inductive ScanState
  /-- Between words, on the way to the next one. -/
  | scanningLine
  | inComment
  | inWord
deriving DecidableEq, Repr

/-- The scan under way, with the words visited so far last first. -/
structure ScanRun where
  state : ScanState
  cursor : Cursor
  visits : List Visit

/-- One round past white space. -/
def spaceRound (c : Cursor) : Attempt (Cursor ⊕ Cursor) := do
  if c.done then
    return .inr c
  if isSpace (← c.char) then
    return .inl (← c.moveTo (c.advance 1))
  else
    return .inr c

/-- One round through a comment. -/
def commentRound (c : Cursor) : Attempt (Cursor ⊕ Cursor) := do
  if c.done then
    return .inr c
  if ← c.atLineBreak then
    return .inr c
  else
    return .inl (← c.moveTo (c.advance 1))

/-- Checks a body along a cursor. -/
noncomputable def Cursor.scanBody (c : Cursor) (form : BodyForm) :
    Attempt (VisitOutcome × Cursor) := do
  match form with
  | .skipLine =>
    return (.skipped, ← c.moveTo (← c.skipToLineBreak))
  | .stringArray =>
    let (fault, stop) ← loop bodyRound (true, c)
    return (.array fault, ← c.moveTo (c.seek stop))
  | .requireContent =>
    let (found, behind) ← loop contentRound (false, c)
    return (.content found, behind)

namespace ScanRun

/-- Goes on with the line where the cursor stands, if there is one. -/
def resume (visits : List Visit) (c : Cursor) : ScanRun ⊕ Scan :=
  if c.done then .inr ⟨visits.reverse, c.offset⟩ else .inl ⟨.scanningLine, c, visits⟩

/-- One transition of the scan. -/
noncomputable def next (keywords : List String) (r : ScanRun) : Attempt (ScanRun ⊕ Scan) := do
  match r.state with
  | .scanningLine =>
    let c ← loop spaceRound r.cursor
    if c.done then
      return .inr ⟨r.visits.reverse, c.offset⟩
    if (← c.char) = '#' then
      return .inl ⟨.inComment, c, r.visits⟩
    else
      return .inl ⟨.inWord, c, r.visits⟩
  | .inComment =>
    return resume r.visits (← loop commentRound r.cursor)
  | .inWord =>
    let ((word, _), behind) ← r.cursor.readWord
    let behind ← r.cursor.moveTo behind
    if word = "" then
      return .inl ⟨.scanningLine, behind, r.visits⟩
    match bodyForm? keywords (Unicode.upper word) with
    | none =>
      let visit : Visit := ⟨r.cursor.offset, word, behind.offset, .unknown, behind.offset⟩
      return .inr ⟨(visit :: r.visits).reverse, behind.offset⟩
    | some form =>
      let (outcome, last) ← behind.scanBody form
      let visit : Visit := ⟨r.cursor.offset, word, behind.offset, outcome, last.offset⟩
      return resume (visit :: r.visits) last

end ScanRun

/-! ## The transitions -/

/-- White space is gone past to its end. -/
theorem loop_spaceRound (h : c.Reads esc off cs) :
    loop spaceRound c = pure (c.seek (off + (cs.takeWhile isSpace).length)) := by
  induction cs generalizing c off with
  | nil =>
      refine loop_done ?_
      simp [spaceRound, h.done_nil, h.seek_self]
  | cons ch cs ih =>
      cases hspace : isSpace ch with
      | true =>
          have hrest := ih h.advance
          rw [Cursor.seek_seek, Nat.add_assoc, Nat.add_comm 1] at hrest
          rw [List.takeWhile_cons_of_pos hspace, List.length_cons]
          refine (loop_again ?_).trans hrest
          simp [spaceRound, h.done_cons, h.char, hspace, h.advance_eq, h.moveTo_advance]
      | false =>
          refine loop_done ?_
          simp [spaceRound, h.done_cons, h.char, hspace, h.seek_self]

/-- A comment is gone past to the end of its line. -/
theorem loop_commentRound (h : c.Reads esc off cs) :
    loop commentRound c = pure (c.seek (off + (firstLine cs).length)) := by
  unfold firstLine
  induction cs generalizing c off with
  | nil =>
      refine loop_done ?_
      simp [commentRound, h.done_nil, h.seek_self]
  | cons ch cs ih =>
      cases hbreak : isBreak ch with
      | false =>
          have hrest := ih h.advance
          rw [Cursor.seek_seek, Nat.add_assoc, Nat.add_comm 1] at hrest
          rw [List.takeWhile_cons_of_pos (by rw [hbreak]; rfl), List.length_cons]
          refine (loop_again ?_).trans hrest
          simp [commentRound, h.done_cons, h.atLineBreak_cons, hbreak, h.advance_eq,
            h.moveTo_advance]
      | true =>
          refine loop_done ?_
          simp [commentRound, h.done_cons, h.atLineBreak_cons, hbreak, h.seek_self]

/-- The scan of a body goes on in its text. -/
theorem onward_scanBody (esc : Escape) (form : BodyForm) (off : Nat) (cs : List Char) :
    Onward off cs (scanBody esc form off cs).stop (scanBody esc form off cs).rest := by
  cases form with
  | skipLine => exact onward_readLine esc off cs
  | stringArray => exact onward_checkArrayBody esc true off cs
  | requireContent => exact onward_readLine esc off cs

/-- **The check of a body along a cursor** stops where the check of what is left does. -/
theorem scanBody_eq (h : c.Reads esc off cs) (form : BodyForm) :
    c.scanBody form = pure ((scanBody esc form off cs).outcome,
      c.seek (scanBody esc form off cs).stop) := by
  have hmove := h.moveTo (onward_scanBody esc form off cs)
  cases form with
  | skipLine =>
      simp only [scanBody] at hmove
      simp [Cursor.scanBody, h.skipToLineBreak, hmove, scanBody]
  | stringArray =>
      simp only [scanBody] at hmove
      simp [Cursor.scanBody, loop_bodyRound true h, hmove, scanBody]
  | requireContent => simp [Cursor.scanBody, loop_contentRound false h, scanBody]

namespace ScanRun

variable {ch : Char} {visits : List Visit}

/-- At the end of the text the scan is over. -/
theorem next_nil (h : c.Reads esc off []) :
    next keywords ⟨.scanningLine, c, visits⟩ = pure (.inr ⟨visits.reverse, off⟩) := by
  have hloop := loop_spaceRound h
  rw [List.takeWhile_nil, List.length_nil, Nat.add_zero, h.seek_self] at hloop
  simp [next, hloop, h.done_nil, h.offset_eq]

/-- White space does not change what comes next. -/
theorem next_space (h : c.Reads esc off (ch :: cs)) (hspace : isSpace ch = true) :
    next keywords ⟨.scanningLine, c, visits⟩ =
      next keywords ⟨.scanningLine, c.seek (off + 1), visits⟩ := by
  have hloop : loop spaceRound c = loop spaceRound (c.seek (off + 1)) := by
    refine loop_again ?_
    simp [spaceRound, h.done_cons, h.char, hspace, h.advance_eq, h.moveTo_advance]
  simp only [next, hloop]

/-- At any other character there is a comment or a word. -/
theorem next_line (h : c.Reads esc off (ch :: cs)) (hspace : isSpace ch = false) :
    next keywords ⟨.scanningLine, c, visits⟩ =
      pure (.inl ⟨if ch = '#' then .inComment else .inWord, c, visits⟩) := by
  have hloop := loop_spaceRound h
  rw [List.takeWhile_cons_of_neg (by simp [hspace]), List.length_nil, Nat.add_zero,
    h.seek_self] at hloop
  by_cases hmark : ch = '#' <;> simp [next, hloop, h.done_cons, h.char, hmark]

/-- Anything but white space and a number sign starts a word. -/
theorem next_word_ahead (keywords : List String) (visits : List Visit)
    (h : c.Reads esc off (ch :: cs)) (hspace : isSpace ch = false) (hmark : ch ≠ '#') :
    next keywords ⟨.scanningLine, c, visits⟩ = pure (.inl ⟨.inWord, c, visits⟩) := by
  rw [next_line h hspace, if_neg hmark]

/-- A comment is gone past to the end of its physical line. -/
theorem next_comment (h : c.Reads esc off cs) :
    next keywords ⟨.inComment, c, visits⟩ =
      pure (resume visits (c.seek (off + (firstLine cs).length))) := by
  simp [next, loop_commentRound h]

/-- A word of continuations alone is none. -/
theorem next_joint (h : c.Reads esc off cs) (hword : (readWord esc off cs).taken = []) :
    next keywords ⟨.inWord, c, visits⟩ =
      pure (.inl ⟨.scanningLine, c.seek (readWord esc off cs).stop, visits⟩) := by
  simp [next, h.readWord, h.moveTo (onward_readWord esc off cs), Reading.text_eq_empty_iff, hword]

/-- A word that is not known ends the scan. -/
theorem next_unknown (h : c.Reads esc off cs) (hword : (readWord esc off cs).taken ≠ [])
    (hform : visitForm esc keywords off cs = none) :
    next keywords ⟨.inWord, c, visits⟩ =
      pure (.inr ⟨(readVisit esc keywords off cs :: visits).reverse,
        (readWord esc off cs).stop⟩) := by
  have hvisit : readVisit esc keywords off cs = ⟨off, (readWord esc off cs).text,
      (readWord esc off cs).stop, .unknown, (readWord esc off cs).stop⟩ := by
    simp [readVisit, visitBody, hform, scanBehind]
  unfold visitForm at hform
  simp [next, h.readWord, h.moveTo (onward_readWord esc off cs), Reading.text_eq_empty_iff, hword,
    hform, hvisit, h.offset_eq]

/-- A word that is known is visited, and the scan goes on behind its body. -/
theorem next_word (h : c.Reads esc off cs) (hword : (readWord esc off cs).taken ≠ [])
    {form : BodyForm} (hform : visitForm esc keywords off cs = some form) :
    next keywords ⟨.inWord, c, visits⟩ =
      pure (resume (readVisit esc keywords off cs :: visits)
        (c.seek (visitBody esc keywords off cs).stop)) := by
  have hbehind := h.seek (onward_readWord esc off cs)
  have hbody : visitBody esc keywords off cs =
      scanBody esc form (readWord esc off cs).stop (readWord esc off cs).rest := by
    simp [visitBody, hform, scanBehind]
  unfold readVisit
  rw [hbody]
  unfold visitForm at hform
  simp [next, h.readWord, h.moveTo (onward_readWord esc off cs), Reading.text_eq_empty_iff, hword,
    hform, scanBody_eq hbehind, h.offset_eq]
  rfl

/-- To go on is to scan the line where the cursor stands. -/
theorem loop_of_resume {r : ScanRun} (h : c.Reads esc off cs)
    (hnext : next keywords r = pure (resume visits c)) :
    loop (next keywords) r = loop (next keywords) ⟨.scanningLine, c, visits⟩ := by
  unfold resume at hnext
  cases cs with
  | nil =>
      rw [h.done_nil, if_pos rfl, h.offset_eq] at hnext
      rw [loop_done hnext, loop_done (next_nil h)]
  | cons ch cs =>
      rw [h.done_cons, if_neg Bool.false_ne_true] at hnext
      exact loop_again hnext

/-- **The machine** stops, and makes the visits of the scan of what is left of the text. -/
theorem loop_next (h : c.Reads esc off cs) (visits : List Visit) :
    loop (next keywords) ⟨.scanningLine, c, visits⟩ =
      pure ⟨visits.reverse ++ (scanFrom esc keywords off cs).visits,
        (scanFrom esc keywords off cs).stop⟩ := by
  induction off, cs using scanning_induction esc keywords generalizing c visits with
  | nil off => simp [loop_done (next_nil h)]
  | space off ch cs hspace ih =>
      rw [scanFrom_of_isSpace hspace, ← ih h.advance]
      exact loop_congr (next_space h hspace)
  | comment off cs ih =>
      have hbehind := h.seek (onward_afterFirstLine off ('#' :: cs))
      rw [scanFrom_of_mark, ← ih hbehind, ← loop_of_resume hbehind (next_comment h)]
      exact loop_again (next_line h rfl)
  | joint off ch cs hspace hmark hword ih =>
      have hline := next_word_ahead keywords visits h hspace hmark
      rw [scanFrom_of_joint hspace hmark hword, ← ih (h.seek (onward_readWord esc off _))]
      exact (loop_again hline).trans (loop_again (next_joint h hword))
  | unknown off ch cs hspace hmark hword hform =>
      have hline := next_word_ahead keywords visits h hspace hmark
      rw [scanFrom_of_unknown hspace hmark hword hform, loop_again hline,
        loop_done (next_unknown h hword hform), List.reverse_cons]
  | word off ch cs hspace hmark hword hform ih =>
      have hline := next_word_ahead keywords visits h hspace hmark
      have hbehind := h.seek (onward_visitBody esc keywords off (ch :: cs))
      obtain ⟨form, hsome⟩ := Option.isSome_iff_exists.mp hform
      have hrest := ih hbehind (readVisit esc keywords off (ch :: cs) :: visits)
      rw [List.reverse_cons, List.append_assoc, List.singleton_append] at hrest
      rw [scanFrom_of_word hspace hmark hword hform, loop_again hline,
        loop_of_resume hbehind (next_word h hword hsome)]
      exact hrest

/-! ## What a transition does -/

/-- The scan stands somewhere in the text, under the bound of the text, and in a comment or
at a word it stands at a character that is no white space. -/
structure Placed (r : ScanRun) (text : List Char) (e : Char) : Prop where
  cursor_eq : r.cursor = Cursor.onText text e r.cursor.offset text.length
  offset_le : r.cursor.offset ≤ text.length
  ahead : r.state ≠ .scanningLine →
    ∃ ch rest, text.drop r.cursor.offset = ch :: rest ∧ isSpace ch = false

/-- One state comes behind another: it is no further back, and from a comment or a word the
scan returns to the line a character further on at least. -/
structure Precedes (r r' : ScanRun) : Prop where
  le : r.cursor.offset ≤ r'.cursor.offset
  leaves : r.state = .scanningLine → r'.state ≠ .scanningLine
  returns : r.state ≠ .scanningLine →
    r'.state = .scanningLine ∧ r.cursor.offset < r'.cursor.offset

variable {text rest : List Char} {e : Char} {r r' : ScanRun} {stop : Nat}

/-- A run in its place reads what is left of the text. -/
theorem Placed.reads (h : r.Placed text e) :
    r.cursor.Reads (some e) r.cursor.offset (text.drop r.cursor.offset) := by
  have hover := Cursor.Reads.onText_rest e h.offset_le
  rwa [← h.cursor_eq] at hover

/-- On the line the scan may stand anywhere further on. -/
theorem Placed.scanningLine (h : r.Placed text e)
    (honward : Onward r.cursor.offset (text.drop r.cursor.offset) stop rest)
    (visits : List Visit) : Placed ⟨.scanningLine, r.cursor.seek stop, visits⟩ text e where
  cursor_eq := by
    rw [h.cursor_eq]
    rfl
  offset_le := by
    have hle := (h.reads.seek honward).offset_le
    rwa [h.cursor_eq] at hle
  ahead hstate := absurd rfl hstate

/-- White space does not change what comes next, however much there is. -/
theorem next_spaces (h : c.Reads esc off cs) :
    next keywords ⟨.scanningLine, c, visits⟩ =
      next keywords ⟨.scanningLine, c.seek (off + (cs.takeWhile isSpace).length), visits⟩ := by
  induction cs generalizing c off with
  | nil => rw [List.takeWhile_nil, List.length_nil, Nat.add_zero, h.seek_self]
  | cons ch cs ih =>
      cases hspace : isSpace ch with
      | true =>
          rw [next_space h hspace, ih h.advance, Cursor.seek_seek,
            List.takeWhile_cons_of_pos hspace, List.length_cons, Nat.add_assoc, Nat.add_comm 1]
      | false =>
          rw [List.takeWhile_cons_of_neg (by simp [hspace]), List.length_nil, Nat.add_zero,
            h.seek_self]

/-- To go on with the line leads onward. -/
theorem Placed.returns (h : r.Placed text e) (hstate : r.state ≠ .scanningLine)
    (honward : Onward r.cursor.offset (text.drop r.cursor.offset) stop rest)
    (hlt : rest.length < (text.drop r.cursor.offset).length) (visits : List Visit) :
    Placed ⟨.scanningLine, r.cursor.seek stop, visits⟩ text e ∧
      r.Precedes ⟨.scanningLine, r.cursor.seek stop, visits⟩ := by
  have hpos : r.cursor.offset < stop := by
    have hlength := honward.add_length
    omega
  exact ⟨h.scanningLine honward visits, Nat.le_of_lt hpos, fun hline => absurd hline hstate,
    fun _ => ⟨rfl, hpos⟩⟩

/-- A run that is resumed looks for a word again. -/
theorem eq_of_resume {visits : List Visit} (h : resume visits c = .inl r') :
    r' = ⟨.scanningLine, c, visits⟩ := by
  unfold resume at h
  split at h
  · cases h
  · exact (Sum.inl.inj h).symm

/-- Between words a run takes its next step and stays in its place. -/
theorem Placed.next_line (h : r.Placed text e) (hstate : r.state = .scanningLine)
    (keywords : List String) :
    ∃ result, next keywords r = pure result ∧
      ∀ r', result = .inl r' → r'.Placed text e ∧ r.Precedes r' := by
  obtain ⟨state, c, visits⟩ := r
  obtain rfl : state = .scanningLine := hstate
  have hspaces : Onward c.offset (text.drop c.offset)
      (c.offset + ((text.drop c.offset).takeWhile isSpace).length)
      ((text.drop c.offset).dropWhile isSpace) :=
    ⟨_, List.takeWhile_append_dropWhile.symm, rfl⟩
  have hbehind := h.reads.seek hspaces
  have hplaced := h.scanningLine hspaces visits
  rw [next_spaces h.reads]
  cases hrest : (text.drop c.offset).dropWhile isSpace with
  | nil =>
      rw [hrest] at hbehind
      refine ⟨_, next_nil hbehind, fun r' hr' => ?_⟩
      cases hr'
  | cons ch more =>
      rw [hrest] at hbehind
      have hspace : isSpace ch = false := by
        have hhead := List.head?_dropWhile_not isSpace (text.drop c.offset)
        rw [hrest] at hhead
        simpa using hhead
      refine ⟨_, ScanRun.next_line hbehind hspace, fun r' hr' => ?_⟩
      obtain rfl := Sum.inl.inj hr'
      refine ⟨⟨hplaced.cursor_eq, hplaced.offset_le, fun _ => ⟨ch, more, ?_, hspace⟩⟩, hspaces.le,
        fun _ => ?_, fun hstate => absurd rfl hstate⟩
      · rw [← hrest]
        exact (hspaces.eq_drop_text rfl).symm
      · split <;> simp

/-- So it does in a comment. -/
theorem Placed.next_comment (h : r.Placed text e) (hstate : r.state = .inComment)
    (keywords : List String) :
    ∃ result, next keywords r = pure result ∧
      ∀ r', result = .inl r' → r'.Placed text e ∧ r.Precedes r' := by
  obtain ⟨state, c, visits⟩ := r
  obtain rfl : state = .inComment := hstate
  obtain ⟨ch, rest, hdrop, hspace⟩ := h.ahead (by simp)
  refine ⟨_, ScanRun.next_comment h.reads, fun r' hr' => ?_⟩
  rw [eq_of_resume hr']
  refine h.returns (by simp) (onward_afterFirstLine _ _) ?_ visits
  simp only at hdrop ⊢
  rw [hdrop]
  exact afterFirstLine_length_lt (isBreak_eq_false_of_isSpace hspace)

/-- So it does in a word. -/
theorem Placed.next_word (h : r.Placed text e) (hstate : r.state = .inWord)
    (keywords : List String) :
    ∃ result, next keywords r = pure result ∧
      ∀ r', result = .inl r' → r'.Placed text e ∧ r.Precedes r' := by
  obtain ⟨state, c, visits⟩ := r
  obtain rfl : state = .inWord := hstate
  obtain ⟨ch, rest, hdrop, hspace⟩ := h.ahead (by simp)
  have hlt : (readWord (some e) c.offset (text.drop c.offset)).rest.length <
      (text.drop c.offset).length := by
    simp only at hdrop
    rw [hdrop]
    exact readWhile_rest_length_lt c.offset (by simp [hspace])
  by_cases hword : (readWord (some e) c.offset (text.drop c.offset)).taken = []
  · refine ⟨_, next_joint h.reads hword, fun r' hr' => ?_⟩
    obtain rfl := Sum.inl.inj hr'
    exact h.returns (by simp) (onward_readWord _ _ _) hlt visits
  · cases hform : visitForm (some e) keywords c.offset (text.drop c.offset) with
    | none =>
        refine ⟨_, next_unknown h.reads hword hform, fun r' hr' => ?_⟩
        cases hr'
    | some form =>
        refine ⟨_, ScanRun.next_word h.reads hword hform, fun r' hr' => ?_⟩
        rw [eq_of_resume hr']
        refine h.returns (by simp) (onward_visitBody _ keywords _ _) ?_ _
        exact Nat.lt_of_le_of_lt (scanBehind_rest_length_le _ _ _ _) hlt

/-- **The step of the scan.**  A transition succeeds, and what it leads to comes behind. -/
theorem Placed.next (h : r.Placed text e) (keywords : List String) :
    ∃ result, ScanRun.next keywords r = pure result ∧
      ∀ r', result = .inl r' → r'.Placed text e ∧ r.Precedes r' := by
  cases hstate : r.state with
  | scanningLine => exact h.next_line hstate keywords
  | inComment => exact h.next_comment hstate keywords
  | inWord => exact h.next_word hstate keywords

end ScanRun

end DockerfileLint
