import DockerfileLint.Proofs.ArrayBody
import DockerfileLint.Proofs.Cursors

/-!
# The check of a body along a cursor

The three ways in which the structural scan goes past the body of an instruction, as loops
that move a cursor.  A list of strings is walked by a cursor of its own, and what the scan
gets back is an offset: `Cursor.Reads.moveTo` has to say that it lies onward, and within
the bound.
-/

namespace DockerfileLint

variable {c : Cursor} {esc : Escape} {off : Nat} {cs : List Char}

/-! ## Lists of strings -/

/-- Goes past a continuation if the walk is not inside a string. -/
def ArrayState.skip (s : ArrayState) (c : Cursor) : Attempt (Bool × Cursor) := do
  if s.inString then
    return (false, c)
  else
    c.skipContinuation

/-- Where a walk meets a continuation the cursor goes past it. -/
theorem ArrayState.skip_some {s : ArrayState} {n : Nat} {rest : List Char}
    (h : c.Reads esc off cs) (hcont : s.continuation? esc cs = some (n, rest)) :
    s.skip c = pure (true, c.seek (off + n)) := by
  obtain ⟨hinside, hcont⟩ := ArrayState.continuation?_eq_some hcont
  unfold ArrayState.skip
  rw [hinside, h.skipContinuation_some hcont]
  rfl

/-- Where it meets none the cursor stays. -/
theorem ArrayState.skip_none {s : ArrayState} (h : c.Reads esc off cs)
    (hcont : s.continuation? esc cs = none) : s.skip c = pure (false, c) := by
  unfold ArrayState.continuation? at hcont
  unfold ArrayState.skip
  cases hinside : s.inString with
  | true => rfl
  | false =>
      rw [hinside] at hcont
      rw [h.skipContinuation_none hcont]
      rfl

/-- One round of the walk along a list.  The result is the place that breaks the list, if
there is one, and where the walk stopped. -/
def walkRound (s : ArrayState × Cursor) : Attempt (ArrayState × Cursor ⊕ Option Nat × Nat) := do
  let (s, c) := s
  if c.done then
    return .inr (s.faultAtEnd, c.offset)
  let (joined, behind) ← s.skip c
  if joined then
    return .inl (s, ← c.moveTo behind)
  if ← c.atLineBreak then
    return .inr (s.faultAtBreak, c.offset)
  let ch ← c.char
  if s.inString then
    return .inl (s.insideString c.offset ch, ← c.moveTo (c.advance 1))
  else if ch = '"' ∧ s.commaDue ∧ s.fault = none then
    return .inr (some c.offset, c.offset)
  else
    return .inl (s.betweenStrings c.offset ch, ← c.moveTo (c.advance 1))

/-- **The walk along a list** by a cursor. -/
theorem loop_walkRound (s : ArrayState) (h : c.Reads esc off cs) :
    loop walkRound (s, c) =
      pure ((walkArray esc s off cs).fault, (walkArray esc s off cs).stop) := by
  fun_induction walkArray esc s off cs generalizing c with
  | case1 s off cs n rest hcont ih =>
      have hskip := ArrayState.skip_some h hcont
      have honward := onward_of_continuation? off (ArrayState.continuation?_eq_some hcont).2
      refine (loop_again ?_).trans (ih (h.seek honward))
      cases cs with
      | nil => cases (ArrayState.continuation?_eq_some hcont).2
      | cons ch cs => simp [walkRound, h.done_cons, hskip, h.moveTo honward]
  | case2 s off hcont =>
      refine loop_done ?_
      simp [walkRound, h.done_nil, h.offset_eq]
  | case3 s off ch cs hcont hbreak =>
      have hskip := ArrayState.skip_none h hcont
      refine loop_done ?_
      simp [walkRound, h.done_cons, hskip, h.atLineBreak_cons, hbreak, h.offset_eq]
  | case4 s off ch cs hcont hbreak hinside ih =>
      have hskip := ArrayState.skip_none h hcont
      refine (loop_again ?_).trans (ih h.advance)
      simp [walkRound, h.done_cons, hskip, h.atLineBreak_cons, hbreak, h.char, hinside,
        h.offset_eq, h.advance_eq, h.moveTo_advance]
  | case5 s off ch cs hcont hbreak hinside hquote =>
      have hskip := ArrayState.skip_none h hcont
      obtain ⟨rfl, hdue, hfault⟩ := hquote
      refine loop_done ?_
      simp [walkRound, h.done_cons, hskip, h.atLineBreak_cons, show isBreak '"' = false from rfl,
        h.char, hinside, hdue, hfault, h.offset_eq]
  | case6 s off ch cs hcont hbreak hinside hquote ih =>
      have hskip := ArrayState.skip_none h hcont
      refine (loop_again ?_).trans (ih h.advance)
      simp only [walkRound, h.done_cons, hskip, h.atLineBreak_cons, hbreak, h.char, hinside,
        h.offset_eq, h.advance_eq, h.moveTo_advance, liftM_ok, pure_bind, Bool.false_eq_true,
        if_false, hquote]

/-! ## Bodies -/

/-- One round of the check of a body; `opening` says that nothing but blanks has come so
far. -/
noncomputable def bodyRound (s : Bool × Cursor) : Attempt (Bool × Cursor ⊕ Option Nat × Nat) := do
  let (opening, c) := s
  if c.done then
    return .inr (none, c.offset)
  let (joined, behind) ← c.skipContinuation
  if joined then
    return .inl (opening, ← c.moveTo behind)
  let ch ← c.char
  if ← c.atLineBreak then
    return .inr (none, c.offset)
  let next ← c.moveTo (c.advance 1)
  if ch = '[' ∧ opening then
    return .inr (← loop walkRound ({ last := c.offset }, next))
  else
    return .inl (opening && isBlank ch, next)

/-- **The check of a body** by a cursor. -/
theorem loop_bodyRound (opening : Bool) (h : c.Reads esc off cs) :
    loop bodyRound (opening, c) =
      pure ((checkArrayBody esc opening off cs).fault,
        (checkArrayBody esc opening off cs).stop) := by
  fun_induction checkArrayBody esc opening off cs generalizing c with
  | case1 opening off cs n rest hcont ih =>
      have honward := onward_of_continuation? off hcont
      refine (loop_again ?_).trans (ih (h.seek honward))
      cases cs with
      | nil => cases hcont
      | cons ch cs =>
          simp [bodyRound, h.done_cons, h.skipContinuation_some hcont, h.moveTo honward]
  | case2 opening off hcont =>
      refine loop_done ?_
      simp [bodyRound, h.done_nil, h.offset_eq]
  | case3 opening off ch cs hcont hbreak =>
      refine loop_done ?_
      simp [bodyRound, h.done_cons, h.skipContinuation_none hcont, h.char, h.atLineBreak_cons,
        hbreak, h.offset_eq]
  | case4 opening off ch cs hcont hbreak hbracket =>
      have hwalk := loop_walkRound { last := off } h.advance
      obtain ⟨rfl, hopening⟩ := hbracket
      refine loop_done ?_
      simp [bodyRound, h.done_cons, h.skipContinuation_none hcont, h.char, h.atLineBreak_cons,
        show isBreak '[' = false from rfl, h.offset_eq, h.advance_eq, h.moveTo_advance, hopening,
        hwalk, checkArray]
  | case5 opening off ch cs hcont hbreak hbracket ih =>
      refine (loop_again ?_).trans (ih h.advance)
      simp only [bodyRound, h.done_cons, h.skipContinuation_none hcont, h.char, h.atLineBreak_cons,
        hbreak, h.advance_eq, h.moveTo_advance, liftM_ok, pure_bind, Bool.false_eq_true, if_false,
        hbracket]

/-- One round of the search of a body for anything besides white space. -/
def contentRound (s : Bool × Cursor) : Attempt (Bool × Cursor ⊕ Bool × Cursor) := do
  let (found, c) := s
  if c.done then
    return .inr (found, c)
  let (joined, behind) ← c.skipContinuation
  if joined then
    return .inl (found, ← c.moveTo behind)
  if ← c.atLineBreak then
    return .inr (found, c)
  let ch ← c.char
  return .inl (found || !isBlank ch, ← c.moveTo (c.advance 1))

/-- **The search of a body** by a cursor. -/
theorem loop_contentRound (found : Bool) (h : c.Reads esc off cs) :
    loop contentRound (found, c) =
      pure (found || (readLine esc off cs).taken.any fun p => !isBlank p.1,
        c.seek (readLine esc off cs).stop) := by
  unfold readLine
  induction off, cs using splicing_induction esc generalizing c found with
  | splice off cs n rest hcont ih =>
      have honward := onward_of_continuation? off hcont
      have hrest := ih found (h.seek honward)
      rw [Cursor.seek_seek] at hrest
      rw [readWhile_of_continuation? hcont]
      refine (loop_again ?_).trans hrest
      cases cs with
      | nil => cases hcont
      | cons ch cs =>
          simp [contentRound, h.done_cons, h.skipContinuation_some hcont, h.moveTo honward]
  | nil off =>
      refine loop_done ?_
      simp [contentRound, h.done_nil, h.seek_self]
  | char off ch cs hcont ih =>
      cases hbreak : isBreak ch with
      | true =>
          have hstop : (!isBreak ch) = false := by
            rw [hbreak]
            rfl
          rw [readWhile_cons_of_not_keep hcont hstop]
          refine loop_done ?_
          simp [contentRound, h.done_cons, h.skipContinuation_none hcont, h.atLineBreak_cons,
            hbreak, h.seek_self]
      | false =>
          have hkeep : (!isBreak ch) = true := by
            rw [hbreak]
            rfl
          have hrest := ih (found || !isBlank ch) h.advance
          rw [Cursor.seek_seek] at hrest
          rw [readWhile_cons_of_keep hcont hkeep, List.any_cons, ← Bool.or_assoc]
          refine (loop_again ?_).trans hrest
          simp [contentRound, h.done_cons, h.skipContinuation_none hcont, h.atLineBreak_cons,
            hbreak, h.char, h.advance_eq, h.moveTo_advance]

end DockerfileLint
