import DockerfileLint.Text.Cursor

/-!
# Attempts

A pass over a text addressed by offsets could go wrong in three ways: it could go on
for ever, it could ask for a character that the text does not have, and it could move a
cursor backwards or past its bound.  An attempt is a computation that can do all of this;
so that an attempt comes to a result is a statement with a content.

A pass is a loop, given by what one round of it does.  A round says whether there is
another one, and from which state, or what the result is.  A loop gives what its rounds end
with (`loop_run_eq_some_iff`), and nothing where they go on for ever.  Nothing in the definition
promises that the last round ever comes: that is what `loop_again` and `loop_done` are for,
used along an induction on what is left of the text.
-/

namespace DockerfileLint

/-- What can go wrong in a pass that ends. -/
inductive Fault
  /-- A character was read that the text does not have. -/
  | overrun (reading : Overrun)
  /-- A cursor moved backwards, or past its bound. -/
  | strayed (origin target : Nat)
  /-- A line was looked up that the document does not have. -/
  | noLine (line : Nat)
deriving DecidableEq, Repr

/-- A computation that may not end, and that ends in a fault or a result. -/
abbrev Attempt := ExceptT Fault Option

/-- What a cursor reads is read in an attempt, with its overruns as faults. -/
instance : MonadLift (Except Overrun) Attempt where
  monadLift
    | .ok value => pure value
    | .error overrun => throw (.overrun overrun)

/-- A reading that succeeds does so in an attempt. -/
@[simp] theorem liftM_ok {α : Type} (value : α) :
    (liftM (Except.ok value : Except Overrun α) : Attempt α) = pure value := rfl

/-- Moves a cursor to where an operation has taken it: onward, and within its bound. -/
def Cursor.moveTo (c d : Cursor) : Attempt Cursor :=
  if c.offset ≤ d.offset ∧ d.offset ≤ c.stop then
    return d
  else
    throw (.strayed c.offset d.offset)

section Loops

variable {σ α : Type} {round : σ → Attempt (σ ⊕ α)} {s t : σ} {result result' : Except Fault α}

/-- How the rounds from a state end: one has a result or a fault, or the rounds from the
state that it leads to end so. -/
inductive Ends (round : σ → Attempt (σ ⊕ α)) : σ → Except Fault α → Prop
  | done {s : σ} {a : α} (h : round s = pure (.inr a)) : Ends round s (.ok a)
  | failed {s : σ} {fault : Fault} (h : round s = throw fault) : Ends round s (.error fault)
  | again {s t : σ} {result : Except Fault α} (h : round s = pure (.inl t))
      (hend : Ends round t result) : Ends round s result

/-- A round with another one behind it leaves the end to that. -/
theorem ends_again_iff (h : round s = pure (.inl t)) :
    Ends round s result ↔ Ends round t result := by
  refine ⟨fun hend => ?_, .again h⟩
  cases hend with
  | done hdone => cases h.symm.trans hdone
  | failed hfailed => cases h.symm.trans hfailed
  | again hnext hend =>
      cases h.symm.trans hnext
      exact hend

/-- The rounds from a state do not end in two ways. -/
theorem Ends.unique (h : Ends round s result) (h' : Ends round s result') : result = result' := by
  induction h with
  | done hdone =>
      cases h' with
      | done hdone' => cases hdone.symm.trans hdone'; rfl
      | failed hfailed => cases hdone.symm.trans hfailed
      | again hnext _ => cases hdone.symm.trans hnext
  | failed hfailed =>
      cases h' with
      | done hdone => cases hfailed.symm.trans hdone
      | failed hfailed' => cases hfailed.symm.trans hfailed'; rfl
      | again hnext _ => cases hfailed.symm.trans hnext
  | again hnext _ ih => exact ih ((ends_again_iff hnext).mp h')

/-- What a round does is all that counts. -/
theorem Ends.of_eq (h : round s = round t) (hend : Ends round s result) : Ends round t result := by
  cases hend with
  | done hdone => exact .done (h.symm.trans hdone)
  | failed hfailed => exact .failed (h.symm.trans hfailed)
  | again hnext hend => exact .again (h.symm.trans hnext) hend

open Classical in
/-- Goes from round to round until one has a result. -/
noncomputable def loop (round : σ → Attempt (σ ⊕ α)) (s : σ) : Attempt α :=
  ExceptT.mk (if h : ∃ result, Ends round s result then some h.choose else none)

/-- A loop gives what its rounds end with, and only that. -/
theorem loop_run_eq_some_iff : (loop round s).run = some result ↔ Ends round s result := by
  unfold loop
  rw [ExceptT.run_mk]
  split
  case isTrue h =>
    have hend := h.choose_spec
    exact ⟨fun heq => Option.some.inj heq ▸ hend, fun hend' => congrArg some (hend.unique hend')⟩
  case isFalse h =>
    exact ⟨fun heq => absurd heq nofun, fun hend => absurd ⟨result, hend⟩ h⟩

/-- Loops that end alike from two states come to the same. -/
theorem loop_eq_loop (h : ∀ result, Ends round s result ↔ Ends round t result) :
    loop round s = loop round t := by
  refine ExceptT.ext (Option.ext fun result => ?_)
  exact loop_run_eq_some_iff.trans ((h result).trans loop_run_eq_some_iff.symm)

/-- From states with the same round a loop gives the same. -/
theorem loop_congr (h : round s = round t) : loop round s = loop round t :=
  loop_eq_loop fun _ => ⟨.of_eq h, .of_eq h.symm⟩

/-- A round with another one behind it leaves the result to that. -/
theorem loop_again (h : round s = pure (.inl t)) : loop round s = loop round t :=
  loop_eq_loop fun _ => ends_again_iff h

/-- A round with a result ends the loop. -/
theorem loop_done {a : α} (h : round s = pure (.inr a)) : loop round s = pure a :=
  ExceptT.ext (loop_run_eq_some_iff.mpr (.done h))

/-- The states that the rounds of a loop lead to. -/
inductive Reaches (round : σ → Attempt (σ ⊕ α)) (s : σ) : σ → Prop
  | refl : Reaches round s s
  | again {t u : σ} (h : Reaches round s t) (hround : round t = pure (.inl u)) : Reaches round s u

/-- What every round preserves holds in every state that the rounds lead to. -/
theorem Reaches.invariant (holds : σ → Prop) (hstart : holds s)
    (hround : ∀ t u, holds t → round t = pure (.inl u) → holds u) (h : Reaches round s t) :
    holds t := by
  induction h with
  | refl => exact hstart
  | again _ hnext ih => exact hround _ _ ih hnext

end Loops

end DockerfileLint
