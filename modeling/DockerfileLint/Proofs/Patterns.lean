import DockerfileLint.Text.Layout

/-!
# Patterns with preferences

A pattern is a row of parts.  A part takes one character of a class, or a run of them: the
longest possible or the shortest possible.  Which run is possible depends on the parts
behind, so a part that has taken too much gives characters back, one at a time, and one
that has taken too little takes more.  The first division of the text that is found on this
way is the answer.

* `pieces?_cons_eq_some`: every piece of an answer is of the class of its part, and the
  pieces make up the text;
* `pieces?_one`, `pieces?_longest`: a part that gets what it prefers, and the parts behind
  find an answer;
* `pieces?_shortest_longest`: the two repetitions at the end of a text, of which the first
  one leaves to the second as much as it can.
-/

namespace DockerfileLint

/-- A part of a pattern. -/
inductive PatternPart
  /-- One character of a class. -/
  | one (p : Char → Bool)
  /-- A run of characters of a class, a longer one first. -/
  | longest (p : Char → Bool)
  /-- A run of characters of a class, a shorter one first. -/
  | shortest (p : Char → Bool)

namespace PatternPart

/-- How many characters a part can take of a text, in the order of its preference. -/
def lengths : PatternPart → List Char → List Nat
  | one p, cs => if cs.head?.any p then [1] else []
  | longest p, cs => (List.range ((cs.takeWhile p).length + 1)).reverse
  | shortest p, cs => List.range ((cs.takeWhile p).length + 1)

/-- What a part may take. -/
def Takes : PatternPart → List Char → Prop
  | one p, piece => ∃ c, piece = [c] ∧ p c = true
  | longest p, piece => ∀ c ∈ piece, p c = true
  | shortest p, piece => ∀ c ∈ piece, p c = true

end PatternPart

/-- The first division of a text into pieces for the parts of a pattern: each part tries the
lengths it can have in the order of its preference, and the parts behind find the rest.  No
text is left over. -/
def pieces? : List PatternPart → List Char → Option (List (List Char))
  | [], cs => if cs = [] then some [] else none
  | part :: parts, cs =>
    (part.lengths cs).findSome? fun n => (pieces? parts (cs.drop n)).map (cs.take n :: ·)

variable {p : Char → Bool} {part : PatternPart} {parts : List PatternPart}
  {pieces : List (List Char)} {front back cs : List Char} {c : Char} {n : Nat}

/-! ## What an answer is made of -/

/-- What a run starts with is of its class. -/
theorem mem_take_takeWhile (hn : n ≤ (cs.takeWhile p).length) (hc : c ∈ cs.take n) :
    p c = true := by
  have hstarts : cs.take n <+: cs.takeWhile p := by
    rw [List.prefix_iff_eq_take.mp (List.takeWhile_prefix p)]
    exact List.take_prefix_take_left hn
  have hall := List.all_eq_true.mp (List.all_takeWhile (l := cs) (p := p))
  exact hall c (hstarts.subset hc)

/-- A part takes characters of its class. -/
theorem PatternPart.takes_of_mem_lengths (h : n ∈ part.lengths cs) : part.Takes (cs.take n) := by
  cases part with
  | one p =>
      cases cs with
      | nil => simp [lengths] at h
      | cons c cs =>
          cases hc : p c with
          | false => simp [lengths, hc] at h
          | true =>
              obtain rfl : n = 1 := by simpa [lengths, hc] using h
              exact ⟨c, rfl, hc⟩
  | longest p =>
      have hn : n ≤ (cs.takeWhile p).length := by
        simpa [lengths, Nat.lt_succ_iff] using h
      exact fun c hc => mem_take_takeWhile hn hc
  | shortest p =>
      have hn : n ≤ (cs.takeWhile p).length := by
        simpa [lengths, Nat.lt_succ_iff] using h
      exact fun c hc => mem_take_takeWhile hn hc

/-- An answer starts with a piece of its first part, and goes on with an answer of the
others. -/
theorem pieces?_cons_eq_some (h : pieces? (part :: parts) cs = some pieces) :
    ∃ piece rest more, cs = piece ++ rest ∧ part.Takes piece ∧
      pieces? parts rest = some more ∧ pieces = piece :: more := by
  obtain ⟨n, hn, htry⟩ := List.exists_of_findSome?_eq_some h
  obtain ⟨more, hmore, rfl⟩ := Option.map_eq_some_iff.mp htry
  exact ⟨cs.take n, cs.drop n, more, (List.take_append_drop n cs).symm,
    PatternPart.takes_of_mem_lengths hn, hmore, rfl⟩

/-! ## Answers -/

/-- A part for one character takes it. -/
theorem pieces?_one (hc : p c = true) (h : pieces? parts cs = some pieces) :
    pieces? (.one p :: parts) (c :: cs) = some ([c] :: pieces) := by
  simp [pieces?, PatternPart.lengths, hc, h]

/-- A part for a long run takes all of it, if the parts behind find an answer then. -/
theorem pieces?_longest (hfront : ∀ c ∈ front, p c = true)
    (hback : ∀ c ∈ back.head?, p c = false) (h : pieces? parts back = some pieces) :
    pieces? (.longest p :: parts) (front ++ back) = some (front :: pieces) := by
  have hrun := (takeWhile_of_head? hfront hback).1
  simp [pieces?, PatternPart.lengths, hrun, List.range_succ, h]

/-- At the end of a text nothing but a run of the class is an answer. -/
theorem pieces?_longest_eq_none (h : ¬ ∀ c ∈ cs, p c = true) :
    pieces? [.longest p] cs = none := by
  cases hpieces : pieces? [.longest p] cs with
  | none => rfl
  | some pieces =>
      obtain ⟨piece, rest, more, rfl, htakes, hmore, -⟩ := pieces?_cons_eq_some hpieces
      have hrest : rest = [] := by
        by_cases hrest : rest = []
        · exact hrest
        · simp [pieces?, hrest] at hmore
      rw [hrest, List.append_nil] at h
      exact absurd htakes h

/-- Of two runs at the end of a text the first one, if it is for a short run, leaves to the
second all that is of its class. -/
theorem pieces?_shortest_longest {q : Char → Bool} (hall : ∀ c ∈ front ++ back, q c = true)
    (hfront : ∀ c ∈ front.getLast?, p c = false) (hback : ∀ c ∈ back, p c = true) :
    pieces? [.shortest q, .longest p] (front ++ back) = some [front, back] := by
  have hrun : (front ++ back).takeWhile q = front ++ back := by
    have hwhole : (front ++ back ++ []).takeWhile q = front ++ back ++ [].takeWhile q :=
      List.takeWhile_append_of_pos hall
    simpa using hwhole
  have hlength : (front ++ back).length + 1 = front.length + (back.length + 1) := by
    rw [List.length_append, Nat.add_assoc]
  have hlater : pieces? [.longest p] back = some [back] := by
    have hend : pieces? [.longest p] (back ++ []) = some [back] :=
      pieces?_longest hback (by simp) rfl
    rwa [List.append_nil] at hend
  -- As long as a character of the first run is left, the second part has no answer.
  have hearlier : (List.range front.length).findSome? (fun n =>
      (pieces? [.longest p] ((front ++ back).drop n)).map ((front ++ back).take n :: ·)) =
        none := by
    rw [List.findSome?_eq_none_iff]
    intro n hn
    have hlt := List.mem_range.mp hn
    rw [pieces?_longest_eq_none, Option.map_none]
    intro hclass
    obtain ⟨c, hc⟩ : ∃ c, front.getLast? = some c :=
      ⟨_, List.getLast?_eq_some_getLast (List.ne_nil_of_length_pos (by omega))⟩
    have hmem : c ∈ (front ++ back).drop n := by
      rw [List.drop_append_of_le_length (Nat.le_of_lt hlt)]
      apply List.mem_append_left
      apply List.mem_of_getLast?
      rw [List.getLast?_drop, if_neg (Nat.not_le.mpr hlt), hc]
    have hlast := hfront c hc
    rw [hclass c hmem] at hlast
    cases hlast
  rw [pieces?]
  simp only [PatternPart.lengths, hrun, hlength]
  rw [List.range_add, List.findSome?_append, hearlier, List.range_succ_eq_map]
  simp [hlater]

end DockerfileLint
