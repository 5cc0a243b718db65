import DockerfileLint.Proofs.Movement
import DockerfileLint.Unicode.Casing

/-!
# What upper case makes of a text

Case mapping makes letters out of letters.  The only characters of ASCII that come out of
it where they did not go in are capital letters, so what lays a text out comes out of
upper case where it stood before and nowhere else.  The two tables are looked at once, for
the code points that their entries lead to.

* `eq_of_mem_upperChar`: a character of ASCII that is no letter comes from itself;
* `isBreak_eq_false_of_mem_upper`: a word without line breaks has none in upper case.
-/

namespace DockerfileLint.Unicode

variable {c d : Char}

/-- A code point beyond ASCII, or that of a capital letter. -/
def IsCasedPoint (n : Nat) : Prop :=
  0x80 ≤ n ∨ (0x41 ≤ n ∧ n ≤ 0x5A)

instance (n : Nat) : Decidable (IsCasedPoint n) :=
  inferInstanceAs (Decidable (_ ∨ _))

/-- The expansions of upper case hold no other characters. -/
theorem upperExpansions_cased :
    ∀ entry ∈ upperExpansions, ∀ n ∈ entry.2, IsCasedPoint n := by
  decide +kernel

/-- A run of upper case that lies beyond ASCII leads beyond ASCII, or is a single
character and leads to a capital letter. -/
theorem upperRuns_cased :
    ∀ run ∈ upperRuns, run.last < 0x80 ∨ 0x80 ≤ run.first + run.shift ∨
      (run.first = run.last ∧ 0x41 ≤ run.first + run.shift ∧ run.first + run.shift ≤ 0x5A) := by
  decide +kernel

/-- Beyond ASCII a run leads to no other character. -/
theorem CaseRun.cased_shift {run : CaseRun} (hrun : run ∈ upperRuns)
    (hc : run.contains c = true) (hbeyond : 0x80 ≤ c.toNat) :
    IsCasedPoint (c.toNat + run.shift).toNat := by
  simp only [CaseRun.contains, Bool.and_eq_true, decide_eq_true_eq] at hc
  obtain ⟨⟨hfirst, hlast⟩, -⟩ := hc
  unfold IsCasedPoint
  rcases upperRuns_cased run hrun with hlow | hhigh | ⟨hone, hupper⟩
  · omega
  · omega
  · omega

/-- A number that is no code point gives the first character of all. -/
theorem eq_zero_or_toNat_ofNat (n : Nat) : Char.ofNat n = '\x00' ∨ (Char.ofNat n).toNat = n := by
  by_cases h : n.isValidChar
  · refine .inr ?_
    unfold Char.ofNat
    rw [dif_pos h]
    rfl
  · refine .inl ?_
    unfold Char.ofNat
    rw [dif_neg h]
    rfl

/-- Within ASCII upper case changes small letters only, to capital ones. -/
theorem toUpper_cased (c : Char) : c.toUpper = c ∨ IsCasedPoint c.toUpper.toNat := by
  by_cases h : 'a'.val ≤ c.val ∧ c.val ≤ 'z'.val
  · refine .inr (.inr ?_)
    have hvalue : c.toUpper.toNat = (c.val + ('A'.val - 'a'.val)).toNat := by
      unfold Char.toUpper
      rw [dif_pos h]
      rfl
    simp only [UInt32.le_iff_toNat_le] at h
    have hlow : 'a'.val.toNat = 97 := rfl
    have hhigh : 'z'.val.toNat = 122 := rfl
    have hdown : ('A'.val - 'a'.val).toNat = 4294967264 := rfl
    rw [hvalue, UInt32.toNat_add, hdown]
    omega
  · refine .inl ?_
    unfold Char.toUpper
    rw [dif_neg h]

/-- What comes out of upper case beyond ASCII. -/
theorem cased_of_mem_upperChar (hd : d ∈ upperChar c) (hbeyond : 0x80 ≤ c.toNat) :
    d = '\x00' ∨ IsCasedPoint d.toNat := by
  unfold upperChar at hd
  rw [if_neg (Nat.not_lt.mpr hbeyond)] at hd
  split at hd
  · rename_i expansion hlookup
    obtain ⟨n, hn, rfl⟩ := List.mem_map.mp hd
    obtain ⟨before, after, htable, -⟩ := List.lookup_eq_some_iff.mp hlookup
    have hentry : (c.toNat, expansion) ∈ upperExpansions := by
      rw [htable]
      simp
    rcases eq_zero_or_toNat_ofNat n with hzero | hvalid
    · exact .inl hzero
    · refine .inr ?_
      rw [hvalid]
      exact upperExpansions_cased _ hentry n hn
  · obtain rfl := List.mem_singleton.mp hd
    unfold mapCase
    split
    · rename_i run hrun
      have hmem := List.mem_of_find?_eq_some hrun
      have hcontains : run.contains c = true := by
        simpa using List.find?_some hrun
      have hcased := CaseRun.cased_shift hmem hcontains hbeyond
      rcases eq_zero_or_toNat_ofNat (c.toNat + run.shift).toNat with hzero | hvalid
      · exact .inl hzero
      · refine .inr ?_
        unfold CaseRun.map
        rw [hvalid]
        exact hcased
    · exact .inr (.inl hbeyond)

/-- **Upper case and ASCII.**  A character of ASCII that is no capital letter comes out of
upper case only where it went in. -/
theorem eq_of_mem_upperChar (hd : d ∈ upperChar c) (hzero : d ≠ '\x00')
    (hpoint : ¬ IsCasedPoint d.toNat) : c = d := by
  by_cases hc : c.toNat < 0x80
  · unfold upperChar at hd
    rw [if_pos hc] at hd
    obtain rfl := List.mem_singleton.mp hd
    rcases toUpper_cased c with hsame | hcased
    · exact hsame.symm
    · exact absurd hcased hpoint
  · rcases cased_of_mem_upperChar hd (Nat.le_of_not_lt hc) with heq | hcased
    · exact absurd heq hzero
    · exact absurd hcased hpoint

/-- A line break comes out of upper case only where it went in. -/
theorem isBreak_of_mem_upperChar (hd : d ∈ upperChar c) (hbreak : isBreak d = true) :
    isBreak c = true := by
  rcases eq_of_isBreak hbreak with rfl | rfl
  · rw [eq_of_mem_upperChar hd (by decide) (by decide)]
    rfl
  · rw [eq_of_mem_upperChar hd (by decide) (by decide)]
    rfl

/-- A word without line breaks has none in upper case. -/
theorem isBreak_eq_false_of_mem_upper {s : String} (h : ∀ c ∈ s.toList, isBreak c = false) :
    ∀ d ∈ (upper s).toList, isBreak d = false := by
  intro d hd
  unfold upper at hd
  rw [String.toList_ofList] at hd
  obtain ⟨c, hc, hd⟩ := List.mem_flatMap.mp hd
  cases hbreak : isBreak d with
  | false => rfl
  | true =>
      have hc' := isBreak_of_mem_upperChar hd hbreak
      rw [h c hc] at hc'
      cases hc'

end DockerfileLint.Unicode
