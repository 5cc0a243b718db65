import DockerfileLint.Text.Integer
import DockerfileLint.Text.Layout
import Mathlib.Data.Nat.Digits.Defs

/-!
# Which texts are integers

An integer is white space, a sign or none, decimal digits with single underscores between
them, and white space.  A reader trims first and then takes the sign off, so it has to be said
that neither takes away too much: a digit is no white space and no sign, and the digits of an
integer start and end with a digit.

* `WritesDigits`: digits and the underscores between them;
* `WritesInteger`: the grammar of integers;
* `digitValues?_true_iff`: what the reader of digits takes;
* `integerValue?_eq_some_iff`: what the reader of integers takes.
-/

namespace DockerfileLint

variable {cs front back : List Char} {c : Char} {values : List Nat} {digit : Nat} {n : Int}

/-! ## Digits -/

/-- A text is decimal digits of these values, with single underscores between them at most. -/
inductive WritesDigits : List Char → List Nat → Prop
  | last {c : Char} {digit : Nat} (h : Unicode.decimalValue? c = some digit) :
      WritesDigits [c] [digit]
  | digit {c : Char} {digit : Nat} {cs : List Char} {values : List Nat}
      (h : Unicode.decimalValue? c = some digit) (more : WritesDigits cs values) :
      WritesDigits (c :: cs) (digit :: values)
  | underscore {c : Char} {digit : Nat} {cs : List Char} {values : List Nat}
      (h : Unicode.decimalValue? c = some digit) (more : WritesDigits cs values) :
      WritesDigits (c :: '_' :: cs) (digit :: values)

/-- A text is the digits of a number, not too many of them. -/
def WritesNatural (cs : List Char) (n : Nat) : Prop :=
  ∃ values, WritesDigits cs values ∧ values.length ≤ 4300 ∧ n = Nat.ofDigits 10 values.reverse

/-- A text is a sign or none and the digits of a number. -/
inductive WritesSigned : List Char → Int → Prop
  | plain {cs : List Char} {n : Nat} (h : WritesNatural cs n) : WritesSigned cs n
  | plus {cs : List Char} {n : Nat} (h : WritesNatural cs n) : WritesSigned ('+' :: cs) n
  | minus {cs : List Char} {n : Nat} (h : WritesNatural cs n) : WritesSigned ('-' :: cs) (-n)

/-- A text is an integer with white space around it. -/
def WritesInteger (cs : List Char) (n : Int) : Prop :=
  ∃ front core back : List Char, cs = front ++ core ++ back ∧
    (∀ c ∈ front, isWhiteSpace c = true) ∧ (∀ c ∈ back, isWhiteSpace c = true) ∧
    WritesSigned core n

/-- A digit lies at most nine places behind a zero. -/
theorem decimalValue?_eq_some (h : Unicode.decimalValue? c = some digit) :
    ∃ first ∈ Unicode.decimalZeros, digit < 10 ∧ c.toNat = first + digit := by
  obtain ⟨first, hfind, rfl⟩ := Option.map_eq_some_iff.mp h
  have hplace := List.find?_some hfind
  simp only [Bool.and_eq_true, decide_eq_true_eq] at hplace
  exact ⟨first, List.mem_of_find?_eq_some hfind, by omega, by omega⟩

/-- A digit is no white space. -/
theorem isWhiteSpace_of_decimalValue? (h : Unicode.decimalValue? c = some digit) :
    isWhiteSpace c = false := by
  obtain ⟨first, hfirst, hdigit, hc⟩ := decimalValue?_eq_some h
  have htable : Unicode.decimalZeros.all (fun first => (List.range 10).all fun digit =>
      !isWhiteSpace (Char.ofNat (first + digit))) = true := by
    decide +kernel
  have hspace := List.all_eq_true.mp (List.all_eq_true.mp htable first hfirst) digit
    (List.mem_range.mpr hdigit)
  rwa [← hc, Char.ofNat_toNat, Bool.not_eq_true'] at hspace

/-- An underscore is no digit. -/
theorem decimalValue?_underscore : Unicode.decimalValue? '_' = none := by
  decide +kernel

/-- The digits of an integer start with a digit. -/
theorem WritesDigits.head (h : WritesDigits cs values) :
    ∃ c rest digit, cs = c :: rest ∧ Unicode.decimalValue? c = some digit := by
  cases h with
  | last h => exact ⟨_, _, _, rfl, h⟩
  | digit h _ => exact ⟨_, _, _, rfl, h⟩
  | underscore h _ => exact ⟨_, _, _, rfl, h⟩

/-- They end with one. -/
theorem WritesDigits.getLast? (h : WritesDigits cs values) :
    ∃ c digit, cs.getLast? = some c ∧ Unicode.decimalValue? c = some digit := by
  induction h with
  | last h => exact ⟨_, _, rfl, h⟩
  | @digit _ _ cs _ _ more ih =>
      obtain ⟨c, digit, hlast, hc⟩ := ih
      obtain ⟨d, rest, -, rfl, -⟩ := more.head
      exact ⟨c, digit, by rwa [List.getLast?_cons_cons], hc⟩
  | @underscore _ _ cs _ _ more ih =>
      obtain ⟨c, digit, hlast, hc⟩ := ih
      obtain ⟨d, rest, -, rfl, -⟩ := more.head
      exact ⟨c, digit, by rwa [List.getLast?_cons_cons, List.getLast?_cons_cons], hc⟩

/-- The reader takes digits, and where none has to come next also nothing, or an underscore
and digits. -/
theorem digitValues?_iff (pending : Bool) (cs : List Char) (values : List Nat) :
    digitValues? pending cs = some values ↔
      WritesDigits cs values ∨
        pending = false ∧ (cs = [] ∧ values = [] ∨
          ∃ rest, cs = '_' :: rest ∧ WritesDigits rest values) := by
  induction cs generalizing pending values with
  | nil =>
      have hnot : ¬ WritesDigits [] values := by
        intro h
        cases h
      cases pending <;> simp [digitValues?, hnot, eq_comm]
  | cons c cs ih =>
      unfold digitValues?
      cases hc : Unicode.decimalValue? c with
      | some digit =>
          simp only [Option.map_eq_some_iff, ih, true_and]
          constructor
          · rintro ⟨values, h | ⟨rfl, rfl⟩ | ⟨rest, rfl, h⟩, rfl⟩
            · exact .inl (.digit hc h)
            · exact .inl (.last hc)
            · exact .inl (.underscore hc h)
          · rintro (h | ⟨-, ⟨hnil, -⟩ | ⟨rest, hunderscore, -⟩⟩)
            · cases h with
              | last h =>
                  cases hc.symm.trans h
                  exact ⟨[], .inr (.inl ⟨rfl, rfl⟩), rfl⟩
              | digit h more =>
                  cases hc.symm.trans h
                  exact ⟨_, .inl more, rfl⟩
              | underscore h more =>
                  cases hc.symm.trans h
                  exact ⟨_, .inr (.inr ⟨_, rfl, more⟩), rfl⟩
            · cases hnil
            · cases hunderscore
              rw [decimalValue?_underscore] at hc
              cases hc
      | none =>
          have hnot : ¬ WritesDigits (c :: cs) values := by
            intro h
            obtain ⟨d, rest, digit, heq, hdigit⟩ := h.head
            cases heq
            rw [hc] at hdigit
            cases hdigit
          by_cases hunderscore : c = '_' ∧ pending = false
          · obtain ⟨rfl, rfl⟩ := hunderscore
            simp [ih, hnot]
          · simp only [if_neg hunderscore, hnot, false_or]
            constructor
            · intro h
              cases h
            · rintro ⟨hpending, ⟨hnil, -⟩ | ⟨rest, heq, -⟩⟩
              · cases hnil
              · cases heq
                exact absurd ⟨rfl, hpending⟩ hunderscore

/-- Where a digit has to come next the reader takes digits only. -/
theorem digitValues?_true_iff : digitValues? true cs = some values ↔ WritesDigits cs values := by
  simp [digitValues?_iff]

/-- The number that digits write has the digits of its place values. -/
theorem numberOf_eq_ofDigits (values : List Nat) :
    numberOf values = Nat.ofDigits 10 values.reverse := by
  unfold numberOf
  rw [Nat.ofDigits_eq_foldr, List.foldr_reverse]
  simp [Nat.mul_comm, Nat.add_comm]

/-- The reader of numbers takes the digits of a number. -/
theorem naturalValue?_iff {n : Nat} : naturalValue? cs = some n ↔ WritesNatural cs n := by
  have hmax : maxIntegerDigits = 4300 := rfl
  unfold naturalValue? WritesNatural
  rw [Option.bind_eq_some_iff]
  constructor
  · rintro ⟨values, hvalues, hn⟩
    split at hn
    · cases hn
    · cases hn
      exact ⟨values, digitValues?_true_iff.mp hvalues, by omega, numberOf_eq_ofDigits values⟩
  · rintro ⟨values, hvalues, hlength, rfl⟩
    refine ⟨values, digitValues?_true_iff.mpr hvalues, ?_⟩
    rw [if_neg (by omega), numberOf_eq_ofDigits]

/-- A sign is neither a digit nor white space. -/
theorem decimalValue?_sign {sign : Char} (h : sign = '-' ∨ sign = '+') :
    Unicode.decimalValue? sign = none ∧ isWhiteSpace sign = false := by
  rcases h with rfl | rfl <;> decide +kernel

/-! ## Integers -/

/-- What is trimmed off both ends of a text stands around what is left. -/
theorem exists_eq_trimBoth (p : Char → Bool) (cs : List Char) :
    ∃ front back, cs = front ++ trimBoth p cs ++ back ∧ (∀ c ∈ front, p c = true) ∧
      ∀ c ∈ back, p c = true := by
  obtain ⟨back, hback, hall⟩ := exists_eq_trimEnd_append p (cs.dropWhile p)
  refine ⟨cs.takeWhile p, back, ?_, List.all_eq_true.mp List.all_takeWhile, hall⟩
  have hcs := List.takeWhile_append_dropWhile (p := p) (l := cs)
  show cs = cs.takeWhile p ++ trimEnd p (cs.dropWhile p) ++ back
  rw [List.append_assoc, ← hback, hcs]

/-- A text whose ends are not trimmed is what is left when both ends are. -/
theorem trimBoth_append {p : Char → Bool} {core : List Char} (hfront : ∀ c ∈ front, p c = true)
    (hback : ∀ c ∈ back, p c = true) (hhead : ∃ c rest, core = c :: rest ∧ p c = false)
    (hlast : ∃ c, core.getLast? = some c ∧ p c = false) :
    trimBoth p (front ++ core ++ back) = core := by
  obtain ⟨c, rest, rfl, hc⟩ := hhead
  obtain ⟨d, hlast, hd⟩ := hlast
  obtain ⟨init, hinit⟩ := List.getLast?_eq_some_iff.mp hlast
  have hdrop : (front ++ (c :: rest) ++ back).dropWhile p = (c :: rest) ++ back := by
    rw [List.append_assoc, List.dropWhile_append_of_pos hfront]
    simp [hc]
  show trimEnd p _ = _
  rw [hdrop, trimEnd_append _ hback, hinit]
  simp [trimEnd, hd]

/-- Digits start with no sign. -/
theorem WritesNatural.head_ne_sign {n : Nat} {sign : Char} (hsign : sign = '-' ∨ sign = '+') :
    ¬ WritesNatural (sign :: cs) n := by
  rintro ⟨values, hdigits, -⟩
  obtain ⟨c, rest, digit, heq, hc⟩ := hdigits.head
  cases heq
  rw [(decimalValue?_sign hsign).1] at hc
  cases hc

/-- What the reader behind the white space takes. -/
theorem signedValue?_iff : signedValue? cs = some n ↔ WritesSigned cs n := by
  constructor
  · intro h
    unfold signedValue? at h
    split at h
    all_goals obtain ⟨m, hm, rfl⟩ := Option.map_eq_some_iff.mp h
    · exact .minus (naturalValue?_iff.mp hm)
    · exact .plus (naturalValue?_iff.mp hm)
    · exact .plain (naturalValue?_iff.mp hm)
  · intro h
    cases h with
    | plus h => simp [signedValue?, naturalValue?_iff.mpr h]
    | minus h => simp [signedValue?, naturalValue?_iff.mpr h]
    | plain h =>
        unfold signedValue?
        split
        · exact absurd h (WritesNatural.head_ne_sign (.inl rfl))
        · exact absurd h (WritesNatural.head_ne_sign (.inr rfl))
        · simp [naturalValue?_iff.mpr h]

/-- A signed number starts and ends with a character that is no white space. -/
theorem WritesSigned.ends (h : WritesSigned cs n) :
    (∃ c rest, cs = c :: rest ∧ isWhiteSpace c = false) ∧
      ∃ c, cs.getLast? = some c ∧ isWhiteSpace c = false := by
  have hplain : ∀ {cs n}, WritesNatural cs n →
      (∃ c rest, cs = c :: rest ∧ isWhiteSpace c = false) ∧
        ∃ c, cs.getLast? = some c ∧ isWhiteSpace c = false := by
    rintro cs n ⟨values, hdigits, -⟩
    obtain ⟨c, rest, digit, hcs, hc⟩ := hdigits.head
    obtain ⟨d, digit, hlast, hd⟩ := hdigits.getLast?
    exact ⟨⟨c, rest, hcs, isWhiteSpace_of_decimalValue? hc⟩,
      ⟨d, hlast, isWhiteSpace_of_decimalValue? hd⟩⟩
  cases h with
  | plain h => exact hplain h
  | plus h =>
      obtain ⟨⟨c, rest, rfl, -⟩, d, hlast, hd⟩ := hplain h
      exact ⟨⟨'+', _, rfl, (decimalValue?_sign (.inr rfl)).2⟩,
        d, by rwa [List.getLast?_cons_cons], hd⟩
  | minus h =>
      obtain ⟨⟨c, rest, rfl, -⟩, d, hlast, hd⟩ := hplain h
      exact ⟨⟨'-', _, rfl, (decimalValue?_sign (.inl rfl)).2⟩,
        d, by rwa [List.getLast?_cons_cons], hd⟩

/-- **What is read as an integer.**  A text is read as an integer if and only if it is white
space, a sign or none, not too many digits with single underscores between them, and white
space, and the digits write its size. -/
theorem integerValue?_eq_some_iff : integerValue? cs = some n ↔ WritesInteger cs n := by
  unfold integerValue?
  rw [signedValue?_iff]
  constructor
  · intro h
    obtain ⟨front, back, hcs, hfront, hback⟩ := exists_eq_trimBoth isWhiteSpace cs
    exact ⟨front, _, back, hcs, hfront, hback, h⟩
  · rintro ⟨front, core, back, rfl, hfront, hback, h⟩
    rwa [trimBoth_append hfront hback h.ends.1 h.ends.2]

end DockerfileLint
