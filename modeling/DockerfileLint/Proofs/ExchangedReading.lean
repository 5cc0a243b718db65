import DockerfileLint.Document
import DockerfileLint.Proofs.ArrayBody
import DockerfileLint.Proofs.Tokenizer
import DockerfileLint.Proofs.UpperCase

/-!
# Exchanging the two escape characters

A backslash and a backtick can be the escape character, and neither of them is anything
else to a reader.  Every backslash of a text is written as a backtick here and every
backtick as a backslash.  A reader under the other escape character then goes the same
way: what it takes is exchanged as well, and the offsets are the same.

* `apply_exchange`: what tells the two characters not apart tells no others apart;
* `readWhile_exchanged`, `readToken_exchanged`: the movements along a text;
* `argumentsFrom_exchanged`, `checkArrayBody_exchanged`: arguments and lists;
* `upper_exchanged`: words in upper case.
-/

namespace DockerfileLint

variable {esc : Escape} {c d : Char} {cs : List Char}

/-! ## Characters -/

/-- The other escape character for either of the two, and any other character itself. -/
def exchange (c : Char) : Char :=
  if c = '\\' then '`' else if c = '`' then '\\' else c

/-- A text with its backslashes and backticks exchanged. -/
def exchanged (cs : List Char) : List Char :=
  cs.map exchange

/-- A word with its backslashes and backticks exchanged. -/
def exchangedWord (s : String) : String :=
  String.ofList (exchanged s.toList)

/-- A word that an exchange leaves alone. -/
def IsPlain (s : String) : Prop :=
  '\\' ∉ s.toList ∧ '`' ∉ s.toList

instance (s : String) : Decidable (IsPlain s) :=
  inferInstanceAs (Decidable (_ ∧ _))

/-- Any other character stays what it is. -/
theorem exchange_of_ne (hslash : c ≠ '\\') (htick : c ≠ '`') : exchange c = c := by
  unfold exchange
  rw [if_neg hslash, if_neg htick]

/-- A function that is the same on both characters does not see the exchange. -/
theorem apply_exchange {α : Type} (p : Char → α) (h : p '\\' = p '`') (c : Char) :
    p (exchange c) = p c := by
  by_cases hslash : c = '\\'
  · subst hslash
    exact h.symm
  · by_cases htick : c = '`'
    · subst htick
      exact h
    · rw [exchange_of_ne hslash htick]

/-- Exchanged twice a character is what it was. -/
@[simp] theorem exchange_exchange (c : Char) : exchange (exchange c) = c := by
  by_cases hslash : c = '\\'
  · subst hslash
    rfl
  · by_cases htick : c = '`'
    · subst htick
      rfl
    · rw [exchange_of_ne hslash htick, exchange_of_ne hslash htick]

/-- Different characters stay different. -/
theorem exchange_inj : exchange c = exchange d ↔ c = d := by
  constructor
  · intro h
    rw [← exchange_exchange c, h, exchange_exchange]
  · rintro rfl
    rfl

/-- No other character comes out of an exchange where it did not go in. -/
theorem exchange_eq_iff (hslash : d ≠ '\\') (htick : d ≠ '`') : exchange c = d ↔ c = d := by
  conv => lhs; rw [← exchange_of_ne hslash htick]
  exact exchange_inj

/-- A number sign stays what it is. -/
@[simp] theorem exchange_mark : exchange '#' = '#' := rfl

/-- Nothing else becomes one. -/
theorem exchange_ne_mark (h : c ≠ '#') : exchange c ≠ '#' := by
  rwa [ne_eq, exchange_eq_iff (by decide) (by decide)]

/-- Blanks stay blanks. -/
@[simp] theorem isBlank_exchange (c : Char) : isBlank (exchange c) = isBlank c :=
  apply_exchange isBlank rfl c

/-- Breaks stay breaks. -/
@[simp] theorem isBreak_exchange (c : Char) : isBreak (exchange c) = isBreak c :=
  apply_exchange isBreak rfl c

/-- White space stays white space. -/
@[simp] theorem isSpace_exchange (c : Char) : isSpace (exchange c) = isSpace c :=
  apply_exchange isSpace rfl c

/-- An escape character stays one under the other escape character. -/
theorem escape_exchange : esc.map exchange = some (exchange c) ↔ esc = some c := by
  cases esc with
  | none => simp
  | some e => simp [exchange_inj]

/-! ## Texts -/

/-- In an empty text there is nothing to exchange. -/
@[simp] theorem exchanged_nil : exchanged [] = [] := rfl

/-- A text is exchanged character by character. -/
@[simp] theorem exchanged_cons (c : Char) (cs : List Char) :
    exchanged (c :: cs) = exchange c :: exchanged cs := rfl

/-- The length stays the same. -/
@[simp] theorem exchanged_length (cs : List Char) : (exchanged cs).length = cs.length :=
  List.length_map exchange

/-- A text without the two characters stays what it is. -/
theorem exchanged_of_not_mem (hslash : '\\' ∉ cs) (htick : '`' ∉ cs) : exchanged cs = cs := by
  have hfixed : ∀ c ∈ cs, exchange c = c := by
    intro c hc
    refine exchange_of_ne ?_ ?_
    · rintro rfl
      exact hslash hc
    · rintro rfl
      exact htick hc
  exact (List.map_congr_left hfixed).trans (List.map_id' cs)

/-- What a text starts with is exchanged with it. -/
theorem exchanged_take (n : Nat) (cs : List Char) : exchanged (cs.take n) = (exchanged cs).take n :=
  List.map_take

/-- So is what it ends with. -/
theorem exchanged_drop (n : Nat) (cs : List Char) : exchanged (cs.drop n) = (exchanged cs).drop n :=
  List.map_drop

/-- A function that does not see the exchange of characters does not see that of texts. -/
theorem comp_exchange {p : Char → Bool} (hp : p '\\' = p '`') : p ∘ exchange = p :=
  funext (apply_exchange p hp)

/-- So is its longest part of one kind, if the kind does not tell the two characters apart. -/
theorem takeWhile_exchanged {p : Char → Bool} (hp : p '\\' = p '`') (cs : List Char) :
    (exchanged cs).takeWhile p = exchanged (cs.takeWhile p) := by
  unfold exchanged
  rw [List.takeWhile_map, comp_exchange hp]

/-- So is what stands behind that part. -/
theorem dropWhile_exchanged {p : Char → Bool} (hp : p '\\' = p '`') (cs : List Char) :
    (exchanged cs).dropWhile p = exchanged (cs.dropWhile p) := by
  unfold exchanged
  rw [List.dropWhile_map, comp_exchange hp]

/-- So is what is left when the end is trimmed. -/
theorem trimEnd_exchanged {p : Char → Bool} (hp : p '\\' = p '`') (cs : List Char) :
    trimEnd p (exchanged cs) = exchanged (trimEnd p cs) := by
  unfold trimEnd
  rw [exchanged, ← List.map_reverse, ← exchanged, dropWhile_exchanged hp]
  exact List.map_reverse.symm

/-- So is its first line. -/
theorem firstLine_exchanged (cs : List Char) :
    firstLine (exchanged cs) = exchanged (firstLine cs) :=
  takeWhile_exchanged rfl cs

/-- So is what stands behind its first line. -/
theorem afterFirstLine_exchanged (cs : List Char) :
    afterFirstLine (exchanged cs) = exchanged (afterFirstLine cs) :=
  dropWhile_exchanged rfl cs

/-- Its width stays the same. -/
theorem utf16Length_exchanged (cs : List Char) : utf16Length (exchanged cs) = utf16Length cs := by
  induction cs with
  | nil => rfl
  | cons c cs ih =>
      have hwidth : utf16Width (exchange c) = utf16Width c := apply_exchange utf16Width rfl c
      show utf16Width (exchange c) + utf16Length (exchanged cs) = utf16Width c + utf16Length cs
      rw [hwidth, ih]

/-! ## Line breaks and continuations -/

/-- A line break is no escape character. -/
theorem lineBreak?_exchanged (cs : List Char) :
    lineBreak? (exchanged cs) = (lineBreak? cs).map fun (n, rest) => (n, exchanged rest) := by
  cases cs with
  | nil => rfl
  | cons c cs =>
      cases hc : isBreak c with
      | false =>
          rw [lineBreak?_eq_none hc, exchanged_cons, lineBreak?_eq_none (by simpa using hc)]
          rfl
      | true =>
          obtain ⟨⟨n, rest⟩, hbreak⟩ := Option.isSome_iff_exists.mp (lineBreak?_isSome cs hc)
          rw [hbreak]
          rcases lineBreak?_cases hbreak with ⟨rfl, heq⟩ | ⟨rfl, heq, hhead⟩ | ⟨rfl, heq⟩
          · rw [heq]
            rfl
          · rw [heq]
            apply lineBreak?_return
            cases rest with
            | nil => simp
            | cons d rest => simpa [exchange_eq_iff] using hhead
          · rw [heq]
            rfl

/-- A continuation stays one under the other escape character. -/
theorem continuation?_exchanged (esc : Escape) (cs : List Char) :
    continuation? (esc.map exchange) (exchanged cs) =
      (continuation? esc cs).map fun (n, rest) => (n, exchanged rest) := by
  cases cs with
  | nil => rfl
  | cons c cs =>
      by_cases hesc : esc = some c
      · subst hesc
        simp [continuation?, lineBreak?_exchanged, Function.comp_def]
      · have hesc' : ¬esc.map exchange = some (exchange c) := fun h => hesc (escape_exchange.mp h)
        rw [exchanged_cons, continuation?_cons_of_ne _ hesc, continuation?_cons_of_ne _ hesc']
        rfl

/-- A continuation stays one under the exchanged escape character. -/
theorem continuation?_exchanged_of_some {n : Nat} {rest : List Char}
    (h : continuation? esc cs = some (n, rest)) :
    continuation? (esc.map exchange) (exchanged cs) = some (n, exchanged rest) := by
  rw [continuation?_exchanged, h]
  rfl

/-- No other continuation comes up. -/
theorem continuation?_exchanged_of_none (h : continuation? esc (c :: cs) = none) :
    continuation? (esc.map exchange) (exchange c :: exchanged cs) = none := by
  rw [← exchanged_cons, continuation?_exchanged, h]
  rfl

/-! ## Movements -/

/-- The reading of an exchanged text. -/
def Reading.exchanged (r : Reading) : Reading where
  taken := r.taken.map fun p => (exchange p.1, p.2)
  stop := r.stop
  rest := DockerfileLint.exchanged r.rest

namespace Reading

/-- A reading stops where it did. -/
@[simp] theorem exchanged_stop (r : Reading) : r.exchanged.stop = r.stop := rfl

/-- What it leaves is exchanged. -/
@[simp] theorem exchanged_rest (r : Reading) :
    r.exchanged.rest = DockerfileLint.exchanged r.rest := rfl

/-- What it took is exchanged. -/
theorem exchanged_text (r : Reading) : r.exchanged.text = exchangedWord r.text := by
  simp [exchanged, text, exchangedWord, DockerfileLint.exchanged, Function.comp_def]

/-- It takes nothing if it took nothing. -/
theorem exchanged_taken_eq_nil (r : Reading) : r.exchanged.taken = [] ↔ r.taken = [] := by
  simp [exchanged]

/-- It reaches as far as it did. -/
theorem exchanged_reach (r : Reading) (start : Nat) : r.exchanged.reach start = r.reach start := by
  cases hlast : r.taken.getLast? with
  | none => simp [exchanged, reach, hlast]
  | some p => simp [exchanged, reach, hlast]

end Reading

/-- A movement that does not tell the two characters apart is exchanged with the text. -/
theorem readWhile_exchanged (esc : Escape) {keep : Char → Bool} (hkeep : keep '\\' = keep '`')
    (off : Nat) (cs : List Char) :
    readWhile (esc.map exchange) keep off (exchanged cs) =
      (readWhile esc keep off cs).exchanged := by
  induction off, cs using splicing_induction esc with
  | splice off cs n rest h ih =>
      rw [readWhile_of_continuation? h,
        readWhile_of_continuation? (continuation?_exchanged_of_some h), ih]
  | nil off => simp [Reading.exchanged]
  | char off c cs h ih =>
      have h' := continuation?_exchanged_of_none h
      rw [exchanged_cons]
      cases hk : keep c with
      | true =>
          have hk' : keep (exchange c) = true := (apply_exchange keep hkeep c).trans hk
          rw [readWhile_cons_of_keep h hk, readWhile_cons_of_keep h' hk', ih]
          rfl
      | false =>
          have hk' : keep (exchange c) = false := (apply_exchange keep hkeep c).trans hk
          rw [readWhile_cons_of_not_keep h hk, readWhile_cons_of_not_keep h' hk']
          rfl

/-- A word is exchanged with the text. -/
theorem readWord_exchanged (esc : Escape) (off : Nat) (cs : List Char) :
    readWord (esc.map exchange) off (exchanged cs) = (readWord esc off cs).exchanged :=
  readWhile_exchanged esc rfl off cs

/-- There is a word where there was one. -/
theorem readWord_exchanged_taken (esc : Escape) (off : Nat) (cs : List Char) :
    (readWord (esc.map exchange) off (exchanged cs)).taken = [] ↔
      (readWord esc off cs).taken = [] := by
  rw [readWord_exchanged, Reading.exchanged_taken_eq_nil]

/-- A line is exchanged with the text. -/
theorem readLine_exchanged (esc : Escape) (off : Nat) (cs : List Char) :
    readLine (esc.map exchange) off (exchanged cs) = (readLine esc off cs).exchanged :=
  readWhile_exchanged esc rfl off cs

/-- A gap is exchanged with the text. -/
theorem readGap_exchanged (esc : Escape) (off : Nat) (cs : List Char) :
    readGap (esc.map exchange) off (exchanged cs) = (readGap esc off cs).exchanged :=
  readWhile_exchanged esc rfl off cs

/-! ## Arguments -/

/-- The tokenizer pairs the other escape character with what stands behind it. -/
theorem readToken_exchanged (esc : Escape) (off : Nat) (cs : List Char) :
    readToken (esc.map exchange) off (exchanged cs) = (readToken esc off cs).exchanged := by
  induction off, cs using token_induction esc with
  | splice off cs n rest h ih =>
      rw [readToken_of_continuation? h,
        readToken_of_continuation? (continuation?_exchanged_of_some h), ih]
  | nil off => simp [Reading.exchanged]
  | space off c cs h hspace =>
      have h' := continuation?_exchanged_of_none h
      rw [exchanged_cons]
      rw [readToken_of_isSpace h hspace, readToken_of_isSpace h' (by simpa using hspace)]
      rfl
  | last off e he hspace =>
      subst he
      rw [readToken_last hspace]
      exact readToken_last (by simpa using hspace)
  | pair off e d cs he hspace h ih =>
      subst he
      have h' := continuation?_exchanged_of_none h
      simp only [Option.map_some, exchanged_cons] at h' ih ⊢
      rw [readToken_pair h hspace, readToken_pair h' (by simpa using hspace), ih]
      rfl
  | char off c cs h hspace hne ih =>
      have h' := continuation?_exchanged_of_none h
      have hne' : esc.map exchange ≠ some (exchange c) := fun heq => hne (escape_exchange.mp heq)
      rw [exchanged_cons]
      rw [readToken_cons h hspace hne, readToken_cons h' (by simpa using hspace) hne', ih]
      rfl

/-- The argument of an exchanged text. -/
def Argument.exchanged (a : Argument) : Argument :=
  { a with value := exchangedWord a.value }

/-- Arguments are exchanged one by one. -/
theorem argumentsFrom_exchanged (esc : Escape) (off : Nat) (cs : List Char) :
    argumentsFrom (esc.map exchange) off (exchanged cs) =
      (argumentsFrom esc off cs).map Argument.exchanged := by
  induction off, cs using arguments_induction esc with
  | nil off cs hgap =>
      have hgap' : (readGap (esc.map exchange) off (exchanged cs)).rest = [] := by
        rw [readGap_exchanged, Reading.exchanged_rest, hgap]
        rfl
      rw [argumentsFrom_of_nil hgap, argumentsFrom_of_nil hgap']
      rfl
  | cons off cs c rest hgap ih =>
      have hgap' : (readGap (esc.map exchange) off (exchanged cs)).rest =
          exchange c :: exchanged rest := by
        rw [readGap_exchanged, Reading.exchanged_rest, hgap]
        rfl
      rw [argumentsFrom_of_cons hgap, argumentsFrom_of_cons hgap']
      simp only [← exchanged_cons, readGap_exchanged, readToken_exchanged, Reading.exchanged_stop,
        Reading.exchanged_rest, Reading.exchanged_text, Reading.exchanged_reach, ih, List.map_cons]
      rfl

/-- There are arguments where there were some. -/
theorem argumentsPresent_exchanged (esc : Escape) (finish off : Nat) (cs : List Char) :
    argumentsPresent (esc.map exchange) finish off (exchanged cs) =
      argumentsPresent esc finish off cs := by
  induction off, cs using splicing_induction esc with
  | splice off cs n rest h ih =>
      rw [argumentsPresent_of_continuation? h,
        argumentsPresent_of_continuation? (continuation?_exchanged_of_some h), ih]
  | nil off => simp
  | char off c cs h ih =>
      have h' := continuation?_exchanged_of_none h
      rw [exchanged_cons]
      rw [argumentsPresent_cons h, argumentsPresent_cons h', ih, isSpace_exchange]

/-! ## Lists -/

namespace ArrayState

/-- A list looks for quotation marks, brackets and commas. -/
theorem insideString_exchange (s : ArrayState) (off : Nat) (c : Char) :
    s.insideString off (exchange c) = s.insideString off c :=
  apply_exchange (s.insideString off) rfl c

/-- Between strings a walk does not tell the two characters apart. -/
theorem betweenStrings_exchange (s : ArrayState) (off : Nat) (c : Char) :
    s.betweenStrings off (exchange c) = s.betweenStrings off c :=
  apply_exchange (s.betweenStrings off) rfl c

/-- A walk meets a continuation where it met one. -/
theorem continuation?_exchanged (s : ArrayState) (esc : Escape) (cs : List Char) :
    s.continuation? (esc.map exchange) (exchanged cs) =
      (s.continuation? esc cs).map fun (n, rest) => (n, exchanged rest) := by
  unfold continuation?
  cases s.inString with
  | true => rfl
  | false => exact DockerfileLint.continuation?_exchanged esc cs

/-- It meets no other one. -/
theorem continuation?_exchanged_of_none {s : ArrayState}
    (h : s.continuation? esc (c :: cs) = none) :
    s.continuation? (esc.map exchange) (exchange c :: exchanged cs) = none := by
  rw [← exchanged_cons, s.continuation?_exchanged, h]
  rfl

end ArrayState

/-- The verdict on the list of an exchanged text. -/
def ArrayVerdict.exchanged (v : ArrayVerdict) : ArrayVerdict :=
  { v with rest := DockerfileLint.exchanged v.rest }

/-- A walk through a list is exchanged with the text. -/
theorem walkArray_exchanged (esc : Escape) (s : ArrayState) (off : Nat) (cs : List Char) :
    walkArray (esc.map exchange) s off (exchanged cs) = (walkArray esc s off cs).exchanged := by
  fun_induction walkArray esc s off cs with
  | case1 s off cs n rest h ih =>
      have h' := s.continuation?_exchanged esc cs
      rw [h] at h'
      rw [walkArray_of_continuation? h', ih]
  | case2 s off =>
      rw [exchanged_nil, walkArray_nil]
      rfl
  | case3 s off c cs h hc =>
      have h' := ArrayState.continuation?_exchanged_of_none h
      rw [exchanged_cons, walkArray_cons h', isBreak_exchange, if_pos hc]
      rfl
  | case4 s off c cs h hc hstring ih =>
      have h' := ArrayState.continuation?_exchanged_of_none h
      rw [exchanged_cons, walkArray_cons h', isBreak_exchange, if_neg hc, if_pos hstring,
        ArrayState.insideString_exchange, ih]
  | case5 s off c cs h hc hstring hdue =>
      have h' := ArrayState.continuation?_exchanged_of_none h
      have hdue' : exchange c = '"' ∧ s.commaDue = true ∧ s.fault = none :=
        ⟨(exchange_eq_iff (by decide) (by decide)).mpr hdue.1, hdue.2⟩
      rw [exchanged_cons, walkArray_cons h', isBreak_exchange, if_neg hc, if_neg hstring,
        if_pos hdue']
      rfl
  | case6 s off c cs h hc hstring hdue ih =>
      have h' := ArrayState.continuation?_exchanged_of_none h
      have hdue' : ¬(exchange c = '"' ∧ s.commaDue = true ∧ s.fault = none) := by
        rwa [exchange_eq_iff (by decide) (by decide)]
      rw [exchanged_cons, walkArray_cons h', isBreak_exchange, if_neg hc, if_neg hstring,
        if_neg hdue', ArrayState.betweenStrings_exchange, ih]

/-- The check of a list behind a keyword is exchanged with the text. -/
theorem checkArrayBody_exchanged (esc : Escape) (opening : Bool) (off : Nat) (cs : List Char) :
    checkArrayBody (esc.map exchange) opening off (exchanged cs) =
      (checkArrayBody esc opening off cs).exchanged := by
  fun_induction checkArrayBody esc opening off cs with
  | case1 opening off cs n rest h ih =>
      rw [checkArrayBody_of_continuation? (continuation?_exchanged_of_some h), ih]
  | case2 opening off =>
      rw [exchanged_nil, checkArrayBody_nil]
      rfl
  | case3 opening off c cs h hc =>
      rw [exchanged_cons, checkArrayBody_cons (continuation?_exchanged_of_none h),
        isBreak_exchange, if_pos hc]
      rfl
  | case4 opening off c cs h hc hopen =>
      have hopen' : exchange c = '[' ∧ opening = true :=
        ⟨(exchange_eq_iff (by decide) (by decide)).mpr hopen.1, hopen.2⟩
      rw [exchanged_cons, checkArrayBody_cons (continuation?_exchanged_of_none h),
        isBreak_exchange, if_neg hc, if_pos hopen']
      exact walkArray_exchanged esc _ (off + 1) cs
  | case5 opening off c cs h hc hopen ih =>
      have hopen' : ¬(exchange c = '[' ∧ opening = true) := by
        rwa [exchange_eq_iff (by decide) (by decide)]
      rw [exchanged_cons, checkArrayBody_cons (continuation?_exchanged_of_none h),
        isBreak_exchange, if_neg hc, if_neg hopen', isBlank_exchange, ih]

/-! ## Words -/

/-- A word without the two characters stays what it is. -/
theorem exchangedWord_of_isPlain {s : String} (h : IsPlain s) : exchangedWord s = s := by
  unfold exchangedWord
  rw [exchanged_of_not_mem h.1 h.2, String.ofList_toList]

/-- Different words stay different. -/
theorem exchangedWord_inj {s t : String} : exchangedWord s = exchangedWord t ↔ s = t := by
  constructor
  · intro h
    have hlist : exchanged s.toList = exchanged t.toList := String.ofList_injective h
    exact String.toList_injective ((List.map_inj_right fun c d => exchange_inj.mp).mp hlist)
  · rintro rfl
    rfl

/-- A word without the two characters comes out of an exchange only where it went in. -/
theorem exchangedWord_eq_iff {s plain : String} (h : IsPlain plain) :
    exchangedWord s = plain ↔ s = plain := by
  conv => lhs; rw [← exchangedWord_of_isPlain h]
  exact exchangedWord_inj

/-- An exchanged word is among plain ones only if it is plain itself. -/
theorem exchangedWord_mem_iff {s : String} {plain : List String} (h : ∀ k ∈ plain, IsPlain k) :
    exchangedWord s ∈ plain ↔ s ∈ plain := by
  constructor
  · intro hs
    have heq := (exchangedWord_eq_iff (h _ hs)).mp rfl
    rwa [heq]
  · intro hs
    rwa [exchangedWord_of_isPlain (h s hs)]

namespace Unicode

/-- Neither of the two characters has a case, and no other character leads to them. -/
theorem upperChar_exchange (c : Char) : upperChar (exchange c) = exchanged (upperChar c) := by
  by_cases hslash : c = '\\'
  · subst hslash
    decide
  · by_cases htick : c = '`'
    · subst htick
      decide
    · rw [exchange_of_ne hslash htick, exchanged_of_not_mem]
      · intro hd
        exact hslash (eq_of_mem_upperChar hd (by decide) (by decide))
      · intro hd
        exact htick (eq_of_mem_upperChar hd (by decide) (by decide))

/-- Upper case is exchanged with the word. -/
theorem upper_exchanged (s : String) : upper (exchangedWord s) = exchangedWord (upper s) := by
  unfold upper exchangedWord
  rw [String.toList_ofList, String.toList_ofList]
  unfold exchanged
  rw [List.flatMap_map, List.map_flatMap]
  congr 2
  funext c
  exact upperChar_exchange c

end Unicode

end DockerfileLint
