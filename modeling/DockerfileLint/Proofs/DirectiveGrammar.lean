import DockerfileLint.Proofs.PaddedLines
import DockerfileLint.Proofs.Patterns
import DockerfileLint.Proofs.Quotes

/-!
# The grammar of directives

A line is a directive if it is blanks, a number sign, blanks, a name, blanks, an equals sign
and the rest of the line.  No line can be taken apart in two such ways: what may stand before
each of the five places where a part ends cannot stand behind it.  Only the value has blanks
within it, and it is the rest of the line without the blanks at its ends.

The same is a pattern: nine runs and single characters of classes, and the value, for which
the shortest run that leaves nothing but blanks behind it is taken.  Each of the long runs
takes as much as it can, and none of them ever has to give a character back.

* `DirectiveForm.unique`: one way to take a line apart;
* `DirectiveForm.Spells.ofLine?_eq`, `exists_form_of_ofLine?`: what is read, and when something is;
* `DirectiveForm.pieces?_eq`, `exists_form_of_pieces?`: what the pattern finds, and when;
* `parse?_grammar`: the directive of a document.
-/

namespace DockerfileLint

variable {cs front back front' back' line text : List Char} {p : Char → Bool}

/-! ## Lines taken apart -/

/-- The parts of a line with a directive. -/
structure DirectiveForm where
  lead : List Char
  gap : List Char
  name : List Char
  room : List Char
  rest : List Char
deriving DecidableEq

namespace DirectiveForm

/-- The line that has these parts. -/
def spelling (f : DirectiveForm) : List Char :=
  f.lead ++ '#' :: (f.gap ++ (f.name ++ (f.room ++ '=' :: f.rest)))

/-- A line is made up of blanks, a number sign, blanks, a name, blanks, an equals sign and a
rest.  The name starts with a letter, and goes on with word characters and hyphens. -/
structure Spells (f : DirectiveForm) (line : List Char) : Prop where
  line_eq : line = f.spelling
  lead : ∀ c ∈ f.lead, isBlank c = true
  gap : ∀ c ∈ f.gap, isBlank c = true
  name : ∃ c cs, f.name = c :: cs ∧ isAsciiLetter c = true ∧ ∀ d ∈ cs, isNameChar d = true
  room : ∀ c ∈ f.room, isBlank c = true

end DirectiveForm

/-- A letter may stand in a name, at its start or further on. -/
theorem isNameChar_of_isAsciiLetter {c : Char} (h : isAsciiLetter c = true) :
    isNameChar c = true := by
  have hrange : ∃ r ∈ Unicode.wordRanges, r.1 ≤ c.toNat ∧ c.toNat ≤ r.2 := by
    simp only [isAsciiLetter, Bool.or_eq_true, Bool.and_eq_true, decide_eq_true_eq] at h
    rcases h with ⟨hlow, hhigh⟩ | ⟨hlow, hhigh⟩
    · exact ⟨(0x41, 0x5A), by decide +kernel, hlow, hhigh⟩
    · exact ⟨(0x61, 0x7A), by decide +kernel, hlow, hhigh⟩
  obtain ⟨r, hr, hlow, hhigh⟩ := hrange
  have hword : Unicode.isWord c = true :=
    List.any_eq_true.mpr ⟨r, hr, by simp [hlow, hhigh]⟩
  simp [isNameChar, hword]

namespace DirectiveForm

variable {f f' : DirectiveForm}

/-- A name is made up of name characters. -/
theorem Spells.name_chars (h : f.Spells line) : ∀ c ∈ f.name, isNameChar c = true := by
  obtain ⟨c, cs, hname, hletter, hcs⟩ := h.name
  rw [hname]
  intro d hd
  rcases List.mem_cons.mp hd with rfl | hd
  · exact isNameChar_of_isAsciiLetter hletter
  · exact hcs d hd

/-- A number sign is no blank. -/
theorem mark_not_blank (rest : List Char) : ∀ c ∈ ('#' :: rest).head?, isBlank c = false := by
  rintro c ⟨⟩
  rfl

/-- Nor is an equals sign. -/
theorem equals_not_blank (rest : List Char) : ∀ c ∈ ('=' :: rest).head?, isBlank c = false := by
  rintro c ⟨⟩
  rfl

/-- A name does not start with a blank. -/
theorem Spells.name_not_blank (h : f.Spells line) (rest : List Char) :
    ∀ c ∈ (f.name ++ rest).head?, isBlank c = false := by
  obtain ⟨c, cs, hname, hletter, -⟩ := h.name
  rw [hname]
  rintro d ⟨⟩
  cases hblank : isBlank c with
  | false => rfl
  | true =>
      have hchar := isNameChar_of_isAsciiLetter hletter
      rw [isNameChar_of_isBlank hblank] at hchar
      cases hchar

/-- Behind a name there is a blank or an equals sign. -/
theorem Spells.room_not_name (h : f.Spells line) :
    ∀ c ∈ (f.room ++ '=' :: f.rest).head?, isNameChar c = false := by
  intro c hc
  cases hroom : f.room with
  | nil =>
      rw [hroom] at hc
      cases hc
      decide +kernel
  | cons d ds =>
      rw [hroom] at hc
      cases hc
      exact isNameChar_of_isBlank (h.room c (by simp [hroom]))

/-- **A line can be taken apart in one way only.** -/
theorem unique (h : f.Spells line) (h' : f'.Spells line) : f = f' := by
  obtain ⟨hlead, hmark⟩ := append_inj_of_head? (h.line_eq.symm.trans h'.line_eq)
    h.lead (mark_not_blank _) h'.lead (mark_not_blank _)
  obtain ⟨hgap, hnamed⟩ := append_inj_of_head? (List.cons.inj hmark).2
    h.gap (h.name_not_blank _) h'.gap (h'.name_not_blank _)
  obtain ⟨hname, hbehind⟩ := append_inj_of_head? hnamed
    h.name_chars h.room_not_name h'.name_chars h'.room_not_name
  obtain ⟨hroom, hequals⟩ := append_inj_of_head? hbehind
    h.room (equals_not_blank _) h'.room (equals_not_blank _)
  obtain ⟨lead, gap, name, room, rest⟩ := f
  obtain ⟨lead', gap', name', room', rest'⟩ := f'
  obtain rfl : lead = lead' := hlead
  obtain rfl : gap = gap' := hgap
  obtain rfl : name = name' := hname
  obtain rfl : room = room' := hroom
  obtain rfl : rest = rest' := (List.cons.inj hequals).2
  rfl

/-! ## What is read of a line -/

/-- The rest of the line without the blanks in front. -/
def led (f : DirectiveForm) : List Char :=
  f.rest.dropWhile isBlank

/-- The value: the rest of the line without the blanks at its ends. -/
def value (f : DirectiveForm) : List Char :=
  trimEnd isBlank f.led

/-- The offset of the name. -/
def nameStart (f : DirectiveForm) : Nat :=
  f.lead.length + 1 + f.gap.length

/-- The offset of the value. -/
def valueStart (f : DirectiveForm) : Nat :=
  f.nameStart + f.name.length + f.room.length + 1 + (f.rest.takeWhile isBlank).length

/-- The directive with these parts. -/
def directive (f : DirectiveForm) : Directive where
  rawName := String.ofList f.name
  value := String.ofList f.value
  span := ⟨0, f.spelling.length⟩
  nameSpan := ⟨f.nameStart, f.nameStart + f.name.length⟩
  valueSpan := ⟨f.valueStart, f.valueStart + f.value.length⟩

/-- What stands behind the equals sign is its blanks and the rest. -/
theorem rest_length (f : DirectiveForm) :
    (f.rest.takeWhile isBlank).length + f.led.length = f.rest.length := by
  rw [led, ← List.length_append, List.takeWhile_append_dropWhile]

/-- A line with these parts is read as their directive. -/
theorem Spells.ofLine?_eq (h : f.Spells line) : Directive.ofLine? line = some f.directive := by
  obtain ⟨c, cs, hname, hletter, -⟩ := h.name
  have hhead : f.name.head?.any isAsciiLetter = true := by
    simp [hname, hletter]
  have hlead := (takeWhile_of_head? h.lead (mark_not_blank
    (f.gap ++ (f.name ++ (f.room ++ '=' :: f.rest))))).2
  have hgap := (takeWhile_of_head? h.gap (h.name_not_blank (f.room ++ '=' :: f.rest))).2
  have hnamed := (takeWhile_of_head? h.name_chars h.room_not_name).1
  have hroom := (takeWhile_of_head? h.room (equals_not_blank f.rest)).2
  have hlength : f.spelling.length =
      f.nameStart + (f.name ++ (f.room ++ '=' :: f.rest)).length := by
    simp only [DirectiveForm.spelling, nameStart, List.length_append, List.length_cons]
    omega
  have hlength' : f.spelling.length = f.valueStart + f.led.length := by
    have hrest := f.rest_length
    simp only [DirectiveForm.spelling, valueStart, nameStart, List.length_append, List.length_cons]
    omega
  have hnameStart :
      f.spelling.length - (f.name ++ (f.room ++ '=' :: f.rest)).length = f.nameStart := by
    omega
  have hvalueStart : f.spelling.length - (f.rest.dropWhile isBlank).length = f.valueStart := by
    rw [← led]
    omega
  rw [h.line_eq]
  unfold Directive.ofLine?
  rw [show f.spelling.dropWhile isBlank = _ from hlead]
  simp only [hgap, hnamed, hhead, if_true, List.drop_left, hroom, hnameStart, hvalueStart]
  rfl

/-- A line of which a directive is read has these parts. -/
theorem exists_form_of_ofLine? {d : Directive} (h : Directive.ofLine? line = some d) :
    ∃ f : DirectiveForm, f.Spells line := by
  unfold Directive.ofLine? at h
  split at h
  · rename_i mark hmark
    simp only at h
    split at h
    · rename_i hletter
      split at h
      · rename_i valued hvalued
        have hline := List.takeWhile_append_dropWhile (p := isBlank) (l := line)
        have hgap := List.takeWhile_append_dropWhile (p := isBlank) (l := mark)
        generalize mark.dropWhile isBlank = named at hletter hvalued hgap
        have hnamed := List.prefix_iff_eq_append.mp (List.takeWhile_prefix (l := named) isNameChar)
        have hchars := List.all_eq_true.mp (List.all_takeWhile (l := named) (p := isNameChar))
        generalize named.takeWhile isNameChar = name at hletter hvalued hnamed hchars
        have hroom :=
          List.takeWhile_append_dropWhile (p := isBlank) (l := named.drop name.length)
        refine ⟨⟨line.takeWhile isBlank, mark.takeWhile isBlank, name,
          (named.drop name.length).takeWhile isBlank, valued⟩, ?_, ?_, ?_, ?_, ?_⟩
        · simp only [spelling]
          rw [← hvalued, hroom, hnamed, hgap, ← hmark, hline]
        · exact List.all_eq_true.mp List.all_takeWhile
        · exact List.all_eq_true.mp List.all_takeWhile
        · cases name with
          | nil => simp at hletter
          | cons c cs =>
              exact ⟨c, cs, rfl, by simpa using hletter,
                fun d hd => hchars d (List.mem_cons_of_mem c hd)⟩
        · exact List.all_eq_true.mp List.all_takeWhile
      · cases h
    · cases h
  · cases h

end DirectiveForm

/-! ## The pattern -/

/-- The pattern of a directive: blanks, a number sign, blanks, a letter and name characters,
blanks, an equals sign, blanks, a value of any characters but line feeds, and blanks. -/
def directivePattern : List PatternPart :=
  [.longest isBlank, .one (· == '#'), .longest isBlank, .one isAsciiLetter, .longest isNameChar,
    .longest isBlank, .one (· == '='), .longest isBlank, .shortest (· != '\n'),
    .longest isBlank]

/-- What `count` pieces behind the first ones hold, and where. -/
def captured (pieces : List (List Char)) (first count : Nat) : String × Span Nat :=
  let start := (pieces.take first).flatten.length
  let piece := ((pieces.drop first).take count).flatten
  (String.ofList piece, ⟨start, start + piece.length⟩)

/-- The directive that a division by the pattern gives: the name is the fourth and the fifth
piece, the value the ninth. -/
def Directive.ofPieces (pieces : List (List Char)) : Directive where
  rawName := (captured pieces 3 2).1
  value := (captured pieces 8 1).1
  span := ⟨0, pieces.flatten.length⟩
  nameSpan := (captured pieces 3 2).2
  valueSpan := (captured pieces 8 1).2

/-- What is trimmed does not end in a character that is trimmed off. -/
theorem getLast?_trimEnd (p : Char → Bool) (cs : List Char) :
    ∀ c ∈ (trimEnd p cs).getLast?, p c = false := by
  intro c hc
  unfold trimEnd at hc
  rw [List.getLast?_reverse] at hc
  have hhead := List.head?_dropWhile_not p cs.reverse
  rw [hc] at hhead
  exact hhead

namespace DirectiveForm

variable {f : DirectiveForm}

/-- The pieces of a line with these parts. -/
def pieces (f : DirectiveForm) : List (List Char) :=
  [f.lead, ['#'], f.gap, f.name.take 1, f.name.drop 1, f.room, ['='], f.rest.takeWhile isBlank,
    f.value, f.led.drop f.value.length]

/-- The value and the blanks behind it. -/
theorem value_append (f : DirectiveForm) :
    f.value ++ f.led.drop f.value.length = f.led ∧
      ∀ c ∈ f.led.drop f.value.length, isBlank c = true := by
  obtain ⟨tail, htail, hblank⟩ := exists_eq_trimEnd_append isBlank f.led
  have hdrop : f.led.drop f.value.length = tail := by
    conv => lhs; rw [htail]
    exact List.drop_left
  rw [hdrop]
  exact ⟨htail.symm, hblank⟩

/-- The pattern takes a line with these parts apart, each long run as far as it goes. -/
theorem Spells.pieces?_eq (h : f.Spells line) (hline : '\n' ∉ line) :
    pieces? directivePattern line = some f.pieces := by
  obtain ⟨c, cs, hname, hletter, hcs⟩ := h.name
  obtain ⟨hvalue, hbehind⟩ := f.value_append
  have hmargin : f.rest.takeWhile isBlank ++ f.led = f.rest :=
    List.takeWhile_append_dropWhile
  have hany : ∀ d ∈ f.value ++ f.led.drop f.value.length, (d != '\n') = true := by
    intro d hd
    rw [hvalue] at hd
    have hmem : d ∈ f.spelling := by
      have hrest : d ∈ f.rest := by
        rw [← hmargin]
        exact List.mem_append_right _ hd
      simp [spelling, hrest]
    rw [← h.line_eq] at hmem
    simp only [bne_iff_ne]
    rintro rfl
    exact hline hmem
  have hled : ∀ d ∈ f.led.head?, isBlank d = false := by
    intro d hd
    have hhead := List.head?_dropWhile_not isBlank f.rest
    rw [show (f.rest.dropWhile isBlank).head? = some d from hd] at hhead
    exact hhead
  have hend := pieces?_shortest_longest hany (getLast?_trimEnd isBlank f.led) hbehind
  rw [hvalue] at hend
  have hblanks : ∀ d ∈ f.rest.takeWhile isBlank, isBlank d = true :=
    List.all_eq_true.mp List.all_takeWhile
  have hrest := pieces?_longest hblanks hled hend
  rw [hmargin] at hrest
  have hequals := pieces?_one (p := (· == '=')) (c := '=') rfl hrest
  have hroom := pieces?_longest h.room (equals_not_blank _) hequals
  have hnamed := pieces?_one hletter (pieces?_longest hcs h.room_not_name hroom)
  rw [← List.cons_append, ← hname] at hnamed
  have hgap := pieces?_longest h.gap (h.name_not_blank _) hnamed
  have hmark := pieces?_one (p := (· == '#')) (c := '#') rfl hgap
  have hlead := pieces?_longest h.lead (mark_not_blank _) hmark
  rw [h.line_eq]
  refine hlead.trans ?_
  simp [DirectiveForm.pieces, hname]

/-- The directive of these pieces is the directive of these parts. -/
theorem ofPieces_pieces (f : DirectiveForm) : Directive.ofPieces f.pieces = f.directive := by
  have hname : f.name.take 1 ++ f.name.drop 1 = f.name := List.take_append_drop 1 f.name
  have hnameLength := congrArg List.length hname
  have hvalueLength := congrArg List.length f.value_append.1
  have hrestLength := f.rest_length
  rw [List.length_append] at hnameLength hvalueLength
  have hnamePiece : ((f.pieces.drop 3).take 2).flatten = f.name := by
    simp only [pieces, List.drop_succ_cons, List.drop_zero, List.take_succ_cons, List.take_zero,
      List.flatten_cons, List.flatten_nil, List.append_nil]
    exact hname
  have hvaluePiece : ((f.pieces.drop 8).take 1).flatten = f.value := by
    simp [pieces]
  have hnameStart : (f.pieces.take 3).flatten.length = f.nameStart := by
    simp [pieces, nameStart]
    omega
  have hvalueStart : (f.pieces.take 8).flatten.length = f.valueStart := by
    simp only [pieces, valueStart, nameStart, List.take_succ_cons, List.take_zero,
      List.flatten_cons, List.flatten_nil, List.length_append, List.length_cons, List.length_nil]
    omega
  have hspan : f.pieces.flatten.length = f.spelling.length := by
    simp only [pieces, spelling, List.flatten_cons, List.flatten_nil, List.length_append,
      List.length_cons, List.length_nil]
    omega
  simp only [Directive.ofPieces, captured, hnamePiece, hvaluePiece, hnameStart, hvalueStart,
    hspan]
  rfl

/-- A line that the pattern takes apart has these parts. -/
theorem exists_form_of_pieces? {ps : List (List Char)}
    (h : pieces? directivePattern line = some ps) : ∃ f : DirectiveForm, f.Spells line := by
  obtain ⟨lead, _, _, rfl, hlead, h, -⟩ := pieces?_cons_eq_some h
  obtain ⟨_, _, _, rfl, ⟨mark, rfl, hmark⟩, h, -⟩ := pieces?_cons_eq_some h
  obtain ⟨gap, _, _, rfl, hgap, h, -⟩ := pieces?_cons_eq_some h
  obtain ⟨_, _, _, rfl, ⟨c, rfl, hletter⟩, h, -⟩ := pieces?_cons_eq_some h
  obtain ⟨cs, _, _, rfl, hcs, h, -⟩ := pieces?_cons_eq_some h
  obtain ⟨room, _, _, rfl, hroom, h, -⟩ := pieces?_cons_eq_some h
  obtain ⟨_, rest, _, rfl, ⟨equals, rfl, hequals⟩, -, -⟩ := pieces?_cons_eq_some h
  obtain rfl : mark = '#' := by simpa using hmark
  obtain rfl : equals = '=' := by simpa using hequals
  exact ⟨⟨lead, gap, c :: cs, room, rest⟩, by simp [spelling], hlead, hgap,
    ⟨c, cs, rfl, hletter, hcs⟩, hroom⟩

end DirectiveForm

/-- **What is read of a line is what the pattern finds.** -/
theorem Directive.ofLine?_eq_pieces? (hline : '\n' ∉ line) :
    Directive.ofLine? line = (pieces? directivePattern line).map Directive.ofPieces := by
  cases hread : Directive.ofLine? line with
  | some d =>
      obtain ⟨f, hf⟩ := DirectiveForm.exists_form_of_ofLine? hread
      rw [hf.ofLine?_eq] at hread
      rw [hf.pieces?_eq hline, Option.map_some, f.ofPieces_pieces, hread]
  | none =>
      cases hpieces : pieces? directivePattern line with
      | none => rfl
      | some ps =>
          obtain ⟨f, hf⟩ := DirectiveForm.exists_form_of_pieces? hpieces
          rw [hf.ofLine?_eq] at hread
          cases hread

/-! ## Documents -/

/-- A directive says what the parts of the first line are, and where they are. -/
structure Directive.Reads (d : Directive) (f : DirectiveForm) (text : List Char) : Prop where
  span : d.span = ⟨0, (firstLine text).length⟩
  rawName : d.rawName.toList = f.name
  nameStart : d.nameSpan.start = f.nameStart
  nameText : textUnder text d.nameSpan = d.rawName.toList
  value : d.value.toList = f.value
  valueStart : d.valueSpan.start = f.valueStart
  valueText : textUnder text d.valueSpan = d.value.toList
  empty : d.value = "" → d.valueSpan = ⟨(firstLine text).length, (firstLine text).length⟩

/-- What is read of the first line says what its parts are. -/
theorem DirectiveForm.Spells.reads {f : DirectiveForm} (h : f.Spells (firstLine text)) :
    f.directive.Reads f text := by
  obtain ⟨hname, hvalue⟩ := Directive.marks h.ofLine?_eq
  refine ⟨?_, String.toList_ofList, rfl, hname.textUnder, String.toList_ofList, rfl,
    hvalue.textUnder, fun hempty => ?_⟩
  · rw [h.line_eq]
    rfl
  · have hnil : f.value = [] := by
      simpa [DirectiveForm.directive] using hempty
    have hled : f.led = [] := by
      apply Classical.byContradiction
      intro hne
      exact trimEnd_dropWhile_ne_nil hne hnil
    have hrest := f.rest_length
    have hlength : f.valueStart = (firstLine text).length := by
      rw [hled, List.length_nil] at hrest
      rw [h.line_eq]
      simp only [DirectiveForm.spelling, DirectiveForm.valueStart, DirectiveForm.nameStart,
        List.length_append, List.length_cons]
      omega
    simp [DirectiveForm.directive, hnil, hlength]

/-- **The grammar of directives.**  A document has a directive if and only if its first line
is blanks, a number sign, blanks, a name, blanks, an equals sign and a rest, and there is one
way only to take the line apart like this.  The span of the directive is the line; its name
and its value are those parts of the line, the value without the blanks at its ends, and they
are what stands in the text under their spans; an empty value is at the end of the line.
Nothing behind the first line makes a difference.  And it is the directive of the first
division of the line that the pattern finds. -/
theorem parse?_grammar (text : List Char) :
    ((Directive.parse? text).isSome ↔ ∃ f : DirectiveForm, f.Spells (firstLine text)) ∧
      (∀ f f' : DirectiveForm, f.Spells (firstLine text) → f'.Spells (firstLine text) → f = f') ∧
      (∀ (d : Directive) (f : DirectiveForm), Directive.parse? text = some d →
        f.Spells (firstLine text) → d.Reads f text) ∧
      (∀ other : List Char, firstLine other = firstLine text →
        Directive.parse? other = Directive.parse? text) ∧
      Directive.parse? text =
        (pieces? directivePattern (firstLine text)).map Directive.ofPieces := by
  refine ⟨⟨fun h => ?_, ?_⟩, fun f f' => DirectiveForm.unique, fun d f hd hf => ?_,
    fun other hother => ?_, ?_⟩
  · obtain ⟨d, hd⟩ := Option.isSome_iff_exists.mp h
    exact DirectiveForm.exists_form_of_ofLine? hd
  · rintro ⟨f, hf⟩
    exact Option.isSome_iff_exists.mpr ⟨_, hf.ofLine?_eq⟩
  · obtain rfl : f.directive = d := Option.some.inj (hf.ofLine?_eq.symm.trans hd)
    exact hf.reads
  · unfold Directive.parse?
    rw [hother]
  · apply Directive.ofLine?_eq_pieces?
    intro hfeed
    cases isBreak_eq_false_of_mem_firstLine hfeed

/-- A directive whose value has blanks and an equals sign in it, and blanks around it. -/
def spacedDirective : List Char := " #\tes-cape =  a = b \t\nFROM x".toList

/-- The first equals sign of `spacedDirective` ends the name, and the blanks at the ends of
what stands behind it are no part of the value. -/
theorem parse?_grammar_spacedDirective :
    let f : DirectiveForm :=
      ⟨" ".toList, "\t".toList, "es-cape".toList, " ".toList, "  a = b \t".toList⟩
    let d : Directive := ⟨"es-cape", "a = b", ⟨0, 21⟩, ⟨3, 10⟩, ⟨14, 19⟩⟩
    f.Spells (firstLine spacedDirective) ∧ Directive.parse? spacedDirective = some d ∧
      d.Reads f spacedDirective := by
  intro f d
  have hspells : f.Spells (firstLine spacedDirective) := by
    have hall {p : Char → Bool} {cs : List Char} (h : cs.all p = true) : ∀ c ∈ cs, p c = true :=
      List.all_eq_true.mp h
    refine ⟨by decide +kernel, hall (by decide +kernel), hall (by decide +kernel), ?_,
      hall (by decide +kernel)⟩
    exact ⟨'e', "s-cape".toList, rfl, by decide, hall (by decide +kernel)⟩
  have hparse : Directive.parse? spacedDirective = some d := by
    decide +kernel
  exact ⟨hspells, hparse, (parse?_grammar spacedDirective).2.2.1 d f hparse hspells⟩

end DockerfileLint
