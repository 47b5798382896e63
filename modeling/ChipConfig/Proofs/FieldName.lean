import ChipConfig.FieldName
import ChipConfig.Proofs.Text.Padding
import ChipConfig.Proofs.Text.Spelling
import ChipConfig.Proofs.Text.Splitting

/-!
# Annotated field names

A name is read from its end: the last bracket gives the bits inside the register, the one before it
the bits of the field, and what is in front of both is the base.  A text is read as a name if and
only if it is a way to write this name, blanks being allowed around the numbers, before the brackets
and around the whole, and the name is one that can be written at all.
-/

namespace ChipConfig

/-- Whether a text spells a bit number: a decimal numeral between blanks. -/
def IsBitText (n : Nat) (cs : List Char) : Prop :=
  ∃ numeral, Numeral.IsNumeral 10 n numeral ∧ Text.Padded numeral cs

/-- A bit number has none of the characters that stand between bit numbers. -/
theorem IsBitText.ne {n : Nat} {cs : List Char} (h : IsBitText n cs) {c : Char} (hc : c ∈ cs) :
    c ≠ ':' ∧ c ≠ '[' ∧ c ≠ ']' := by
  obtain ⟨numeral, hnumeral, before, after, hbefore, hafter, rfl⟩ := h
  have hblank (h : Text.isBlank c = true) : c ≠ ':' ∧ c ≠ '[' ∧ c ≠ ']' := by
    refine ⟨?_, ?_, ?_⟩ <;>
    · rintro rfl
      cases h
  rcases List.mem_append.1 hc with hc | hc
  · rcases List.mem_append.1 hc with hc | hc
    · exact hblank (hbefore c hc)
    · rcases hnumeral.mem (by decide) (by decide) hc with rfl | ⟨d, hd, hlower⟩
      · decide
      · refine ⟨?_, ?_, ?_⟩ <;>
        · rintro rfl
          interval_cases d <;> cases hlower
  · exact hblank (hafter c hc)

namespace FieldName

open Text (EndsSolid Trimmed Padded isBlank)

variable {cs rest content base : List Char} {range : BitRange} {n : Nat}

theorem bitNumber?_of_isBitText (h : IsBitText n cs) :
    bitNumber? cs = if n < UInt32.size then some n else none := by
  obtain ⟨numeral, hnumeral, hpadded⟩ := h
  have hblank : ∀ c ∈ numeral, isBlank c = false :=
    fun c ↦ hnumeral.not_blank (by decide) (by decide)
  rw [bitNumber?, Text.trim_eq_iff.2 ⟨Text.trimmed_of_forall hblank, hpadded⟩]
  exact Numeral.bounded?_of_isNumeral (by decide) (by decide) hnumeral UInt32.size

theorem bitNumber?_eq_some_iff : bitNumber? cs = some n ↔ n < UInt32.size ∧ IsBitText n cs := by
  constructor
  · intro h
    obtain ⟨hlt, hnumeral⟩ := (Numeral.bounded?_eq_some_iff (by decide) (by decide)).1 h
    exact ⟨hlt, _, hnumeral, (Text.trim_eq_iff.1 rfl).2⟩
  · rintro ⟨hlt, h⟩
    rw [bitNumber?_of_isBitText h, if_pos hlt]

/-- Whether a range can stand in a name: its ends are in order, and bit numbers of 32 bits. -/
def Nameable (range : BitRange) : Prop :=
  range.low ≤ range.high ∧ range.high < UInt32.size

/-- Whether a text between brackets names a range, by its high and its low end or by its only
bit. -/
def IsRange (range : BitRange) (content : List Char) : Prop :=
  (∃ high low, IsBitText range.high high ∧ IsBitText range.low low ∧ content = high ++ ':' :: low) ∨
    (range.low = range.high ∧ IsBitText range.high content)

theorem IsRange.ne (h : IsRange range content) {c : Char} (hc : c ∈ content) :
    c ≠ '[' ∧ c ≠ ']' := by
  rcases h with ⟨high, low, hhigh, hlow, rfl⟩ | ⟨-, hbit⟩
  · rcases List.mem_append.1 hc with hc | hc
    · exact (hhigh.ne hc).2
    · rcases List.mem_cons.1 hc with rfl | hc
      · decide
      · exact (hlow.ne hc).2
  · exact (hbit.ne hc).2

theorem isRange_of_splitFirst? {high low : List Char}
    (h : Text.splitFirst? ':' content = some (high, low)) :
    IsRange range content ↔ IsBitText range.high high ∧ IsBitText range.low low := by
  constructor
  · rintro (⟨high', low', hhigh, hlow, rfl⟩ | ⟨-, hbit⟩)
    · rw [Text.splitFirst?_append fun c hc ↦ (hhigh.ne hc).1] at h
      cases h
      exact ⟨hhigh, hlow⟩
    · obtain ⟨rfl, -⟩ := Text.splitFirst?_eq_some_iff.1 h
      exact absurd rfl (hbit.ne (List.mem_append_right _ List.mem_cons_self)).1
  · rintro ⟨hhigh, hlow⟩
    exact .inl ⟨high, low, hhigh, hlow, (Text.splitFirst?_eq_some_iff.1 h).1⟩

theorem isRange_of_splitFirst?_eq_none (h : Text.splitFirst? ':' content = none) :
    IsRange range content ↔ range.low = range.high ∧ IsBitText range.high content := by
  refine or_iff_right ?_
  rintro ⟨high, low, -, -, rfl⟩
  exact Text.forall_ne_of_splitFirst?_eq_none h ':' (List.mem_append_right _ List.mem_cons_self) rfl

theorem range?_eq_some_iff :
    range? content = some range ↔ Nameable range ∧ IsRange range content := by
  unfold range?
  cases hsplit : Text.splitFirst? ':' content with
  | none =>
    simp only [isRange_of_splitFirst?_eq_none hsplit, Option.bind_eq_bind, Option.bind_map,
      Option.bind_eq_some_iff, bitNumber?_eq_some_iff, Function.comp_apply,
      Option.ite_none_right_eq_some, Option.some.injEq]
    constructor
    · rintro ⟨bit, ⟨hlt, hbit⟩, hle, rfl⟩
      exact ⟨⟨hle, hlt⟩, rfl, hbit⟩
    · rintro ⟨⟨hle, hlt⟩, hone, hbit⟩
      have hrange : BitRange.single range.high = range :=
        congrArg (BitRange.mk · range.high) hone.symm
      exact ⟨range.high, ⟨hlt, hbit⟩, le_refl _, hrange⟩
  | some parts =>
    obtain ⟨high, low⟩ := parts
    simp only [isRange_of_splitFirst? hsplit, Option.bind_eq_bind, Option.bind_eq_some_iff,
      bitNumber?_eq_some_iff, Option.ite_none_right_eq_some, Option.some.injEq]
    constructor
    · rintro ⟨_, ⟨hlt, hhigh⟩, _, ⟨-, hlow⟩, _, rfl, hle, rfl⟩
      exact ⟨⟨hle, hlt⟩, hhigh, hlow⟩
    · rintro ⟨⟨hle, hlt⟩, hhigh, hlow⟩
      exact ⟨_, ⟨hlt, hhigh⟩, _, ⟨hle.trans_lt hlt, hlow⟩, range, rfl, hle, rfl⟩

/-! ## Brackets at the end -/

/-- Whether a text is a bracket that names a range, with the blanks before it. -/
def IsAnnotation (range : BitRange) (cs : List Char) : Prop :=
  ∃ blanks content, (∀ c ∈ blanks, isBlank c = true) ∧ IsRange range content ∧
    cs = blanks ++ '[' :: (content ++ [']'])

/-- Whether a text annotates a name with that range, or with none. -/
def Annotates : Option BitRange → List Char → Prop
  | none, cs => cs = []
  | some range, cs => IsAnnotation range cs

theorem IsAnnotation.exists_concat (h : IsAnnotation range cs) :
    ∃ before, cs = before ++ [']'] := by
  obtain ⟨blanks, content, -, -, rfl⟩ := h
  exact ⟨blanks ++ '[' :: content, by simp⟩

/-- What ends with an annotation or with a base does not end with a blank. -/
theorem Annotates.endsSolid {bits : Option BitRange} (h : Annotates bits cs)
    (hbase : EndsSolid base) : EndsSolid (base ++ cs) := by
  cases bits with
  | none => rwa [show cs = [] from h, List.append_nil]
  | some range =>
    obtain ⟨before, rfl⟩ := IsAnnotation.exists_concat h
    rw [← List.append_assoc]
    exact Text.endsSolid_concat (by decide) _

/-- A bracket is taken off together with the blanks before it. -/
theorem stripRange?_eq_some_some_iff :
    stripRange? cs = some (rest, some range) ↔
      Nameable range ∧ EndsSolid rest ∧ ∃ annotation, IsAnnotation range annotation ∧
        cs = rest ++ annotation := by
  unfold stripRange?
  constructor
  · intro h
    split at h
    · cases h
    · next inner hinner =>
      simp only [Option.bind_eq_bind, Option.bind_eq_some_iff, Option.pure_def, Option.some.injEq,
        Prod.mk.injEq] at h
      obtain ⟨⟨before, content⟩, hsplit, _, hread, hrest, rfl⟩ := h
      obtain rfl := Text.stripLast?_eq_some_iff.1 hinner
      obtain ⟨rfl, -⟩ := Text.splitLast?_eq_some_iff.1 hsplit
      obtain ⟨hsolid, blanks, hblanks, rfl⟩ := Text.trimEnd_eq_iff.1 hrest
      obtain ⟨hnameable, hcontent⟩ := range?_eq_some_iff.1 hread
      exact ⟨hnameable, hsolid, _, ⟨blanks, content, hblanks, hcontent, rfl⟩, by simp⟩
  · rintro ⟨hnameable, hsolid, _, ⟨blanks, content, hblanks, hcontent, rfl⟩, rfl⟩
    have hclosed : rest ++ (blanks ++ '[' :: (content ++ [']'])) =
        ((rest ++ blanks) ++ '[' :: content) ++ [']'] := by simp
    have hsplit := Text.splitLast?_append (rest ++ blanks) fun c hc ↦ (hcontent.ne hc).1
    have hread := range?_eq_some_iff.2 ⟨hnameable, hcontent⟩
    have htrimmed := Text.trimEnd_eq_iff.2 ⟨hsolid, blanks, hblanks, rfl⟩
    rw [hclosed, Text.stripLast?_append]
    simp only [hsplit, hread, htrimmed, Option.bind_eq_bind, Option.bind_some, Option.pure_def]

theorem stripRange?_eq_some_none_iff :
    stripRange? cs = some (rest, none) ↔ rest = cs ∧ ∀ before, cs ≠ before ++ [']'] := by
  unfold stripRange?
  cases hstrip : Text.stripLast? ']' cs with
  | none => simp [Text.stripLast?_eq_none_iff.1 hstrip, eq_comm]
  | some inner =>
    obtain rfl := Text.stripLast?_eq_some_iff.1 hstrip
    refine iff_of_false ?_ fun h ↦ h.2 inner rfl
    simp [Option.bind_eq_some_iff]

/-- What is in front of a bracket and has no bracket at its own end is the base. -/
theorem stripRange?_base_iff {bits : Option BitRange} (hbase : ∀ c ∈ base, c ≠ ']') :
    EndsSolid rest ∧ stripRange? rest = some (base, bits) ↔
      EndsSolid base ∧ (∀ range ∈ bits, Nameable range) ∧
        ∃ annotation, Annotates bits annotation ∧ rest = base ++ annotation := by
  cases bits with
  | none =>
    rw [stripRange?_eq_some_none_iff]
    constructor
    · rintro ⟨hsolid, rfl, -⟩
      exact ⟨hsolid, fun _ h ↦ (nomatch h), [], rfl, (List.append_nil _).symm⟩
    · rintro ⟨hsolid, -, _, rfl, rfl⟩
      rw [List.append_nil]
      refine ⟨hsolid, rfl, ?_⟩
      rintro before rfl
      exact hbase ']' (List.mem_append_right _ List.mem_cons_self) rfl
  | some range =>
    rw [stripRange?_eq_some_some_iff]
    constructor
    · rintro ⟨-, hnameable, hsolid, hannotation⟩
      exact ⟨hsolid, fun _ h ↦ Option.some.inj h ▸ hnameable, hannotation⟩
    · rintro ⟨hsolid, hnameable, annotation, hannotation, rfl⟩
      have hannotates : Annotates (some range) annotation := hannotation
      exact ⟨hannotates.endsSolid hsolid, hnameable range rfl, hsolid, annotation, hannotation, rfl⟩

/-! ## Names -/

/-- Whether a name can be written: its base is not empty, has no brackets, and neither starts nor
ends with a blank; its ranges can stand in a name; and bits of the field come with bits inside the
register. -/
structure WellFormed (name : FieldName) : Prop where
  base_ne_nil : name.base.toList ≠ []
  trimmed : Trimmed name.base.toList
  ne_bracket : ∀ c ∈ name.base.toList, c ≠ '[' ∧ c ≠ ']'
  nameable_fieldBits : ∀ range ∈ name.fieldBits, Nameable range
  nameable_registerBits : ∀ range ∈ name.registerBits, Nameable range
  fieldBits_eq_none : name.registerBits = none → name.fieldBits = none

/-- Whether a text is a way to write a name: its base, the annotation of the bits of the field and
the one of the bits inside the register, if there are any, and blanks around all of it. -/
def IsWritten (name : FieldName) (cs : List Char) : Prop :=
  ∃ outer inner, Annotates name.fieldBits outer ∧ Annotates name.registerBits inner ∧
    Padded (name.base.toList ++ (outer ++ inner)) cs

/-- The last step of reading a name: the base is accepted as it is or not at all. -/
theorem ite_base_eq_some_iff {name : FieldName} {fieldBits registerBits : Option BitRange} :
    (if base.isEmpty || base.contains '[' || base.contains ']' then none
      else some (FieldName.mk (String.ofList base) fieldBits registerBits)) = some name ↔
      (base ≠ [] ∧ ∀ c ∈ base, c ≠ '[' ∧ c ≠ ']') ∧ base = name.base.toList ∧
        fieldBits = name.fieldBits ∧ registerBits = name.registerBits := by
  have hguard : ¬(base.isEmpty || base.contains '[' || base.contains ']') = true ↔
      base ≠ [] ∧ ∀ c ∈ base, c ≠ '[' ∧ c ≠ ']' := by
    simp only [Bool.or_eq_true, List.isEmpty_iff, List.contains_iff_mem, not_or, and_assoc,
      forall₂_and, List.forall_mem_ne', ne_eq]
  rw [Option.ite_none_left_eq_some, hguard, Option.some.injEq]
  refine and_congr_right fun _ ↦ ?_
  constructor
  · rintro rfl
    exact ⟨String.toList_ofList.symm, rfl, rfl⟩
  · rintro ⟨rfl, rfl, rfl⟩
    rw [String.ofList_toList]

/-- The base of a name is what is left when the brackets have been taken off. -/
theorem ofChars?_eq_some_iff_stripRange? {name : FieldName} :
    ofChars? cs = some name ↔
      ∃ rest, stripRange? (Text.trim cs) = some (rest, name.registerBits) ∧
        (match name.registerBits with
          | some _ => stripRange? rest
          | none => some (rest, none)) = some (name.base.toList, name.fieldBits) ∧
        name.base.toList ≠ [] ∧ ∀ c ∈ name.base.toList, c ≠ '[' ∧ c ≠ ']' := by
  simp only [ofChars?, Option.bind_eq_bind, Option.bind_eq_some_iff, Option.pure_def, Prod.exists]
  refine exists_congr fun rest ↦ ?_
  constructor
  · rintro ⟨_ | range, hinner, h⟩
    · obtain ⟨hbase, rfl, hfield, hregister⟩ := ite_base_eq_some_iff.1 h
      rw [← hregister, ← hfield]
      exact ⟨hinner, rfl, hbase⟩
    · obtain ⟨⟨base, fieldBits⟩, houter, h⟩ := Option.bind_eq_some_iff.1 h
      obtain ⟨hbase, rfl, rfl, hregister⟩ := ite_base_eq_some_iff.1 h
      rw [← hregister]
      exact ⟨hinner, houter, hbase⟩
  · rintro ⟨hinner, houter, hbase⟩
    refine ⟨name.registerBits, hinner, ?_⟩
    cases hregister : name.registerBits with
    | none =>
      rw [hregister] at houter
      obtain ⟨hrest, hfield⟩ := Prod.mk.inj (Option.some.inj houter)
      exact ite_base_eq_some_iff.2 ⟨hrest ▸ hbase, hrest, hfield, hregister.symm⟩
    | some range =>
      rw [hregister] at houter
      exact Option.bind_eq_some_iff.2
        ⟨_, houter, ite_base_eq_some_iff.2 ⟨hbase, rfl, rfl, hregister.symm⟩⟩

/-- Two brackets are taken off one after the other, a single one as the bits inside the register. -/
theorem stripRange?_twice_iff {fieldBits registerBits : Option BitRange}
    (hbase : ∀ c ∈ base, c ≠ ']') :
    (EndsSolid cs ∧ ∃ rest, stripRange? cs = some (rest, registerBits) ∧
      (match registerBits with
        | some _ => stripRange? rest
        | none => some (rest, none)) = some (base, fieldBits)) ↔
      EndsSolid base ∧ (∀ range ∈ fieldBits, Nameable range) ∧
        (∀ range ∈ registerBits, Nameable range) ∧ (registerBits = none → fieldBits = none) ∧
        ∃ outer inner, Annotates fieldBits outer ∧ Annotates registerBits inner ∧
          cs = base ++ (outer ++ inner) := by
  cases registerBits with
  | none =>
    constructor
    · rintro ⟨hsolid, rest, hinner, houter⟩
      obtain ⟨rfl, rfl⟩ := Prod.mk.inj (Option.some.inj houter)
      obtain ⟨hbase, hnameable, inner, hannotates, hcs⟩ :=
        (stripRange?_base_iff hbase).1 ⟨hsolid, hinner⟩
      exact ⟨hbase, hnameable, hnameable, fun _ ↦ rfl, [], inner, rfl, hannotates, hcs⟩
    · rintro ⟨hsolid, -, hnameable, hnone, outer, inner, houter, hinner, rfl⟩
      obtain rfl := hnone rfl
      obtain rfl : outer = [] := houter
      obtain ⟨hsolid, hstrip⟩ :=
        (stripRange?_base_iff hbase).2 ⟨hsolid, hnameable, inner, hinner, rfl⟩
      exact ⟨hsolid, base, hstrip, rfl⟩
  | some range =>
    constructor
    · rintro ⟨-, rest, hinner, houter⟩
      obtain ⟨hregister, hsolid, inner, hannotates, rfl⟩ := stripRange?_eq_some_some_iff.1 hinner
      obtain ⟨hbase, hfield, outer, hannotated, rfl⟩ :=
        (stripRange?_base_iff hbase).1 ⟨hsolid, houter⟩
      exact ⟨hbase, hfield, fun _ h ↦ Option.some.inj h ▸ hregister, fun h ↦ (nomatch h), outer,
        inner, hannotated, hannotates, List.append_assoc _ _ _⟩
    · rintro ⟨hsolid, hfield, hregister, -, outer, inner, houter, hinner, rfl⟩
      obtain ⟨hsolid, hstrip⟩ := (stripRange?_base_iff hbase).2 ⟨hsolid, hfield, outer, houter, rfl⟩
      rw [← List.append_assoc]
      exact ⟨hinner.endsSolid hsolid, _,
        stripRange?_eq_some_some_iff.2 ⟨hregister range rfl, hsolid, inner, hinner, rfl⟩, hstrip⟩

/-- A text is read as a name exactly if it is a way to write a name that can be written. -/
theorem ofChars?_eq_some_iff {name : FieldName} :
    ofChars? cs = some name ↔ name.WellFormed ∧ name.IsWritten cs := by
  rw [ofChars?_eq_some_iff_stripRange?]
  constructor
  · rintro ⟨rest, hinner, houter, hne, hplain⟩
    obtain ⟨⟨hhead, hlast⟩, hpadded⟩ := Text.trim_eq_iff.1 (Eq.refl (Text.trim cs))
    obtain ⟨hsolid, hfield, hregister, hnone, outer, inner, hannotated, hannotates, htoken⟩ :=
      (stripRange?_twice_iff fun c hc ↦ (hplain c hc).2).1 ⟨hlast, rest, hinner, houter⟩
    rw [htoken, List.head?_append_of_ne_nil _ hne] at hhead
    rw [htoken] at hpadded
    exact ⟨⟨hne, ⟨hhead, hsolid⟩, hplain, hfield, hregister, hnone⟩, outer, inner, hannotated,
      hannotates, hpadded⟩
  · rintro ⟨⟨hne, ⟨hhead, hsolid⟩, hplain, hfield, hregister, hnone⟩, outer, inner, hannotated,
      hannotates, hpadded⟩
    obtain ⟨hlast, rest, hinner, houter⟩ :=
      (stripRange?_twice_iff fun c hc ↦ (hplain c hc).2).2
        ⟨hsolid, hfield, hregister, hnone, outer, inner, hannotated, hannotates, rfl⟩
    have htoken : Text.trim cs = name.base.toList ++ (outer ++ inner) := by
      refine Text.trim_eq_iff.2 ⟨⟨?_, hlast⟩, hpadded⟩
      rwa [List.head?_append_of_ne_nil _ hne]
    rw [htoken]
    exact ⟨rest, hinner, houter, hne, hplain⟩

theorem ofText?_eq_some_iff {text : String} {name : FieldName} :
    ofText? text = some name ↔ name.WellFormed ∧ name.IsWritten text.toList :=
  ofChars?_eq_some_iff

/-- The bits of a field that an annotation names are in order. -/
theorem low_le_high_of_ofText? {text : String} {name : FieldName} (h : ofText? text = some name)
    {range : BitRange} (hrange : name.fieldBits = some range) : range.low ≤ range.high :=
  ((ofText?_eq_some_iff.1 h).1.nameable_fieldBits range hrange).1

theorem isBitText_decimalChars (n : Nat) : IsBitText n (Numeral.decimalChars n) :=
  ⟨_, Numeral.isNumeral_toDigits 10 n, Text.padded_refl _⟩

theorem annotates_rangeChars (bits : Option BitRange) :
    Annotates bits ((bits.map rangeChars).getD []) := by
  cases bits with
  | none => rfl
  | some range =>
    refine ⟨[], _, List.forall_mem_nil _, .inl ⟨_, _, isBitText_decimalChars range.high,
      isBitText_decimalChars range.low, rfl⟩, ?_⟩
    simp [rangeChars]

theorem isWritten_text (name : FieldName) : name.IsWritten name.text.toList := by
  refine ⟨_, _, annotates_rangeChars name.fieldBits, annotates_rangeChars name.registerBits, ?_⟩
  rw [text, String.toList_ofList, List.append_assoc]
  exact Text.padded_refl _

/-- A text is read as a field name if and only if it is a way to write this name and the name can be
written. -/
theorem ofText?_reads_annotations :
    (∀ text name, ofText? text = some name ↔ name.WellFormed ∧ name.IsWritten text.toList) ∧
    ∀ text name, ofText? text = some name → ofText? name.text = some name := by
  refine ⟨fun text name ↦ ofText?_eq_some_iff, fun text name h ↦ ?_⟩
  exact ofText?_eq_some_iff.2 ⟨(ofText?_eq_some_iff.1 h).1, name.isWritten_text⟩

/-- A name with blanks wherever they may stand, a plus sign, a leading zero and a range of one
bit. -/
theorem ofText?_reads_annotations_padded :
    let name : FieldName := ⟨"PLL_N", some ⟨16, 17⟩, some ⟨1, 1⟩⟩
    ofText? " PLL_N [ 17:+16 ]\t[01] " = some name ∧ name.WellFormed ∧
      name.text = "PLL_N[17:16][1:1]" ∧ ofText? name.text = some name := by
  intro name
  have hread : ofText? " PLL_N [ 17:+16 ]\t[01] " = some name := by decide +kernel
  exact ⟨hread, ((ofText?_reads_annotations.1 _ _).1 hread).1, by decide +kernel,
    ofText?_reads_annotations.2 _ _ hread⟩

end FieldName

end ChipConfig
