import ChipConfig.BitSource
import ChipConfig.Proofs.Listing
import ChipConfig.Proofs.Text.Spelling
import ChipConfig.Proofs.Text.Splitting

/-!
# The tokens of bit sources

A token names a fixed bit, marks a bit that nobody looks at, or refers to a bit of a register.  No
token does two of these, so the order in which the reader tries them does not matter: a token is
read as a source if and only if it stands for this source.  What a source is written as stands for
it.
-/

namespace ChipConfig.BitSource

open Numeral (IsNumeral)
open Text (SameLetters)

/-- Whether a token marks a bit that nobody looks at: a dash or an `X`, any text with `CRC` in it,
and the words `RSVD` and `RESERVED`, all letters being small or capital. -/
def IsMarker (token : List Char) : Prop :=
  token = ['-'] ∨ token = ['X'] ∨ token = ['x'] ∨
    (∃ before check after, token = before ++ (check ++ after) ∧
      SameLetters check "CRC".toList) ∨
    SameLetters token "RSVD".toList ∨ SameLetters token "RESERVED".toList

/-- Whether a token refers to a bit of a register: the letter `R`, small or capital, a numeral of
the register, and a numeral of the bit between brackets. -/
def IsReference (place : RegisterBit) (token : List Char) : Prop :=
  ∃ letter outer inner, (letter = 'R' ∨ letter = 'r') ∧
    IsNumeral 10 place.register.toNat outer ∧ IsNumeral 10 place.bit.toNat inner ∧
    token = letter :: (outer ++ '[' :: (inner ++ [']']))

/-- Whether a token stands for a source. -/
def Denotes (token : List Char) : BitSource → Prop
  | constant value => token = [if value then '1' else '0']
  | ignored => IsMarker token
  | register place => IsReference place token

theorem upper_eq_upper_iff {cs ds : List Char} :
    Text.upper cs = Text.upper ds ↔ SameLetters cs ds := by
  constructor
  · intro h
    have hlower := congrArg (List.map Char.toLower) h
    simpa [Text.upper, SameLetters, Function.comp_def] using hlower
  · intro h
    have hupper := congrArg (List.map Char.toUpper) h
    simpa [Text.upper, Function.comp_def] using hupper

theorem occursIn_upper_iff {mark token : List Char} (hmark : Text.upper mark = mark) :
    Text.occursIn mark (Text.upper token) = true ↔
      ∃ before found after, token = before ++ (found ++ after) ∧ SameLetters found mark := by
  rw [Text.occursIn_eq_true_iff]
  constructor
  · rintro ⟨first, last, h⟩
    obtain ⟨before, rest, rfl, -, hrest⟩ := List.map_eq_append_iff.1 h
    obtain ⟨found, after, rfl, hfound, -⟩ := List.map_eq_append_iff.1 hrest
    exact ⟨before, found, after, rfl, upper_eq_upper_iff.1 (hfound.trans hmark.symm)⟩
  · rintro ⟨before, found, after, rfl, h⟩
    refine ⟨Text.upper before, Text.upper after, ?_⟩
    rw [← hmark, ← upper_eq_upper_iff.2 h]
    simp [Text.upper]

@[simp]
theorem upper_eq_x_iff {token : List Char} :
    Text.upper token = ['X'] ↔ token = ['X'] ∨ token = ['x'] := by
  constructor
  · intro h
    have hsame : SameLetters token ['X'] := upper_eq_upper_iff.1 h
    obtain ⟨c, rfl, hc⟩ := List.map_eq_singleton_iff.1 hsame
    have hnat := congrArg Char.toNat hc
    rw [Text.toNat_toLower] at hnat
    have hcases : c.toNat = 'X'.toNat ∨ c.toNat = 'x'.toNat := by
      change _ = 120 at hnat
      change c.toNat = 88 ∨ c.toNat = 120
      split at hnat <;> omega
    rcases hcases with h | h
    · rw [Char.toNat_inj.1 h]
      exact .inl rfl
    · rw [Char.toNat_inj.1 h]
      exact .inr rfl
  · rintro (rfl | rfl) <;> rfl

@[simp]
theorem isIgnoredToken_iff {token : List Char} :
    isIgnoredToken token = true ↔ IsMarker token := by
  have hword {mark : List Char} (hmark : Text.upper mark = mark) :
      Text.upper token = mark ↔ SameLetters token mark := by
    rw [← upper_eq_upper_iff, hmark]
  have hcheck : Text.occursIn ['C', 'R', 'C'] (Text.upper token) = true ↔
      ∃ before check after, token = before ++ (check ++ after) ∧
        SameLetters check "CRC".toList := occursIn_upper_iff (by decide)
  have hreserved := hword (show Text.upper "RESERVED".toList = _ by decide)
  have hrsvd := hword (show Text.upper "RSVD".toList = _ by decide)
  simp only [isIgnoredToken, IsMarker, Bool.or_eq_true, decide_eq_true_eq, upper_eq_x_iff, hcheck,
    hrsvd, hreserved, or_assoc]

theorem number?_eq_some_iff {cs : List Char} {n : UInt32} :
    number? cs = some n ↔ IsNumeral 10 n.toNat cs := by
  rw [number?, Option.map_eq_some_iff]
  simp only [Numeral.bounded?_eq_some_iff (by decide : 1 < 10) (by decide : 10 ≤ 16)]
  constructor
  · rintro ⟨value, ⟨hlt, hnumeral⟩, rfl⟩
    rwa [UInt32.toNat_ofNat_of_lt' hlt]
  · intro h
    exact ⟨n.toNat, ⟨n.toNat_lt_size, h⟩, UInt32.ofNat_toNat⟩

theorem registerBit?_cons {letter : Char} (hletter : letter = 'R' ∨ letter = 'r')
    (reference : List Char) :
    registerBit? (letter :: reference) = do
      let (outer, rest) ← Text.splitFirst? '[' reference
      let inner ← Text.stripLast? ']' rest
      return ⟨← number? outer, ← number? inner⟩ := by
  rcases hletter with rfl | rfl <;> rfl

theorem exists_letter_of_registerBit? {token : List Char} {place : RegisterBit}
    (h : registerBit? token = some place) :
    ∃ letter reference, (letter = 'R' ∨ letter = 'r') ∧ token = letter :: reference := by
  unfold registerBit? at h
  split at h
  · exact ⟨'R', _, .inl rfl, rfl⟩
  · exact ⟨'r', _, .inr rfl, rfl⟩
  · cases h

theorem registerBit?_eq_some_iff {token : List Char} {place : RegisterBit} :
    registerBit? token = some place ↔ IsReference place token := by
  constructor
  · intro h
    obtain ⟨letter, reference, hletter, rfl⟩ := exists_letter_of_registerBit? h
    rw [registerBit?_cons hletter] at h
    obtain ⟨⟨outer, rest⟩, hsplit, h⟩ := Option.bind_eq_some_iff.1 h
    obtain ⟨inner, hstrip, h⟩ := Option.bind_eq_some_iff.1 h
    obtain ⟨r, hregister, h⟩ := Option.bind_eq_some_iff.1 h
    obtain ⟨b, hbit, h⟩ := Option.bind_eq_some_iff.1 h
    obtain rfl := Option.some.inj h
    obtain ⟨rfl, -⟩ := Text.splitFirst?_eq_some_iff.1 hsplit
    obtain rfl := Text.stripLast?_eq_some_iff.1 hstrip
    exact ⟨letter, outer, inner, hletter, number?_eq_some_iff.1 hregister,
      number?_eq_some_iff.1 hbit, rfl⟩
  · rintro ⟨letter, outer, inner, hletter, hregister, hbit, rfl⟩
    have hopen : ∀ c ∈ outer, c ≠ '[' := by
      rintro c hc rfl
      rcases hregister.mem (by decide) (by decide) hc with h | ⟨d, hd, h⟩
      · cases h
      · interval_cases d <;> cases h
    rw [registerBit?_cons hletter, Text.splitFirst?_append hopen]
    simp [number?_eq_some_iff.2 hregister, number?_eq_some_iff.2 hbit]

/-- The characters of a reference: the letter, brackets, digits and plus signs. -/
theorem IsReference.mem {token : List Char} {place : RegisterBit} (h : IsReference place token)
    {c : Char} (hc : c ∈ token) :
    c ∈ ['R', 'r', '[', ']', '+'] ∨ ∃ d < 10, c.toLower = Nat.digitChar d := by
  obtain ⟨letter, outer, inner, hletter, hregister, hbit, rfl⟩ := h
  have hnumeral {n : Nat} {cs : List Char} (hcs : IsNumeral 10 n cs) (hmem : c ∈ cs) :
      c ∈ ['R', 'r', '[', ']', '+'] ∨ ∃ d < 10, c.toLower = Nat.digitChar d :=
    (hcs.mem (by decide) (by decide) hmem).imp_left fun hplus ↦ by simp [hplus]
  simp only [List.mem_cons, List.mem_append, List.not_mem_nil, or_false] at hc
  rcases hc with rfl | hc | rfl | hc | rfl
  · rcases hletter with rfl | rfl <;> simp
  · exact hnumeral hregister hc
  · simp
  · exact hnumeral hbit hc
  · simp

/-- None of the letters and signs of markers occurs in a reference. -/
theorem IsReference.not_isMarker {token : List Char} {place : RegisterBit}
    (h : IsReference place token) : ¬IsMarker token := by
  have hclear {c : Char} (hc : c ∈ token) :
      c.toLower ≠ 'x' ∧ c.toLower ≠ '-' ∧ c.toLower ≠ 's' ∧ c.toLower ≠ 'c' := by
    rcases h.mem hc with hsign | ⟨d, hd, hlower⟩
    · fin_cases hsign <;> decide
    · rw [hlower]
      interval_cases d <;> decide
  have hfree {mark : List Char} (hmark : 's' ∈ mark.map Char.toLower) :
      ¬SameLetters token mark := by
    intro hsame
    rw [← hsame] at hmark
    obtain ⟨c, hc, hlower⟩ := List.mem_map.1 hmark
    exact (hclear hc).2.2.1 hlower
  rintro (rfl | rfl | rfl | ⟨before, check, after, rfl, hcheck⟩ | hword | hword)
  · exact (hclear List.mem_cons_self).2.1 rfl
  · exact (hclear List.mem_cons_self).1 rfl
  · exact (hclear List.mem_cons_self).1 rfl
  · have hletter : 'c' ∈ check.map Char.toLower := by
      rw [hcheck]
      decide
    obtain ⟨c, hc, hlower⟩ := List.mem_map.1 hletter
    exact (hclear (List.mem_append_right _ (List.mem_append_left _ hc))).2.2.2 hlower
  · exact hfree (by decide) hword
  · exact hfree (by decide) hword

theorem not_isMarker_constant (value : Bool) : ¬IsMarker [if value then '1' else '0'] := by
  rw [← isIgnoredToken_iff]
  cases value <;> decide

theorem IsReference.ne_constant {token : List Char} {place : RegisterBit}
    (h : IsReference place token) (value : Bool) : token ≠ [if value then '1' else '0'] := by
  obtain ⟨letter, outer, inner, -, -, -, rfl⟩ := h
  simp

theorem ofChars?_eq_some_iff {token : List Char} {source : BitSource} :
    ofChars? token = some source ↔ Denotes token source := by
  unfold ofChars?
  split_ifs with hzero hone hmarker
  · subst hzero
    cases source with
    | constant value => cases value <;> simp [Denotes]
    | ignored => exact iff_of_false (fun h ↦ nomatch h) (not_isMarker_constant false)
    | register place => exact iff_of_false (fun h ↦ nomatch h) fun h ↦ h.ne_constant false rfl
  · subst hone
    cases source with
    | constant value => cases value <;> simp [Denotes]
    | ignored => exact iff_of_false (fun h ↦ nomatch h) (not_isMarker_constant true)
    | register place => exact iff_of_false (fun h ↦ nomatch h) fun h ↦ h.ne_constant true rfl
  · rw [isIgnoredToken_iff] at hmarker
    cases source with
    | constant value =>
      refine iff_of_false (fun h ↦ nomatch h) fun h ↦ not_isMarker_constant value ?_
      rwa [← show token = _ from h]
    | ignored => exact iff_of_true rfl hmarker
    | register place => exact iff_of_false (fun h ↦ nomatch h) fun h ↦ h.not_isMarker hmarker
  · rw [isIgnoredToken_iff] at hmarker
    rw [Option.map_eq_some_iff]
    cases source with
    | constant value =>
      refine iff_of_false (fun h ↦ by simp at h) fun h ↦ ?_
      cases value
      · exact hzero h
      · exact hone h
    | ignored => exact iff_of_false (fun h ↦ by simp at h) hmarker
    | register place => simp [Denotes, registerBit?_eq_some_iff]

theorem isReference_tokenChars (place : RegisterBit) :
    IsReference place (register place).tokenChars := by
  refine ⟨'R', _, _, .inl rfl, Numeral.isNumeral_toDigits 10 place.register.toNat,
    Numeral.isNumeral_toDigits 10 place.bit.toNat, ?_⟩
  simp [tokenChars, Numeral.decimalChars]

/-- What a source is written as stands for it. -/
theorem denotes_tokenChars (source : BitSource) : Denotes source.tokenChars source := by
  cases source with
  | constant value => cases value <;> rfl
  | ignored => exact .inr (.inl rfl)
  | register place => exact isReference_tokenChars place

theorem isWord_tokenChars (source : BitSource) : Text.IsWord source.tokenChars := by
  cases source with
  | constant value =>
    cases value <;> exact ⟨List.cons_ne_nil _ _, List.forall_mem_singleton.2 (by decide)⟩
  | ignored => exact ⟨List.cons_ne_nil _ _, List.forall_mem_singleton.2 (by decide)⟩
  | register place =>
    refine ⟨List.cons_ne_nil _ _, fun c hc ↦ ?_⟩
    rcases (isReference_tokenChars place).mem hc with hsign | ⟨d, hd, hlower⟩
    · fin_cases hsign <;> decide
    · have hdigit : ∀ d < 10, Text.isBlank (Nat.digitChar d) = false := by decide
      constructor
      · rw [← Text.isBlank_toLower, hlower]
        exact hdigit d hd
      · rintro rfl
        interval_cases d <;> cases hlower

/-- The token of a source names this source. -/
@[simp]
theorem ofToken?_token (source : BitSource) : ofToken? source.token = some source := by
  rw [ofToken?, token, String.toList_ofList, ofChars?_eq_some_iff]
  exact source.denotes_tokenChars

/-- A token is read as the one source that it stands for, and refused if there is none. -/
theorem ofToken?_recognises :
    (∀ token source, ofToken? token = some source ↔ Denotes token.toList source) ∧
    (∀ token first second, Denotes token first → Denotes token second → first = second) ∧
    (∀ token, ofToken? token = none ↔ ∀ source, ¬Denotes token.toList source) ∧
    ∀ source, ofToken? source.token = some source := by
  refine ⟨fun token source ↦ ofChars?_eq_some_iff, fun token first second hfirst hsecond ↦ ?_,
    fun token ↦ ?_, ofToken?_token⟩
  · rw [← ofChars?_eq_some_iff] at hfirst hsecond
    exact Option.some.inj (hfirst.symm.trans hsecond)
  · simp only [Option.eq_none_iff_forall_ne_some, ne_eq, ofToken?, ofChars?_eq_some_iff]

example : ofToken? "r+007[09]" = some (.register ⟨7, 9⟩) := by decide +kernel

end ChipConfig.BitSource
