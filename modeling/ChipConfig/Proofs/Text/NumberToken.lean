import ChipConfig.Proofs.Text.Spelling
import ChipConfig.Word

/-!
# Number tokens

A number token is a run of digits, perhaps after a plus sign; a `0x` mark in front of it makes the
digits hexadecimal in every radix.  A token stands for one number, the positional value of its
digits, and is read as this number if the number fits 64 bits.  Nothing wraps around, however many
digits there are, and every number is read from its own tokens.
-/

namespace ChipConfig.Numeral

variable {base m n : Nat} {cs digits : List Char}

/-- Whether a character is a digit of a radix, as a small letter or as a capital one. -/
def IsDigit (base d : Nat) (c : Char) : Prop :=
  d < base ∧ c.toLower = Nat.digitChar d

instance (base d : Nat) (c : Char) : Decidable (IsDigit base d c) :=
  inferInstanceAs (Decidable (_ ∧ _))

/-- Whether a text is one or more digits with that positional value, the most significant digit
first. -/
def HasValue (base n : Nat) (digits : List Char) : Prop :=
  digits ≠ [] ∧ ∃ values, List.Forall₂ (IsDigit base) values digits ∧
    n = Nat.ofDigits base values.reverse

/-- Digits that go on with a number move it up by one place each. -/
theorem valueFrom?_eq_some_iff (hbase : base ≤ 16) {start : Nat} :
    valueFrom? base start cs = some n ↔
      ∃ values, List.Forall₂ (IsDigit base) values cs ∧
        n = Nat.ofDigits base values.reverse + base ^ values.length * start := by
  induction cs generalizing start with
  | nil =>
    simp only [valueFrom?, List.forall₂_nil_right_iff, exists_eq_left, Option.some.injEq]
    simp [eq_comm]
  | cons c cs ih =>
    have hplace (d : Nat) (values : List Nat) :
        Nat.ofDigits base (d :: values).reverse + base ^ (d :: values).length * start =
          Nat.ofDigits base values.reverse + base ^ values.length * (start * base + d) := by
      rw [Nat.ofDigits_reverse_cons, List.length_cons]
      ring
    simp only [valueFrom?, Option.bind_eq_bind, Option.bind_eq_some_iff, digit?_eq_some_iff hbase,
      ih, List.forall₂_cons_right_iff]
    constructor
    · rintro ⟨d, hd, values, hvalues, rfl⟩
      exact ⟨d :: values, ⟨d, values, hd, hvalues, rfl⟩, (hplace d values).symm⟩
    · rintro ⟨_, ⟨d, values, hd, hvalues, rfl⟩, rfl⟩
      exact ⟨d, hd, values, hvalues, hplace d values⟩

/-- The number that digits spell is their positional value. -/
theorem spells_iff_hasValue (hone : 1 < base) (hbase : base ≤ 16) :
    Spells base n digits ↔ HasValue base n digits := by
  rw [← digits?_eq_some_iff hone hbase]
  cases digits with
  | nil => exact iff_of_false (fun h ↦ nomatch h) fun h ↦ h.1 rfl
  | cons c cs =>
    change valueFrom? base 0 (c :: cs) = some n ↔ _
    rw [valueFrom?_eq_some_iff hbase, HasValue, and_iff_right (List.cons_ne_nil c cs)]
    simp only [Nat.mul_zero, Nat.add_zero]

/-- Whether a token stands for a number: a `0x` mark and hexadecimal digits of this value, or digits
of this value in the given radix, with at most one plus sign before the digits. -/
def IsToken (radix : Radix) (n : Nat) (token : List Char) : Prop :=
  ∃ base mark sign digits,
    (base = radix.base ∧ mark = [] ∨ base = 16 ∧ (mark = ['0', 'x'] ∨ mark = ['0', 'X'])) ∧
      (sign = [] ∨ sign = ['+']) ∧ HasValue base n digits ∧ token = mark ++ (sign ++ digits)

theorem isNumeral_iff (hone : 1 < base) (hbase : base ≤ 16) :
    IsNumeral base n cs ↔
      ∃ sign digits, (sign = [] ∨ sign = ['+']) ∧ HasValue base n digits ∧ cs = sign ++ digits := by
  simp only [IsNumeral, spells_iff_hasValue hone hbase]
  constructor
  · rintro ⟨digits, hvalue, rfl | rfl⟩
    · exact ⟨[], _, .inl rfl, hvalue, rfl⟩
    · exact ⟨['+'], digits, .inr rfl, hvalue, rfl⟩
  · rintro ⟨sign, digits, rfl | rfl, hvalue, rfl⟩
    · exact ⟨_, hvalue, .inl rfl⟩
    · exact ⟨_, hvalue, .inr rfl⟩

theorem stripHexMark?_eq_some_iff :
    stripHexMark? cs = some digits ↔
      ∃ mark, (mark = ['0', 'x'] ∨ mark = ['0', 'X']) ∧ cs = mark ++ digits := by
  constructor
  · intro h
    unfold stripHexMark? at h
    split at h
    · obtain rfl := Option.some.inj h
      exact ⟨_, .inl rfl, rfl⟩
    · obtain rfl := Option.some.inj h
      exact ⟨_, .inr rfl, rfl⟩
    · cases h
  · rintro ⟨mark, rfl | rfl, rfl⟩ <;> rfl

/-- A token is a numeral of the radix, or a mark and a hexadecimal numeral. -/
theorem isToken_iff {radix : Radix} :
    IsToken radix n cs ↔
      IsNumeral radix.base n cs ∨
        ∃ digits, stripHexMark? cs = some digits ∧ IsNumeral 16 n digits := by
  simp only [isNumeral_iff radix.one_lt_base radix.base_le,
    isNumeral_iff (by decide : 1 < 16) (le_refl 16), stripHexMark?_eq_some_iff]
  constructor
  · rintro ⟨base, mark, sign, digits, ⟨rfl, rfl⟩ | ⟨rfl, hmark⟩, hsign, hvalue, rfl⟩
    · exact .inl ⟨sign, digits, hsign, hvalue, rfl⟩
    · exact .inr ⟨_, ⟨mark, hmark, rfl⟩, sign, digits, hsign, hvalue, rfl⟩
  · rintro (⟨sign, digits, hsign, hvalue, rfl⟩ |
      ⟨_, ⟨mark, hmark, rfl⟩, sign, digits, hsign, hvalue, rfl⟩)
    · exact ⟨_, [], sign, digits, .inl ⟨rfl, rfl⟩, hsign, hvalue, rfl⟩
    · exact ⟨16, mark, sign, digits, .inr ⟨rfl, hmark⟩, hsign, hvalue, rfl⟩

theorem isToken_of_stripHexMark? {radix : Radix} (h : stripHexMark? cs = some digits) :
    IsToken radix n cs ↔ IsNumeral 16 n digits := by
  simp only [isToken_iff, h, Option.some.injEq, exists_eq_left']
  refine or_iff_right fun hbare ↦ ?_
  -- a numeral has no mark
  rw [hbare.stripHexMark? radix.one_lt_base radix.base_le] at h
  cases h

theorem isToken_of_stripHexMark?_eq_none {radix : Radix} (h : stripHexMark? cs = none) :
    IsToken radix n cs ↔ IsNumeral radix.base n cs := by
  simp [isToken_iff, h]

theorem IsNumeral.unique (hone : 1 < base) (hbase : base ≤ 16) (hm : IsNumeral base m cs)
    (hn : IsNumeral base n cs) : m = n := by
  rw [← natural?_eq_some_iff hone hbase] at hm hn
  exact Option.some.inj (hm.symm.trans hn)

theorem IsToken.unique {radix : Radix} (hm : IsToken radix m cs) (hn : IsToken radix n cs) :
    m = n := by
  cases hmark : Numeral.stripHexMark? cs with
  | none =>
    rw [isToken_of_stripHexMark?_eq_none hmark] at hm hn
    exact hm.unique radix.one_lt_base radix.base_le hn
  | some digits =>
    rw [isToken_of_stripHexMark? hmark] at hm hn
    exact hm.unique (by decide) (le_refl 16) hn

theorem word?_eq_some_iff {radix : Radix} :
    word? radix cs = some n ↔ n < 2 ^ 64 ∧ IsToken radix n cs := by
  have hsize : UInt64.size = 2 ^ 64 := rfl
  unfold word?
  split
  · next digits hmark =>
    rw [bounded?_eq_some_iff (by decide) (le_refl 16), isToken_of_stripHexMark? hmark, hsize]
  · next hmark =>
    rw [bounded?_eq_some_iff radix.one_lt_base radix.base_le,
      isToken_of_stripHexMark?_eq_none hmark, hsize]

/-- A token is read as the one number that it stands for, if this is below `2 ^ 64`. -/
theorem word?_reads_value (radix : Radix) :
    (∀ (text : String) n,
      word? radix text.toList = some n ↔ n < 2 ^ 64 ∧ IsToken radix n text.toList) ∧
    (∀ text : String,
      word? radix text.toList = none ↔ ∀ n, IsToken radix n text.toList → 2 ^ 64 ≤ n) ∧
    (∀ (text : String) m n,
      IsToken radix m text.toList → IsToken radix n text.toList → m = n) ∧
    (∀ minDigits (value : Word),
      word? radix (paddedHexChars minDigits value.toNat) = some value.toNat) ∧
    ∀ value : Word, word? radix (Nat.toDigits radix.base value.toNat) = some value.toNat := by
  refine ⟨fun text n ↦ word?_eq_some_iff, fun text ↦ ?_, fun text m n hm hn ↦ hm.unique hn,
    fun minDigits value ↦ word?_paddedHexChars radix minDigits value.isLt,
    fun value ↦ word?_toDigits radix value.isLt⟩
  simp only [Option.eq_none_iff_forall_ne_some, ne_eq, word?_eq_some_iff, not_and]
  exact forall_congr' fun n ↦ imp_not_comm.trans (imp_congr_right fun _ ↦ Nat.not_lt)

/-- A marked token with zeros, a plus sign and letters of either case, and a token one above the
largest number. -/
theorem word?_reads_value_marked :
    IsToken .decimal 255 "0x+00fF".toList ∧ word? .decimal "0x+00fF".toList = some 255 ∧
      IsToken .decimal (2 ^ 64) "18446744073709551616".toList ∧
      word? .decimal "18446744073709551616".toList = none := by
  obtain ⟨hread, hrefused, hunique, -, -⟩ := word?_reads_value .decimal
  have hmarked : IsToken .decimal 255 "0x+00fF".toList :=
    ⟨16, ['0', 'x'], ['+'], "00fF".toList, .inr ⟨rfl, .inl rfl⟩, .inr rfl,
      ⟨by decide, [0, 0, 15, 15], by decide, by decide⟩, by decide⟩
  have hlarge : IsToken .decimal (2 ^ 64) "18446744073709551616".toList :=
    ⟨10, [], [], "18446744073709551616".toList, .inl ⟨rfl, rfl⟩, .inl rfl,
      ⟨by decide, [1, 8, 4, 4, 6, 7, 4, 4, 0, 7, 3, 7, 0, 9, 5, 5, 1, 6, 1, 6], by decide,
        by decide⟩,
      by decide⟩
  exact ⟨hmarked, (hread _ _).2 ⟨by decide, hmarked⟩, hlarge,
    (hrefused _).2 fun n hn ↦ (hunique _ _ _ hlarge hn).le⟩

end ChipConfig.Numeral
