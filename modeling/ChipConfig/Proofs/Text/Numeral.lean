import ChipConfig.Text.Blank
import ChipConfig.Text.Numeral
import Mathlib

/-!
# Numerals are read as they are written

A numeral is written with the digits of its radix, the most significant one first, perhaps with
zeros in front and behind a `0x` mark.  Reading it gives the number back.  None of its characters is
a blank or opens a comment, so a numeral is one word of a line.
-/

namespace ChipConfig

theorem Radix.one_lt_base (radix : Radix) : 1 < radix.base := by
  cases radix <;> decide

theorem Radix.base_le (radix : Radix) : radix.base ≤ 16 := by
  cases radix <;> decide

namespace Numeral

variable {base : Nat}

theorem digitValue?_digitChar {d : Nat} (hd : d < 16) : digitValue? (Nat.digitChar d) = some d := by
  interval_cases d <;> rfl

theorem digit?_digitChar {d : Nat} (hbase : base ≤ 16) (hd : d < base) :
    digit? base (Nat.digitChar d) = some d := by
  rw [digit?, digitValue?_digitChar (hd.trans_le hbase), Option.filter_some]
  simp [hd]

theorem exists_digitChar_of_mem_toDigits (hbase : 1 < base) {n : Nat} {c : Char}
    (h : c ∈ Nat.toDigits base n) : ∃ d < base, c = Nat.digitChar d := by
  induction n using Nat.strongRecOn with
  | _ n ih =>
    rw [Nat.toDigits_eq_if hbase] at h
    split at h
    · next hlt => exact ⟨n, hlt, List.mem_singleton.1 h⟩
    · next hge =>
      rcases List.mem_append.1 h with hfirst | hlast
      · exact ih (n / base) (Nat.div_lt_self (by omega) hbase) hfirst
      · exact ⟨n % base, Nat.mod_lt _ (by omega), List.mem_singleton.1 hlast⟩

/-- The first digit of a number is no zero, if the number is none. -/
theorem toDigits_ne_zero_cons (hone : 1 < base) (hbase : base ≤ 16) {n : Nat} (hn : n ≠ 0)
    (rest : List Char) : Nat.toDigits base n ≠ '0' :: rest := by
  induction n using Nat.strongRecOn generalizing rest with
  | _ n ih =>
    rw [Nat.toDigits_eq_if hone]
    split
    · next hlt =>
      intro h
      have hvalue := digitValue?_digitChar (hlt.trans_le hbase)
      rw [(List.cons.inj h).1] at hvalue
      exact hn (Option.some.inj hvalue).symm
    · next hge =>
      intro h
      have hquotient : n / base ≠ 0 := Nat.div_ne_zero_iff.2 ⟨by omega, by omega⟩
      rcases List.append_eq_cons_iff.1 h with ⟨hnil, -⟩ | ⟨later, hlater, -⟩
      · exact Nat.toDigits_ne_nil hnil
      · exact ih (n / base) (Nat.div_lt_self (by omega) hone) hquotient later hlater

theorem valueFrom?_append (start : Nat) (xs ys : List Char) :
    valueFrom? base start (xs ++ ys) =
      (valueFrom? base start xs).bind fun value ↦ valueFrom? base value ys := by
  induction xs generalizing start with
  | nil => rfl
  | cons c rest ih =>
    rw [List.cons_append, valueFrom?, valueFrom?]
    cases digit? base c with
    | none => rfl
    | some d => exact ih _

theorem valueFrom?_zeros (hbase : 0 < base) (count : Nat) (cs : List Char) :
    valueFrom? base 0 (List.replicate count '0' ++ cs) = valueFrom? base 0 cs := by
  have hzero : digit? base '0' = some 0 := by
    simp [digit?, digitValue?, hbase]
  induction count with
  | zero => rfl
  | succ count ih =>
    rw [List.replicate_succ, List.cons_append, valueFrom?, hzero, ← ih]
    simp

/-- The digits of a number have its value. -/
theorem valueFrom?_toDigits (hone : 1 < base) (hbase : base ≤ 16) (n : Nat) :
    valueFrom? base 0 (Nat.toDigits base n) = some n := by
  induction n using Nat.strongRecOn with
  | _ n ih =>
    rw [Nat.toDigits_eq_if hone]
    split
    · next hlt => simp [valueFrom?, digit?_digitChar hbase hlt]
    · next hge =>
      have hlast : n % base < base := Nat.mod_lt _ (by omega)
      rw [valueFrom?_append, ih (n / base) (Nat.div_lt_self (by omega) hone)]
      simp [valueFrom?, digit?_digitChar hbase hlast, Nat.div_add_mod']

/-- Whether a text is made of digits that occur in hexadecimal numerals as they are written. -/
def IsHex (cs : List Char) : Prop :=
  ∀ c ∈ cs, ∃ d < 16, c = Nat.digitChar d

theorem isHex_toDigits (hone : 1 < base) (hbase : base ≤ 16) (n : Nat) :
    IsHex (Nat.toDigits base n) := by
  intro c hc
  obtain ⟨d, hd, rfl⟩ := exists_digitChar_of_mem_toDigits hone hc
  exact ⟨d, hd.trans_le hbase, rfl⟩

theorem isHex_zeros_append (count : Nat) {cs : List Char} (h : IsHex cs) :
    IsHex (List.replicate count '0' ++ cs) := by
  intro c hc
  rcases List.mem_append.1 hc with hzero | hrest
  · exact ⟨0, by decide, List.eq_of_mem_replicate hzero⟩
  · exact h c hrest

/-- The characters that a digit is not: signs, marks, register letters, comments and blanks. -/
theorem IsHex.ne {cs : List Char} (h : IsHex cs) {c : Char} (hc : c ∈ cs) :
    c ≠ '+' ∧ c ≠ 'x' ∧ c ≠ 'X' ∧ c ≠ 'R' ∧ c ≠ 'r' ∧ c ≠ '#' ∧ Text.isBlank c = false := by
  obtain ⟨d, hd, rfl⟩ := h c hc
  interval_cases d <;> decide

theorem natural?_of_isHex {cs : List Char} (hne : cs ≠ []) (h : IsHex cs) :
    natural? base cs = valueFrom? base 0 cs := by
  cases cs with
  | nil => exact absurd rfl hne
  | cons c rest =>
    have hplus := (h.ne List.mem_cons_self).1
    rw [natural?]
    · rfl
    · intro digits hcons
      exact hplus (List.cons.inj hcons).1

theorem stripHexMark?_of_isHex {cs : List Char} (h : IsHex cs) : stripHexMark? cs = none := by
  unfold stripHexMark?
  split
  · next rest => exact absurd rfl (h.ne (List.mem_cons_of_mem _ List.mem_cons_self)).2.1
  · next rest => exact absurd rfl (h.ne (List.mem_cons_of_mem _ List.mem_cons_self)).2.2.1
  · rfl

/-- Digits with zeros in front are read as their number, if it is below the bound. -/
theorem bounded?_zeros_append_toDigits {bound : Nat} (hone : 1 < base) (hbase : base ≤ 16)
    (count : Nat) {n : Nat} (hn : n < bound) :
    bounded? base bound (List.replicate count '0' ++ Nat.toDigits base n) = some n := by
  have hne : List.replicate count '0' ++ Nat.toDigits base n ≠ [] :=
    List.append_ne_nil_of_right_ne_nil _ Nat.toDigits_ne_nil
  rw [bounded?, natural?_of_isHex hne (isHex_zeros_append count (isHex_toDigits hone hbase n)),
    valueFrom?_zeros (by omega), valueFrom?_toDigits hone hbase]
  simp [hn]

/-- A numeral with a `0x` mark is read in any radix, whatever it is padded to. -/
theorem word?_paddedHexChars (radix : Radix) (minDigits : Nat) {n : Nat} (hn : n < UInt64.size) :
    word? radix (paddedHexChars minDigits n) = some n :=
  bounded?_zeros_append_toDigits (by decide) (by decide) _ hn

/-- A number without a mark is read in the radix that it is written in. -/
theorem word?_toDigits (radix : Radix) {n : Nat} (hn : n < UInt64.size) :
    word? radix (Nat.toDigits radix.base n) = some n := by
  have hone := radix.one_lt_base
  have hbase := radix.base_le
  rw [word?, stripHexMark?_of_isHex (isHex_toDigits hone hbase n)]
  exact bounded?_zeros_append_toDigits hone hbase 0 hn

theorem word?_decimalChars {n : Nat} (hn : n < UInt64.size) :
    word? .decimal (decimalChars n) = some n :=
  word?_toDigits .decimal hn

/-- No numeral is read that reaches the bound. -/
theorem lt_of_word? {radix : Radix} {cs : List Char} {n : Nat} (h : word? radix cs = some n) :
    n < UInt64.size := by
  have hbounded (base : Nat) (digits : List Char) (h : bounded? base UInt64.size digits = some n) :
      n < UInt64.size :=
    of_decide_eq_true (Option.filter_eq_some_iff.1 h).2
  rw [word?] at h
  split at h
  · next digits _ => exact hbounded _ digits h
  · exact hbounded _ cs h

end Numeral

end ChipConfig
