import ChipConfig.Proofs.Fallible
import ChipConfig.Proofs.Word

/-!
# Bit ranges of words

Reading a range of a word and replacing it succeed for the ranges that lie in order inside the word.
Both are described bit by bit: the bits of the range move down to bit 0 or are taken from the new
value, and a word keeps its other bits when a range is replaced.  So what was put into a range is
read back, and ranges without a common bit do not disturb each other.
-/

namespace ChipConfig.BitRange

variable {range : BitRange} {width : Width}

/-- Whether a range lies in order inside a word. -/
def Within (range : BitRange) (width : Width) : Prop :=
  range.low ≤ range.high ∧ range.high < width.bits

instance (range : BitRange) (width : Width) : Decidable (range.Within width) :=
  inferInstanceAs (Decidable (_ ∧ _))

/-- Whether a bit is one of the range. -/
def Covers (range : BitRange) (i : Nat) : Prop :=
  range.low ≤ i ∧ i ≤ range.high

instance (range : BitRange) (i : Nat) : Decidable (range.Covers i) :=
  inferInstanceAs (Decidable (_ ∧ _))

theorem length_pos (range : BitRange) : 0 < range.length :=
  Nat.succ_pos _

theorem Within.low_add_length (h : range.Within width) :
    range.low + range.length = range.high + 1 := by
  have := h.1
  unfold length
  omega

@[simp]
theorem check_eq_ok_iff {length : Nat} :
    range.check width = .ok length ↔ range.Within width ∧ length = range.length := by
  have hwithin : range.low < width.bits ∧ range.high < width.bits ∧ range.low ≤ range.high ↔
      range.Within width := by
    unfold Within
    omega
  simp [check, BitRange.length, ← hwithin, and_assoc]

def slice (range : BitRange) (width : Width) (word : Word) : Word :=
  ((word &&& width.mask) >>> range.low) &&& Word.lowMask range.length

@[simp]
theorem extract_eq_ok_iff {word part : Word} :
    range.extract width word = .ok part ↔
      range.Within width ∧ part = range.slice width word := by
  simp [extract, slice]

theorem getLsbD_slice (h : range.Within width) (word : Word) (i : Nat) :
    (range.slice width word).getLsbD i =
      (decide (i < range.length) && word.getLsbD (range.low + i)) := by
  have hlength := h.low_add_length
  have hhigh := h.2
  have hmax := width.le_max
  rw [slice, BitVec.getLsbD_and, BitVec.getLsbD_ushiftRight, BitVec.getLsbD_and, Width.mask,
    Word.getLsbD_lowMask, Word.getLsbD_lowMask]
  by_cases hi : i < range.length
  · have hwidth : range.low + i < width.bits := by omega
    have hword : range.low + i < 64 := by omega
    simp [hi, hwidth, hword, show i < 64 by omega]
  · simp [hi]

def splice (range : BitRange) (width : Width) (word value : Word) : Word :=
  ((word &&& ~~~(Word.lowMask range.length <<< range.low)) ||| (value <<< range.low)) &&&
    width.mask

theorem insert_eq_ok_iff {word value result : Word} :
    range.insert width word value = .ok result ↔
      range.Within width ∧ (∀ i, range.length ≤ i → value.getLsbD i = false) ∧
        result = range.splice width word value := by
  simp [insert, splice, ← Word.and_complement_lowMask_eq_zero_iff]

/-- A value that is short enough is refused only for the sake of the range. -/
theorem insert_eq_error_iff {word value : Word} {cause : BitError}
    (hvalue : ∀ i, range.length ≤ i → value.getLsbD i = false) :
    range.insert width word value = .error cause ↔ range.check width = .error cause := by
  unfold insert
  rw [Fallible.bind_eq_error_iff, or_iff_left]
  rintro ⟨length, hlength, hrest⟩
  obtain ⟨-, rfl⟩ := check_eq_ok_iff.1 hlength
  rw [if_neg (not_not.2 (Word.and_complement_lowMask_eq_zero_iff.2 hvalue))] at hrest
  cases hrest

theorem fits_splice (range : BitRange) (width : Width) (word value : Word) :
    width.Fits (range.splice width word value) := by
  rw [Width.fits_iff]
  intro i hi
  rw [splice, BitVec.getLsbD_and, Width.mask, Word.getLsbD_lowMask]
  simp [show ¬i < width.bits by omega]

theorem getLsbD_splice (h : range.Within width) {value : Word}
    (hvalue : ∀ i, range.length ≤ i → value.getLsbD i = false) (word : Word) {i : Nat}
    (hi : i < width.bits) :
    (range.splice width word value).getLsbD i =
      if range.Covers i then value.getLsbD (i - range.low) else word.getLsbD i := by
  have hlength := h.low_add_length
  have hword : i < 64 := hi.trans_le width.le_max
  rw [splice, BitVec.getLsbD_and, BitVec.getLsbD_or, BitVec.getLsbD_and, BitVec.getLsbD_not,
    BitVec.getLsbD_shiftLeft, BitVec.getLsbD_shiftLeft, Width.mask, Word.getLsbD_lowMask,
    Word.getLsbD_lowMask]
  split
  · next hcovers =>
    obtain ⟨hlow, hhigh⟩ := hcovers
    simp [hi, hword, show ¬i < range.low by omega, show i - range.low < range.length by omega,
      show i - range.low < 64 by omega]
  · next hcovers =>
    by_cases hlow : i < range.low
    · simp [hi, hword, hlow]
    · have habove : range.length ≤ i - range.low := by
        by_contra hlt
        exact hcovers ⟨by omega, by omega⟩
      simp [hi, hword, hlow, hvalue _ habove, show ¬i - range.low < range.length by omega]

/-! ## Both together -/

theorem exists_extract_iff {word : Word} :
    (∃ part, range.extract width word = .ok part) ↔ range.Within width := by
  simp

theorem exists_insert_iff {word value : Word} :
    (∃ result, range.insert width word value = .ok result) ↔
      range.Within width ∧ value.toNat < 2 ^ range.length := by
  simp [insert_eq_ok_iff, ← Word.lt_two_pow_iff]

theorem getLsbD_slice_of_ge (h : range.Within width) (word : Word) {i : Nat}
    (hi : range.length ≤ i) : (range.slice width word).getLsbD i = false := by
  rw [getLsbD_slice h, decide_eq_false (Nat.not_lt.2 hi), Bool.false_and]

/-- A range that has been replaced reads as the value it was given. -/
theorem slice_splice (h : range.Within width) {value : Word}
    (hvalue : ∀ i, range.length ≤ i → value.getLsbD i = false) (word : Word) :
    range.slice width (range.splice width word value) = value := by
  have hend := h.low_add_length
  have hhigh := h.2
  apply BitVec.eq_of_getLsbD_eq
  intro i _
  by_cases hi : i < range.length
  · have hcovers : range.Covers (range.low + i) := ⟨by omega, by omega⟩
    rw [getLsbD_slice h, getLsbD_splice h hvalue word (by omega), if_pos hcovers,
      Nat.add_sub_cancel_left, decide_eq_true hi, Bool.true_and]
  · rw [getLsbD_slice_of_ge h _ (Nat.not_lt.1 hi), hvalue i (Nat.not_lt.1 hi)]

/-- A range that is replaced by what it reads as stays as it is. -/
theorem splice_slice (h : range.Within width) {word : Word} (hword : width.Fits word) :
    range.splice width word (range.slice width word) = word := by
  have hend := h.low_add_length
  have hshort (i : Nat) : range.length ≤ i → (range.slice width word).getLsbD i = false :=
    getLsbD_slice_of_ge h word
  apply Width.eq_of_fits (fits_splice range width word _) hword
  intro i hi
  rw [getLsbD_splice h hshort word hi]
  split
  · next hcovers =>
    obtain ⟨hlow, hhigh⟩ := hcovers
    rw [getLsbD_slice h, Nat.add_sub_of_le hlow, decide_eq_true (by omega), Bool.true_and]
  · rfl

/-- Ranges without a common bit can be replaced in either order. -/
theorem splice_comm {other : BitRange} (h : range.Within width) (hother : other.Within width)
    {first second : Word} (hfirst : ∀ i, range.length ≤ i → first.getLsbD i = false)
    (hsecond : ∀ i, other.length ≤ i → second.getLsbD i = false)
    (hdisjoint : ∀ i, range.Covers i → ¬other.Covers i) (word : Word) :
    other.splice width (range.splice width word first) second =
      range.splice width (other.splice width word second) first := by
  apply Width.eq_of_fits (fits_splice other width _ _) (fits_splice range width _ _)
  intro i hi
  simp only [getLsbD_splice h hfirst _ hi, getLsbD_splice hother hsecond _ hi]
  by_cases hcovers : range.Covers i
  · rw [if_neg (hdisjoint i hcovers), if_pos hcovers, if_pos hcovers]
  · rw [if_neg hcovers, if_neg hcovers]

/-- The result of replacing two ranges one after the other. -/
theorem insert_insert_eq_ok_iff {other : BitRange} {word first second result : Word} :
    (range.insert width word first >>= fun between ↦ other.insert width between second) =
        .ok result ↔
      (range.Within width ∧ ∀ i, range.length ≤ i → first.getLsbD i = false) ∧
        (other.Within width ∧ ∀ i, other.length ≤ i → second.getLsbD i = false) ∧
        result = other.splice width (range.splice width word first) second := by
  simp [insert_eq_ok_iff, and_assoc]

/-- Reading and replacing a range bit by bit, at every width.  What was put in is read back, and
ranges without a common bit can be replaced in either order. -/
theorem extract_insert_bitwise (width : Width) (range : BitRange) (word value : Word) :
    ((∃ part, range.extract width word = .ok part) ↔
      range.low ≤ range.high ∧ range.high < width.bits) ∧
    (∀ part, range.extract width word = .ok part → ∀ i, part.getLsbD i =
      (decide (i ≤ range.high - range.low) && word.getLsbD (range.low + i))) ∧
    ((∃ result, range.insert width word value = .ok result) ↔
      (range.low ≤ range.high ∧ range.high < width.bits) ∧
        value.toNat < 2 ^ (range.high - range.low + 1)) ∧
    (∀ result, range.insert width word value = .ok result → ∀ j, result.getLsbD j =
      if width.bits ≤ j then false
      else if range.low ≤ j ∧ j ≤ range.high then value.getLsbD (j - range.low)
      else word.getLsbD j) ∧
    (∀ result, range.insert width word value = .ok result →
      range.extract width result = .ok value) ∧
    (∀ part, range.extract width word = .ok part → width.Fits word →
      range.insert width word part = .ok word) ∧
    ∀ (other : BitRange) (second result : Word), (∀ i, range.Covers i → ¬other.Covers i) →
      ((range.insert width word value >>= fun between ↦ other.insert width between second) =
          .ok result ↔
        (other.insert width word second >>= fun between ↦ range.insert width between value) =
          .ok result) := by
  refine ⟨exists_extract_iff, fun part hpart i ↦ ?_, exists_insert_iff, fun result hresult j ↦ ?_,
    fun result hresult ↦ ?_, fun part hpart hword ↦ ?_, fun other second result hdisjoint ↦ ?_⟩
  · obtain ⟨h, rfl⟩ := extract_eq_ok_iff.1 hpart
    rw [getLsbD_slice h, length, decide_eq_decide.2 Nat.lt_succ_iff]
  · obtain ⟨h, hvalue, rfl⟩ := insert_eq_ok_iff.1 hresult
    split
    · next hj => exact Width.fits_iff.1 (fits_splice range width word value) j hj
    · next hj => exact getLsbD_splice h hvalue word (Nat.not_le.1 hj)
  · obtain ⟨h, hvalue, rfl⟩ := insert_eq_ok_iff.1 hresult
    exact extract_eq_ok_iff.2 ⟨h, (slice_splice h hvalue word).symm⟩
  · obtain ⟨h, rfl⟩ := extract_eq_ok_iff.1 hpart
    exact insert_eq_ok_iff.2
      ⟨h, fun i ↦ getLsbD_slice_of_ge h word, (splice_slice h hword).symm⟩
  · rw [insert_insert_eq_ok_iff, insert_insert_eq_ok_iff, and_left_comm]
    refine and_congr_right fun hother ↦ and_congr_right fun hrange ↦ ?_
    rw [splice_comm hrange.1 hother.1 hrange.2 hother.2 hdisjoint]

/-- The top and the low nibble of a word of 16 bits, given with a bit above these: what is put into
a nibble is read back, and the nibbles are replaced in either order. -/
theorem extract_insert_bitwise_nibbles :
    (BitRange.mk 12 15).insert .w16 0x90123 0xf = .ok 0xf123 ∧
      (BitRange.mk 12 15).extract .w16 0xf123 = .ok 0xf ∧
      ((BitRange.mk 0 3).insert .w16 0x90123 0 >>= fun between ↦
        (BitRange.mk 12 15).insert .w16 between 0xf) = .ok 0xf120 := by
  obtain ⟨-, -, -, -, hread, -, hcomm⟩ := extract_insert_bitwise .w16 ⟨12, 15⟩ 0x90123 0xf
  have hinsert : (BitRange.mk 12 15).insert .w16 0x90123 0xf = .ok 0xf123 := by decide
  have hdisjoint (i : Nat) : (BitRange.mk 12 15).Covers i → ¬(BitRange.mk 0 3).Covers i := by
    simp only [Covers]
    omega
  exact ⟨hinsert, hread _ hinsert, (hcomm ⟨0, 3⟩ 0 0xf120 hdisjoint).1 (by decide)⟩

end ChipConfig.BitRange
