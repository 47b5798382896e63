import ChipConfig.BitRange
import ChipConfig.Proofs.Fallible
import ChipConfig.Proofs.SortedMap

/-!
# The bits of words

A word is known by its 64 bits.  A width accepts the words whose bits above it are clear, which are
the numbers below a power of two, and the word made of a list of bits shows the last bit of the list
at position 0.  Words that a width keeps at addresses all fit it.
-/

namespace ChipConfig

namespace Word

@[simp]
theorem getLsbD_lowMask (n i : Nat) :
    (lowMask n).getLsbD i = decide (i < n ∧ i < 64) := by
  rw [lowMask, BitVec.getLsbD_ushiftRight, BitVec.getLsbD_allOnes, decide_eq_decide]
  omega

theorem getLsbD_complement_lowMask (n i : Nat) :
    (~~~lowMask n).getLsbD i = decide (n ≤ i ∧ i < 64) := by
  rw [BitVec.getLsbD_not, getLsbD_lowMask, Bool.eq_iff_iff]
  simp only [Bool.and_eq_true, Bool.not_eq_true', decide_eq_true_eq, decide_eq_false_iff_not]
  omega

theorem toNat_and_lowMask (word : Word) (n : Nat) :
    (word &&& lowMask n).toNat = word.toNat % 2 ^ n := by
  apply Nat.eq_of_testBit_eq
  intro i
  change (word &&& lowMask n).getLsbD i = _
  rw [BitVec.getLsbD_and, getLsbD_lowMask, Nat.testBit_mod_two_pow, Bool.and_comm]
  by_cases hi : i < 64
  · simp [hi, BitVec.getLsbD]
  · have hword : word.toNat.testBit i = false := BitVec.getLsbD_of_ge word i (Nat.not_lt.1 hi)
    simp [hi, hword]

/-- Nothing of a word is left above its low bits if all bits there are clear. -/
theorem and_complement_lowMask_eq_zero_iff {word : Word} {n : Nat} :
    word &&& ~~~lowMask n = 0 ↔ ∀ i, n ≤ i → word.getLsbD i = false := by
  constructor
  · intro h i hi
    have hbit := congrArg (·.getLsbD i) h
    simp only [BitVec.getLsbD_and, getLsbD_complement_lowMask] at hbit
    by_cases hlarge : i < 64
    · simpa [hi, hlarge] using hbit
    · exact BitVec.getLsbD_of_ge _ _ (by omega)
  · intro h
    apply BitVec.eq_of_getLsbD_eq
    intro i _
    simp only [BitVec.getLsbD_and, getLsbD_complement_lowMask]
    by_cases hi : n ≤ i <;> simp [h, hi]

/-- The numbers below a power of two are those without a bit from its exponent on. -/
theorem lt_two_pow_iff {word : Word} {n : Nat} :
    word.toNat < 2 ^ n ↔ ∀ i, n ≤ i → word.getLsbD i = false := by
  constructor
  · intro h i hi
    rw [BitVec.getLsbD, Nat.testBit_lt_two_pow]
    exact h.trans_le (Nat.pow_le_pow_right (by omega) hi)
  · intro h
    exact Nat.lt_pow_two_of_testBit _ fun i hi ↦ h i hi

/-- A word above a mask of low bits has a bit that the mask has not. -/
@[simp]
theorem lowMask_lt_iff {word : Word} {n : Nat} : lowMask n < word ↔ 2 ^ n ≤ word.toNat := by
  have hmask : (lowMask n).toNat = 2 ^ min n 64 - 1 := by
    apply Nat.eq_of_testBit_eq
    intro i
    have hbit := getLsbD_lowMask n i
    rw [BitVec.getLsbD] at hbit
    rw [hbit, Nat.testBit_two_pow_sub_one, decide_eq_decide, lt_inf_iff]
  have hword := word.isLt
  rw [BitVec.lt_def, hmask]
  rcases Nat.lt_or_ge n 64 with hn | hn
  · have hpos := Nat.two_pow_pos n
    rw [Nat.min_eq_left hn.le]
    omega
  · have hpow := Nat.pow_le_pow_right (n := 2) (by omega) hn
    rw [Nat.min_eq_right hn]
    omega

theorem ofBits_concat (bits : List Bool) (bit : Bool) :
    ofBits (bits ++ [bit]) = (ofBits bits <<< 1) ||| (BitVec.ofBool bit).setWidth 64 := by
  simp [ofBits]

theorem getLsbD_ofBits (bits : List Bool) {i : Nat} (hi : i < 64) :
    (ofBits bits).getLsbD i = bits.reverse[i]?.getD false := by
  induction bits using List.reverseRecOn generalizing i with
  | nil => simp [ofBits]
  | append_singleton bits bit ih =>
    rw [ofBits_concat, List.reverse_append, BitVec.getLsbD_or, BitVec.getLsbD_shiftLeft,
      BitVec.getLsbD_setWidth]
    cases i with
    | zero => simp
    | succ i =>
      have hprevious := ih (i := i) (by omega)
      simp [hi, hprevious]

/-- The bit at a position counted from the front of the list. -/
theorem getLsbD_ofBits_of_getElem? {bits : List Bool} (hlength : bits.length ≤ 64)
    {position : Nat} {bit : Bool} (h : bits[position]? = some bit) :
    (ofBits bits).getLsbD (bits.length - 1 - position) = bit := by
  obtain ⟨hposition, -⟩ := List.getElem?_eq_some_iff.1 h
  rw [getLsbD_ofBits bits (by omega), List.getElem?_reverse (by omega)]
  rw [show bits.length - 1 - (bits.length - 1 - position) = position by omega, h]
  rfl

end Word

namespace Width

/-- Whether a word has no bit above the width. -/
def Fits (width : Width) (word : Word) : Prop :=
  word.toNat < 2 ^ width.bits

instance (width : Width) (word : Word) : Decidable (width.Fits word) :=
  inferInstanceAs (Decidable (_ < _))

theorem fits_iff {width : Width} {word : Word} :
    width.Fits word ↔ ∀ i, width.bits ≤ i → word.getLsbD i = false :=
  Word.lt_two_pow_iff

@[simp]
theorem fits_zero (width : Width) : width.Fits 0 :=
  Nat.two_pow_pos width.bits

theorem fits_mono {a b : Width} (h : a.bits ≤ b.bits) {word : Word} (hword : a.Fits word) :
    b.Fits word :=
  hword.trans_le (Nat.pow_le_pow_right (by omega) h)

theorem fits_xor {width : Width} {a b : Word} (ha : width.Fits a) (hb : width.Fits b) :
    width.Fits (a ^^^ b) := by
  rw [fits_iff] at ha hb ⊢
  intro i hi
  rw [BitVec.getLsbD_xor, ha i hi, hb i hi, Bool.xor_false]

theorem fits_twoPow {width : Width} {index : Nat} (h : index < width.bits) :
    width.Fits (BitVec.twoPow 64 index) := by
  rw [fits_iff]
  intro i hi
  have hne : index ≠ i := (h.trans_le hi).ne
  simp [BitVec.getLsbD_twoPow, hne]

/-- Words that fit are told apart by the bits below the width. -/
theorem eq_of_fits {width : Width} {a b : Word} (ha : width.Fits a) (hb : width.Fits b)
    (h : ∀ i < width.bits, a.getLsbD i = b.getLsbD i) : a = b := by
  apply BitVec.eq_of_getLsbD_eq
  intro i _
  by_cases hi : i < width.bits
  · exact h i hi
  · rw [fits_iff.1 ha i (by omega), fits_iff.1 hb i (by omega)]

/-- The check of a word decides whether the word fits. -/
theorem check_eq (width : Width) (word : Word) :
    width.check word =
      if width.Fits word then .ok word else .error (.valueTooWide word width.bits) := by
  have hfits : word &&& ~~~width.mask = 0 ↔ width.Fits word := by
    rw [fits_iff, mask, Word.and_complement_lowMask_eq_zero_iff]
  simp only [check, hfits]

@[simp]
theorem check_eq_ok_iff {width : Width} {word result : Word} :
    width.check word = .ok result ↔ width.Fits word ∧ result = word := by
  rw [check_eq]
  split
  · next hword => simp [hword, eq_comm]
  · next hword => simp [hword]

@[simp]
theorem check_eq_error_iff {width : Width} {word : Word} {cause : BitError} :
    width.check word = .error cause ↔
      ¬width.Fits word ∧ cause = .valueTooWide word width.bits := by
  rw [check_eq]
  split
  · next hword => simp [hword]
  · next hword => simp [hword, eq_comm]

@[simp]
theorem checkIndex_eq_ok_iff {width : Width} {bit result : Nat} :
    width.checkIndex bit = .ok result ↔ bit < width.bits ∧ result = bit := by
  rw [checkIndex]
  split <;> simp_all [eq_comm]

@[simp]
theorem bit_eq_ok_iff {width : Width} {word : Word} {index : Nat} {bit : Bool} :
    word.bit width index = .ok bit ↔ index < width.bits ∧ bit = word.getLsbD index := by
  simp [Word.bit]

@[simp]
theorem bit_eq_error_iff {width : Width} {word : Word} {index : Nat} {cause : BitError} :
    word.bit width index = .error cause ↔
      width.bits ≤ index ∧ cause = .indexOutOfRange index width.bits := by
  rw [Word.bit, checkIndex]
  split
  · next h => simp [h]
  · next h => simp [Nat.not_lt.1 h, eq_comm]

theorem fits_ofBits {width : Width} {bits : List Bool} (h : bits.length = width.bits) :
    width.Fits (Word.ofBits bits) := by
  rw [fits_iff]
  intro i hi
  by_cases hlarge : i < 64
  · rw [Word.getLsbD_ofBits bits hlarge, List.getElem?_eq_none (by simp; omega)]
    rfl
  · exact BitVec.getLsbD_of_ge _ _ (by omega)

section Put

variable {width : Width} {words result : SortedMap Address Word} {entries : List (Address × Word)}

@[simp]
theorem put_eq_ok_iff {address : Address} {word : Word} :
    width.put words address word = .ok result ↔
      width.Fits word ∧ result = words.insert address word := by
  simp [put]

@[simp]
theorem putAll_eq_ok_iff :
    width.putAll entries = .ok words ↔
      (∀ entry ∈ entries, width.Fits entry.2) ∧ words = SortedMap.ofList entries := by
  apply Fallible.foldlM_eq_ok_iff fun _ ↦ True
  · intro words _ entry _ result
    exact put_eq_ok_iff
  · exact fun _ _ _ _ ↦ trivial
  · trivial

end Put

end Width

end ChipConfig
