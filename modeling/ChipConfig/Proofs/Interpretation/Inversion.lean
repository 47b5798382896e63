import ChipConfig.Proofs.Interpretation
import ChipConfig.Proofs.SortedMap

/-!
# Raw bits of a value and the value of raw bits

Over a field of 1 to 64 bits the numbers of two's complement correspond to the raw values of the
field one to one.  With labels only the way from a label to its raw bits and back leads home: when
several codes carry one label, the label stands for the least of them, which need not fit the field.
Unsigned numbers are raw bits in every interpretation, and whatever raw bits a value has fit the
field.
-/

namespace ChipConfig

namespace Word

/-- Whether a number can be written in two's complement with that many bits. -/
def IsSigned (bits : Nat) (number : Int) : Prop :=
  -2 ^ (bits - 1) ≤ number ∧ number < 2 ^ (bits - 1)

instance (bits : Nat) (number : Int) : Decidable (IsSigned bits number) :=
  inferInstanceAs (Decidable (_ ∧ _))

variable {bits : Nat} {number : Int}

/-- Two numbers in range differ by less than the modulus. -/
theorem IsSigned.eq_of_modEq (hpos : 1 ≤ bits) {other : Int} (h : IsSigned bits number)
    (hother : IsSigned bits other) (hmod : number ≡ other [ZMOD 2 ^ bits]) : number = other := by
  have hhalves : (2 : Int) ^ bits = 2 ^ (bits - 1) + 2 ^ (bits - 1) := by
    rw [← two_mul, ← pow_succ', Nat.sub_add_cancel hpos]
  obtain ⟨hlow, hhigh⟩ := h
  obtain ⟨hlow', hhigh'⟩ := hother
  have hclose : |other - number| < 2 ^ bits := by
    rw [abs_lt]
    constructor <;> omega
  have hzero := Int.eq_zero_of_abs_lt_dvd hmod.dvd hclose
  omega

theorem isSigned_signExtend (hmax : bits ≤ 64) (raw : Word) :
    IsSigned bits (raw.signExtend bits) := by
  rw [signExtend, Nat.min_eq_left hmax]
  exact ⟨BitVec.le_toInt _, BitVec.toInt_lt⟩

theorem signExtend_modEq (hmax : bits ≤ 64) (raw : Word) :
    raw.signExtend bits ≡ raw.toNat [ZMOD 2 ^ bits] := by
  have hbalanced (n : Int) : n.bmod (2 ^ bits) ≡ n [ZMOD 2 ^ bits] := by
    have hmod := Int.bmod_emod (x := n) (m := 2 ^ bits)
    push_cast at hmod
    exact hmod
  rw [signExtend, Nat.min_eq_left hmax, BitVec.toInt_eq_toNat_bmod, BitVec.toNat_setWidth]
  push_cast
  exact (hbalanced _).trans (Int.mod_modEq _ _)

/-- The low bits of a number are its remainder. -/
theorem toNat_ofInt_and_lowMask (hmax : bits ≤ 64) (number : Int) :
    ((BitVec.ofInt 64 number &&& lowMask bits : Word).toNat : Int) = number % 2 ^ bits := by
  have hdvd : (2 : Int) ^ bits ∣ 2 ^ 64 := pow_dvd_pow 2 hmax
  rw [toNat_and_lowMask, BitVec.toNat_ofInt]
  push_cast
  rw [Int.toNat_of_nonneg (Int.emod_nonneg _ (by norm_num))]
  exact Int.emod_emod_of_dvd number hdvd

theorem toNat_lt_of_eq_emod {word : Word} (h : (word.toNat : Int) = number % 2 ^ bits) :
    word.toNat < 2 ^ bits := by
  have hlt : (word.toNat : Int) < 2 ^ bits := h ▸ Int.emod_lt_of_pos _ (by positivity)
  exact_mod_cast hlt

end Word

namespace Interpretation

variable {bits : Nat} {labels : SortedMap Word String} {label : String}

theorem signedBound_eq (hmax : bits ≤ 64) : (signedBound bits : Int) = 2 ^ (bits - 1) := by
  rw [signedBound, Nat.min_eq_left hmax, Nat.one_shiftLeft]
  push_cast
  rfl

/-- A signed number has raw bits if it is in range, and these are its remainder. -/
theorem toRaw_signed_eq_ok_iff (hmax : bits ≤ 64) {number : Int} {raw : Word} :
    signed.toRaw (.signed number) bits = .ok raw ↔
      Word.IsSigned bits number ∧ (raw.toNat : Int) = number % 2 ^ bits := by
  have hcode : signed.code (.signed number) bits = .ok raw ↔
      Word.IsSigned bits number ∧ raw = BitVec.ofInt 64 number &&& Word.lowMask bits := by
    rw [code, signedBound_eq hmax, Word.IsSigned]
    split
    · next h =>
      have hrange : ¬(-2 ^ (bits - 1) ≤ number ∧ number < 2 ^ (bits - 1)) := by omega
      simp [hrange]
    · next h =>
      have hrange : -2 ^ (bits - 1) ≤ number ∧ number < 2 ^ (bits - 1) := by omega
      simp [hrange, eq_comm]
  have hlow := Word.toNat_ofInt_and_lowMask hmax number
  rw [toRaw_eq_ok_iff, hcode]
  constructor
  · rintro ⟨-, ⟨hrange, rfl⟩, -⟩
    exact ⟨hrange, hlow⟩
  · rintro ⟨hrange, hraw⟩
    refine ⟨rfl, ⟨hrange, ?_⟩, Word.toNat_lt_of_eq_emod hraw⟩
    apply BitVec.eq_of_toNat_eq
    exact_mod_cast hraw.trans hlow.symm

/-- Two's complement is inverted on all raw values of a field and all numbers in range. -/
theorem toRaw_signed_eq_ok_iff_signExtend (hpos : 1 ≤ bits) (hmax : bits ≤ 64) {number : Int}
    {raw : Word} :
    signed.toRaw (.signed number) bits = .ok raw ↔
      raw.toNat < 2 ^ bits ∧ raw.signExtend bits = number := by
  have hextended := Word.signExtend_modEq hmax raw
  rw [toRaw_signed_eq_ok_iff hmax]
  constructor
  · rintro ⟨hrange, hraw⟩
    refine ⟨Word.toNat_lt_of_eq_emod hraw, ?_⟩
    apply (Word.isSigned_signExtend hmax raw).eq_of_modEq hpos hrange
    exact hextended.trans (hraw ▸ Int.mod_modEq _ _)
  · rintro ⟨hfits, rfl⟩
    refine ⟨Word.isSigned_signExtend hmax raw, ?_⟩
    rw [hextended.eq, Int.emod_eq_of_lt (by positivity) (by exact_mod_cast hfits)]

/-- The codes that carry a label. -/
def codesOf (labels : SortedMap Word String) (label : String) : Set Word :=
  {code | labels.get? code = some label}

theorem codeOf?_eq_some_iff {code : Word} :
    codeOf? labels label = some code ↔ IsLeast (codesOf labels label) code := by
  have hcode : codeOf? labels label = some code ↔
      labels.toList.find? (fun entry ↦ entry.2 = label) = some (code, label) := by
    rw [codeOf?, Option.map_eq_some_iff]
    constructor
    · rintro ⟨entry, hfound, rfl⟩
      have hlabel : entry.2 = label := by simpa using List.find?_some hfound
      rw [hfound, ← hlabel]
    · exact fun hfound ↦ ⟨_, hfound, rfl⟩
  rw [hcode, SortedMap.find?_toList_eq_some_iff, SortedMap.mem_toList_iff]
  have hleast : (∀ other ∈ labels.toList, decide (other.2 = label) = true →
      compare other.1 code ≠ .lt) ↔ code ∈ lowerBounds (codesOf labels label) := by
    constructor
    · intro h other hother
      have hnot := h (other, label) (SortedMap.mem_toList_iff.2 hother) (by simp)
      exact BitVec.not_lt.1 fun hlt ↦ hnot (compareOfLessAndEq_eq_lt.2 hlt)
    · rintro h ⟨other, _⟩ hmem hlabel hlt
      obtain rfl := of_decide_eq_true hlabel
      exact BitVec.not_lt.2 (h (SortedMap.mem_toList_iff.1 hmem)) (compareOfLessAndEq_eq_lt.1 hlt)
  rw [hleast]
  simp [IsLeast, codesOf]

theorem toRaw_label_eq_ok_iff {code : Word} :
    (enumerated labels).toRaw (.label label) bits = .ok code ↔
      IsLeast (codesOf labels label) code ∧ code.toNat < 2 ^ bits := by
  have hcode : (enumerated labels).code (.label label) bits = .ok code ↔
      IsLeast (codesOf labels label) code := by
    rw [← codeOf?_eq_some_iff, Interpretation.code]
    split <;> simp_all
  rw [toRaw_eq_ok_iff, hcode]
  simp [validate]

theorem toValue_label_eq_ok_iff {code : Word} :
    (enumerated labels).toValue code bits = .ok (.label label) ↔ code ∈ codesOf labels label := by
  rw [toValue]
  change _ ↔ labels.get? code = some label
  cases labels.get? code with
  | some other => simp [validate]
  | none => simp [validate]

theorem exists_isLeast_codesOf (h : (codesOf labels label).Nonempty) :
    ∃ code, IsLeast (codesOf labels label) code := by
  obtain ⟨raw, hraw⟩ := h
  cases hcode : codeOf? labels label with
  | some code => exact ⟨code, codeOf?_eq_some_iff.1 hcode⟩
  | none =>
    rw [codeOf?, Option.map_eq_none_iff, List.find?_eq_none] at hcode
    have hother := hcode (raw, label) (SortedMap.mem_toList_iff.2 hraw)
    simp at hother

/-- A label of raw bits that fit has a least code, and that one fits as well. -/
theorem exists_toRaw_label {raw : Word} (hfits : raw.toNat < 2 ^ bits)
    (hraw : raw ∈ codesOf labels label) :
    ∃ code, (enumerated labels).toRaw (.label label) bits = .ok code ∧
      (code = raw ↔ ∀ other ∈ codesOf labels label, ¬other < raw) := by
  obtain ⟨code, hleast⟩ := exists_isLeast_codesOf ⟨raw, hraw⟩
  have hle : code.toNat ≤ raw.toNat := hleast.2 hraw
  refine ⟨code, toRaw_label_eq_ok_iff.2 ⟨hleast, hle.trans_lt hfits⟩, ?_, fun h ↦ ?_⟩
  · rintro rfl other hother
    exact BitVec.not_lt.2 (hleast.2 hother)
  · exact BitVec.le_antisymm (hleast.2 hraw) (BitVec.not_lt.1 (h code hleast.1))

/-- An unsigned number stands for itself wherever it fits. -/
theorem toRaw_unsigned_eq_ok_iff {a : Interpretation} (h : a.validate = .ok ()) {word raw : Word} :
    a.toRaw (.unsigned word) bits = .ok raw ↔ raw = word ∧ word.toNat < 2 ^ bits := by
  have hcode : a.code (.unsigned word) bits = .ok word := by cases a <;> rfl
  rw [toRaw_eq_ok_iff, hcode, Fallible.ok_eq_ok_iff]
  constructor
  · rintro ⟨-, rfl, hfits⟩
    exact ⟨rfl, hfits⟩
  · rintro ⟨rfl, hfits⟩
    exact ⟨h, rfl, hfits⟩

/-- Interpretations are inverted on the values they give.  A label stands for the least code that
carries it, and an unsigned number for itself in every interpretation. -/
theorem toRaw_inverts (hpos : 1 ≤ bits) (hmax : bits ≤ 64) :
    (∀ raw : Word, raw.toNat < 2 ^ bits →
      identity.toValue raw bits = .ok (.unsigned raw) ∧
        identity.toRaw (.unsigned raw) bits = .ok raw) ∧
    (∀ raw : Word, raw.toNat < 2 ^ bits →
      ∃ number, signed.toValue raw bits = .ok (.signed number) ∧
        (∀ other, other = number ↔
          Word.IsSigned bits other ∧ other ≡ raw.toNat [ZMOD 2 ^ bits]) ∧
        signed.toRaw (.signed number) bits = .ok raw) ∧
    (∀ number, (∃ raw, signed.toRaw (.signed number) bits = .ok raw) ↔
      Word.IsSigned bits number) ∧
    (∀ number raw, signed.toRaw (.signed number) bits = .ok raw →
      signed.toValue raw bits = .ok (.signed number)) ∧
    (∀ labels label code,
      (enumerated labels).toRaw (.label label) bits = .ok code ↔
        IsLeast (codesOf labels label) code ∧ code.toNat < 2 ^ bits) ∧
    (∀ labels label code, (enumerated labels).toRaw (.label label) bits = .ok code →
      (enumerated labels).toValue code bits = .ok (.label label)) ∧
    (∀ labels label, ∀ raw : Word, raw.toNat < 2 ^ bits →
      (enumerated labels).toValue raw bits = .ok (.label label) →
        ∃ code, (enumerated labels).toRaw (.label label) bits = .ok code ∧
          IsLeast (codesOf labels label) code ∧
          (code = raw ↔ ∀ other ∈ codesOf labels label, ¬other < raw)) ∧
    (∀ a : Interpretation, a.validate = .ok () → ∀ word raw,
      a.toRaw (.unsigned word) bits = .ok raw ↔ raw = word ∧ word.toNat < 2 ^ bits) ∧
    ∀ (a : Interpretation) value raw, a.toRaw value bits = .ok raw → raw.toNat < 2 ^ bits := by
  refine ⟨?_, ?_, ?_, ?_, ?_, ?_, ?_, ?_, ?_⟩
  · intro raw hfits
    exact ⟨rfl, (toRaw_unsigned_eq_ok_iff rfl).2 ⟨rfl, hfits⟩⟩
  · intro raw hfits
    have hrange := Word.isSigned_signExtend hmax raw
    have hmod := Word.signExtend_modEq hmax raw
    refine ⟨raw.signExtend bits, rfl, fun other ↦ ⟨?_, ?_⟩, ?_⟩
    · rintro rfl
      exact ⟨hrange, hmod⟩
    · exact fun h ↦ h.1.eq_of_modEq hpos hrange (h.2.trans hmod.symm)
    · exact (toRaw_signed_eq_ok_iff_signExtend hpos hmax).2 ⟨hfits, rfl⟩
  · intro number
    constructor
    · rintro ⟨raw, hraw⟩
      exact ((toRaw_signed_eq_ok_iff hmax).1 hraw).1
    · intro hrange
      exact ⟨_, (toRaw_signed_eq_ok_iff hmax).2
        ⟨hrange, Word.toNat_ofInt_and_lowMask hmax number⟩⟩
  · intro number raw hraw
    obtain ⟨-, rfl⟩ := (toRaw_signed_eq_ok_iff_signExtend hpos hmax).1 hraw
    rfl
  · intro labels label code
    exact toRaw_label_eq_ok_iff
  · intro labels label code hcode
    exact toValue_label_eq_ok_iff.2 (toRaw_label_eq_ok_iff.1 hcode).1.1
  · intro labels label raw hfits hraw
    obtain ⟨code, hcode, hsame⟩ := exists_toRaw_label hfits (toValue_label_eq_ok_iff.1 hraw)
    exact ⟨code, hcode, (toRaw_label_eq_ok_iff.1 hcode).1, hsame⟩
  · intro a hvalid word raw
    exact toRaw_unsigned_eq_ok_iff hvalid
  · intro a value raw hraw
    exact (toRaw_eq_ok_iff.1 hraw).2.2

/-- Gains of a field of four bits: two codes share a label, and one code is too wide. -/
def gainLabels : SortedMap Word String where
  toList := [(0x2, "LOW"), (0x5, "LOW"), (0x12, "HIGH")]
  sorted := by decide

theorem toRaw_inverts_gainLabels :
    (1 ≤ 4 ∧ 4 ≤ 64) ∧
      (∃ number, signed.toValue 0xd 4 = .ok (.signed number) ∧
        signed.toRaw (.signed number) 4 = .ok 0xd ∧ number = -3) ∧
      (¬∃ raw, signed.toRaw (.signed 8) 4 = .ok raw) ∧
      IsLeast (codesOf gainLabels "LOW") 0x2 ∧
      (¬∃ raw, (enumerated gainLabels).toRaw (.label "HIGH") 4 = .ok raw) ∧
      ∃ code, (enumerated gainLabels).toRaw (.label "LOW") 4 = .ok code ∧ code ≠ 0x5 := by
  obtain ⟨-, hsigned, hrange, -, hlabel, -, hcode, -, hfits⟩ :=
    toRaw_inverts (show 1 ≤ 4 by decide) (show 4 ≤ 64 by decide)
  refine ⟨by decide, ?_, ?_, ?_, ?_, ?_⟩
  · obtain ⟨number, hvalue, hunique, hraw⟩ := hsigned 0xd (by decide)
    exact ⟨number, hvalue, hraw, ((hunique (-3)).2 (by decide)).symm⟩
  · rw [hrange]
    decide
  · exact ((hlabel gainLabels "LOW" 0x2).1 (by decide +kernel)).1
  · rintro ⟨raw, hraw⟩
    have hleast := ((hlabel gainLabels "HIGH" raw).1 hraw).1
    have hhigh : codeOf? gainLabels "HIGH" = some 0x12 := by decide +kernel
    obtain rfl : raw = 0x12 := Option.some.inj ((codeOf?_eq_some_iff.2 hleast).symm.trans hhigh)
    exact absurd (hfits _ _ _ hraw) (by decide)
  · obtain ⟨code, hraw, -, hsame⟩ := hcode gainLabels "LOW" 0x5 (by decide) (by decide +kernel)
    have hsmaller : gainLabels.get? 0x2 = some "LOW" := by decide +kernel
    exact ⟨code, hraw, fun heq ↦ hsame.1 heq 0x2 hsmaller (by decide)⟩

end Interpretation

end ChipConfig
