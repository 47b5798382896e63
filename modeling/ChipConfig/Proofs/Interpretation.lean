import ChipConfig.Interpretation
import ChipConfig.Proofs.Fallible
import ChipConfig.Proofs.Word

/-!
# Interpretations

An interpretation that makes sense gives every raw value a meaning, unless it is a list of labels
that lacks the code, and the raw bits that it gives to a value always fit the field.

Interpretations agree if they mean the same, which is almost being equal: the two zeros agree as
well, and what stands for no number does not agree even with itself.  So agreement is symmetric and
transitive, and an interpretation that makes sense agrees with itself.
-/

namespace ChipConfig

namespace Double

variable {x y z : Double}

theorem agrees_iff :
    x.agrees y = true ↔ x.isNaN = false ∧ (x = y ∨ x.isZero = true ∧ y.isZero = true) := by
  simp [agrees]

theorem isNaN_of_isZero (h : x.isZero = true) : x.isNaN = false := by
  simp only [isZero, Bool.and_eq_true, beq_iff_eq] at h
  simp [isNaN, h.2]

theorem isNaN_of_isFinite (h : x.isFinite = true) : x.isNaN = false := by
  simp only [isFinite, bne_iff_ne] at h
  simp [isNaN, h]

theorem agrees_self (h : x.isNaN = false) : x.agrees x = true :=
  agrees_iff.2 ⟨h, .inl rfl⟩

theorem agrees_symm (h : x.agrees y = true) : y.agrees x = true := by
  obtain ⟨hnumber, rfl | ⟨hx, hy⟩⟩ := agrees_iff.1 h
  · exact agrees_self hnumber
  · exact agrees_iff.2 ⟨isNaN_of_isZero hy, .inr ⟨hy, hx⟩⟩

theorem agrees_trans (hxy : x.agrees y = true) (hyz : y.agrees z = true) : x.agrees z = true := by
  obtain ⟨hnumber, rfl | ⟨hx, hy⟩⟩ := agrees_iff.1 hxy
  · exact hyz
  · obtain ⟨-, rfl | ⟨-, hz⟩⟩ := agrees_iff.1 hyz
    · exact hxy
    · exact agrees_iff.2 ⟨hnumber, .inr ⟨hx, hz⟩⟩

end Double

namespace Interpretation

variable {a b c : Interpretation}

/-- Only linear interpretations can agree without being equal. -/
theorem agrees_iff :
    a.agrees b = true ↔
      (∃ scale offset scale' offset', a = .linear scale offset ∧ b = .linear scale' offset' ∧
        scale.agrees scale' = true ∧ offset.agrees offset' = true) ∨
      a = b ∧ ∀ scale offset, a ≠ .linear scale offset := by
  cases a <;> cases b <;> simp [agrees]

theorem agrees_symm (h : a.agrees b = true) : b.agrees a = true := by
  rw [agrees_iff] at h ⊢
  rcases h with ⟨s, o, s', o', rfl, rfl, hs, ho⟩ | ⟨rfl, hother⟩
  · exact .inl ⟨s', o', s, o, rfl, rfl, Double.agrees_symm hs, Double.agrees_symm ho⟩
  · exact .inr ⟨rfl, hother⟩

theorem agrees_trans (hab : a.agrees b = true) (hbc : b.agrees c = true) :
    a.agrees c = true := by
  rw [agrees_iff] at hab hbc ⊢
  rcases hab with ⟨s, o, s', o', rfl, rfl, hs, ho⟩ | ⟨rfl, hother⟩
  · rcases hbc with ⟨_, _, s'', o'', hb, rfl, hs', ho'⟩ | ⟨-, hother⟩
    · cases hb
      exact .inl ⟨s, o, s'', o'', rfl, rfl, Double.agrees_trans hs hs',
        Double.agrees_trans ho ho'⟩
    · exact absurd rfl (hother s' o')
  · rcases hbc with ⟨s, o, _, _, ha, -⟩ | ⟨rfl, hother⟩
    · exact absurd ha (hother s o)
    · exact .inr ⟨rfl, hother⟩

theorem agrees_self_of_validate (h : a.validate = .ok ()) : a.agrees a = true := by
  rw [agrees_iff]
  cases a with
  | linear scale offset =>
    have hfinite : scale.isFinite = true ∧ offset.isFinite = true := by
      simp only [validate] at h
      split at h
      · next hvalid =>
        simp only [Bool.and_eq_true] at hvalid
        exact hvalid.1
      · cases h
    exact .inl ⟨_, _, _, _, rfl, rfl, Double.agrees_self (Double.isNaN_of_isFinite hfinite.1),
      Double.agrees_self (Double.isNaN_of_isFinite hfinite.2)⟩
  | identity => exact .inr ⟨rfl, fun _ _ ↦ Interpretation.noConfusion⟩
  | signed => exact .inr ⟨rfl, fun _ _ ↦ Interpretation.noConfusion⟩
  | enumerated labels => exact .inr ⟨rfl, fun _ _ ↦ Interpretation.noConfusion⟩

/-- Only a code without a label has no value. -/
theorem toValue_eq_error_iff (h : a.validate = .ok ()) {raw : Word} {bits : Nat}
    {cause : InterpretationError} :
    a.toValue raw bits = .error cause ↔
      ∃ labels, a = .enumerated labels ∧ labels.get? raw = none ∧ cause = .unknownCode raw := by
  unfold toValue
  rw [h]
  cases a with
  | identity => simp
  | signed => simp
  | linear scale offset => simp
  | enumerated labels =>
    cases hlabel : labels.get? raw with
    | some label => simp [hlabel]
    | none => simp [hlabel, eq_comm]

/-- A value has the raw bits of its code if these fit the field. -/
theorem toRaw_eq_ok_iff {value : Value} {bits : Nat} {raw : Word} :
    a.toRaw value bits = .ok raw ↔
      a.validate = .ok () ∧ a.code value bits = .ok raw ∧ raw.toNat < 2 ^ bits := by
  simp [toRaw, Unique.exists_iff]

end Interpretation

end ChipConfig
