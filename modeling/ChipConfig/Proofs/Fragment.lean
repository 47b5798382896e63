import ChipConfig.FieldDraft
import ChipConfig.Proofs.BitRange

/-!
# Fragments that tile a field

A fragment gives a run of bits of its field.  Fragments tile a field if each starts where the one
before it ends.  Fragments in order that do not overlap and together give as many low bits as they
are long tile the field, so a mask and a sum of lengths are enough to check it.
-/

namespace ChipConfig.Fragment

variable {a b fragment : Fragment} {fragments : List Fragment}

/-- Whether a fragment gives a bit of its field. -/
def Gives (fragment : Fragment) (j : Nat) : Prop :=
  fragment.offset ≤ j ∧ j < fragment.offset + fragment.length

instance (fragment : Fragment) (j : Nat) : Decidable (fragment.Gives j) :=
  inferInstanceAs (Decidable (_ ∧ _))

/-- Whether a fragment ends in its field before another one starts. -/
def Before (a b : Fragment) : Prop :=
  a.offset + a.length ≤ b.offset

/-- Whether fragments give the bits of a field from a start on, one after the other. -/
def TilesFrom : Nat → List Fragment → Prop
  | _, [] => True
  | start, fragment :: rest =>
    fragment.offset = start ∧ TilesFrom (start + fragment.length) rest

theorem length_pos (fragment : Fragment) : 0 < fragment.length :=
  fragment.bits.length_pos

theorem totalLength_pos (h : fragments ≠ []) : 0 < totalLength fragments := by
  cases fragments with
  | nil => exact absurd rfl h
  | cons head rest => exact Nat.add_pos_left head.length_pos _

theorem Before.not_gives (h : a.Before b) {j : Nat} (ha : a.Gives j) : ¬b.Gives j := by
  intro hb
  exact absurd (ha.2.trans_le (h.trans hb.1)) (Nat.lt_irrefl j)

/-- Of fragments that give different bits only one gives a bit. -/
theorem eq_of_gives (h : fragments.Pairwise fun a b ↦ ∀ j, a.Gives j → ¬b.Gives j)
    (ha : a ∈ fragments) (hb : b ∈ fragments) {j : Nat} (hja : a.Gives j) (hjb : b.Gives j) :
    a = b := by
  have hsymm : Std.Symm fun a b : Fragment ↦ a.Gives j → b.Gives j → a = b :=
    ⟨fun _ _ hab hb ha ↦ (hab ha hb).symm⟩
  have hpairwise : fragments.Pairwise fun a b ↦ a.Gives j → b.Gives j → a = b :=
    h.imp fun hdisjoint ha hb ↦ absurd hb (hdisjoint j ha)
  exact hpairwise.forall_of_forall (fun _ _ _ _ ↦ rfl) ha hb hja hjb

namespace TilesFrom

theorem bounds {start : Nat} (h : TilesFrom start fragments) (hmem : fragment ∈ fragments) :
    start ≤ fragment.offset ∧
      fragment.offset + fragment.length ≤ start + totalLength fragments := by
  induction fragments generalizing start with
  | nil => cases hmem
  | cons head rest ih =>
    obtain ⟨hoffset, hrest⟩ := h
    rw [totalLength]
    rcases List.mem_cons.1 hmem with rfl | hmem
    · omega
    · have := ih hrest hmem
      omega

theorem pairwise_before {start : Nat} (h : TilesFrom start fragments) :
    fragments.Pairwise Before := by
  induction fragments generalizing start with
  | nil => exact .nil
  | cons head rest ih =>
    obtain ⟨hoffset, hrest⟩ := h
    refine List.pairwise_cons.2 ⟨fun fragment hmem ↦ ?_, ih hrest⟩
    rw [Before, hoffset]
    exact (hrest.bounds hmem).1

theorem offset_head {start : Nat} (h : TilesFrom start fragments) (first : Fragment)
    (hfirst : fragments.head? = some first) : first.offset = start := by
  cases fragments with
  | nil => cases hfirst
  | cons head rest =>
    obtain rfl := Option.some.inj hfirst
    exact h.1

theorem isChain {start : Nat} (h : TilesFrom start fragments) :
    fragments.IsChain fun a b ↦ b.offset = a.offset + a.length := by
  induction fragments generalizing start with
  | nil => exact .nil
  | cons head rest ih =>
    obtain ⟨hoffset, hrest⟩ := h
    cases rest with
    | nil => exact .singleton _
    | cons next rest =>
      refine .cons_cons ?_ (ih hrest)
      rw [hrest.1, hoffset]

theorem exists_gives {start : Nat} (h : TilesFrom start fragments) {j : Nat} (hstart : start ≤ j)
    (hend : j < start + totalLength fragments) : ∃ fragment ∈ fragments, fragment.Gives j := by
  induction fragments generalizing start with
  | nil => exact absurd hend (by simp only [totalLength]; omega)
  | cons head rest ih =>
    obtain ⟨hoffset, hrest⟩ := h
    rw [totalLength] at hend
    by_cases hj : j < start + head.length
    · exact ⟨head, List.mem_cons_self, by rw [hoffset]; exact hstart, by rw [hoffset]; exact hj⟩
    · obtain ⟨fragment, hmem, hgives⟩ := ih hrest (by omega) (by omega)
      exact ⟨fragment, List.mem_cons_of_mem _ hmem, hgives⟩

/-- A tiled field has the bits below its length. -/
theorem exists_gives_iff (h : TilesFrom 0 fragments) {j : Nat} :
    (∃ fragment ∈ fragments, fragment.Gives j) ↔ j < totalLength fragments := by
  constructor
  · intro hgives
    obtain ⟨fragment, hmem, -, hj⟩ := hgives
    have := (h.bounds hmem).2
    omega
  · intro hj
    exact h.exists_gives (Nat.zero_le j) (by omega)

end TilesFrom

/-- Whether fragments give the bits of a field from 0 on, each bit once and in any order. -/
structure Tiles (fragments : List Fragment) : Prop where
  disjoint : fragments.Pairwise fun a b ↦ ∀ j, a.Gives j → ¬b.Gives j
  gives_iff : ∀ j, (∃ fragment ∈ fragments, fragment.Gives j) ↔ j < totalLength fragments

theorem TilesFrom.tiles (h : TilesFrom 0 fragments) : Tiles fragments where
  disjoint := h.pairwise_before.imp fun hbefore _ ↦ hbefore.not_gives
  gives_iff _ := h.exists_gives_iff

/-- Fragments in order that leave no bit out tile a field. -/
theorem tilesFrom_of_exists_gives {start : Nat} (hbefore : fragments.Pairwise Before)
    (hstart : ∀ fragment ∈ fragments, start ≤ fragment.offset)
    (hgives : ∀ j, start ≤ j → j < start + totalLength fragments →
      ∃ fragment ∈ fragments, fragment.Gives j) : TilesFrom start fragments := by
  induction fragments generalizing start with
  | nil => trivial
  | cons head rest ih =>
    obtain ⟨hhead, hrest⟩ := List.pairwise_cons.1 hbefore
    have hlength := head.length_pos
    have hafter (fragment : Fragment) (hmem : fragment ∈ rest) :
        head.offset + head.length ≤ fragment.offset := hhead fragment hmem
    simp only [totalLength] at hgives
    -- The first bit can only be given by the first fragment.
    have hoffset : head.offset = start := by
      obtain ⟨first, hmem, hfirst⟩ := hgives start (Nat.le_refl start) (by omega)
      have hle := hfirst.1
      have hge := hstart head List.mem_cons_self
      rcases List.mem_cons.1 hmem with rfl | hmem
      · omega
      · have := hafter first hmem
        omega
    refine ⟨hoffset, ih hrest ?_ ?_⟩
    · intro fragment hmem
      rw [← hoffset]
      exact hafter fragment hmem
    · intro j hj hend
      obtain ⟨fragment, hmem, hgiven⟩ := hgives j (by omega) (by omega)
      rcases List.mem_cons.1 hmem with rfl | hmem
      · have := hgiven.2
        omega
      · exact ⟨fragment, hmem, hgiven⟩

/-- Of fragments in order the last one ends at least as far from a start as all of them are long. -/
theorem exists_end_ge {start : Nat} (hne : fragments ≠ []) (hbefore : fragments.Pairwise Before)
    (hstart : ∀ fragment ∈ fragments, start ≤ fragment.offset) :
    ∃ fragment ∈ fragments,
      start + totalLength fragments ≤ fragment.offset + fragment.length := by
  induction fragments generalizing start with
  | nil => exact absurd rfl hne
  | cons head rest ih =>
    obtain ⟨hhead, hrest⟩ := List.pairwise_cons.1 hbefore
    have hfirst := hstart head List.mem_cons_self
    rw [totalLength]
    cases rest with
    | nil => exact ⟨head, List.mem_cons_self, by simp only [totalLength]; omega⟩
    | cons next rest =>
      obtain ⟨fragment, hmem, hend⟩ := ih (List.cons_ne_nil _ _) hrest hhead
      exact ⟨fragment, List.mem_cons_of_mem _ hmem, by omega⟩

/-- Fragments in order that give the bits below some number, and no others, tile a field. -/
theorem tilesFrom_of_gives_iff (hbefore : fragments.Pairwise Before) {n : Nat}
    (h : ∀ j, j < n ↔ ∃ fragment ∈ fragments, fragment.Gives j) : TilesFrom 0 fragments := by
  by_cases hne : fragments = []
  · rw [hne]
    trivial
  apply tilesFrom_of_exists_gives hbefore fun _ _ ↦ Nat.zero_le _
  intro j _ hj
  -- No bit is given twice, so the last bit that is given is not below the number of bits given.
  obtain ⟨last, hmem, hend⟩ := exists_end_ge hne hbefore fun _ _ ↦ Nat.zero_le _
  have hlength := last.length_pos
  have hlast : last.offset + last.length - 1 < n :=
    (h _).2 ⟨last, hmem, by unfold Gives; omega⟩
  exact (h j).1 (by omega)

@[simp]
theorem getLsbD_fieldMask (fragment : Fragment) (j : Nat) :
    fragment.fieldMask.getLsbD j = decide (fragment.Gives j ∧ j < 64) := by
  rw [fieldMask, BitVec.getLsbD_shiftLeft, Word.getLsbD_lowMask, Bool.eq_iff_iff]
  simp only [Bool.and_eq_true, Bool.not_eq_true', decide_eq_true_eq, decide_eq_false_iff_not]
  unfold Gives
  omega

@[simp]
theorem getLsbD_occupied (fragments : List Fragment) (j : Nat) :
    (FieldDraft.occupied fragments).getLsbD j =
      decide ((∃ fragment ∈ fragments, fragment.Gives j) ∧ j < 64) := by
  have hfold (mask : Word) :
      (fragments.foldl (fun mask fragment ↦ mask ||| fragment.fieldMask) mask).getLsbD j =
        (mask.getLsbD j || decide ((∃ fragment ∈ fragments, fragment.Gives j) ∧ j < 64)) := by
    induction fragments generalizing mask with
    | nil => simp
    | cons head rest ih =>
      rw [List.foldl_cons, ih, BitVec.getLsbD_or, getLsbD_fieldMask, Bool.eq_iff_iff]
      simp only [Bool.or_eq_true, decide_eq_true_eq, List.exists_mem_cons_iff]
      tauto
  rw [FieldDraft.occupied, hfold]
  simp

theorem Before.fieldMask_and_eq_zero (h : a.Before b) : a.fieldMask &&& b.fieldMask = 0 := by
  apply BitVec.eq_of_getLsbD_eq
  intro j _
  rw [BitVec.getLsbD_and, getLsbD_fieldMask, getLsbD_fieldMask]
  by_cases ha : a.Gives j
  · simp [h.not_gives ha]
  · simp [ha]

/-- A mask meets none of a list of fragments if its fragment gives no bit that they give. -/
theorem occupied_and_fieldMask_eq_zero_iff (hend : fragment.offset + fragment.length ≤ 64) :
    FieldDraft.occupied fragments &&& fragment.fieldMask = 0 ↔
      ∀ other ∈ fragments, ∀ j, other.Gives j → ¬fragment.Gives j := by
  constructor
  · intro h other hmem j hother hgives
    have hj : j < 64 := hgives.2.trans_le hend
    have hexists : ∃ fragment ∈ fragments, fragment.Gives j := ⟨other, hmem, hother⟩
    have hbit := congrArg (·.getLsbD j) h
    simp only [BitVec.getLsbD_and, getLsbD_occupied, getLsbD_fieldMask] at hbit
    simp [hexists, hgives, hj] at hbit
  · intro h
    apply BitVec.eq_of_getLsbD_eq
    intro j _
    rw [BitVec.getLsbD_and, getLsbD_occupied, getLsbD_fieldMask, ← Bool.decide_and]
    change _ = (0#64).getLsbD j
    rw [BitVec.getLsbD_zero, decide_eq_false_iff_not]
    rintro ⟨⟨⟨other, hmem, hother⟩, -⟩, hgives, -⟩
    exact h other hmem j hother hgives

/-- A mask that meets no fragment belongs to a fragment that overlaps none. -/
theorem before_or_before_of_occupied (hend : fragment.offset + fragment.length ≤ 64)
    (h : FieldDraft.occupied fragments &&& fragment.fieldMask = 0) :
    ∀ other ∈ fragments, other.Before fragment ∨ fragment.Before other := by
  intro other hmem
  by_contra hoverlap
  rw [not_or, Before, Before, Nat.not_le, Nat.not_le] at hoverlap
  have hlength := fragment.length_pos
  have hlengthOther := other.length_pos
  -- Overlapping fragments share the bit where the later one starts.
  let j := max fragment.offset other.offset
  have hgives : fragment.Gives j := ⟨Nat.le_max_left _ _, by omega⟩
  have hgivesOther : other.Gives j := ⟨Nat.le_max_right _ _, by omega⟩
  exact (occupied_and_fieldMask_eq_zero_iff hend).1 h other hmem j hgivesOther hgives

/-- Fragments in order whose mask is as long as they are together tile a field. -/
theorem tilesFrom_of_occupied (hbefore : fragments.Pairwise Before)
    (hlength : totalLength fragments ≤ 64)
    (h : FieldDraft.occupied fragments = Word.lowMask (totalLength fragments)) :
    TilesFrom 0 fragments := by
  apply tilesFrom_of_exists_gives hbefore (fun _ _ ↦ Nat.zero_le _)
  intro j _ hj
  have hbit := congrArg (·.getLsbD j) h
  simp only [getLsbD_occupied, Word.getLsbD_lowMask, decide_eq_decide] at hbit
  exact (hbit.2 ⟨by omega, by omega⟩).1

theorem TilesFrom.occupied_eq (h : TilesFrom 0 fragments) :
    FieldDraft.occupied fragments = Word.lowMask (totalLength fragments) := by
  apply BitVec.eq_of_getLsbD_eq
  intro j _
  rw [getLsbD_occupied, Word.getLsbD_lowMask, decide_eq_decide, h.exists_gives_iff]

end ChipConfig.Fragment
