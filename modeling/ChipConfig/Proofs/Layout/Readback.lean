import ChipConfig.Proofs.Layout.RoundTrip

/-!
# Reading any image back

An image that was read back may have any bits.  Reading it gives exactly the register bits that it
shows and exactly the fixed bits that are wrong, in the order of the words.  Nothing else of the
image matters, and a single flipped bit changes one entry of the list, one bit of a register or
nothing.
-/

namespace ChipConfig.Layout

open BitMap (existsUnique_position)

variable {image : Image} {bitMap : BitMap} {registerWidth : Width}

/-- What is read from an image: the register bits that it shows and, in order, the fixed bits that
are wrong. -/
structure ReadsAs (image : Image) (bitMap : BitMap) (decoded : Decoded) : Prop where
  getLsbD_iff : ∀ place : RegisterBit,
    (decoded.registers.get place.register).getLsbD place.bit.toNat = true ↔
      ShowsSet image bitMap place
  mem_mismatches_iff : ∀ mismatch,
    mismatch ∈ decoded.mismatches ↔ IsWrong image bitMap mismatch
  ordered : decoded.mismatches.Pairwise Mismatch.Before

theorem readsAs (hmap : bitMap.WellFormed)
    (hplaces : ∀ place ∈ bitMap.registerBits, place.bit.toNat < registerWidth.bits) :
    ReadsAs image bitMap ⟨readRegisters image bitMap registerWidth, wrongBits image bitMap⟩ where
  getLsbD_iff place := by
    by_cases hplace : place.bit.toNat < 64
    · rw [getLsbD_readRegisters hmap hplace, decide_eq_true_iff, mem_setPlaces_iff]
    · rw [BitVec.getLsbD_of_ge _ _ (by omega)]
      refine ⟨fun h ↦ (nomatch h), fun h ↦ ?_⟩
      have hbit := hplaces place (mem_registerBits_of_showsSet h)
      exact absurd (hbit.trans_le registerWidth.le_max) hplace
  mem_mismatches_iff _ := mem_wrongBits_iff
  ordered := pairwise_wrongBits hmap image

/-- Whether a list has one member more than another, and is the same besides. -/
def OneMore {α : Type} (x : α) (short long : List α) : Prop :=
  ∃ front back, short = front ++ back ∧ long = front ++ x :: back

/-- Lists made by functions that differ at one member only, where the second one gives something. -/
theorem oneMore_filterMap {α β : Type} {f g : α → Option β} {xs : List α} {x : α} {y : β}
    (hx : x ∈ xs) (hnodup : xs.Nodup) (h : ∀ other ∈ xs, other ≠ x → f other = g other)
    (hf : f x = none) (hg : g x = some y) : OneMore y (xs.filterMap f) (xs.filterMap g) := by
  obtain ⟨front, back, rfl⟩ := List.append_of_mem hx
  rw [List.nodup_middle, List.nodup_cons] at hnodup
  have hsame (part : List α) (hpart : ∀ other ∈ part, other ∈ front ++ back) :
      part.filterMap f = part.filterMap g := by
    apply List.filterMap_congr
    intro other hother
    have hmem := hpart other hother
    apply h other
    · rw [List.mem_append] at hmem
      simp only [List.mem_append, List.mem_cons]
      tauto
    · intro heq
      exact hnodup.1 (heq ▸ hmem)
  refine ⟨front.filterMap g, back.filterMap g, ?_, ?_⟩
  · rw [List.filterMap_append, List.filterMap_cons, hf,
      hsame front fun _ ↦ List.mem_append_left back, hsame back fun _ ↦ List.mem_append_right front]
  · rw [List.filterMap_append, List.filterMap_cons, hg]

/-- What flipping one bit of an image changes in what is read from it: a fixed bit becomes wrong or
right, or a register bit flips, or nothing happens. -/
def FlipEffect (image : Image) (bitMap : BitMap) (address : Address) (index : Nat)
    (before after : Decoded) : Prop :=
  match bitMap.sourceAt? address (bitMap.wordBit index) with
  | some (.constant value) =>
    after.registers = before.registers ∧
      if image.bit address index = value then
        OneMore ⟨address, index, value, !value⟩ before.mismatches after.mismatches
      else
        OneMore ⟨address, index, value, !value⟩ after.mismatches before.mismatches
  | some (.register place) => after = ⟨before.registers.flipped place, before.mismatches⟩
  | _ => after = before

section Flip

variable (hmap : bitMap.WellFormed) {address : Address} {index : Nat}

include hmap

/-- A position that does not stand for the flipped bit keeps its bit. -/
theorem bit_flipped_of_position {other : Address} {position : Nat} {source : BitSource}
    (hsource : bitMap.sourceAt? other position = some source)
    (hne : ¬(other = address ∧ position = bitMap.wordBit index)) :
    (image.flipped address index).bit other (bitMap.wordBit position) =
      image.bit other (bitMap.wordBit position) := by
  apply Image.bit_flipped_of_ne
  intro h
  have hposition := hmap.position_lt hsource
  apply hne
  refine ⟨h.1, ?_⟩
  rw [← h.2, bitMap.wordBit_wordBit hposition]

/-- A position with another source than the flipped bit keeps its bit. -/
theorem bit_flipped_of_source {other : Address} {position : Nat} {source : BitSource}
    (hsource : bitMap.sourceAt? other position = some source)
    (hne : bitMap.sourceAt? address (bitMap.wordBit index) ≠ some source) :
    (image.flipped address index).bit other (bitMap.wordBit position) =
      image.bit other (bitMap.wordBit position) := by
  apply bit_flipped_of_position hmap hsource
  intro h
  rw [h.1, h.2] at hsource
  exact hne hsource

variable (hindex : index < bitMap.width.bits) (hcontains : image.contains address = true)

include hindex hcontains

/-- Flipping the bit that shows a register bit changes whether this one reads as set, and no
other. -/
theorem mem_setPlaces_flipped {place : RegisterBit}
    (hsource : bitMap.sourceAt? address (bitMap.wordBit index) = some (.register place))
    (other : RegisterBit) :
    other ∈ setPlaces (image.flipped address index) bitMap ↔
      (other ∈ setPlaces image bitMap ↔ other ≠ place) := by
  rw [mem_setPlaces_iff, mem_setPlaces_iff]
  by_cases heq : other = place
  · have hflip := Image.bit_flipped_self hcontains (hindex.trans_le bitMap.width.le_max)
    rw [heq, showsSet_iff hmap hsource, showsSet_iff hmap hsource, bitMap.wordBit_wordBit hindex,
      hflip]
    simp
  · have hne : bitMap.sourceAt? address (bitMap.wordBit index) ≠ some (.register other) := by
      rw [hsource]
      intro h
      cases h
      exact heq rfl
    rw [iff_true_right heq]
    refine exists₂_congr fun otherAddress position ↦ and_congr_right fun hother ↦ ?_
    rw [bit_flipped_of_source hmap hother hne]

/-- Flipping the bit that shows a register bit flips that bit of the register. -/
theorem readRegisters_flipped {place : RegisterBit}
    (hsource : bitMap.sourceAt? address (bitMap.wordBit index) = some (.register place)) :
    readRegisters (image.flipped address index) bitMap registerWidth =
      (readRegisters image bitMap registerWidth).flipped place := by
  have hmem : place.register ∈ bitMap.referencedRegisters :=
    BitMap.mem_referencedRegisters_iff.2 ⟨place, BitMap.mem_registerBits_iff.2 ⟨_, _, hsource⟩, rfl⟩
  apply RegisterFile.eq_of_get_eq
  · rw [width_readRegisters]
    exact width_readRegisters.symm
  · intro register
    rw [Bool.eq_iff_iff, RegisterFile.flipped, RegisterFile.contains_insert, contains_readRegisters,
      contains_readRegisters]
    constructor
    · exact .inr
    · intro h
      rcases h with rfl | h
      · exact hmem
      · exact h
  · intro register
    apply BitVec.eq_of_getLsbD_eq
    intro i hi
    obtain ⟨other, rfl, rfl⟩ := RegisterBit.exists_of_lt register hi
    have hother := mem_setPlaces_flipped hmap hindex hcontains hsource other
    rw [RegisterFile.getLsbD_get_flipped _ _ hi, getLsbD_readRegisters hmap hi,
      getLsbD_readRegisters hmap hi]
    by_cases heq : other = place
    · rw [heq] at hother ⊢
      simp [hother]
    · simp [heq, hother]

end Flip

/-- If two images differ at one fixed bit only, the one that has it wrong reads with one mismatch
more. -/
theorem oneMore_wrongBits {a b : Image} {address : Address} {position : Nat} {value : Bool}
    (hsource : bitMap.sourceAt? address position = some (.constant value))
    (hother : ∀ other n source, bitMap.sourceAt? other n = some source →
      ¬(other = address ∧ n = position) →
        a.bit other (bitMap.wordBit n) = b.bit other (bitMap.wordBit n))
    (ha : a.bit address (bitMap.wordBit position) = value)
    (hb : b.bit address (bitMap.wordBit position) = !value) :
    OneMore ⟨address, bitMap.wordBit position, value, !value⟩ (wrongBits a bitMap)
      (wrongBits b bitMap) := by
  have hmem : (⟨address, position, .constant value⟩ : BitMap.Placement) ∈ bitMap.placements :=
    BitMap.mem_placements_iff.2 hsource
  apply oneMore_filterMap hmem bitMap.nodup_placements
  · intro placement hplacement hne
    have hat := BitMap.mem_placements_iff.1 hplacement
    have hbit := hother _ _ _ hat fun h ↦ by
      rw [h.1, h.2, hsource, Option.some.injEq] at hat
      apply hne
      cases placement
      simp_all
    simp only [findingAt, hbit]
  · simp [findingAt, ha]
  · simp [findingAt, hb, Finding.mismatch?]

/-- Flipping a fixed bit adds its mismatch or takes it away. -/
theorem wrongBits_flipped (hmap : bitMap.WellFormed) {address : Address} {index : Nat}
    (hcontains : image.contains address = true) (hindex : index < bitMap.width.bits) {value : Bool}
    (hsource : bitMap.sourceAt? address (bitMap.wordBit index) = some (.constant value)) :
    if image.bit address index = value then
      OneMore ⟨address, index, value, !value⟩ (wrongBits image bitMap)
        (wrongBits (image.flipped address index) bitMap)
    else
      OneMore ⟨address, index, value, !value⟩ (wrongBits (image.flipped address index) bitMap)
        (wrongBits image bitMap) := by
  have hposition := bitMap.wordBit_wordBit hindex
  have hflip := Image.bit_flipped_self hcontains (hindex.trans_le bitMap.width.le_max)
  have hkeep (other : Address) (n : Nat) (source : BitSource)
      (hother : bitMap.sourceAt? other n = some source)
      (hne : ¬(other = address ∧ n = bitMap.wordBit index)) :
      (image.flipped address index).bit other (bitMap.wordBit n) =
        image.bit other (bitMap.wordBit n) :=
    bit_flipped_of_position hmap hother hne
  split
  · next hright =>
    have hmore := oneMore_wrongBits hsource
      (fun other n source hother hne ↦ (hkeep other n source hother hne).symm)
      (by rw [hposition, hright]) (by rw [hposition, hflip, hright])
    rwa [hposition] at hmore
  · next hwrong =>
    have hmore := oneMore_wrongBits hsource hkeep
      (by rw [hposition, hflip, Bool.eq_not.2 hwrong, Bool.not_not])
      (by rw [hposition, Bool.eq_not.2 hwrong])
    rwa [hposition] at hmore

theorem flipEffect (hmap : bitMap.WellFormed) {address : Address} {index : Nat}
    (hcontains : image.contains address = true) (hindex : index < bitMap.width.bits) :
    FlipEffect image bitMap address index
      ⟨readRegisters image bitMap registerWidth, wrongBits image bitMap⟩
      ⟨readRegisters (image.flipped address index) bitMap registerWidth,
        wrongBits (image.flipped address index) bitMap⟩ := by
  -- A part of the result can only change through a source of its own kind.
  have hregisters (h : ∀ place,
      bitMap.sourceAt? address (bitMap.wordBit index) ≠ some (.register place)) :
      readRegisters (image.flipped address index) bitMap registerWidth =
        readRegisters image bitMap registerWidth := by
    apply readRegisters_congr
    intro other n place hother
    exact bit_flipped_of_source hmap hother (h place)
  have hmismatches (h : ∀ value,
      bitMap.sourceAt? address (bitMap.wordBit index) ≠ some (.constant value)) :
      wrongBits (image.flipped address index) bitMap = wrongBits image bitMap := by
    apply wrongBits_congr
    intro other n value hother
    exact bit_flipped_of_source hmap hother (h value)
  unfold FlipEffect
  split
  · next value hsource =>
    refine ⟨hregisters ?_, wrongBits_flipped hmap hcontains hindex hsource⟩
    intro place
    rw [hsource]
    simp
  · next place hsource =>
    rw [Decoded.mk.injEq]
    refine ⟨readRegisters_flipped hmap hindex hcontains hsource, hmismatches ?_⟩
    intro value
    rw [hsource]
    simp
  · next hconstant hregister =>
    rw [Decoded.mk.injEq]
    exact ⟨hregisters hregister, hmismatches hconstant⟩

/-- What is read from an image is what it shows at the positions of the bit map.  Bits that nobody
looks at do not matter, and flipping one bit changes one mismatch, one register bit or nothing. -/
theorem decode_readsAs (hmap : bitMap.Reachable) (hwidth : image.width = bitMap.width)
    (hwords : ∀ address, bitMap.words.contains address = true → image.contains address = true)
    (hplaces : ∀ place ∈ bitMap.registerBits, place.bit.toNat < registerWidth.bits) :
    ∃ decoded, decode image bitMap registerWidth = .ok decoded ∧
      ReadsAs image bitMap decoded ∧
      (∀ place ∈ bitMap.registerBits,
        ∃! slot : Address × Nat, bitMap.sourceAt? slot.1 slot.2 = some (.register place)) ∧
      (∀ other : Image, other.width = bitMap.width →
        (∀ address, bitMap.words.contains address = true → other.contains address = true) →
        (∀ address position source, bitMap.sourceAt? address position = some source →
          source ≠ .ignored → other.bit address (bitMap.wordBit position) =
            image.bit address (bitMap.wordBit position)) →
          decode other bitMap registerWidth = .ok decoded) ∧
      (∀ address index, image.contains address = true → index < image.width.bits →
        ∃ after, decode (image.flipped address index) bitMap registerWidth = .ok after ∧
          FlipEffect image bitMap address index decoded after) := by
  have hwellFormed := hmap.wellFormed
  refine ⟨_, decode_eq_ok hwidth hwords hplaces, readsAs hwellFormed hplaces,
    fun place hplace ↦ existsUnique_position hwellFormed hplace, ?_, ?_⟩
  · intro other hother hcontains hsame
    have hregisters : readRegisters other bitMap registerWidth =
        readRegisters image bitMap registerWidth := by
      apply readRegisters_congr
      intro address position place hsource
      exact hsame address position _ hsource BitSource.noConfusion
    have hmismatches : wrongBits other bitMap = wrongBits image bitMap := by
      apply wrongBits_congr
      intro address position value hsource
      exact hsame address position _ hsource BitSource.noConfusion
    rw [decode_eq_ok hother hcontains hplaces, hregisters, hmismatches]
  · intro address index hcontains hindex
    rw [hwidth] at hindex
    refine ⟨_, decode_eq_ok ?_ ?_ hplaces, flipEffect hwellFormed hcontains hindex⟩
    · rw [Image.width_flipped, hwidth]
    · intro other hother
      exact (Image.contains_flipped image address index other).2 (hwords other hother)

theorem decode_readsAs_spoiltImage :
    ∃ decoded, decode spoiltImage BitMap.sample .w16 = .ok decoded ∧
      ReadsAs spoiltImage BitMap.sample decoded ∧
      ∃ after, decode (spoiltImage.flipped 0 2) BitMap.sample .w16 = .ok after ∧
        FlipEffect spoiltImage BitMap.sample 0 2 decoded after := by
  have hwidth : spoiltImage.width = BitMap.sample.width := rfl
  obtain ⟨decoded, hdecode, hreads, -, -, hflip⟩ :=
    decode_readsAs BitMap.reachable_sample hwidth contains_spoiltImage
      BitMap.lt_of_mem_registerBits_sample
  exact ⟨decoded, hdecode, hreads, hflip 0 2 (by decide +kernel) (by decide +kernel)⟩

end ChipConfig.Layout
