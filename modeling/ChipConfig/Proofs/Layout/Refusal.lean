import ChipConfig.Proofs.Layout.Accumulate

/-!
# Why an image is not built

The words of an image are built one after the other, each from its top bit down.  Putting a finished
word into the image never fails, so the loop over the words and the loop over the bits of a word are
one pass over the placements of the bit map.  The pass stops at the first placement whose source
cannot be shown, and this placement decides what is reported.
-/

namespace ChipConfig.Layout

variable {policy : MissingPolicy} {bitMap : BitMap} {file : RegisterFile} {cause : LayoutError}

/-- Why a bit of a register cannot be shown in the word at an address.  A missing entry is reported
also where the register has no such bit. -/
inductive Refusal (policy : MissingPolicy) (file : RegisterFile) (address : Address)
    (place : RegisterBit) : LayoutError → Prop
  | missing (hpolicy : policy = .reject) (hentry : file.contains place.register = false) :
    Refusal policy file address place (.missingRegister address place.register)
  | outside (hentry : policy = .reject → file.contains place.register = true)
      (hbit : file.width.bits ≤ place.bit.toNat) :
    Refusal policy file address place
      (.bit (.indexOutOfRange place.bit.toNat file.width.bits))

theorem sourceBit_eq_error_iff {address : Address} {source : BitSource} :
    sourceBit policy file address source = .error cause ↔
      ∃ place, source = .register place ∧ Refusal policy file address place cause := by
  cases source with
  | constant value => simp [sourceBit]
  | ignored => simp [sourceBit]
  | register place =>
    simp only [BitSource.register.injEq, exists_eq_left']
    rw [sourceBit]
    split
    · next hmissing =>
      have hentry : file.contains place.register = false := by simpa using hmissing.2
      constructor
      · intro h
        obtain rfl := Except.error.inj h
        exact .missing hmissing.1 hentry
      · intro h
        cases h with
        | missing => rfl
        | outside hpresent => simp [hpresent hmissing.1] at hentry
    · next hpresent =>
      have hentry : policy = .reject → file.contains place.register = true := by
        simpa using hpresent
      constructor
      · intro h
        cases hread : (file.get place.register).bit file.width place.bit.toNat with
        | ok value => simp [hread] at h
        | error bitCause =>
          obtain ⟨hbit, rfl⟩ := Width.bit_eq_error_iff.1 hread
          simp only [hread, Except.error.injEq] at h
          rw [← h]
          exact .outside hentry hbit
      · intro h
        cases h with
        | missing hpolicy hmissing => simp [hentry hpolicy] at hmissing
        | outside _ hbit => rw [Width.bit_eq_error_iff.2 ⟨hbit, rfl⟩]

/-- The bit that a placement gives. -/
def placementBit (policy : MissingPolicy) (file : RegisterFile) (placement : BitMap.Placement) :
    Except LayoutError Bool :=
  sourceBit policy file placement.address placement.source

@[simp]
theorem mapM_placementBit (policy : MissingPolicy) (file : RegisterFile)
    (entry : Address × List BitSource) :
    (BitMap.wordPlacements entry).mapM (placementBit policy file) =
      entry.2.mapM (sourceBit policy file entry.1) := by
  rw [BitMap.wordPlacements, List.mapM_map]
  conv_rhs => rw [← List.zipIdx_map_fst 0 entry.2, List.mapM_map]
  rfl

theorem encodeWord_eq_error_iff {entry : Address × List BitSource} :
    encodeWord policy file entry.1 entry.2 = .error cause ↔
      (BitMap.wordPlacements entry).mapM (placementBit policy file) = .error cause := by
  rw [mapM_placementBit, encodeWord]
  exact Fallible.bind_pure_eq_error_iff

/-- A word that was built has as many bits as sources, so it fits the image. -/
theorem exists_set_of_encodeWord {image : Image} {entry : Address × List BitSource} {word : Word}
    (hlength : entry.2.length = image.width.bits)
    (hword : encodeWord policy file entry.1 entry.2 = .ok word) :
    ∃ after, image.set entry.1 word = .ok after := by
  obtain ⟨-, rfl⟩ := encodeWord_eq_ok_iff.1 hword
  exact ⟨_, Image.set_eq_ok_iff.2 ⟨fits_shownWord hlength file, rfl⟩⟩

theorem encodeEntry_eq_error_iff {image : Image} {entry : Address × List BitSource}
    (hlength : entry.2.length = image.width.bits) :
    encodeEntry policy file image entry = .error cause ↔
      (BitMap.wordPlacements entry).mapM (placementBit policy file) = .error cause := by
  rw [encodeEntry, Fallible.bind_eq_error_iff, encodeWord_eq_error_iff, or_iff_left]
  intro h
  obtain ⟨word, hword, hset⟩ := h
  obtain ⟨after, hafter⟩ := exists_set_of_encodeWord hlength hword
  simp [hafter] at hset

theorem width_of_encodeEntry {image after : Image} {entry : Address × List BitSource}
    (h : encodeEntry policy file image entry = .ok after) : after.width = image.width := by
  obtain ⟨word, hset⟩ := exists_set_of_encodeEntry h
  rw [(Image.set_eq_ok_iff.1 hset).2]

/-- The words are built one after the other, and the first placement that cannot be shown stops the
whole run. -/
theorem foldlM_encodeEntry_eq_error_iff {entries : List (Address × List BitSource)} {image : Image}
    (hlength : ∀ entry ∈ entries, entry.2.length = image.width.bits) :
    entries.foldlM (encodeEntry policy file) image = .error cause ↔
      (entries.flatMap BitMap.wordPlacements).mapM (placementBit policy file) = .error cause := by
  induction entries generalizing image with
  | nil => simp
  | cons entry entries ih =>
    obtain ⟨hentry, hentries⟩ := List.forall_mem_cons.1 hlength
    rw [List.foldlM_cons, List.flatMap_cons, List.mapM_append]
    -- The bits of a word fail where the word does, and of an image only the width matters.
    cases hstep : encodeEntry policy file image entry with
    | error other =>
      rw [(encodeEntry_eq_error_iff hentry).1 hstep]
      simp
    | ok after =>
      obtain ⟨bits, hbits⟩ : ∃ bits,
          (BitMap.wordPlacements entry).mapM (placementBit policy file) = .ok bits := by
        cases hword : (BitMap.wordPlacements entry).mapM (placementBit policy file) with
        | ok bits => exact ⟨bits, rfl⟩
        | error other => simp [(encodeEntry_eq_error_iff hentry).2 hword] at hstep
      have hafter : ∀ entry ∈ entries, entry.2.length = after.width.bits := by
        rwa [width_of_encodeEntry hstep]
      have hrest := ih hafter
      rw [hbits]
      exact hrest.trans Fallible.bind_pure_eq_error_iff.symm

/-- The first placement that cannot be shown is reported. -/
theorem encodeImage_eq_error_iff (hmap : bitMap.WellFormed) :
    encodeImage policy bitMap file = .error cause ↔
      ∃ placement ∈ bitMap.placements,
        placementBit policy file placement = .error cause ∧
        ∀ earlier ∈ bitMap.placements, earlier.Before placement →
          ∃ bit, placementBit policy file earlier = .ok bit := by
  rw [encodeImage, foldlM_encodeEntry_eq_error_iff hmap.length_eq]
  exact Fallible.mapM_eq_error_iff bitMap.pairwise_placements

theorem encode_eq_error_iff (hmap : bitMap.WellFormed) {map : RegisterMap} :
    encode policy map bitMap file = .error cause ↔
      ∃ address position place, bitMap.sourceAt? address position = some (.register place) ∧
        Refusal policy file address place cause ∧
        ∀ other n source, bitMap.sourceAt? other n = some source →
          (other < address ∨ other = address ∧ n < position) → IsAvailable policy file source := by
  have hshown (address : Address) (source : BitSource) :
      (∃ bit, sourceBit policy file address source = .ok bit) ↔
        IsAvailable policy file source := by
    simp
  have himage : encode policy map bitMap file = .error cause ↔
      encodeImage policy bitMap file = .error cause :=
    Fallible.bind_pure_eq_error_iff
  rw [himage, encodeImage_eq_error_iff hmap]
  simp only [placementBit, hshown, sourceBit_eq_error_iff, BitMap.mem_placements_iff]
  constructor
  · intro h
    obtain ⟨⟨address, position, source⟩, hsource, ⟨place, rfl, hrefusal⟩, hearlier⟩ := h
    refine ⟨address, position, place, hsource, hrefusal, ?_⟩
    intro other n source hother hbefore
    exact hearlier ⟨other, n, source⟩ hother hbefore
  · intro h
    obtain ⟨address, position, place, hsource, hrefusal, hearlier⟩ := h
    refine ⟨⟨address, position, .register place⟩, hsource, ⟨place, rfl, hrefusal⟩, ?_⟩
    intro earlier hposition hbefore
    exact hearlier _ _ _ hposition hbefore

/-- The sources of a map can all be shown if its register bits exist and, where missing entries are
refused, stand in registers that have one. -/
theorem forall_isAvailable_iff :
    (∀ placement ∈ bitMap.placements, IsAvailable policy file placement.source) ↔
      ∀ address position place, bitMap.sourceAt? address position = some (.register place) →
        place.bit.toNat < file.width.bits ∧
          (policy = .reject → file.contains place.register = true) := by
  constructor
  · intro h address position place hsource
    exact (h ⟨address, position, .register place⟩ (BitMap.mem_placements_iff.2 hsource)).symm
  · intro h placement hplacement
    have hsource := BitMap.mem_placements_iff.1 hplacement
    cases hplace : placement.source with
    | constant value => trivial
    | ignored => trivial
    | register place =>
      rw [hplace] at hsource
      exact (h _ _ place hsource).symm

/-- The word at an address of the map has at every position the bit that the source there shows. -/
theorem exists_word_shownImage (hmap : bitMap.WellFormed) {address : Address}
    (haddress : bitMap.words.contains address = true) :
    ∃ word, (shownImage bitMap file).get? address = some word ∧
      ∀ position < bitMap.width.bits, ∃ source,
        bitMap.sourceAt? address position = some source ∧
        word.getLsbD (bitMap.wordBit position) = shownBit file source := by
  obtain ⟨word, hword⟩ : ∃ word, (shownImage bitMap file).get? address = some word := by
    rw [← Option.isSome_iff_exists]
    exact (contains_shownImage address).trans haddress
  refine ⟨word, hword, ?_⟩
  intro position hposition
  have hindex := bitMap.wordBit_lt hposition
  obtain ⟨source, hsource⟩ := hmap.exists_sourceAt? haddress hindex
  rw [bitMap.wordBit_wordBit hposition] at hsource
  refine ⟨source, hsource, ?_⟩
  rw [← bit_shownImage hmap hsource, Image.bit_of_get? hword]

/-- An image is built if every register bit of the bit map can be shown.  Otherwise the first
position that cannot be shown is reported, and a missing entry there goes before a missing bit. -/
theorem encode_shown_or_refused (hmap : bitMap.Reachable) (policy : MissingPolicy)
    (map : RegisterMap) (file : RegisterFile) :
    ((∃ encoded, encode policy map bitMap file = .ok encoded) ↔
      ∀ address position place, bitMap.sourceAt? address position = some (.register place) →
        place.bit.toNat < file.width.bits ∧
          (policy = .reject → file.contains place.register = true)) ∧
    (∀ encoded, encode policy map bitMap file = .ok encoded →
      encoded.image.width = bitMap.width ∧
      encoded.image.words.keys = bitMap.words.keys ∧
      encoded.image.Fits ∧
      ∀ address, bitMap.words.contains address = true →
        ∃ word, encoded.image.get? address = some word ∧
          ∀ position < bitMap.width.bits, ∃ source,
            bitMap.sourceAt? address position = some source ∧
            word.getLsbD (bitMap.wordBit position) = shownBit file source) ∧
    (∀ cause, encode policy map bitMap file = .error cause ↔
      ∃ address position place, bitMap.sourceAt? address position = some (.register place) ∧
        Refusal policy file address place cause ∧
        ∀ other n source, bitMap.sourceAt? other n = some source →
          (other < address ∨ other = address ∧ n < position) → IsAvailable policy file source) ∧
    ∀ earlier entry later image word, bitMap.toList = earlier ++ entry :: later →
      earlier.foldlM (encodeEntry policy file) (Image.empty bitMap.width) = .ok image →
      encodeWord policy file entry.1 entry.2 = .ok word →
        ∃ after, image.set entry.1 word = .ok after := by
  have hwellFormed := hmap.wellFormed
  refine ⟨?_, ?_, fun cause ↦ encode_eq_error_iff hwellFormed, ?_⟩
  · simp only [encode_eq_ok_iff hwellFormed, exists_and_left, exists_eq, and_true]
    exact forall_isAvailable_iff
  · intro encoded hencoded
    obtain ⟨-, rfl⟩ := (encode_eq_ok_iff hwellFormed).1 hencoded
    refine ⟨rfl, ?_, fits_shownImage hwellFormed, ?_⟩
    · apply SortedMap.keys_eq_of_contains_iff
      intro address
      exact Bool.eq_iff_iff.1 (contains_shownImage address)
    · intro address haddress
      exact exists_word_shownImage hwellFormed haddress
  · intro earlier entry later image word hentries hrun hword
    have hkeeps (before : Image) (entry : Address × List BitSource) (after : Image)
        (hbefore : before.width = bitMap.width)
        (hstep : encodeEntry policy file before entry = .ok after) : after.width = bitMap.width :=
      (width_of_encodeEntry hstep).trans hbefore
    have hwidth : image.width = bitMap.width := Fallible.foldlM_keeps hkeeps rfl hrun
    have hmem : entry ∈ bitMap.toList := by simp [hentries]
    apply exists_set_of_encodeWord _ hword
    rw [hwellFormed.length_eq entry hmem, hwidth]

theorem encode_shown_or_refused_sample :
    (∃ encoded word, encode .reject ⟨.w16, ∅, ∅⟩ BitMap.sample sampleFile = .ok encoded ∧
      encoded.image.get? 0 = some word ∧ word.getLsbD 0 = true) ∧
    encode .reject ⟨.w16, ∅, ∅⟩ BitMap.sample narrowFile = .error (.missingRegister 0 3) ∧
    encode .zero ⟨.w16, ∅, ∅⟩ BitMap.sample narrowFile =
      .error (.bit (.indexOutOfRange 9 8)) := by
  have hplace : BitMap.sample.sourceAt? 0 2 = some (.register ⟨3, 9⟩) := by decide +kernel
  have hearlier (policy : MissingPolicy) (file : RegisterFile) (address : Address)
      (position : Nat) (source : BitSource)
      (hsource : BitMap.sample.sourceAt? address position = some source)
      (hbefore : address < 0 ∨ address = 0 ∧ position < 2) : IsAvailable policy file source := by
    obtain ⟨rfl, hposition⟩ := hbefore.resolve_left UInt32.not_lt_zero
    have hfixed : ∃ value, source = .constant value := by
      interval_cases position <;> exact ⟨_, (Option.some.inj hsource).symm⟩
    obtain ⟨value, rfl⟩ := hfixed
    trivial
  obtain ⟨-, hshown, -⟩ :=
    encode_shown_or_refused BitMap.reachable_sample .reject ⟨.w16, ∅, ∅⟩ sampleFile
  obtain ⟨-, -, hreject, -⟩ :=
    encode_shown_or_refused BitMap.reachable_sample .reject ⟨.w16, ∅, ∅⟩ narrowFile
  obtain ⟨-, -, hzero, -⟩ :=
    encode_shown_or_refused BitMap.reachable_sample .zero ⟨.w16, ∅, ∅⟩ narrowFile
  refine ⟨?_, ?_, ?_⟩
  · have hencode : encode .reject ⟨.w16, ∅, ∅⟩ BitMap.sample sampleFile = .ok ⟨sampleImage,
        [⟨0, 1, 3, .undeclared⟩, ⟨0, 0, 3, .undeclared⟩, ⟨1, 2, 0, .undeclared⟩]⟩ := by
      decide +kernel
    obtain ⟨-, -, -, hwords⟩ := hshown _ hencode
    obtain ⟨word, hword, hbits⟩ := hwords 0 (by decide +kernel)
    obtain ⟨source, hsource, hbit⟩ := hbits 3 (by decide)
    obtain rfl : .register ⟨3, 10⟩ = source :=
      Option.some.inj ((by decide +kernel : BitMap.sample.sourceAt? 0 3 = _).symm.trans hsource)
    exact ⟨_, word, hencode, hword, hbit.trans (by decide +kernel)⟩
  · exact (hreject _).2 ⟨0, 2, ⟨3, 9⟩, hplace, .missing rfl (by decide +kernel), hearlier _ _⟩
  · exact (hzero _).2 ⟨0, 2, ⟨3, 9⟩, hplace, .outside nofun (by decide +kernel), hearlier _ _⟩

end ChipConfig.Layout
