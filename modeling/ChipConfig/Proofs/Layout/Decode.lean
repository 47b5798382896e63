import ChipConfig.Layout.Decode
import ChipConfig.Proofs.BitMap.WellFormed
import ChipConfig.Proofs.Image
import ChipConfig.Proofs.RegisterFile

/-!
# What an image tells

Reading an image back goes through the placements of the bit map.  It succeeds exactly when the
image has the width and the words of the bit map and every register bit that reads as set exists.
Its results are then functions of the image: the places that read as set, and the fixed bits that
read wrong.  Both depend only on the bits of the image that stand at placements of their kind.
-/

namespace ChipConfig

/-- Mismatches are listed from the lowest address up, and in a word from the top bit down. -/
def Mismatch.Before (a b : Mismatch) : Prop :=
  a.address < b.address ∨ a.address = b.address ∧ b.bitIndex < a.bitIndex

namespace Layout

variable {image : Image} {bitMap : BitMap} {registerWidth : Width}

/-- What the bit at a placement tells. -/
def findingAt (image : Image) (bitMap : BitMap) (placement : BitMap.Placement) :
    Option Finding :=
  let bitIndex := bitMap.wordBit placement.position
  let actual := image.bit placement.address bitIndex
  match placement.source with
  | .ignored => none
  | .constant expected =>
    if expected = actual then none
    else some (.mismatch ⟨placement.address, bitIndex, expected, actual⟩)
  | .register place => if actual then some (.isSet place) else none

/-- Whether a register of the width has the bit at a placement, should it be set. -/
def IsReadable (registerWidth : Width) (image : Image) (bitMap : BitMap)
    (placement : BitMap.Placement) : Prop :=
  ∀ place, placement.source = .register place →
    image.bit placement.address (bitMap.wordBit placement.position) = true →
      place.bit.toNat < registerWidth.bits

/-- What reading an image asks for: the width of the bit map, a word at each of its addresses, and
no set bit that the registers lack. -/
structure Readable (registerWidth : Width) (image : Image) (bitMap : BitMap) : Prop where
  width_eq : image.width = bitMap.width
  contains_of_contains : ∀ address, bitMap.words.contains address = true →
    image.contains address = true
  isReadable : ∀ placement ∈ bitMap.placements, IsReadable registerWidth image bitMap placement

/-- The register bits that an image shows to be set, in the order of the placements. -/
def setPlaces (image : Image) (bitMap : BitMap) : List RegisterBit :=
  bitMap.placements.filterMap fun placement ↦
    (findingAt image bitMap placement).bind Finding.place?

/-- The fixed bits of an image that are wrong, in the order of the placements. -/
def wrongBits (image : Image) (bitMap : BitMap) : List Mismatch :=
  bitMap.placements.filterMap fun placement ↦
    (findingAt image bitMap placement).bind Finding.mismatch?

theorem findBit_eq_ok_iff (placement : BitMap.Placement) {word : Word}
    (hword : image.get? placement.address = some word) {finding : Option Finding} :
    findBit registerWidth placement.address word (bitMap.wordBit placement.position)
        placement.source = .ok finding ↔
      IsReadable registerWidth image bitMap placement ∧
        finding = findingAt image bitMap placement := by
  obtain ⟨address, position, source⟩ := placement
  have hbit := Image.bit_of_get? hword (bitMap.wordBit position)
  simp only [findBit, IsReadable, findingAt, hbit]
  cases source with
  | ignored => simp [Fallible.ok_eq_ok_iff, -Except.ok.injEq]
  | constant expected =>
    by_cases hsame : expected = word.getLsbD (bitMap.wordBit position)
    · simp [hsame, Fallible.ok_eq_ok_iff, -Except.ok.injEq]
    · simp [hsame, Fallible.ok_eq_ok_iff, -Except.ok.injEq]
  | register place =>
    cases word.getLsbD (bitMap.wordBit position) with
    | false => simp [Fallible.ok_eq_ok_iff, -Except.ok.injEq]
    | true =>
      simp only [if_true, Width.checkIndex, BitSource.register.injEq, forall_eq', true_implies]
      by_cases hplace : place.bit.toNat < registerWidth.bits
      · simp [hplace, Fallible.ok_eq_ok_iff, -Except.ok.injEq]
      · simp [hplace]

theorem findWord_eq_ok_iff {entry : Address × List BitSource} {findings : List Finding} :
    findWord registerWidth image bitMap entry = .ok findings ↔
      (image.contains entry.1 = true ∧
        ∀ placement ∈ BitMap.wordPlacements entry,
          IsReadable registerWidth image bitMap placement) ∧
      findings = (BitMap.wordPlacements entry).filterMap (findingAt image bitMap) := by
  rw [findWord, Image.contains_iff]
  split
  · next hnone => simp [hnone]
  · next word hword =>
    have hbit (pair : BitSource × Nat) (_ : pair ∈ entry.2.zipIdx) (finding : Option Finding) :
        findBit registerWidth entry.1 word (bitMap.wordBit pair.2) pair.1 = .ok finding ↔
          IsReadable registerWidth image bitMap ⟨entry.1, pair.2, pair.1⟩ ∧
            finding = findingAt image bitMap ⟨entry.1, pair.2, pair.1⟩ :=
      findBit_eq_ok_iff ⟨entry.1, pair.2, pair.1⟩ hword
    have hcontains : ∃ word, image.get? entry.1 = some word := ⟨word, hword⟩
    rw [and_iff_right hcontains, BitMap.wordPlacements, List.forall_mem_map, List.filterMap_map]
    refine (Fallible.bind_eq_ok_iff_of_iff fun _ ↦ Fallible.mapM_eq_ok_iff hbit).trans ?_
    rw [Fallible.pure_eq_ok_iff, List.filterMap_map]
    rfl

theorem findAll_eq_ok_iff {findings : List Finding} :
    findAll registerWidth image bitMap = .ok findings ↔
      Readable registerWidth image bitMap ∧
        findings = bitMap.placements.filterMap (findingAt image bitMap) := by
  have hwords (found : List (List Finding)) :
      bitMap.toList.mapM (findWord registerWidth image bitMap) = .ok found ↔
        (∀ entry ∈ bitMap.toList, image.contains entry.1 = true ∧
          ∀ placement ∈ BitMap.wordPlacements entry,
            IsReadable registerWidth image bitMap placement) ∧
        found = bitMap.toList.map fun entry ↦
          (BitMap.wordPlacements entry).filterMap (findingAt image bitMap) :=
    Fallible.mapM_eq_ok_iff fun _ _ _ ↦ findWord_eq_ok_iff
  have hentries : (∀ entry ∈ bitMap.toList, image.contains entry.1 = true) ↔
      ∀ address, bitMap.words.contains address = true → image.contains address = true := by
    rw [← List.forall_mem_map (f := Prod.fst) (P := fun address ↦ image.contains address = true)]
    exact forall_congr' fun address ↦ imp_congr_left SortedMap.mem_keys_iff
  have hreadable : Readable registerWidth image bitMap ↔ image.width = bitMap.width ∧
      ∀ entry ∈ bitMap.toList, image.contains entry.1 = true ∧
        ∀ placement ∈ BitMap.wordPlacements entry,
          IsReadable registerWidth image bitMap placement := by
    simp only [forall_and, hentries, ← List.forall_mem_flatMap]
    exact ⟨fun h ↦ ⟨h.1, h.2, h.3⟩, fun h ↦ ⟨h.1, h.2.1, h.2.2⟩⟩
  simp [findAll, hwords, hreadable, BitMap.placements, List.flatMap, Function.comp_def, and_assoc]

/-- Whether an image shows a register bit to be set. -/
def ShowsSet (image : Image) (bitMap : BitMap) (place : RegisterBit) : Prop :=
  ∃ address position, bitMap.sourceAt? address position = some (.register place) ∧
    image.bit address (bitMap.wordBit position) = true

theorem place?_findingAt_eq_some_iff {placement : BitMap.Placement} {place : RegisterBit} :
    (findingAt image bitMap placement).bind Finding.place? = some place ↔
      placement.source = .register place ∧
        image.bit placement.address (bitMap.wordBit placement.position) = true := by
  obtain ⟨address, position, source⟩ := placement
  cases source with
  | ignored => simp [findingAt]
  | constant expected =>
    by_cases hsame : expected = image.bit address (bitMap.wordBit position)
    · simp [findingAt, hsame]
    · simp [findingAt, hsame, Finding.place?]
  | register shown =>
    cases hbit : image.bit address (bitMap.wordBit position) with
    | false => simp [findingAt, hbit]
    | true => simp [findingAt, hbit, Finding.place?]

theorem mem_setPlaces_iff {place : RegisterBit} :
    place ∈ setPlaces image bitMap ↔ ShowsSet image bitMap place := by
  rw [setPlaces, BitMap.mem_filterMap_placements]
  simp [ShowsSet, place?_findingAt_eq_some_iff]

theorem mem_registerBits_of_showsSet {place : RegisterBit} (h : ShowsSet image bitMap place) :
    place ∈ bitMap.registerBits := by
  obtain ⟨address, position, hsource, -⟩ := h
  exact BitMap.mem_registerBits_iff.2 ⟨address, position, hsource⟩

/-- A register bit that stands at one position only is set if it reads as set there. -/
theorem showsSet_iff (hmap : bitMap.WellFormed) {address : Address} {position : Nat}
    {place : RegisterBit} (h : bitMap.sourceAt? address position = some (.register place)) :
    ShowsSet image bitMap place ↔ image.bit address (bitMap.wordBit position) = true := by
  constructor
  · intro hset
    obtain ⟨other, n, hother, hbit⟩ := hset
    obtain ⟨rfl, rfl⟩ := hmap.position_unique h hother
    exact hbit
  · intro hbit
    exact ⟨address, position, h, hbit⟩

theorem nodup_setPlaces (hmap : bitMap.WellFormed) (image : Image) :
    (setPlaces image bitMap).Nodup := by
  have hnodup := hmap.nodup_registerBits
  rw [BitMap.registerBits_eq_filterMap, List.Nodup, List.pairwise_filterMap] at hnodup
  rw [setPlaces, List.Nodup, List.pairwise_filterMap]
  refine hnodup.imp ?_
  intro a b h place ha other hb
  have hplace := (place?_findingAt_eq_some_iff.1 ha).1
  have hother := (place?_findingAt_eq_some_iff.1 hb).1
  exact h place (BitMap.registerBit_eq_some_iff.2 hplace) other
    (BitMap.registerBit_eq_some_iff.2 hother)

theorem setPlaces_congr {a b : Image}
    (h : ∀ address position place,
      bitMap.sourceAt? address position = some (.register place) →
        a.bit address (bitMap.wordBit position) = b.bit address (bitMap.wordBit position)) :
    setPlaces a bitMap = setPlaces b bitMap := by
  apply List.filterMap_congr
  intro placement hplacement
  have hsource := BitMap.mem_placements_iff.1 hplacement
  apply Option.ext
  intro place
  rw [place?_findingAt_eq_some_iff, place?_findingAt_eq_some_iff]
  refine and_congr_right fun hplace ↦ ?_
  rw [h placement.address placement.position place (hplace ▸ hsource)]

/-- Whether a mismatch names a fixed bit that an image has wrong. -/
def IsWrong (image : Image) (bitMap : BitMap) (mismatch : Mismatch) : Prop :=
  ∃ position, bitMap.sourceAt? mismatch.address position = some (.constant mismatch.expected) ∧
    mismatch.bitIndex = bitMap.wordBit position ∧
    mismatch.actual = !mismatch.expected ∧
    image.bit mismatch.address mismatch.bitIndex = mismatch.actual

theorem mismatch?_findingAt_eq_some_iff {placement : BitMap.Placement} {mismatch : Mismatch} :
    (findingAt image bitMap placement).bind Finding.mismatch? = some mismatch ↔
      placement.source = .constant mismatch.expected ∧ mismatch.address = placement.address ∧
        mismatch.bitIndex = bitMap.wordBit placement.position ∧
        mismatch.actual = !mismatch.expected ∧
        image.bit mismatch.address mismatch.bitIndex = mismatch.actual := by
  obtain ⟨address, position, source⟩ := placement
  obtain ⟨address', bitIndex, expected, actual⟩ := mismatch
  cases source with
  | ignored => simp [findingAt]
  | register place =>
    cases hbit : image.bit address (bitMap.wordBit position) with
    | false => simp [findingAt, hbit]
    | true => simp [findingAt, hbit, Finding.mismatch?]
  | constant value =>
    by_cases hsame : value = image.bit address (bitMap.wordBit position)
    · simp only [findingAt, hsame, if_true, Option.bind_none, reduceCtorEq, false_iff]
      grind
    · have hflip : image.bit address (bitMap.wordBit position) = !value := by
        rw [Bool.eq_not]
        exact Ne.symm hsame
      simp only [findingAt, hsame, if_false, Option.bind_some, Finding.mismatch?,
        Option.some.injEq, Mismatch.mk.injEq]
      grind

@[simp]
theorem mem_wrongBits_iff {mismatch : Mismatch} :
    mismatch ∈ wrongBits image bitMap ↔ IsWrong image bitMap mismatch := by
  rw [wrongBits, BitMap.mem_filterMap_placements]
  simp [IsWrong, mismatch?_findingAt_eq_some_iff]

theorem pairwise_wrongBits (hmap : bitMap.WellFormed) (image : Image) :
    (wrongBits image bitMap).Pairwise Mismatch.Before := by
  apply hmap.pairwise_filterMap_placements
  intro placement mismatch h
  obtain ⟨-, haddress, hindex, -⟩ := mismatch?_findingAt_eq_some_iff.1 h
  exact ⟨haddress, hindex⟩

theorem wrongBits_congr {a b : Image}
    (h : ∀ address position value,
      bitMap.sourceAt? address position = some (.constant value) →
        a.bit address (bitMap.wordBit position) = b.bit address (bitMap.wordBit position)) :
    wrongBits a bitMap = wrongBits b bitMap := by
  apply List.filterMap_congr
  intro placement hplacement
  have hsource := BitMap.mem_placements_iff.1 hplacement
  apply Option.ext
  intro mismatch
  rw [mismatch?_findingAt_eq_some_iff, mismatch?_findingAt_eq_some_iff]
  refine and_congr_right fun hvalue ↦ and_congr_right fun haddress ↦
    and_congr_right fun hindex ↦ and_congr_right fun _ ↦ ?_
  rw [haddress, hindex, h placement.address placement.position _ (hvalue ▸ hsource)]

/-! ## Reading into registers -/

@[simp]
theorem applyToggle_eq_ok_iff {file result : RegisterFile} {place : RegisterBit} :
    applyToggle file place = .ok result ↔
      place.bit.toNat < file.width.bits ∧ result = file.flipped place := by
  rw [applyToggle, ← RegisterFile.toggle_eq_ok_iff]
  split
  · next cause h => simp [h]
  · next flipped h => rw [h, Except.ok.injEq, Except.ok.injEq]

theorem foldlM_applyToggle_eq_ok {file : RegisterFile} {places : List RegisterBit}
    (h : ∀ place ∈ places, place.bit.toNat < file.width.bits) :
    places.foldlM applyToggle file = .ok (file.flippedAll places) := by
  apply (Fallible.foldlM_eq_ok_iff (fun other ↦ other.width = file.width) ?_ ?_ rfl).2 ⟨h, rfl⟩
  · intro other hwidth place _ result
    rw [← hwidth]
    exact applyToggle_eq_ok_iff
  · intro other hwidth place _
    exact hwidth

/-- Every place that reads as set exists in the registers. -/
theorem Readable.lt_of_mem_setPlaces (hreadable : Readable registerWidth image bitMap)
    {place : RegisterBit} (hplace : place ∈ setPlaces image bitMap) :
    place.bit.toNat < registerWidth.bits := by
  obtain ⟨address, position, hsource, hbit⟩ := mem_setPlaces_iff.1 hplace
  have hplacement : (⟨address, position, .register place⟩ : BitMap.Placement) ∈
      bitMap.placements := BitMap.mem_placements_iff.2 hsource
  exact hreadable.isReadable _ hplacement place rfl hbit

/-- The registers get their bits flipped after every finding has been collected, and then no flip
can fail. -/
theorem decodeInto_eq_ok_iff {file : RegisterFile} {decoded : Decoded} :
    decodeInto image bitMap file = .ok decoded ↔
      Readable file.width image bitMap ∧
        decoded = ⟨file.flippedAll (setPlaces image bitMap), wrongBits image bitMap⟩ := by
  have hplaces : (bitMap.placements.filterMap (findingAt image bitMap)).filterMap Finding.place? =
      setPlaces image bitMap := List.filterMap_filterMap
  have hmismatches : (bitMap.placements.filterMap (findingAt image bitMap)).filterMap
      Finding.mismatch? = wrongBits image bitMap := List.filterMap_filterMap
  unfold decodeInto
  rw [Fallible.bind_eq_ok_iff_of_iff fun _ ↦ findAll_eq_ok_iff, hplaces, hmismatches]
  apply and_congr_right
  intro hreadable
  rw [foldlM_applyToggle_eq_ok fun _ ↦ hreadable.lt_of_mem_setPlaces]
  exact Fallible.pure_eq_ok_iff

/-- Registers that all read as zero, one entry for each register of which the bit map shows a
bit. -/
def blankRegisters (bitMap : BitMap) (registerWidth : Width) : RegisterFile :=
  bitMap.referencedRegisters.foldl RegisterFile.touch (RegisterFile.empty registerWidth)

def readRegisters (image : Image) (bitMap : BitMap) (registerWidth : Width) : RegisterFile :=
  (blankRegisters bitMap registerWidth).flippedAll (setPlaces image bitMap)

theorem readRegisters_congr {a b : Image}
    (h : ∀ address position place,
      bitMap.sourceAt? address position = some (.register place) →
        a.bit address (bitMap.wordBit position) = b.bit address (bitMap.wordBit position)) :
    readRegisters a bitMap registerWidth = readRegisters b bitMap registerWidth := by
  unfold readRegisters
  rw [setPlaces_congr h]

@[simp]
theorem width_readRegisters : (readRegisters image bitMap registerWidth).width = registerWidth := by
  rw [readRegisters, RegisterFile.width_flippedAll]
  exact (RegisterFile.foldl_touch bitMap.referencedRegisters (.empty registerWidth)).1

theorem decode_eq_ok_iff {decoded : Decoded} :
    decode image bitMap registerWidth = .ok decoded ↔
      Readable registerWidth image bitMap ∧
        decoded = ⟨readRegisters image bitMap registerWidth, wrongBits image bitMap⟩ := by
  have hwidth : (blankRegisters bitMap registerWidth).width = registerWidth :=
    (RegisterFile.foldl_touch bitMap.referencedRegisters (.empty registerWidth)).1
  rw [decode, decodeInto_eq_ok_iff, ← blankRegisters, hwidth]
  rfl

/-- A register bit is set if the image shows it to be set. -/
theorem getLsbD_readRegisters (hmap : bitMap.WellFormed) {place : RegisterBit}
    (hplace : place.bit.toNat < 64) :
    ((readRegisters image bitMap registerWidth).get place.register).getLsbD place.bit.toNat =
      decide (place ∈ setPlaces image bitMap) := by
  have hblank : (blankRegisters bitMap registerWidth).get place.register = 0 :=
    (RegisterFile.foldl_touch bitMap.referencedRegisters (.empty registerWidth)).2.1 place.register
  rw [readRegisters, RegisterFile.getLsbD_get_flippedAll _ (nodup_setPlaces hmap image) hplace,
    hblank]
  simp

@[simp]
theorem contains_readRegisters (register : Address) :
    (readRegisters image bitMap registerWidth).contains register = true ↔
      register ∈ bitMap.referencedRegisters := by
  have hblank := (RegisterFile.foldl_touch bitMap.referencedRegisters
    (.empty registerWidth)).2.2 register
  have hempty : ¬(RegisterFile.empty registerWidth).contains register = true := by
    simp [RegisterFile.contains, RegisterFile.empty, SortedMap.contains_eq_isSome]
  rw [readRegisters, RegisterFile.contains_flippedAll, blankRegisters, hblank]
  constructor
  · intro h
    rcases h with ⟨place, hplace, hregister⟩ | hregister | hregister
    · have hmem := mem_registerBits_of_showsSet (mem_setPlaces_iff.1 hplace)
      exact BitMap.mem_referencedRegisters_iff.2 ⟨place, hmem, hregister⟩
    · exact hregister
    · exact absurd hregister hempty
  · intro h
    exact .inr (.inl h)

@[simp]
theorem keys_readRegisters :
    (readRegisters image bitMap registerWidth).words.keys = bitMap.referencedRegisters := by
  apply SortedMap.keys_eq_of_contains_iff
  intro register
  exact (contains_readRegisters register).trans SortedMap.mem_keys_iff

end Layout

end ChipConfig
