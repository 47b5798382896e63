import ChipConfig.Proofs.Layout.Decode
import ChipConfig.Proofs.Layout.Encode

/-!
# Registers through an image and back

Building an image and reading it back gives the bits of the registers that the bit map shows and
finds no fixed bit wrong.  The other way round, building the image of what was read from an image
gives that image back in its normal form: the fixed bits as they are described, the bits that nobody
looks at clear, and no words besides those of the bit map.
-/

namespace ChipConfig.Layout

variable {policy : MissingPolicy} {image : Image} {bitMap : BitMap} {file : RegisterFile}
  {registerWidth : Width}

/-- An image that has every word can be read by registers that have every bit of the bit map. -/
theorem decode_eq_ok (hwidth : image.width = bitMap.width)
    (hwords : ∀ address, bitMap.words.contains address = true → image.contains address = true)
    (hplaces : ∀ place ∈ bitMap.registerBits, place.bit.toNat < registerWidth.bits) :
    decode image bitMap registerWidth =
      .ok ⟨readRegisters image bitMap registerWidth, wrongBits image bitMap⟩ := by
  apply decode_eq_ok_iff.2
  refine ⟨⟨hwidth, hwords, ?_⟩, rfl⟩
  intro placement hplacement place hsource _
  have hposition := BitMap.mem_placements_iff.1 hplacement
  rw [hsource] at hposition
  exact hplaces place (BitMap.mem_registerBits_iff.2 ⟨_, _, hposition⟩)

/-- Registers whose image can be built have every bit of the bit map. -/
theorem lt_of_isAvailable
    (h : ∀ placement ∈ bitMap.placements, IsAvailable policy file placement.source)
    {place : RegisterBit} (hplace : place ∈ bitMap.registerBits) :
    place.bit.toNat < file.width.bits := by
  obtain ⟨address, position, hsource⟩ := BitMap.mem_registerBits_iff.1 hplace
  have hplacement : (⟨address, position, .register place⟩ : BitMap.Placement) ∈
      bitMap.placements := BitMap.mem_placements_iff.2 hsource
  exact (h _ hplacement).2

/-- A register reads the bits that the bit map shows of it. -/
theorem get_readRegisters_shownImage (hmap : bitMap.WellFormed) (register : Address) :
    (readRegisters (shownImage bitMap file) bitMap registerWidth).get register =
      file.get register &&& bitMap.projectedBits register := by
  apply BitVec.eq_of_getLsbD_eq
  intro i hi
  obtain ⟨place, rfl, rfl⟩ := RegisterBit.exists_of_lt register hi
  rw [getLsbD_readRegisters hmap hi, BitVec.getLsbD_and, BitMap.getLsbD_projectedBits _ hi,
    Bool.eq_iff_iff, decide_eq_true_iff, Bool.and_eq_true, decide_eq_true_iff, mem_setPlaces_iff]
  constructor
  · intro hset
    refine ⟨?_, mem_registerBits_of_showsSet hset⟩
    obtain ⟨address, position, hsource, hbit⟩ := hset
    rwa [bit_shownImage hmap hsource] at hbit
  · intro h
    obtain ⟨address, position, hsource⟩ := BitMap.mem_registerBits_iff.1 h.2
    refine ⟨address, position, hsource, ?_⟩
    rw [bit_shownImage hmap hsource]
    exact h.1

theorem wrongBits_shownImage (hmap : bitMap.WellFormed) :
    wrongBits (shownImage bitMap file) bitMap = [] := by
  apply List.eq_nil_iff_forall_not_mem.2
  intro mismatch hmismatch
  obtain ⟨position, hsource, hindex, hactual, hbit⟩ := mem_wrongBits_iff.1 hmismatch
  rw [hindex, bit_shownImage hmap hsource, shownBit, hactual] at hbit
  exact (Bool.eq_not_self _).1 hbit

/-- An image that has the words of an image that was built, and perhaps others, shows the registers
that this one was built from. -/
theorem decode_of_get?_eq (hmap : bitMap.WellFormed)
    (havailable : ∀ placement ∈ bitMap.placements, IsAvailable policy file placement.source)
    (hwidth : image.width = bitMap.width)
    (hwords : ∀ address, bitMap.words.contains address = true →
      image.get? address = (shownImage bitMap file).get? address) :
    decode image bitMap file.width =
      .ok ⟨readRegisters (shownImage bitMap file) bitMap file.width, []⟩ := by
  have hbit (address : Address) (position : Nat) (source : BitSource)
      (hsource : bitMap.sourceAt? address position = some source) :
      image.bit address (bitMap.wordBit position) =
        (shownImage bitMap file).bit address (bitMap.wordBit position) := by
    unfold Image.bit
    rw [hwords address (BitMap.contains_of_sourceAt? hsource)]
  have hregisters : readRegisters image bitMap file.width =
      readRegisters (shownImage bitMap file) bitMap file.width := by
    apply readRegisters_congr
    intro address position place hsource
    exact hbit address position _ hsource
  have hmismatches : wrongBits image bitMap = [] := by
    calc
      wrongBits image bitMap = wrongBits (shownImage bitMap file) bitMap := by
        apply wrongBits_congr
        intro address position value hsource
        exact hbit address position _ hsource
      _ = [] := wrongBits_shownImage hmap
  rw [← hregisters, ← hmismatches]
  apply decode_eq_ok hwidth
  · intro address haddress
    rw [Image.contains_iff, hwords address haddress, ← Image.contains_iff, contains_shownImage]
    exact haddress
  · intro place hplace
    exact lt_of_isAvailable havailable hplace

/-- Reading back an image that was built finds no wrong bit and gives every register the bits that
the bit map shows of it.  If it shows every bit that is set, these are the registers themselves. -/
theorem decode_encode (hmap : bitMap.Reachable) {map : RegisterMap} {encoded : Encoded}
    (h : encode policy map bitMap file = .ok encoded) :
    ∃ decoded, decode encoded.image bitMap file.width = .ok decoded ∧
      decoded.mismatches = [] ∧
      decoded.registers.words.keys = bitMap.referencedRegisters ∧
      (∀ register, decoded.registers.get register =
        file.get register &&& bitMap.projectedBits register) ∧
      ((∀ register index, (file.get register).getLsbD index = true →
          (bitMap.projectedBits register).getLsbD index = true) →
        decoded.registers.agrees file = true) := by
  have hwellFormed := hmap.wellFormed
  obtain ⟨havailable, rfl⟩ := (encode_eq_ok_iff hwellFormed).1 h
  have hget (register : Address) :
      (readRegisters (shownImage bitMap file) bitMap file.width).get register =
        file.get register &&& bitMap.projectedBits register :=
    get_readRegisters_shownImage hwellFormed register
  refine ⟨_, decode_of_get?_eq hwellFormed havailable rfl fun _ _ ↦ rfl, rfl, keys_readRegisters,
    hget, ?_⟩
  intro hprojected
  refine RegisterFile.agrees_iff.2 ⟨width_readRegisters, fun register ↦ ?_⟩
  rw [hget]
  apply BitVec.eq_of_getLsbD_eq
  intro i _
  rw [BitVec.getLsbD_and, Bool.and_eq_left_iff_imp]
  exact hprojected register i

/-- Registers of which the sample bit map shows every bit that is set. -/
def sampleFile : RegisterFile :=
  ⟨.w16, SortedMap.ofList [(0, 0x0010), (3, 0x0400)]⟩

def sampleImage : Image :=
  ⟨BitMap.sample.width, SortedMap.ofList [(0, 0x9), (1, 0x5)]⟩

theorem decode_encode_sample :
    ∃ decoded, decode sampleImage BitMap.sample .w16 = .ok decoded ∧
      decoded.mismatches = [] ∧ decoded.registers.words.keys = [0, 3] ∧
      decoded.registers.get 3 = 0x0400 ∧ decoded.registers.get 0 = 0x0010 := by
  have hencode : encode .reject ⟨.w16, ∅, ∅⟩ BitMap.sample sampleFile = .ok ⟨sampleImage,
      [⟨0, 1, 3, .undeclared⟩, ⟨0, 0, 3, .undeclared⟩, ⟨1, 2, 0, .undeclared⟩]⟩ := by
    decide +kernel
  obtain ⟨decoded, hdecode, hmismatches, hkeys, hget, -⟩ :=
    decode_encode BitMap.reachable_sample hencode
  refine ⟨decoded, hdecode, hmismatches, ?_, ?_, ?_⟩
  · rw [hkeys]
    decide +kernel
  · rw [hget]
    decide +kernel
  · rw [hget]
    decide +kernel

/-! ## Building what was read -/

/-- A bit in its normal form: a fixed bit as it is described, a bit that nobody looks at clear. -/
def normalBit (bit : Bool) : BitSource → Bool
  | .constant value => value
  | .register _ => bit
  | .ignored => false

/-- The bits of a word that are fixed or that nobody looks at. -/
def unreadMask (sources : List BitSource) : Word :=
  Word.ofBits (sources.map fun source ↦ source.registerBit.isNone)

/-- The bits of a word that are fixed to one. -/
def oneMask (sources : List BitSource) : Word :=
  Word.ofBits (sources.map fun source ↦ decide (source = .constant true))

/-- A word with the fixed bits as its sources describe them and the bits that nobody looks at
clear. -/
def normalWord (sources : List BitSource) (word : Word) : Word :=
  word &&& ~~~unreadMask sources ||| oneMask sources

theorem getLsbD_normalWord {sources : List BitSource} (hlength : sources.length ≤ 64)
    {position : Nat} {source : BitSource} (h : sources[position]? = some source) (word : Word) :
    (normalWord sources word).getLsbD (sources.length - 1 - position) =
      normalBit (word.getLsbD (sources.length - 1 - position)) source := by
  have hbits (f : BitSource → Bool) :
      (Word.ofBits (sources.map f)).getLsbD (sources.length - 1 - position) = f source := by
    have hbit : (sources.map f)[position]? = some (f source) := by
      rw [List.getElem?_map, h, Option.map_some]
    have hread := Word.getLsbD_ofBits_of_getElem? (by rwa [List.length_map]) hbit
    rwa [List.length_map] at hread
  have hindex : sources.length - 1 - position < 64 := by
    have := (List.getElem?_eq_some_iff.1 h).1
    omega
  rw [normalWord, BitVec.getLsbD_or, BitVec.getLsbD_and, BitVec.getLsbD_not, unreadMask, oneMask,
    hbits, hbits]
  cases source with
  | constant value => cases value <;> simp [normalBit, BitSource.registerBit]
  | register place => simp [normalBit, BitSource.registerBit, hindex]
  | ignored => simp [normalBit, BitSource.registerBit]

theorem fits_normalWord {width : Width} {sources : List BitSource}
    (hlength : sources.length = width.bits) {word : Word} (hword : width.Fits word) :
    width.Fits (normalWord sources word) := by
  have hone : width.Fits (oneMask sources) := by
    apply Width.fits_ofBits
    rw [List.length_map, hlength]
  rw [Width.fits_iff] at hword hone ⊢
  intro i hi
  rw [normalWord, BitVec.getLsbD_or, BitVec.getLsbD_and, hword i hi, hone i hi]
  rfl

/-- The registers that were read show the bits that they were read from. -/
theorem shownBit_readRegisters (hmap : bitMap.WellFormed)
    (hplaces : ∀ place ∈ bitMap.registerBits, place.bit.toNat < registerWidth.bits)
    {address : Address} {position : Nat} {source : BitSource}
    (h : bitMap.sourceAt? address position = some source) :
    shownBit (readRegisters image bitMap registerWidth) source =
      normalBit (image.bit address (bitMap.wordBit position)) source := by
  cases source with
  | constant value => rfl
  | ignored => rfl
  | register place =>
    have hplace : place.bit.toNat < 64 :=
      (hplaces place (BitMap.mem_registerBits_iff.2 ⟨_, _, h⟩)).trans_le registerWidth.le_max
    calc
      shownBit (readRegisters image bitMap registerWidth) (.register place) =
          decide (place ∈ setPlaces image bitMap) :=
        getLsbD_readRegisters hmap hplace
      _ = image.bit address (bitMap.wordBit position) := by
        rw [Bool.eq_iff_iff, decide_eq_true_iff, mem_setPlaces_iff, showsSet_iff hmap h]

/-- Every register of which the bit map shows a bit gets an entry when an image is read, also if all
of its bits are clear, so a missing entry never stops its image from being built. -/
theorem isAvailable_readRegisters
    (hplaces : ∀ place ∈ bitMap.registerBits, place.bit.toNat < registerWidth.bits) :
    ∀ placement ∈ bitMap.placements,
      IsAvailable policy (readRegisters image bitMap registerWidth) placement.source := by
  intro placement hplacement
  have hsource := BitMap.mem_placements_iff.1 hplacement
  cases h : placement.source with
  | constant value => trivial
  | ignored => trivial
  | register place =>
    rw [h] at hsource
    have hplace : place ∈ bitMap.registerBits := BitMap.mem_registerBits_iff.2 ⟨_, _, hsource⟩
    refine ⟨fun _ ↦ ?_, ?_⟩
    · apply (contains_readRegisters place.register).2
      exact BitMap.mem_referencedRegisters_iff.2 ⟨place, hplace, rfl⟩
    · rw [width_readRegisters]
      exact hplaces place hplace

/-- Where no fixed bit is wrong, every fixed bit is as it is described. -/
theorem bit_of_wrongBits_eq_nil (h : wrongBits image bitMap = []) {address : Address}
    {position : Nat} {value : Bool}
    (hsource : bitMap.sourceAt? address position = some (.constant value)) :
    image.bit address (bitMap.wordBit position) = value := by
  by_contra hne
  have hwrong : IsWrong image bitMap ⟨address, bitMap.wordBit position, value, !value⟩ :=
    ⟨position, hsource, rfl, rfl, Bool.eq_not.2 hne⟩
  rw [← mem_wrongBits_iff, h] at hwrong
  cases hwrong

/-- The image of the registers that were read has every word in its normal form. -/
theorem get?_shownImage_readRegisters (hmap : bitMap.WellFormed)
    (hwidth : image.width = bitMap.width) (hfits : image.Fits)
    (hplaces : ∀ place ∈ bitMap.registerBits, place.bit.toNat < registerWidth.bits)
    {address : Address} {sources : List BitSource} (hsources : bitMap.get? address = some sources)
    {word : Word} (hword : image.get? address = some word) :
    (shownImage bitMap (readRegisters image bitMap registerWidth)).get? address =
      some (normalWord sources word) := by
  have hlength : sources.length = bitMap.width.bits :=
    hmap.length_eq (address, sources) (BitMap.mem_toList_iff.2 hsources)
  have hcontains : bitMap.words.contains address = true := by
    rw [SortedMap.contains_eq_isSome, Option.isSome_iff_exists]
    exact ⟨sources, hsources⟩
  have hshown : (shownImage bitMap (readRegisters image bitMap registerWidth)).get? address =
      some (shownWord (readRegisters image bitMap registerWidth) sources) := by
    rw [get?_shownImage, hsources, Option.map_some]
  rw [hshown, Option.some.injEq]
  apply Width.eq_of_fits (fits_shownImage hmap address _ hshown)
  · exact fits_normalWord hlength (hwidth ▸ hfits address word hword)
  · intro index hindex
    obtain ⟨source, hsource⟩ := hmap.exists_sourceAt? hcontains hindex
    have hposition : sources[bitMap.wordBit index]? = some source := by
      rwa [BitMap.sourceAt?, hsources, Option.bind_some] at hsource
    have hbit := bitMap.wordBit_wordBit hindex
    have hnormal : (normalWord sources word).getLsbD index =
        normalBit (word.getLsbD index) source := by
      have hread := getLsbD_normalWord (hlength.trans_le bitMap.width.le_max) hposition word
      rwa [hlength, ← BitMap.wordBit, hbit] at hread
    calc
      (shownWord (readRegisters image bitMap registerWidth) sources).getLsbD index =
          (shownImage bitMap (readRegisters image bitMap registerWidth)).bit address index :=
        (Image.bit_of_get? hshown index).symm
      _ = shownBit (readRegisters image bitMap registerWidth) source := by
        rw [← bit_shownImage hmap hsource, hbit]
      _ = normalBit (image.bit address index) source := by
        rw [shownBit_readRegisters hmap hplaces hsource, hbit]
      _ = (normalWord sources word).getLsbD index := by
        rw [hnormal, Image.bit_of_get? hword]

/-- An image in normal form is the image of the registers that it shows. -/
theorem shownImage_readRegisters (hmap : bitMap.WellFormed)
    (hwidth : image.width = bitMap.width) (hfits : image.Fits)
    (hwords : ∀ address, bitMap.words.contains address = true → image.contains address = true)
    (hplaces : ∀ place ∈ bitMap.registerBits, place.bit.toNat < registerWidth.bits)
    (hright : wrongBits image bitMap = [])
    (hclear : ∀ address position, bitMap.sourceAt? address position = some .ignored →
      image.bit address (bitMap.wordBit position) = false)
    (hcovered : ∀ address, image.contains address = true →
      bitMap.words.contains address = true) :
    shownImage bitMap (readRegisters image bitMap registerWidth) = image := by
  apply Image.eq_of_bit_eq hwidth.symm (fits_shownImage hmap) hfits
  · intro address
    rw [contains_shownImage]
    exact ⟨hwords address, hcovered address⟩
  · intro address haddress index hindex
    rw [contains_shownImage] at haddress
    obtain ⟨source, hsource⟩ := hmap.exists_sourceAt? haddress hindex
    have hshown : shownBit (readRegisters image bitMap registerWidth) source =
        normalBit (image.bit address (bitMap.wordBit (bitMap.wordBit index))) source :=
      shownBit_readRegisters hmap hplaces hsource
    rw [← bit_shownImage hmap hsource, bitMap.wordBit_wordBit hindex] at hshown
    rw [hshown]
    cases source with
    | register place => rfl
    | constant value =>
      have hvalue := bit_of_wrongBits_eq_nil hright hsource
      rw [bitMap.wordBit_wordBit hindex] at hvalue
      exact hvalue.symm
    | ignored =>
      have hzero := hclear address _ hsource
      rw [bitMap.wordBit_wordBit hindex] at hzero
      exact hzero.symm

/-- Building what was read from an image gives its normal form, the fixed bits put right and the
bits that nobody looks at cleared.  An image that needs none of this comes back as it was. -/
theorem encode_decode (hmap : bitMap.Reachable) (hwidth : image.width = bitMap.width)
    (hfits : image.Fits)
    (hwords : ∀ address, bitMap.words.contains address = true → image.contains address = true)
    (hplaces : ∀ place ∈ bitMap.registerBits, place.bit.toNat < registerWidth.bits)
    (policy : MissingPolicy) (map : RegisterMap) :
    ∃ decoded encoded, decode image bitMap registerWidth = .ok decoded ∧
      encode policy map bitMap decoded.registers = .ok encoded ∧
      encoded.image.width = bitMap.width ∧
      encoded.image.words.keys = bitMap.words.keys ∧
      (∀ address sources word, bitMap.get? address = some sources →
        image.get? address = some word →
          encoded.image.get? address = some (normalWord sources word)) ∧
      (decoded.mismatches = [] →
        (∀ address position, bitMap.sourceAt? address position = some .ignored →
          image.bit address (bitMap.wordBit position) = false) →
        (∀ address, image.contains address = true → bitMap.words.contains address = true) →
          encoded.image = image) := by
  have hwellFormed := hmap.wellFormed
  let registers := readRegisters image bitMap registerWidth
  refine ⟨_, ⟨shownImage bitMap registers, warnings map bitMap⟩,
    decode_eq_ok hwidth hwords hplaces, ?_, rfl, ?_, ?_, ?_⟩
  · exact (encode_eq_ok_iff hwellFormed).2 ⟨isAvailable_readRegisters hplaces, rfl⟩
  · apply SortedMap.keys_eq_of_contains_iff
    intro address
    exact Bool.eq_iff_iff.1 (contains_shownImage address)
  · intro address sources word hsources hword
    exact get?_shownImage_readRegisters hwellFormed hwidth hfits hplaces hsources hword
  · intro hright hclear hcovered
    exact shownImage_readRegisters hwellFormed hwidth hfits hwords hplaces hright hclear hcovered

/-- An image of the sample bit map with a wrong fixed bit, a reserved bit that is set and a word
that nobody asked for. -/
def spoiltImage : Image :=
  ⟨BitMap.sample.width, SortedMap.ofList [(0, 0xf), (1, 0xd), (7, 0x3)]⟩

theorem fits_spoiltImage : spoiltImage.Fits := by
  decide +kernel

theorem contains_spoiltImage (address : Address)
    (h : BitMap.sample.words.contains address = true) : spoiltImage.contains address = true := by
  have hkeys : ∀ other ∈ BitMap.sample.words.keys, spoiltImage.contains other = true := by
    apply List.all_eq_true.1
    decide +kernel
  exact hkeys address (SortedMap.mem_keys_iff.2 h)

theorem encode_decode_spoiltImage :
    ∃ decoded encoded, decode spoiltImage BitMap.sample .w16 = .ok decoded ∧
      encode .reject ⟨.w16, ∅, ∅⟩ BitMap.sample decoded.registers = .ok encoded ∧
      encoded.image.words.keys = [0, 1] ∧
      encoded.image.get? 0 = some 0xb ∧ encoded.image.get? 1 = some 0x5 := by
  have hwidth : spoiltImage.width = BitMap.sample.width := rfl
  obtain ⟨decoded, encoded, hdecode, hencode, -, hkeys, hwords, -⟩ :=
    encode_decode BitMap.reachable_sample hwidth fits_spoiltImage contains_spoiltImage
      BitMap.lt_of_mem_registerBits_sample .reject ⟨.w16, ∅, ∅⟩
  refine ⟨decoded, encoded, hdecode, hencode, ?_, ?_, ?_⟩
  · rw [hkeys]
    decide +kernel
  · rw [hwords 0 [.constant true, .constant false, .register ⟨3, 9⟩, .register ⟨3, 10⟩] 0xf
      (by decide +kernel) (by decide +kernel)]
    decide +kernel
  · rw [hwords 1 [.ignored, .register ⟨0, 4⟩, .constant false, .constant true] 0xd
      (by decide +kernel) (by decide +kernel)]
    decide +kernel

end ChipConfig.Layout
