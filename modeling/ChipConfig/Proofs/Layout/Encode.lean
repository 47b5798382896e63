import ChipConfig.Layout.Encode
import ChipConfig.Proofs.BitMap.WellFormed
import ChipConfig.Proofs.Image
import ChipConfig.Proofs.RegisterFile

/-!
# What an image shows

Building an image succeeds exactly when every source can be shown, and the image is then a function
of the bit map and the registers alone: at every position of every word it has the bit that the
source there shows, and it has no other bits.
-/

namespace ChipConfig.Layout

variable {policy : MissingPolicy} {bitMap : BitMap} {file : RegisterFile}

def shownBit (file : RegisterFile) : BitSource → Bool
  | .constant value => value
  | .register place => (file.get place.register).getLsbD place.bit.toNat
  | .ignored => false

/-- Whether a source can be shown: its register has the bit and, where that matters, an entry. -/
def IsAvailable (policy : MissingPolicy) (file : RegisterFile) : BitSource → Prop
  | .register place =>
    (policy = .reject → file.contains place.register = true) ∧
      place.bit.toNat < file.width.bits
  | _ => True

def shownWord (file : RegisterFile) (sources : List BitSource) : Word :=
  Word.ofBits (sources.map (shownBit file))

def shownImage (bitMap : BitMap) (file : RegisterFile) : Image :=
  ⟨bitMap.width,
    SortedMap.ofList (bitMap.toList.map fun entry ↦ (entry.1, shownWord file entry.2))⟩

/-- A word with as many sources as bits fits. -/
theorem fits_shownWord {width : Width} {sources : List BitSource}
    (h : sources.length = width.bits) (file : RegisterFile) :
    width.Fits (shownWord file sources) := by
  apply Width.fits_ofBits
  rw [List.length_map, h]

@[simp]
theorem sourceBit_eq_ok_iff {address : Address} {source : BitSource} {bit : Bool} :
    sourceBit policy file address source = .ok bit ↔
      IsAvailable policy file source ∧ bit = shownBit file source := by
  cases source with
  | constant value =>
    rw [sourceBit, Except.ok.injEq, eq_comm]
    simp [IsAvailable, shownBit]
  | ignored =>
    rw [sourceBit, Except.ok.injEq, eq_comm]
    simp [IsAvailable, shownBit]
  | register place =>
    have hread : (file.get place.register).bit file.width place.bit.toNat = .ok bit ↔
        place.bit.toNat < file.width.bits ∧
          bit = (file.get place.register).getLsbD place.bit.toNat := Width.bit_eq_ok_iff
    rw [sourceBit, IsAvailable, shownBit, and_assoc, ← hread]
    split
    · next hmissing => simp_all
    · next hpresent =>
      have hentry : policy = .reject → file.contains place.register = true := by
        simpa using hpresent
      rw [and_iff_right hentry]
      cases (file.get place.register).bit file.width place.bit.toNat <;> simp

@[simp]
theorem encodeWord_eq_ok_iff {address : Address} {sources : List BitSource} {word : Word} :
    encodeWord policy file address sources = .ok word ↔
      (∀ source ∈ sources, IsAvailable policy file source) ∧ word = shownWord file sources := by
  have hbits (bits : List Bool) : sources.mapM (sourceBit policy file address) = .ok bits ↔
      (∀ source ∈ sources, IsAvailable policy file source) ∧
        bits = sources.map (shownBit file) :=
    Fallible.mapM_eq_ok_iff fun _ _ _ ↦ sourceBit_eq_ok_iff
  simp [encodeWord, shownWord, hbits]

/-- A word of the right length always fits, so putting it into the image cannot fail. -/
theorem encodeEntry_eq_ok_iff {image result : Image} {entry : Address × List BitSource}
    (hlength : entry.2.length = image.width.bits) :
    encodeEntry policy file image entry = .ok result ↔
      (∀ source ∈ entry.2, IsAvailable policy file source) ∧
        result = { image with words := image.words.insert entry.1 (shownWord file entry.2) } := by
  have hfits : image.width.Fits (shownWord file entry.2) := fits_shownWord hlength file
  simp [encodeEntry, Image.set_eq_ok_iff.2 ⟨hfits, rfl⟩]

/-- All that happens to an image is that a word is put into it. -/
theorem exists_set_of_encodeEntry {image after : Image} {entry : Address × List BitSource}
    (h : encodeEntry policy file image entry = .ok after) :
    ∃ word, image.set entry.1 word = .ok after := by
  rw [encodeEntry, Fallible.bind_eq_ok_iff] at h
  obtain ⟨word, -, hset⟩ := h
  split at hset
  · cases hset
  · next result hresult =>
    obtain rfl := Fallible.pure_eq_ok_iff.1 hset
    exact ⟨word, hresult⟩

theorem encodeImage_eq_ok_iff (hmap : bitMap.WellFormed) {image : Image} :
    encodeImage policy bitMap file = .ok image ↔
      (∀ placement ∈ bitMap.placements, IsAvailable policy file placement.source) ∧
        image = shownImage bitMap file := by
  have hsources : (∀ entry ∈ bitMap.toList, ∀ source ∈ entry.2, IsAvailable policy file source) ↔
      ∀ placement ∈ bitMap.placements, IsAvailable policy file placement.source := by
    simp only [BitMap.placements, List.forall_mem_flatMap]
    refine forall₂_congr fun entry _ ↦ ⟨fun h placement hplacement ↦ ?_, fun h source hsource ↦ ?_⟩
    · have hsource := (BitMap.mem_wordPlacements_iff.1 hplacement).2
      exact h _ (List.mem_of_getElem? hsource)
    · obtain ⟨position, hposition⟩ := List.getElem?_of_mem hsource
      exact h ⟨entry.1, position, source⟩ (BitMap.mem_wordPlacements_iff.2 ⟨rfl, hposition⟩)
  have hrun : encodeImage policy bitMap file = .ok image ↔
      (∀ entry ∈ bitMap.toList, ∀ source ∈ entry.2, IsAvailable policy file source) ∧
        image = bitMap.toList.foldl (fun image entry ↦
          { image with words := image.words.insert entry.1 (shownWord file entry.2) })
          (Image.empty bitMap.width) := by
    apply Fallible.foldlM_eq_ok_iff (fun image ↦ image.width = bitMap.width)
    · intro image hwidth entry hentry result
      apply encodeEntry_eq_ok_iff
      rw [hmap.length_eq entry hentry, hwidth]
    · intro image hwidth entry _
      exact hwidth
    · rfl
  rw [hrun, Image.foldl_insert Prod.fst fun entry ↦ shownWord file entry.2, hsources, shownImage,
    SortedMap.ofList, List.foldl_map]
  rfl

theorem encode_eq_ok_iff (hmap : bitMap.WellFormed) {map : RegisterMap} {encoded : Encoded} :
    encode policy map bitMap file = .ok encoded ↔
      (∀ placement ∈ bitMap.placements, IsAvailable policy file placement.source) ∧
        encoded = ⟨shownImage bitMap file, warnings map bitMap⟩ := by
  simp [encode, encodeImage_eq_ok_iff hmap]

/-- An image is built by setting words, so it fits whatever the bit map says. -/
theorem fitsIn_of_encode {map : RegisterMap} {encoded : Encoded}
    (h : encode policy map bitMap file = .ok encoded) :
    Image.FitsIn bitMap.width encoded.image := by
  rw [encode, Fallible.bind_eq_ok_iff] at h
  obtain ⟨image, hrun, hencoded⟩ := h
  obtain rfl := Fallible.pure_eq_ok_iff.1 hencoded
  apply Fallible.foldlM_keeps _ (Image.fitsIn_empty bitMap.width) hrun
  intro before entry after hbefore hentry
  obtain ⟨word, hset⟩ := exists_set_of_encodeEntry hentry
  exact hbefore.set hset

@[simp]
theorem get?_shownImage (address : Address) :
    (shownImage bitMap file).get? address = (bitMap.get? address).map (shownWord file) := by
  have hkeys : ((bitMap.toList.map fun entry ↦ (entry.1, shownWord file entry.2)).map
      Prod.fst).Nodup := by
    rw [List.map_map]
    exact bitMap.words.nodup_keys
  apply Option.ext
  intro word
  rw [Image.get?, shownImage, SortedMap.get?_ofList hkeys]
  simp only [List.mem_map, Prod.exists, Prod.mk.injEq, BitMap.mem_toList_iff,
    Option.map_eq_some_iff]
  constructor
  · intro h
    obtain ⟨a, sources, hsources, rfl, hword⟩ := h
    exact ⟨sources, hsources, hword⟩
  · intro h
    obtain ⟨sources, hsources, hword⟩ := h
    exact ⟨address, sources, hsources, rfl, hword⟩

@[simp]
theorem contains_shownImage (address : Address) :
    (shownImage bitMap file).contains address = bitMap.words.contains address := by
  change ((shownImage bitMap file).get? address).isSome = (bitMap.get? address).isSome
  rw [get?_shownImage, Option.isSome_map]

theorem fits_shownImage (hmap : bitMap.WellFormed) : (shownImage bitMap file).Fits := by
  intro address word hword
  rw [get?_shownImage, Option.map_eq_some_iff] at hword
  obtain ⟨sources, hsources, rfl⟩ := hword
  exact fits_shownWord (hmap.length_eq (address, sources) (BitMap.mem_toList_iff.2 hsources)) file

/-- Every position of every word has the bit that the source there shows. -/
theorem bit_shownImage (hmap : bitMap.WellFormed) {address : Address} {position : Nat}
    {source : BitSource} (h : bitMap.sourceAt? address position = some source) :
    (shownImage bitMap file).bit address (bitMap.wordBit position) = shownBit file source := by
  obtain ⟨sources, hsources, hsource⟩ := Option.bind_eq_some_iff.1 h
  have hlength : sources.length = bitMap.width.bits :=
    hmap.length_eq (address, sources) (BitMap.mem_toList_iff.2 hsources)
  have hword : (shownImage bitMap file).get? address = some (shownWord file sources) := by
    rw [get?_shownImage, hsources, Option.map_some]
  have hshown : (sources.map (shownBit file))[position]? = some (shownBit file source) := by
    rw [List.getElem?_map, hsource, Option.map_some]
  have hbit := Word.getLsbD_ofBits_of_getElem?
    (by rw [List.length_map, hlength]; exact bitMap.width.le_max) hshown
  rw [List.length_map, hlength] at hbit
  rw [Image.bit_of_get? hword]
  exact hbit

end ChipConfig.Layout
