import ChipConfig.Image
import ChipConfig.Proofs.Listing

/-!
# The bits of images

An image shows a bit at every position of every address; where it has no word it shows zeros.  The
words that the library puts into an image fit its width, so the bits below the width tell images
apart that have words at the same addresses.
-/

namespace ChipConfig.Image

/-- A bit of the word at an address, clear if there is no word. -/
def bit (image : Image) (address : Address) (index : Nat) : Bool :=
  ((image.get? address).getD 0).getLsbD index

def contains (image : Image) (address : Address) : Bool :=
  image.words.contains address

/-- Whether no word has a bit above the width of the image. -/
def Fits (image : Image) : Prop :=
  ∀ address word, image.get? address = some word → image.width.Fits word

theorem contains_iff {image : Image} {address : Address} :
    image.contains address = true ↔ ∃ word, image.get? address = some word := by
  rw [contains, SortedMap.contains_eq_isSome, Option.isSome_iff_exists]
  rfl

theorem bit_of_get? {image : Image} {address : Address} {word : Word}
    (h : image.get? address = some word) (index : Nat) :
    image.bit address index = word.getLsbD index := by
  rw [bit, h, Option.getD_some]

theorem fits_iff {image : Image} :
    image.Fits ↔ ∀ entry ∈ image.toList, image.width.Fits entry.2 := by
  constructor
  · intro h entry hentry
    exact h entry.1 entry.2 (SortedMap.mem_toList_iff.1 hentry)
  · intro h address word hword
    exact h (address, word) (SortedMap.mem_toList_iff.2 hword)

instance (image : Image) : Decidable image.Fits :=
  decidable_of_iff (image.toList.all fun entry ↦ decide (image.width.Fits entry.2)) <| by
    rw [fits_iff, List.all_eq_true]
    simp only [decide_eq_true_eq]

@[simp]
theorem set_eq_ok_iff {image result : Image} {address : Address} {word : Word} :
    image.set address word = .ok result ↔
      image.width.Fits word ∧
        result = { image with words := image.words.insert address word } := by
  simp [set]

@[simp]
theorem ofList_eq_ok_iff {width : Width} {entries : List (Address × Word)} {image : Image} :
    ofList width entries = .ok image ↔
      (∀ entry ∈ entries, width.Fits entry.2) ∧ image = ⟨width, SortedMap.ofList entries⟩ := by
  simp [ofList]

theorem get?_insert (image : Image) (address other : Address) (word : Word) :
    get? { image with words := image.words.insert address word } other =
      if other = address then some word else image.get? other :=
  SortedMap.get?_insert image.words address other word

/-- Putting in words one after the other changes the words only. -/
theorem foldl_insert {α : Type} (address : α → Address) (word : α → Word) (entries : List α)
    (image : Image) :
    entries.foldl (fun image entry ↦
      { image with words := image.words.insert (address entry) (word entry) }) image =
      ⟨image.width, entries.foldl (fun words entry ↦
        words.insert (address entry) (word entry)) image.words⟩ := by
  induction entries generalizing image with
  | nil => rfl
  | cons entry entries ih => rw [List.foldl_cons, ih, List.foldl_cons]

theorem fits_empty (width : Width) : (empty width).Fits := by
  intro address word h
  cases h

theorem Fits.set {image result : Image} (himage : image.Fits) {address : Address} {word : Word}
    (h : image.set address word = .ok result) : result.Fits := by
  obtain ⟨hword, rfl⟩ := set_eq_ok_iff.1 h
  exact SortedMap.forall_get?_insert himage hword address

/-- Whether an image has a width and only words that fit it. -/
structure FitsIn (width : Width) (image : Image) : Prop where
  width_eq : image.width = width
  fits : image.Fits

theorem fitsIn_empty (width : Width) : FitsIn width (empty width) :=
  ⟨rfl, fits_empty width⟩

theorem FitsIn.set {width : Width} {image result : Image} (himage : FitsIn width image)
    {address : Address} {word : Word} (h : image.set address word = .ok result) :
    FitsIn width result := by
  have hfits := himage.fits.set h
  obtain ⟨-, rfl⟩ := set_eq_ok_iff.1 h
  exact ⟨himage.width_eq, hfits⟩

/-- Every image that is built from words fits. -/
theorem fitsIn_of_ofList {width : Width} {words : List (Address × Word)} {image : Image}
    (h : ofList width words = .ok image) : FitsIn width image := by
  obtain ⟨hfits, rfl⟩ := ofList_eq_ok_iff.1 h
  exact ⟨rfl, SortedMap.forall_get?_ofList hfits⟩

theorem fitsIn_of_ofWords {width : Width} {words : List Word} {image : Image}
    (h : ofWords width words = .ok image) : FitsIn width image :=
  fitsIn_of_ofList h

/-- Images of one width are told apart by their addresses and the bits below the width. -/
theorem eq_of_bit_eq {a b : Image} (hwidth : a.width = b.width) (ha : a.Fits) (hb : b.Fits)
    (hcontains : ∀ address, a.contains address = true ↔ b.contains address = true)
    (hbit : ∀ address, a.contains address = true → ∀ index < a.width.bits,
      a.bit address index = b.bit address index) : a = b := by
  have hwords : a.words = b.words := by
    apply SortedMap.ext_get?
    intro address
    change a.get? address = b.get? address
    cases hword : a.get? address with
    | none =>
      have hnot : ¬b.contains address = true := by
        rw [← hcontains, contains_iff, hword]
        simp
      rw [contains_iff, not_exists] at hnot
      exact (Option.eq_none_iff_forall_ne_some.2 hnot).symm
    | some word =>
      have hmem : a.contains address = true := contains_iff.2 ⟨word, hword⟩
      obtain ⟨other, hother⟩ := contains_iff.1 ((hcontains address).1 hmem)
      rw [hother, Option.some.injEq]
      refine Width.eq_of_fits (ha address word hword) (hwidth ▸ hb address other hother) ?_
      intro index hindex
      rw [← bit_of_get? hword, ← bit_of_get? hother]
      exact hbit address hmem index hindex
  cases a
  cases b
  simp_all

/-! ## Images without a gap -/

/-- An image that covers the first addresses has as many words. -/
theorem size_eq {image : Image} {count : Nat} (hcount : count ≤ UInt32.size)
    (h : ∀ address, image.contains address = true ↔ address.toNat < count) :
    image.size = count := by
  have hnodup : (image.words.keys.map UInt32.toNat).Nodup :=
    image.words.nodup_keys.map fun a b ↦ UInt32.toNat_inj.1
  have hperm : (image.words.keys.map UInt32.toNat).Perm (List.range count) := by
    apply (List.perm_ext_iff_of_nodup hnodup List.nodup_range).2
    intro i
    rw [List.mem_map, List.mem_range]
    constructor
    · intro hi
      obtain ⟨address, haddress, rfl⟩ := hi
      exact (h address).1 (SortedMap.mem_keys_iff.1 haddress)
    · intro hi
      have hnumber : (UInt32.ofNat i).toNat = i :=
        UInt32.toNat_ofNat_of_lt' (hi.trans_le hcount)
      refine ⟨UInt32.ofNat i, SortedMap.mem_keys_iff.2 ((h _).2 ?_), hnumber⟩
      rwa [hnumber]
  calc
    image.size = (image.words.keys.map UInt32.toNat).length := by
      rw [List.length_map, SortedMap.keys, List.length_map]
      rfl
    _ = count := by rw [hperm.length_eq, List.length_range]

theorem toWords_eq_ok_iff {image : Image} {words : List Word} :
    image.toWords = .ok words ↔
      (∀ i ∈ List.range image.size, image.contains (UInt32.ofNat i) = true) ∧
        words = (List.range image.size).map fun i ↦ (image.get? (UInt32.ofNat i)).getD 0 := by
  apply Fallible.mapM_eq_ok_iff
  intro i _ word
  rw [contains_iff]
  cases image.get? (UInt32.ofNat i) with
  | none => simp
  | some stored => simp [eq_comm]

/-- The words of an image that covers the first addresses are those at the addresses in turn. -/
theorem toWords_eq_ok {image : Image} {count : Nat} (hcount : count ≤ UInt32.size)
    (h : ∀ address, image.contains address = true ↔ address.toNat < count) :
    ∃ words, image.toWords = .ok words ∧ words.length = count ∧
      ∀ address, address.toNat < count → words[address.toNat]? = image.get? address := by
  have hsize := size_eq hcount h
  refine ⟨_, toWords_eq_ok_iff.2 ⟨?_, rfl⟩, ?_, ?_⟩
  · intro i hi
    rw [hsize, List.mem_range] at hi
    rwa [h, UInt32.toNat_ofNat_of_lt' (hi.trans_le hcount)]
  · rw [List.length_map, List.length_range, hsize]
  · intro address haddress
    obtain ⟨word, hword⟩ := contains_iff.1 ((h address).2 haddress)
    rw [hsize, List.getElem?_map, List.getElem?_range haddress, Option.map_some,
      UInt32.ofNat_toNat, hword, Option.getD_some]

/-- Whether the addresses of an image are the first ones, as many as it has words. -/
def Gapless (image : Image) : Prop :=
  ∀ address, image.contains address = true ↔ address.toNat < image.size

/-- An image with a gap misses one of the first addresses, as many as it has words: the words could
not be more otherwise. -/
theorem gapless_iff {image : Image} (hsize : image.size ≤ UInt32.size) :
    image.Gapless ↔ ∀ i < image.size, image.contains (UInt32.ofNat i) = true := by
  constructor
  · intro h i hi
    rwa [h, UInt32.toNat_ofNat_of_lt' (hi.trans_le hsize)]
  · intro h address
    have hsubset : List.range image.size ⊆ image.words.keys.map UInt32.toNat := by
      intro i hi
      rw [List.mem_range] at hi
      refine List.mem_map.2 ⟨UInt32.ofNat i, SortedMap.mem_keys_iff.2 (h i hi), ?_⟩
      exact UInt32.toNat_ofNat_of_lt' (hi.trans_le hsize)
    have hlength : (image.words.keys.map UInt32.toNat).length = (List.range image.size).length := by
      simp [SortedMap.keys, size, SortedMap.size]
    have hperm : (List.range image.size).Perm (image.words.keys.map UInt32.toNat) :=
      (List.nodup_range.subperm hsubset).perm_of_length_le hlength.le
    rw [contains, ← SortedMap.mem_keys_iff, ← List.mem_range, hperm.mem_iff, List.mem_map]
    constructor
    · exact fun hmem ↦ ⟨address, hmem, rfl⟩
    · rintro ⟨other, hother, heq⟩
      rwa [← UInt32.toNat_inj.1 heq]

theorem exists_missing_of_not_gapless {image : Image} (hsize : image.size ≤ UInt32.size)
    (h : ¬image.Gapless) :
    ∃ i, i < image.size ∧ image.contains (UInt32.ofNat i) = false := by
  simpa [gapless_iff hsize] using h

/-- An image with a gap has no list of words, for want of the least address that it does not
have. -/
theorem toWords_of_not_gapless {image : Image} (hsize : image.size ≤ UInt32.size)
    (h : ¬image.Gapless) :
    ∃ address, IsLeast {other | image.contains other = false} address ∧
      image.toWords = .error (.missingWord address) := by
  have hmissing := exists_missing_of_not_gapless hsize h
  obtain ⟨hlt, hnot⟩ := Nat.find_spec hmissing
  have hearlier (j : Nat) (hj : j < Nat.find hmissing) :
      image.contains (UInt32.ofNat j) = true := by
    simpa [hj.trans hlt] using Nat.find_min hmissing hj
  refine ⟨UInt32.ofNat (Nat.find hmissing), ⟨hnot, fun other hother ↦ ?_⟩, ?_⟩
  · by_contra hbelow
    rw [UInt32.not_le, UInt32.lt_iff_toNat_lt,
      UInt32.toNat_ofNat_of_lt' (hlt.trans_le hsize)] at hbelow
    have hcontains := hearlier other.toNat hbelow
    rw [UInt32.ofNat_toNat] at hcontains
    exact Bool.false_ne_true (hother.symm.trans hcontains)
  · apply (Fallible.mapM_eq_error_iff List.pairwise_lt_range).2
    refine ⟨Nat.find hmissing, List.mem_range.2 hlt, ?_, fun j _ hj ↦ ?_⟩
    · have hnone : image.get? (UInt32.ofNat (Nat.find hmissing)) = none :=
        SortedMap.not_contains_iff.1 (Bool.eq_false_iff.1 hnot)
      rw [hnone]
    · obtain ⟨word, hword⟩ := contains_iff.1 (hearlier j hj)
      exact ⟨word, by rw [hword]⟩

theorem Fits.toWords {image : Image} (himage : image.Fits) {words : List Word}
    (h : image.toWords = .ok words) : ∀ word ∈ words, image.width.Fits word := by
  obtain ⟨hcontains, rfl⟩ := toWords_eq_ok_iff.1 h
  intro word hword
  obtain ⟨i, hi, rfl⟩ := List.mem_map.1 hword
  obtain ⟨stored, hstored⟩ := contains_iff.1 (hcontains i hi)
  rw [hstored]
  exact himage _ stored hstored

def flipped (image : Image) (address : Address) (index : Nat) : Image :=
  match image.get? address with
  | some word =>
    { image with words := image.words.insert address (word ^^^ BitVec.twoPow 64 index) }
  | none => image

@[simp]
theorem width_flipped (image : Image) (address : Address) (index : Nat) :
    (image.flipped address index).width = image.width := by
  unfold flipped
  split <;> rfl

@[simp]
theorem contains_flipped (image : Image) (address : Address) (index : Nat) (other : Address) :
    (image.flipped address index).contains other = true ↔ image.contains other = true := by
  unfold flipped
  split
  · next word hword =>
    have hmem : image.contains address = true := contains_iff.2 ⟨word, hword⟩
    unfold contains
    rw [SortedMap.contains_insert]
    constructor
    · intro h
      rcases h with rfl | h
      · exact hmem
      · exact h
    · exact .inr
  · exact Iff.rfl

theorem bit_flipped_self {image : Image} {address : Address} (h : image.contains address = true)
    {index : Nat} (hindex : index < 64) :
    (image.flipped address index).bit address index = !image.bit address index := by
  obtain ⟨word, hword⟩ := contains_iff.1 h
  unfold flipped
  rw [hword, bit, get?_insert, if_pos rfl, bit_of_get? hword, Option.getD_some, BitVec.getLsbD_xor,
    BitVec.getLsbD_twoPow]
  simp [hindex]

theorem bit_flipped_of_ne (image : Image) {address other : Address} {index i : Nat}
    (h : ¬(other = address ∧ i = index)) :
    (image.flipped address index).bit other i = image.bit other i := by
  unfold flipped
  split
  · next word hword =>
    rw [bit, get?_insert]
    split
    · next heq =>
      have hne : i ≠ index := fun hi ↦ h ⟨heq, hi⟩
      rw [heq, bit_of_get? hword, Option.getD_some, BitVec.getLsbD_xor, BitVec.getLsbD_twoPow]
      simp [hne.symm]
    · rfl
  · rfl

/-! ## Images as text -/

/-- An image is read back from its text. -/
theorem parse_text {image : Image} (himage : image.Fits) :
    parse image.text image.width = .ok image := by
  have hload : Listing.load .hex .hex image.width .reject image.text = .ok image.words :=
    Listing.load_text (Listing.readsBack_hex .hex 2) himage
  rw [parse, hload]
  rfl

/-- Reading an image checks the width of every word. -/
theorem fitsIn_of_parse {text : String} {width : Width} {image : Image}
    (h : parse text width = .ok image) : FitsIn width image := by
  rw [parse, Fallible.bind_eq_ok_iff] at h
  obtain ⟨words, hload, himage⟩ := h
  obtain rfl := Fallible.pure_eq_ok_iff.1 himage
  exact ⟨rfl, fun _ _ hword ↦ Listing.fits_of_load hload hword⟩

end ChipConfig.Image
