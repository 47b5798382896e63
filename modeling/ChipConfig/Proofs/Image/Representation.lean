import ChipConfig.Proofs.Image

/-!
# Images as lists of words and as text

An image has two other forms.  One is the list of its words, if it has no gap: the position in the
list is the address.  The other one is its text, which has a row for each word.  Both lead back to
the image, so nothing is lost on the way.
-/

namespace ChipConfig.Image

variable {width : Width} {image : Image} {words : List Word}

/-- Whether an image has the words of a list at the addresses from 0 on, and no other words. -/
def Lists (image : Image) (words : List Word) : Prop :=
  ∀ address, image.get? address = words[address.toNat]?

theorem Lists.contains_iff (h : image.Lists words) (address : Address) :
    image.contains address = true ↔ address.toNat < words.length := by
  rw [contains, SortedMap.contains_eq_isSome]
  change (image.get? address).isSome = true ↔ _
  rw [h address, Option.isSome_iff_ne_none, ne_eq, List.getElem?_eq_none_iff, not_le]

/-- The words of a list at the addresses from 0 on, as long as there are addresses. -/
theorem get?_ofList_zipIdx (hlength : words.length ≤ UInt32.size) (address : Address) :
    (SortedMap.ofList (words.zipIdx.map fun entry ↦ (UInt32.ofNat entry.2, entry.1))).get? address =
      words[address.toNat]? := by
  have hnumber (i : Nat) (hi : i < words.length) : (UInt32.ofNat i).toNat = i :=
    UInt32.toNat_ofNat_of_lt' (hi.trans_le hlength)
  have hkeys : ((words.zipIdx.map fun entry ↦ (UInt32.ofNat entry.2, entry.1)).map
      Prod.fst).Nodup := by
    have hrange : (words.zipIdx.map fun entry ↦ (UInt32.ofNat entry.2, entry.1)).map Prod.fst =
        (List.range words.length).map UInt32.ofNat := by
      rw [List.range_eq_range', ← List.zipIdx_map_snd, List.map_map, List.map_map]
      rfl
    rw [hrange]
    refine List.nodup_range.map_on fun i hi j hj heq ↦ ?_
    rw [← hnumber i (List.mem_range.1 hi), heq, hnumber j (List.mem_range.1 hj)]
  apply Option.ext
  intro word
  rw [SortedMap.get?_ofList hkeys, List.mem_map]
  constructor
  · rintro ⟨⟨_, i⟩, hmem, ⟨⟩⟩
    have hword := List.mem_zipIdx_iff_getElem?.1 hmem
    rwa [hnumber i (List.getElem?_eq_some_iff.1 hword).1]
  · intro hword
    exact ⟨(word, address.toNat), List.mem_zipIdx_iff_getElem?.2 hword, by rw [UInt32.ofNat_toNat]⟩

/-- Words that fit make up the image that lists them. -/
theorem ofWords_eq_ok_iff (hlength : words.length ≤ UInt32.size) :
    ofWords width words = .ok image ↔
      (∀ word ∈ words, width.Fits word) ∧ image.width = width ∧ image.Lists words := by
  have hfits : (∀ entry ∈ words.zipIdx.map fun entry ↦ (UInt32.ofNat entry.2, entry.1),
      width.Fits entry.2) ↔ ∀ word ∈ words, width.Fits word := by
    rw [List.forall_mem_map]
    constructor
    · intro h word hword
      obtain ⟨i, hi⟩ := List.getElem?_of_mem hword
      exact h (word, i) (List.mem_zipIdx_iff_getElem?.2 hi)
    · intro h entry hentry
      exact h entry.1 (List.mem_of_getElem? (List.mem_zipIdx_iff_getElem?.1 hentry))
  rw [ofWords, ofList_eq_ok_iff, hfits]
  refine and_congr_right fun _ ↦ ?_
  constructor
  · rintro rfl
    exact ⟨rfl, get?_ofList_zipIdx hlength⟩
  · intro h
    obtain ⟨rfl, hlists⟩ := h
    obtain ⟨width, map⟩ := image
    rw [Image.mk.injEq, and_iff_right rfl]
    apply SortedMap.ext_get?
    intro address
    rw [get?_ofList_zipIdx hlength]
    exact hlists address

/-- Only an image without a gap has a list of words. -/
theorem gapless_of_toWords (hsize : image.size ≤ UInt32.size) (h : image.toWords = .ok words) :
    image.Gapless := by
  apply (gapless_iff hsize).2
  intro i hi
  exact (toWords_eq_ok_iff.1 h).1 i (List.mem_range.2 hi)

/-- The list of words that an image has is the list that it lists. -/
theorem toWords_eq_ok_iff_lists (hsize : image.size ≤ UInt32.size) :
    image.toWords = .ok words ↔ words.length = image.size ∧ image.Lists words := by
  constructor
  · intro h
    have hgapless := gapless_of_toWords hsize h
    obtain ⟨_, hwords, hlength, hget⟩ := toWords_eq_ok hsize hgapless
    obtain rfl := Except.ok.inj (h.symm.trans hwords)
    refine ⟨hlength, fun address ↦ ?_⟩
    by_cases haddress : address.toNat < image.size
    · exact (hget address haddress).symm
    · rw [List.getElem?_eq_none (hlength.trans_le (Nat.not_lt.1 haddress))]
      apply SortedMap.not_contains_iff.1
      rwa [← hgapless] at haddress
  · intro h
    obtain ⟨hlength, hlists⟩ := h
    have hgapless : image.Gapless := fun address ↦ by rw [hlists.contains_iff, hlength]
    obtain ⟨others, hothers, hlengthOthers, hget⟩ := toWords_eq_ok hsize hgapless
    have heq : others = words := by
      apply List.ext_getElem?
      intro i
      by_cases hi : i < image.size
      · have hnumber : (UInt32.ofNat i).toNat = i :=
          UInt32.toNat_ofNat_of_lt' (hi.trans_le hsize)
        rw [← hnumber, ← hlists, hget _ (by rwa [hnumber])]
      · rw [List.getElem?_eq_none (hlengthOthers.trans_le (Nat.not_lt.1 hi)),
          List.getElem?_eq_none (hlength.trans_le (Nat.not_lt.1 hi))]
    rw [hothers, heq]

/-- The least address that an image with a gap does not have lies below the number of its words: the
addresses below that number cannot all be there. -/
theorem lt_size_of_isLeast (hsize : image.size ≤ UInt32.size) (h : ¬image.Gapless)
    {address : Address} (hleast : IsLeast {other | image.contains other = false} address) :
    address.toNat < image.size := by
  obtain ⟨i, hi, hnot⟩ := exists_missing_of_not_gapless hsize h
  calc
    address.toNat ≤ (UInt32.ofNat i).toNat := UInt32.le_iff_toNat_le.1 (hleast.2 hnot)
    _ = i := UInt32.toNat_ofNat_of_lt' (hi.trans_le hsize)
    _ < image.size := hi

/-- A list of words and an image without a gap are two forms of the same.  An image with a gap is
refused for the least address that is missing. -/
theorem ofWords_toWords_inverse :
    (∀ (width : Width) (words : List Word), words.length < UInt32.size →
      ((∃ image, ofWords width words = .ok image) ↔ ∀ word ∈ words, width.Fits word) ∧
      ∀ image, ofWords width words = .ok image → image.toWords = .ok words) ∧
    ∀ image : Image, image.size < UInt32.size →
      ((∃ words, image.toWords = .ok words) ↔ image.Gapless) ∧
      (image.Fits → ∀ words, image.toWords = .ok words → ofWords image.width words = .ok image) ∧
      (¬image.Gapless →
        ∃ address, IsLeast {other | image.contains other = false} address ∧
          address.toNat < image.size ∧ image.toWords = .error (.missingWord address)) := by
  constructor
  · intro width words hlength
    refine ⟨⟨?_, fun hfits ↦ ?_⟩, fun image h ↦ ?_⟩
    · rintro ⟨image, h⟩
      exact ((ofWords_eq_ok_iff hlength.le).1 h).1
    · have hlists : Lists ⟨width, _⟩ words := get?_ofList_zipIdx hlength.le
      exact ⟨_, (ofWords_eq_ok_iff hlength.le).2 ⟨hfits, rfl, hlists⟩⟩
    · obtain ⟨-, -, hlists⟩ := (ofWords_eq_ok_iff hlength.le).1 h
      have hsize : image.size = words.length := size_eq hlength.le hlists.contains_iff
      exact (toWords_eq_ok_iff_lists (hsize ▸ hlength.le)).2 ⟨hsize.symm, hlists⟩
  · intro image hsize
    refine ⟨⟨?_, fun hgapless ↦ ?_⟩, fun hfits words h ↦ ?_, fun hgap ↦ ?_⟩
    · rintro ⟨words, h⟩
      exact gapless_of_toWords hsize.le h
    · obtain ⟨words, hwords, -⟩ := toWords_eq_ok hsize.le hgapless
      exact ⟨words, hwords⟩
    · obtain ⟨hlength, hlists⟩ := (toWords_eq_ok_iff_lists hsize.le).1 h
      exact (ofWords_eq_ok_iff (hlength ▸ hsize.le)).2 ⟨hfits.toWords h, rfl, hlists⟩
    · obtain ⟨address, hleast, herror⟩ := toWords_of_not_gapless hsize.le hgap
      exact ⟨address, hleast, lt_size_of_isLeast hsize.le hgap hleast, herror⟩

def gappedImage : Image :=
  ⟨.w16, SortedMap.ofList [(0, 7), (2, 9), (5, 1)]⟩

def gaplessImage : Image :=
  ⟨.w16, SortedMap.ofList [(0, 7), (1, 0xffff)]⟩

theorem ofWords_toWords_inverse_gappedImage :
    (∃ image, ofWords .w16 [7, 0xffff] = .ok image ∧ image.toWords = .ok [7, 0xffff]) ∧
      (¬∃ image, ofWords .w16 [7, 0x10000] = .ok image) ∧
      (∃ words, gaplessImage.toWords = .ok words ∧ ofWords .w16 words = .ok gaplessImage) ∧
      ∃ address, IsLeast {other | gappedImage.contains other = false} address ∧
        address.toNat < 3 ∧ gappedImage.toWords = .error (.missingWord address) := by
  obtain ⟨hlist, himage⟩ := ofWords_toWords_inverse
  obtain ⟨hfits, hback⟩ := hlist .w16 [7, 0xffff] (by decide)
  obtain ⟨hwide, -⟩ := hlist .w16 [7, 0x10000] (by decide)
  obtain ⟨-, hforth, -⟩ := himage gaplessImage (by decide +kernel)
  obtain ⟨-, -, hgap⟩ := himage gappedImage (by decide +kernel)
  have hlisted : ∀ word ∈ ([7, 0xffff] : List Word), Width.w16.Fits word := by
    intro word hword
    simp only [List.mem_cons, List.not_mem_nil, or_false] at hword
    rcases hword with rfl | rfl <;> decide
  have htooWide : ¬∀ word ∈ ([7, 0x10000] : List Word), Width.w16.Fits word :=
    fun h ↦ absurd (h 0x10000 (by simp)) (by decide)
  have hgaplessFits : gaplessImage.Fits := by decide +kernel
  have hgapless : gaplessImage.toWords = .ok [7, 0xffff] := by decide +kernel
  have hgapped : ¬gappedImage.Gapless := by
    intro h
    have hone : gappedImage.contains 1 = true := (h 1).2 (by decide +kernel)
    exact absurd hone (by decide +kernel)
  refine ⟨?_, fun h ↦ htooWide (hwide.1 h), ?_, hgap hgapped⟩
  · obtain ⟨image, hok⟩ := hfits.2 hlisted
    exact ⟨image, hok, hback image hok⟩
  · exact ⟨_, hgapless, hforth hgaplessFits _ hgapless⟩

/-- An image is read back from its text, so images of one width that have the same text are equal.
-/
theorem text_represents :
    (∀ image : Image, image.Fits → parse image.text image.width = .ok image) ∧
    (∀ text width image, parse text width = .ok image → parse image.text width = .ok image) ∧
    ∀ a b : Image, a.Fits → b.Fits → a.width = b.width → a.text = b.text → a = b := by
  refine ⟨fun image ↦ parse_text, fun text width image h ↦ ?_, fun a b ha hb hwidth htext ↦ ?_⟩
  · obtain ⟨rfl, hfits⟩ := fitsIn_of_parse h
    exact parse_text hfits
  · have hread : parse a.text a.width = .ok b := by
      rw [htext, hwidth]
      exact parse_text hb
    exact Except.ok.inj ((parse_text ha).symm.trans hread)

theorem text_represents_gappedImage :
    parse gappedImage.text .w16 = .ok gappedImage ∧
      gappedImage.text = "0x00 0x0007\n0x02 0x0009\n0x05 0x0001\n" ∧
      (∃ image, parse "R5 1 # last\n 2 9\n00 7" .w16 = .ok image ∧
        parse image.text .w16 = .ok image) ∧
      gappedImage.text ≠ gaplessImage.text := by
  obtain ⟨hparse, hagain, heq⟩ := text_represents
  have hgapped : gappedImage.Fits := by decide +kernel
  have hgapless : gaplessImage.Fits := by decide +kernel
  have hread : parse "R5 1 # last\n 2 9\n00 7" .w16 = .ok gappedImage := by decide +kernel
  refine ⟨hparse _ hgapped, by decide +kernel, ⟨_, hread, hagain _ _ _ hread⟩, ?_⟩
  intro htext
  exact absurd (heq _ _ hgapped hgapless rfl htext) (by decide +kernel)

end ChipConfig.Image
