import ChipConfig.Listing
import ChipConfig.Proofs.Fallible
import ChipConfig.Proofs.SortedMap
import ChipConfig.Proofs.Text.Line
import ChipConfig.Proofs.Text.Numeral
import ChipConfig.Proofs.Word

/-!
# Listings are read as they are printed

A printed listing has a row for each address, so no policy about repeated addresses matters when it
is read, and if its numerals are read as they are written, reading it gives its words back.  What is
read from any listing fits the width that it was read for.
-/

namespace ChipConfig.Listing

variable {addressRadix wordRadix : Radix} {width : Width} {policy : DuplicatePolicy}

theorem add_eq_ok_iff {words result : SortedMap Address Word} {entry : Entry} :
    add width policy words entry = .ok result ↔
      width.Fits entry.word ∧ ¬(policy = .reject ∧ words.contains entry.address = true) ∧
        result = words.insert entry.address entry.word := by
  unfold add
  cases hcheck : width.check entry.word with
  | error cause =>
    have hfits : ¬width.Fits entry.word := fun hfits ↦ by
      rw [Width.check_eq_ok_iff.2 ⟨hfits, rfl⟩] at hcheck
      cases hcheck
    simp [hfits]
  | ok word =>
    obtain ⟨hfits, rfl⟩ := Width.check_eq_ok_iff.1 hcheck
    simp only [hfits, true_and]
    split
    · next h => simp [h]
    · next h => rw [Fallible.ok_eq_ok_iff, and_iff_right h]

/-- Entries of new and distinct addresses are all added, if their words fit. -/
theorem foldlM_add_of_nodup {entries : List Entry} {words : SortedMap Address Word}
    (hfits : ∀ entry ∈ entries, width.Fits entry.word)
    (hnodup : (entries.map Entry.address).Nodup)
    (hfresh : ∀ entry ∈ entries, words.get? entry.address = none) :
    entries.foldlM (add width policy) words =
      .ok (entries.foldl (fun words entry ↦ words.insert entry.address entry.word) words) := by
  induction entries generalizing words with
  | nil => rfl
  | cons entry rest ih =>
    obtain ⟨hnew, hrest⟩ := List.nodup_cons.1 hnodup
    obtain ⟨hentry, hfitsRest⟩ := List.forall_mem_cons.1 hfits
    obtain ⟨hfreshEntry, hfreshRest⟩ := List.forall_mem_cons.1 hfresh
    have hadd : add width policy words entry = .ok (words.insert entry.address entry.word) :=
      add_eq_ok_iff.2 ⟨hentry, fun h ↦ SortedMap.not_contains_iff.2 hfreshEntry h.2, rfl⟩
    rw [List.foldlM_cons, hadd, List.foldl_cons]
    refine ih hfitsRest hrest fun other hother ↦ ?_
    have hne : other.address ≠ entry.address := fun heq ↦
      hnew (heq ▸ List.mem_map_of_mem hother)
    rw [SortedMap.get?_insert_of_ne _ hne, hfreshRest other hother]

/-- The words of a listing that has been read fit its width. -/
theorem fits_of_load {text : String} {words : SortedMap Address Word}
    (h : load addressRadix wordRadix width policy text = .ok words) {address : Address}
    {word : Word} (hword : words.get? address = some word) : width.Fits word := by
  obtain ⟨entries, -, hrun⟩ := Fallible.bind_eq_ok_iff.1 h
  have hstep (words : SortedMap Address Word) (entry : Entry) (result : SortedMap Address Word)
      (hwords : ∀ address word, words.get? address = some word → width.Fits word)
      (hadd : add width policy words entry = .ok result) :
      ∀ address word, result.get? address = some word → width.Fits word := by
    obtain ⟨hfits, -, rfl⟩ := add_eq_ok_iff.1 hadd
    exact SortedMap.forall_get?_insert hwords hfits entry.address
  exact Fallible.foldlM_keeps hstep (by simp) hrun address word hword

theorem address?_of_word? {radix : Radix} {token : List Char} {a : Address}
    (h : Numeral.word? radix token = some a.toNat) : address? radix token = some a := by
  have hsize : a.toNat < UInt32.size := a.toNat_lt_size
  simp [address?, h, hsize]

theorem word?_of_word? {radix : Radix} {token : List Char} {w : Word}
    (h : Numeral.word? radix token = some w.toNat) : word? radix token = some w := by
  simp [word?, h]

theorem isWord_of_isHex {cs : List Char} (hne : cs ≠ []) (h : Numeral.IsHex cs) :
    Text.IsWord cs :=
  ⟨hne, fun _ hc ↦ ⟨(h.ne hc).2.2.2.2.2.2, (h.ne hc).2.2.2.2.2.1⟩⟩

theorem isWord_cons {c : Char} {cs : List Char} (hc : Text.isBlank c = false ∧ c ≠ '#')
    (h : Text.IsWord cs) : Text.IsWord (c :: cs) :=
  ⟨List.cons_ne_nil _ _, List.forall_mem_cons.2 ⟨hc, h.2⟩⟩

@[simp]
theorem isWord_decimalChars (n : Nat) : Text.IsWord (Numeral.decimalChars n) :=
  isWord_of_isHex Nat.toDigits_ne_nil (Numeral.isHex_toDigits (by decide) (by decide) n)

@[simp]
theorem isWord_paddedHexChars (minDigits n : Nat) :
    Text.IsWord (Numeral.paddedHexChars minDigits n) := by
  refine isWord_cons (by decide) (isWord_cons (by decide) (isWord_of_isHex ?_ ?_))
  · exact List.append_ne_nil_of_right_ne_nil _ Nat.toDigits_ne_nil
  · exact Numeral.isHex_zeros_append _ (Numeral.isHex_toDigits (by decide) (by decide) n)

/-- Words with a `0x` mark are read whatever they are padded to, and in any radix. -/
@[simp]
theorem word?_paddedHexChars (radix : Radix) (minDigits : Nat) (w : Word) :
    word? radix (Numeral.paddedHexChars minDigits w.toNat) = some w :=
  word?_of_word? (Numeral.word?_paddedHexChars radix minDigits w.isLt)

/-- A way to print addresses that reading undoes. -/
structure ReadsBack (radix : Radix) (addressChars : Address → List Char) : Prop where
  isWord : ∀ address, Text.IsWord (addressChars address)
  address?_eq : ∀ address, address? radix (addressToken (addressChars address)) = some address

/-- Addresses as an image has them. -/
theorem readsBack_hex (radix : Radix) (minDigits : Nat) :
    ReadsBack radix fun address ↦ Numeral.paddedHexChars minDigits address.toNat where
  isWord _ := isWord_paddedHexChars _ _
  address?_eq address := address?_of_word? <|
    Numeral.word?_paddedHexChars radix minDigits (address.toNat_lt_size.trans (by decide))

/-- Addresses as a configuration has them: in decimal, behind a register letter. -/
theorem readsBack_register :
    ReadsBack .decimal fun address ↦ 'R' :: Numeral.decimalChars address.toNat where
  isWord address := isWord_cons (by decide) (isWord_decimalChars address.toNat)
  address?_eq address := address?_of_word? <|
    Numeral.word?_decimalChars (address.toNat_lt_size.trans (by decide))

variable {addressChars : Address → List Char}

/-- The words on the rows of a listing. -/
def table (addressChars : Address → List Char) (width : Width)
    (entries : List (Address × Word)) : List (List (List Char)) :=
  entries.map fun entry ↦
    [addressChars entry.1, Numeral.paddedHexChars width.hexDigits entry.2.toNat]

theorem text_eq_printed (addressChars : Address → List Char) (width : Width)
    (entries : List (Address × Word)) :
    text addressChars width entries =
      String.ofList (Text.printed (table addressChars width entries)) := by
  rw [text, Text.printed, table, List.flatMap_map]
  congr 1
  refine List.flatMap_congr fun entry _ ↦ ?_
  simp [rowChars, Text.joined]

theorem parse_text (h : ReadsBack addressRadix addressChars) (entries : List (Address × Word)) :
    parse addressRadix wordRadix (text addressChars width entries) =
      .ok ((entries.zipIdx 1).map fun entry ↦ ⟨entry.2, entry.1.1, entry.1.2⟩) := by
  have htable : ∀ row ∈ table addressChars width entries,
      row ≠ [] ∧ ∀ word ∈ row, Text.IsWord word := by
    simp only [table, List.forall_mem_map]
    intro entry _
    simp [h.isWord]
  have hrun (number : Nat) : (((table addressChars width entries).zipIdx number).map fun row ↦
        (⟨row.2, String.ofList (Text.joined row.1), row.1⟩ : Text.Row)).mapM
          (Entry.ofRow addressRadix wordRadix) =
      .ok ((entries.zipIdx number).map fun entry ↦ ⟨entry.2, entry.1.1, entry.1.2⟩) := by
    induction entries generalizing number with
    | nil => rfl
    | cons entry rest ih =>
      have hrow (text : String) : Entry.ofRow addressRadix wordRadix
          ⟨number, text, [addressChars entry.1,
            Numeral.paddedHexChars width.hexDigits entry.2.toNat]⟩ =
          .ok ⟨number, entry.1, entry.2⟩ := by
        simp [Entry.ofRow, h.address?_eq]
      have hrest := ih (fun row hrow ↦ htable row (List.mem_cons_of_mem _ hrow)) (number + 1)
      rw [table] at hrest
      rw [table, List.map_cons, List.zipIdx_cons, List.map_cons, List.mapM_cons, hrow, hrest]
      rfl
  rw [parse, text_eq_printed, Text.rows_printed htable, hrun]

/-- The entries of a map of words that fit make up that map. -/
theorem foldlM_add_toList {entries : List Entry} {words : SortedMap Address Word}
    (hentries : entries.map (fun entry ↦ (entry.address, entry.word)) = words.toList)
    (hfits : ∀ a w, words.get? a = some w → width.Fits w) :
    entries.foldlM (add width policy) ∅ = .ok words := by
  have hnodup : (entries.map Entry.address).Nodup := by
    have hkeys : entries.map Entry.address = words.keys := by
      rw [SortedMap.keys, ← hentries, List.map_map]
      rfl
    rw [hkeys]
    exact words.nodup_keys
  have hword (entry : Entry) (hentry : entry ∈ entries) : width.Fits entry.word := by
    apply hfits entry.address
    rw [← SortedMap.mem_toList_iff, ← hentries]
    exact List.mem_map_of_mem hentry
  rw [foldlM_add_of_nodup hword hnodup fun _ _ ↦ rfl]
  congr 1
  calc entries.foldl (fun words entry ↦ words.insert entry.address entry.word) ∅
      = SortedMap.ofList words.toList := by
        rw [SortedMap.ofList, ← hentries, List.foldl_map]
    _ = words := words.ofList_toList

/-- A listing that was printed from words that fit is read back whatever the policy. -/
theorem load_text (h : ReadsBack addressRadix addressChars) {words : SortedMap Address Word}
    (hfits : ∀ address word, words.get? address = some word → width.Fits word) :
    load addressRadix wordRadix width policy (text addressChars width words.toList) =
      .ok words := by
  rw [load, parse_text h]
  refine foldlM_add_toList ?_ hfits
  rw [List.map_map]
  exact List.zipIdx_map_fst 1 _

end ChipConfig.Listing
