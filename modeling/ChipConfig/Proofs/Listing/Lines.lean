import ChipConfig.Proofs.Listing

/-!
# What the lines of a listing say

Every line of a listing is blank, gives an address a word, or is misread.  A listing is worked
through line by line, and one that cannot be read is refused for the first line that is misread.
-/

namespace ChipConfig.Listing

open Fallible

variable {addressRadix wordRadix : Radix} {width : Width} {policy : DuplicatePolicy} {number : Nat}
  {line : List Char} {lines : List (List Char)} {error : ListingError} {address other : Address}
  {word : Word}

@[simp]
theorem address?_eq_some_iff {radix : Radix} {token : List Char} :
    address? radix token = some address ↔ Numeral.word? radix token = some address.toNat := by
  refine ⟨fun h ↦ ?_, address?_of_word?⟩
  obtain ⟨n, hn, rfl⟩ := Option.map_eq_some_iff.1 h
  obtain ⟨hnumeral, hlt⟩ := Option.filter_eq_some_iff.1 hn
  rw [hnumeral, UInt32.toNat_ofNat_of_lt' (of_decide_eq_true hlt)]

@[simp]
theorem word?_eq_some_iff {radix : Radix} {token : List Char} :
    word? radix token = some word ↔ Numeral.word? radix token = some word.toNat := by
  refine ⟨fun h ↦ ?_, word?_of_word?⟩
  obtain ⟨n, hnumeral, rfl⟩ := Option.map_eq_some_iff.1 h
  rw [hnumeral, BitVec.toNat_ofNat, Nat.mod_eq_of_lt (Numeral.lt_of_word? hnumeral)]

/-- Whether a line gives an address a word: there are two words before its comment, the numeral of
the address, perhaps behind a register letter, and the numeral of the word. -/
def Gives (addressRadix wordRadix : Radix) (line : List Char) (address : Address) (word : Word) :
    Prop :=
  ∃ first second, Text.words (Text.content line) = [first, second] ∧
    Numeral.word? addressRadix (addressToken first) = some address.toNat ∧
      Numeral.word? wordRadix second = some word.toNat

/-- Whether a line gives an address some word. -/
def Names (addressRadix wordRadix : Radix) (line : List Char) (address : Address) : Prop :=
  ∃ word, Gives addressRadix wordRadix line address word

/-- Whether a line has content but gives no address a word, with the error that says why. -/
inductive Misread (addressRadix wordRadix : Radix) (number : Nat) (line : List Char) :
    ListingError → Prop
  /-- The content is not two words. -/
  | malformed (hcontent : Text.content line ≠ [])
      (hwords : ∀ first second, Text.words (Text.content line) ≠ [first, second]) :
      Misread addressRadix wordRadix number line (.malformed number (String.ofList line))
  /-- The first of two words is no numeral of an address. -/
  | address {first second : List Char}
      (hwords : Text.words (Text.content line) = [first, second])
      (haddress : ∀ address : Address,
        Numeral.word? addressRadix (addressToken first) ≠ some address.toNat) :
      Misread addressRadix wordRadix number line (.invalidNumber number (String.ofList first))
  /-- The first of two words is the numeral of an address, the second one is no numeral of a
  word. -/
  | word {first second : List Char} {address : Address}
      (hwords : Text.words (Text.content line) = [first, second])
      (haddress : Numeral.word? addressRadix (addressToken first) = some address.toNat)
      (hword : ∀ word : Word, Numeral.word? wordRadix second ≠ some word.toNat) :
      Misread addressRadix wordRadix number line (.invalidNumber number (String.ofList second))

theorem not_gives_of_blank (h : Text.content line = []) :
    ¬Gives addressRadix wordRadix line address word := by
  rintro ⟨first, second, hwords, -⟩
  rw [h] at hwords
  cases hwords

theorem not_misread_of_blank (h : Text.content line = []) :
    ¬Misread addressRadix wordRadix number line error := by
  intro hmisread
  have hnone (first second : List Char) : Text.words (Text.content line) ≠ [first, second] := by
    rw [h]
    exact fun hwords ↦ nomatch hwords
  cases hmisread with
  | malformed hcontent _ => exact hcontent h
  | address hwords _ => exact hnone _ _ hwords
  | word hwords _ _ => exact hnone _ _ hwords

theorem ofRow_of_gives (h : Gives addressRadix wordRadix line address word) (text : String) :
    Entry.ofRow addressRadix wordRadix ⟨number, text, Text.words (Text.content line)⟩ =
      .ok ⟨number, address, word⟩ := by
  obtain ⟨first, second, hwords, haddress, hword⟩ := h
  simp only [Entry.ofRow, hwords, address?_of_word? haddress, word?_of_word? hword]

theorem ofRow_of_misread (h : Misread addressRadix wordRadix number line error) :
    Entry.ofRow addressRadix wordRadix
      ⟨number, String.ofList line, Text.words (Text.content line)⟩ = .error error := by
  cases h with
  | malformed _ hwords =>
    simp only [Entry.ofRow]
  | @address first second hwords haddress =>
    have hnone : address? addressRadix (addressToken first) = none :=
      Option.eq_none_iff_forall_ne_some.2 fun a h ↦ haddress a (address?_eq_some_iff.1 h)
    simp only [Entry.ofRow, hwords, hnone]
  | @word first second address hwords haddress hword =>
    have hnone : word? wordRadix second = none :=
      Option.eq_none_iff_forall_ne_some.2 fun w h ↦ hword w (word?_eq_some_iff.1 h)
    simp only [Entry.ofRow, hwords, address?_of_word? haddress, hnone]

/-- A line with content is read or misread. -/
theorem gives_or_misread (h : Text.content line ≠ []) (number : Nat) :
    (∃ address word, Gives addressRadix wordRadix line address word) ∨
      ∃ error, Misread addressRadix wordRadix number line error := by
  by_cases hwords : ∃ first second, Text.words (Text.content line) = [first, second]
  · obtain ⟨first, second, hwords⟩ := hwords
    by_cases haddress : ∃ address : Address,
        Numeral.word? addressRadix (addressToken first) = some address.toNat
    · obtain ⟨address, haddress⟩ := haddress
      by_cases hword : ∃ word : Word, Numeral.word? wordRadix second = some word.toNat
      · obtain ⟨word, hword⟩ := hword
        exact .inl ⟨address, word, first, second, hwords, haddress, hword⟩
      · exact .inr ⟨_, .word hwords haddress (not_exists.1 hword)⟩
    · exact .inr ⟨_, .address hwords (not_exists.1 haddress)⟩
  · push Not at hwords
    exact .inr ⟨_, .malformed h hwords⟩

theorem ofRow_eq_error_iff (h : Text.content line ≠ []) :
    Entry.ofRow addressRadix wordRadix
        ⟨number, String.ofList line, Text.words (Text.content line)⟩ = .error error ↔
      Misread addressRadix wordRadix number line error := by
  refine ⟨fun herror ↦ ?_, ofRow_of_misread⟩
  rcases gives_or_misread h number with ⟨address, word, hgives⟩ | ⟨cause, hmisread⟩
  · rw [ofRow_of_gives hgives] at herror
    cases herror
  · have hcause := ofRow_of_misread hmisread
    rw [herror] at hcause
    rwa [Except.error.inj hcause]

theorem Gives.unique {a b : Address} {u v : Word} (ha : Gives addressRadix wordRadix line a u)
    (hb : Gives addressRadix wordRadix line b v) : a = b ∧ u = v := by
  have hrow : Entry.ofRow addressRadix wordRadix ⟨0, "", Text.words (Text.content line)⟩ =
      .ok ⟨0, a, u⟩ := ofRow_of_gives ha ""
  rw [ofRow_of_gives hb "", Except.ok.injEq, Entry.mk.injEq] at hrow
  exact ⟨hrow.2.1.symm, hrow.2.2.symm⟩

theorem Gives.names_iff (h : Gives addressRadix wordRadix line address word) :
    Names addressRadix wordRadix line other ↔ other = address := by
  constructor
  · rintro ⟨_, hother⟩
    exact (hother.unique h).1
  · rintro rfl
    exact ⟨word, h⟩

theorem not_names_of_blank (h : Text.content line = []) :
    ¬Names addressRadix wordRadix line address :=
  fun ⟨_, hgives⟩ ↦ not_gives_of_blank h hgives

theorem exists_misread_iff :
    (∃ error, Misread addressRadix wordRadix number line error) ↔
      Text.content line ≠ [] ∧ ¬∃ address word, Gives addressRadix wordRadix line address word := by
  constructor
  · rintro ⟨error, hmisread⟩
    refine ⟨fun h ↦ not_misread_of_blank h hmisread, ?_⟩
    rintro ⟨address, word, hgives⟩
    have hrow := ofRow_of_misread hmisread
    rw [ofRow_of_gives hgives] at hrow
    cases hrow
  · rintro ⟨hcontent, hnone⟩
    exact (gives_or_misread hcontent number).resolve_left hnone

/-- The entries of lines from a number on, the blank lines left out. -/
inductive Reads (addressRadix wordRadix : Radix) : Nat → List (List Char) → List Entry → Prop
  | nil {number : Nat} : Reads addressRadix wordRadix number [] []
  | blank {number : Nat} {line : List Char} {lines : List (List Char)} {entries : List Entry}
      (hline : Text.content line = [])
      (hrest : Reads addressRadix wordRadix (number + 1) lines entries) :
      Reads addressRadix wordRadix number (line :: lines) entries
  | entry {number : Nat} {line : List Char} {lines : List (List Char)} {entries : List Entry}
      {address : Address} {word : Word} (hline : Gives addressRadix wordRadix line address word)
      (hrest : Reads addressRadix wordRadix (number + 1) lines entries) :
      Reads addressRadix wordRadix number (line :: lines) (⟨number, address, word⟩ :: entries)

theorem reads_of_mapM {entries : List Entry}
    (h : (Text.rowsFrom number lines).mapM (Entry.ofRow addressRadix wordRadix) = .ok entries) :
    Reads addressRadix wordRadix number lines entries := by
  induction lines generalizing number entries with
  | nil =>
    obtain rfl := pure_eq_ok_iff.1 h
    exact .nil
  | cons line lines ih =>
    by_cases hcontent : Text.content line = []
    · rw [Text.rowsFrom_cons_of_blank hcontent] at h
      exact .blank hcontent (ih h)
    · rw [Text.rowsFrom_cons_of_content hcontent, List.mapM_cons] at h
      obtain ⟨entry, hentry, h⟩ := bind_eq_ok_iff.1 h
      obtain ⟨rest, hrest, h⟩ := bind_eq_ok_iff.1 h
      obtain rfl := pure_eq_ok_iff.1 h
      rcases gives_or_misread hcontent number with ⟨address, word, hgives⟩ | ⟨cause, hmisread⟩
      · rw [ofRow_of_gives hgives] at hentry
        obtain rfl := Except.ok.inj hentry
        exact .entry hgives (ih hrest)
      · rw [ofRow_of_misread hmisread] at hentry
        cases hentry

/-- A line has the same number whether it is counted from a line or from the one after it. -/
theorem number_cons (line : List Char) (earlier : List (List Char)) (number : Nat) :
    (line :: earlier).length + number = earlier.length + (number + 1) := by
  rw [List.length_cons, Nat.add_assoc, Nat.add_comm 1]

/-- Reading all lines fails for the first of them that is misread. -/
theorem mapM_rowsFrom_eq_error_iff :
    (Text.rowsFrom number lines).mapM (Entry.ofRow addressRadix wordRadix) = .error error ↔
      FirstFault (fun earlier ↦ Misread addressRadix wordRadix (earlier.length + number))
        lines error := by
  induction lines generalizing number with
  | nil => exact iff_of_false (fun h ↦ nomatch h) not_firstFault_nil
  | cons line lines ih =>
    by_cases hcontent : Text.content line = []
    · -- A blank line is no row, but it counts for the numbers of those after it.
      rw [Text.rowsFrom_cons_of_blank hcontent,
        firstFault_cons_of_not fun _ ↦ not_misread_of_blank hcontent]
      simp only [ih, number_cons]
    · rw [Text.rowsFrom_cons_of_content hcontent, List.mapM_cons, firstFault_cons]
      simp only [List.length_nil, Nat.zero_add, number_cons, ← ih]
      exact bind_eq_error_iff_of_iff (fun _ ↦ ofRow_eq_error_iff hcontent)
        fun _ _ ↦ bind_pure_eq_error_iff

/-- Whether every line with content gives an address a word. -/
def Readable (addressRadix wordRadix : Radix) (lines : List (List Char)) : Prop :=
  ∀ line ∈ lines, Text.content line ≠ [] →
    ∃ address word, Gives addressRadix wordRadix line address word

theorem not_firstFault_misread_iff :
    (∀ error, ¬FirstFault (fun earlier ↦ Misread addressRadix wordRadix (earlier.length + number))
      lines error) ↔ Readable addressRadix wordRadix lines := by
  rw [← not_exists, exists_firstFault_iff]
  simp only [exists_misread_iff]
  constructor
  · intro h line hline hcontent
    obtain ⟨earlier, later, hsplit⟩ := List.append_of_mem hline
    by_contra hnone
    exact h ⟨earlier, line, later, hsplit, hcontent, hnone⟩
  · rintro h ⟨earlier, line, later, rfl, hcontent, hnone⟩
    exact hnone (h line (by simp) hcontent)

theorem exists_mapM_rowsFrom_iff :
    (∃ entries, (Text.rowsFrom number lines).mapM (Entry.ofRow addressRadix wordRadix) =
      .ok entries) ↔ Readable addressRadix wordRadix lines := by
  simp only [exists_ok_iff, Ne, mapM_rowsFrom_eq_error_iff, not_firstFault_misread_iff]

end ChipConfig.Listing
