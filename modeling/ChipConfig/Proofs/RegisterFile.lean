import ChipConfig.Proofs.BitMap.Placement
import ChipConfig.Proofs.Listing
import ChipConfig.RegisterFile

/-!
# What registers read

A register file is described by its width, by the registers that have an entry and by what every
register reads.  Flipping bits is an exclusive or with the set of flipped places as long as none is
flipped twice, and `agrees` ignores which registers have an entry.
-/

namespace ChipConfig.RegisterFile

@[simp]
theorem get_insert (file : RegisterFile) (register other : Address) (word : Word) :
    get { file with words := file.words.insert register word } other =
      if other = register then word else file.get other := by
  simp only [get, SortedMap.get?_insert]
  split <;> rfl

@[simp]
theorem contains_insert (file : RegisterFile) (register other : Address) (word : Word) :
    contains { file with words := file.words.insert register word } other = true ↔
      other = register ∨ file.contains other = true :=
  SortedMap.contains_insert file.words register other word

theorem get?_words (file : RegisterFile) (register : Address) :
    file.words.get? register =
      if file.contains register then some (file.get register) else none := by
  rw [contains, SortedMap.contains_eq_isSome, get]
  cases file.words.get? register <;> rfl

@[simp]
theorem set_eq_ok_iff {file result : RegisterFile} {register : Address} {word : Word} :
    file.set register word = .ok result ↔
      file.width.Fits word ∧
        result = { file with words := file.words.insert register word } := by
  simp [set]

@[simp]
theorem ofList_eq_ok_iff {width : Width} {entries : List (Address × Word)} {file : RegisterFile} :
    ofList width entries = .ok file ↔
      (∀ entry ∈ entries, width.Fits entry.2) ∧ file = ⟨width, SortedMap.ofList entries⟩ := by
  simp [ofList]

/-- Registers that read the same have the same entries, if they have them at the same places. -/
theorem eq_of_get_eq {a b : RegisterFile} (hwidth : a.width = b.width)
    (hcontains : ∀ register, a.contains register = b.contains register)
    (hget : ∀ register, a.get register = b.get register) : a = b := by
  have hwords : a.words = b.words := by
    apply SortedMap.ext_get?
    intro register
    have hentry := hcontains register
    have hword := hget register
    simp only [contains, SortedMap.contains_eq_isSome] at hentry
    simp only [get] at hword
    cases ha : a.words.get? register <;> cases hb : b.words.get? register <;> simp_all
  cases a
  cases b
  simp_all

@[simp]
theorem mem_nonzero_iff {file : RegisterFile} {register : Address} {word : Word} :
    (register, word) ∈ file.nonzero ↔ file.get register = word ∧ word ≠ 0 := by
  simp only [nonzero, toList, List.mem_filter, SortedMap.mem_toList_iff, get, bne_iff_ne]
  cases file.words.get? register with
  | none =>
    rw [Option.getD_none]
    constructor
    · intro h
      cases h.1
    · intro h
      exact absurd h.1.symm h.2
  | some word => simp

/-- Two files agree if they have one width and all registers read the same in both. -/
theorem agrees_iff {a b : RegisterFile} :
    a.agrees b = true ↔ a.width = b.width ∧ ∀ register, a.get register = b.get register := by
  simp only [agrees, Bool.and_eq_true, decide_eq_true_eq]
  refine and_congr_right fun _ ↦ ?_
  constructor
  · intro h register
    have hmem (word : Word) :
        a.get register = word ∧ word ≠ 0 ↔ b.get register = word ∧ word ≠ 0 := by
      rw [← mem_nonzero_iff, ← mem_nonzero_iff, h]
    by_cases hzero : a.get register = 0
    · by_contra hne
      exact hne ((hmem (b.get register)).2 ⟨rfl, fun heq ↦ hne (hzero.trans heq.symm)⟩).1
    · exact ((hmem (a.get register)).1 ⟨rfl, hzero⟩).1.symm
  · intro h
    have hmaps : (⟨a.nonzero, a.words.sorted.filter _⟩ : SortedMap Address Word) =
        ⟨b.nonzero, b.words.sorted.filter _⟩ := by
      apply SortedMap.eq_of_mem_toList_iff
      intro entry
      change (entry.1, entry.2) ∈ a.nonzero ↔ (entry.1, entry.2) ∈ b.nonzero
      rw [mem_nonzero_iff, mem_nonzero_iff, h]
    exact congrArg SortedMap.toList hmaps

@[simp]
theorem get_touch (file : RegisterFile) (register other : Address) :
    (file.touch register).get other = file.get other := by
  rw [touch, get_insert]
  split
  · next h => rw [h]
  · rfl

/-- Touching registers changes no word and gives each of them an entry. -/
theorem foldl_touch (registers : List Address) (file : RegisterFile) :
    (registers.foldl touch file).width = file.width ∧
      (∀ register, (registers.foldl touch file).get register = file.get register) ∧
      ∀ register, (registers.foldl touch file).contains register = true ↔
        register ∈ registers ∨ file.contains register = true := by
  induction registers generalizing file with
  | nil => simp
  | cons head registers ih =>
    obtain ⟨hwidth, hget, hcontains⟩ := ih (file.touch head)
    refine ⟨hwidth, fun register ↦ ?_, fun register ↦ ?_⟩
    · rw [List.foldl_cons, hget, get_touch]
    · rw [List.foldl_cons, hcontains, touch, contains_insert, List.mem_cons]
      tauto

/-- Erasing registers takes their entries away and leaves all others as they are. -/
theorem foldl_erase (registers : List Address) (file : RegisterFile) :
    (registers.foldl erase file).width = file.width ∧
      ∀ register, (registers.foldl erase file).words.get? register =
        if register ∈ registers then none else file.words.get? register := by
  induction registers generalizing file with
  | nil => simp
  | cons head registers ih =>
    obtain ⟨hwidth, hget⟩ := ih (file.erase head)
    refine ⟨hwidth, fun register ↦ ?_⟩
    rw [List.foldl_cons, hget, erase, SortedMap.get?_erase]
    by_cases hhead : register = head
    · simp [hhead]
    · simp [hhead]

def flipped (file : RegisterFile) (place : RegisterBit) : RegisterFile :=
  { file with
    words := file.words.insert place.register
      (file.get place.register ^^^ BitVec.twoPow 64 place.bit.toNat) }

@[simp]
theorem toggle_eq_ok_iff {file result : RegisterFile} {place : RegisterBit} :
    file.toggle place.register place.bit.toNat = .ok result ↔
      place.bit.toNat < file.width.bits ∧ result = file.flipped place := by
  simp [toggle, flipped]

theorem getLsbD_get_flipped (file : RegisterFile) (place : RegisterBit) {other : RegisterBit}
    (hother : other.bit.toNat < 64) :
    ((file.flipped place).get other.register).getLsbD other.bit.toNat =
      ((file.get other.register).getLsbD other.bit.toNat ^^ decide (other = place)) := by
  rw [flipped, get_insert]
  split
  · next h =>
    rw [BitVec.getLsbD_xor, BitVec.getLsbD_twoPow, h]
    by_cases heq : other = place
    · subst heq
      simp [hother]
    · have hbit : place.bit.toNat ≠ other.bit.toNat :=
        fun hbit ↦ heq (RegisterBit.eq_iff.2 ⟨h, hbit.symm⟩)
      simp [heq, hbit]
  · next h =>
    have hne : other ≠ place := fun heq ↦ h (heq ▸ rfl)
    simp [hne]

def flippedAll (file : RegisterFile) (places : List RegisterBit) : RegisterFile :=
  places.foldl flipped file

@[simp]
theorem width_flippedAll (file : RegisterFile) (places : List RegisterBit) :
    (file.flippedAll places).width = file.width := by
  unfold flippedAll
  induction places generalizing file with
  | nil => rfl
  | cons place places ih => exact ih (file.flipped place)

@[simp]
theorem contains_flippedAll (file : RegisterFile) (places : List RegisterBit)
    (register : Address) :
    (file.flippedAll places).contains register = true ↔
      (∃ place ∈ places, place.register = register) ∨ file.contains register = true := by
  unfold flippedAll
  induction places generalizing file with
  | nil => simp
  | cons place places ih =>
    rw [List.foldl_cons, ih, flipped, contains_insert]
    simp only [List.exists_mem_cons_iff, eq_comm (a := register)]
    rw [or_assoc, or_left_comm]

/-- A bit is flipped if it is in the list, as long as no bit is there twice. -/
theorem getLsbD_get_flippedAll (file : RegisterFile) {places : List RegisterBit}
    (hnodup : places.Nodup) {other : RegisterBit} (hother : other.bit.toNat < 64) :
    ((file.flippedAll places).get other.register).getLsbD other.bit.toNat =
      ((file.get other.register).getLsbD other.bit.toNat ^^ decide (other ∈ places)) := by
  unfold flippedAll
  induction places generalizing file with
  | nil => simp
  | cons place places ih =>
    obtain ⟨hfresh, hrest⟩ := List.nodup_cons.1 hnodup
    rw [List.foldl_cons, ih _ hrest, getLsbD_get_flipped file place hother]
    by_cases heq : other = place
    · subst heq
      simp [hfresh]
    · simp [heq]

/-! ## Words that fit -/

/-- Whether no entry has a bit above the width of the file. -/
def Fits (file : RegisterFile) : Prop :=
  ∀ register word, file.words.get? register = some word → file.width.Fits word

theorem fits_empty (width : Width) : (empty width).Fits := by
  intro register word h
  cases h

theorem Fits.get {file : RegisterFile} (h : file.Fits) (register : Address) :
    file.width.Fits (file.get register) := by
  rw [RegisterFile.get]
  cases hword : file.words.get? register with
  | none => exact Width.fits_zero file.width
  | some word => exact h register word hword

/-- Whether a file has a width and only words that fit it. -/
structure FitsIn (width : Width) (file : RegisterFile) : Prop where
  width_eq : file.width = width
  fits : file.Fits

section FitsIn

variable {width : Width} {file after : RegisterFile}

theorem fitsIn_empty (width : Width) : FitsIn width (empty width) :=
  ⟨rfl, fits_empty width⟩

theorem FitsIn.insert (h : FitsIn width file) (register : Address) {word : Word}
    (hword : file.width.Fits word) :
    FitsIn width { file with words := file.words.insert register word } :=
  ⟨h.width_eq, SortedMap.forall_get?_insert h.fits hword register⟩

theorem FitsIn.set (h : FitsIn width file) {register : Address} {word : Word}
    (hset : file.set register word = .ok after) : FitsIn width after := by
  obtain ⟨hword, rfl⟩ := set_eq_ok_iff.1 hset
  exact h.insert register hword

theorem FitsIn.touch (h : FitsIn width file) (register : Address) :
    FitsIn width (file.touch register) :=
  h.insert register (h.fits.get register)

theorem FitsIn.foldl_touch (h : FitsIn width file) (registers : List Address) :
    FitsIn width (registers.foldl RegisterFile.touch file) := by
  induction registers generalizing file with
  | nil => exact h
  | cons register registers ih => exact ih (h.touch register)

/-- Flipping a bit below the width makes no bit above it. -/
theorem FitsIn.flipped (h : FitsIn width file) {place : RegisterBit}
    (hplace : place.bit.toNat < file.width.bits) : FitsIn width (file.flipped place) :=
  h.insert place.register (Width.fits_xor (h.fits.get place.register) (Width.fits_twoPow hplace))

theorem FitsIn.erase (h : FitsIn width file) (register : Address) :
    FitsIn width (file.erase register) :=
  ⟨h.width_eq, fun other word hword ↦ h.fits other word (SortedMap.get?_of_get?_erase hword)⟩

theorem fitsIn_of_ofList {words : List (Address × Word)} (h : ofList width words = .ok file) :
    FitsIn width file := by
  obtain ⟨hfits, rfl⟩ := ofList_eq_ok_iff.1 h
  exact ⟨rfl, SortedMap.forall_get?_ofList hfits⟩

end FitsIn

/-- A register file is read back from its text, however configurations are read. -/
theorem parse_text {file : RegisterFile} (hfile : file.Fits) (options : ParseOptions) :
    parse file.text file.width options = .ok file := by
  have hload : Listing.load .decimal options.radix file.width options.duplicates file.text =
      .ok file.words := Listing.load_text Listing.readsBack_register hfile
  rw [parse, hload]
  rfl

theorem parse_eq_ok_iff {text : String} {width : Width} {options : ParseOptions}
    {file : RegisterFile} :
    parse text width options = .ok file ↔
      file.width = width ∧
        Listing.load .decimal options.radix width options.duplicates text = .ok file.words := by
  rw [parse, Fallible.bind_eq_ok_iff]
  constructor
  · rintro ⟨words, hload, hfile⟩
    obtain rfl := Fallible.pure_eq_ok_iff.1 hfile
    exact ⟨rfl, hload⟩
  · rintro ⟨rfl, hload⟩
    exact ⟨file.words, hload, rfl⟩

theorem fitsIn_of_parse {text : String} {width : Width} {options : ParseOptions}
    {file : RegisterFile} (h : parse text width options = .ok file) : FitsIn width file := by
  obtain ⟨rfl, hload⟩ := parse_eq_ok_iff.1 h
  exact ⟨rfl, fun _ _ hword ↦ Listing.fits_of_load hload hword⟩

end ChipConfig.RegisterFile
