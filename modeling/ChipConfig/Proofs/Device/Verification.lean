import ChipConfig.Proofs.Device.EepromStream
import ChipConfig.Proofs.Device.Invariant
import ChipConfig.Proofs.Image.Difference

/-!
# Verifying an image finds the corrupted words

Verifying reads the whole EEPROM, wherever its pointers stand, and compares the cells with the
image at the addresses that the image has.  It reports the words that are not in their cell, and no
others; cells that the image does not cover are of no account.  No cell is changed by it.
-/

namespace ChipConfig

namespace Board

/-- Whether a board has an EEPROM with these cells. -/
def HasCells (cells : List Word) (board : Board) : Prop :=
  board.eeprom.map Eeprom.cells = some cells

variable {cells : List Word}

/-- What is done with the registers does not concern the EEPROM. -/
theorem keeps_withMemory {α : Type} (session : Session Memory DeviceError α) :
    Session.Keeps (HasCells cells) (fun _ ↦ True) (withMemory session) :=
  fun _ hboard ↦ ⟨hboard, fun _ _ ↦ trivial⟩

/-- Setting the read pointer changes no cell. -/
theorem keeps_write_readPointer (word : Word) :
    Session.Keeps (HasCells cells) (fun _ ↦ True) (device.write readPointer word) := by
  have hreacts (memory : Memory) (eeprom : Eeprom) :
      (onWrite memory eeprom readPointer word).cells = eeprom.cells := rfl
  have hmodify : Session.Keeps (HasCells cells) (fun _ ↦ True) (modify fun board ↦
      { board with eeprom := board.eeprom.map (onWrite board.memory · readPointer word) } :
      Session Board DeviceError PUnit) := by
    intro board hboard
    refine ⟨?_, fun _ _ ↦ trivial⟩
    change (board.eeprom.map (onWrite board.memory · readPointer word)).map Eeprom.cells =
      some cells
    rw [Option.map_map, ← hboard]
    exact Option.map_congr fun eeprom _ ↦ hreacts board.memory eeprom
  exact hmodify.bind fun _ _ ↦ keeps_withMemory (Memory.write readPointer word)

theorem keeps_read (address : Address) :
    Session.Keeps (HasCells cells) (fun _ ↦ True) (device.read address) := by
  refine Session.keeps_get_bind fun board hboard ↦ ?_
  have hmemory : Session.Keeps (HasCells cells) (fun _ ↦ True)
      (withMemory (Memory.read address)) := keeps_withMemory _
  cases heeprom : board.eeprom with
  | none => exact hmemory
  | some eeprom =>
    by_cases hdata : address = readData
    · have hadvanced : HasCells cells { board with eeprom := some eeprom.advance } := by
        rw [HasCells, heeprom] at hboard
        exact hboard
      simp only [if_pos hdata]
      exact (Session.keeps_set hadvanced).bind fun _ _ ↦ Session.keeps_pure trivial
    · simp only [if_neg hdata]
      exact hmemory

end Board

namespace EepromInterface

variable {cells : List Word} {written : Image}

/-- Verifying changes no cell, be it that it ends well or not. -/
theorem keeps_cells_verifyImage (cells : List Word) (wordCount : Nat) (written : Image) :
    Session.Keeps (Board.HasCells cells) (fun _ ↦ True)
      ((ofSize wordCount).verifyImage Board.device written) := by
  have hread : Session.Keeps (Board.HasCells cells) (fun _ ↦ True)
      ((ofSize wordCount).readImage Board.device written.width) := by
    refine (keeps_writeWord (Board.keeps_write_readPointer 0)).bind fun _ _ ↦ ?_
    intro board hboard
    have hcollect := keeps_collect (Board.keeps_read Board.readData)
      (Image.fitsIn_empty written.width) 0 wordCount board hboard
    exact ⟨hcollect.1, fun _ _ ↦ trivial⟩
  exact hread.bind fun _ _ ↦ Session.keeps_pure trivial

@[simp]
theorem get?_covered (image written : Image) (address : Address) :
    (covered image written).get? address =
      if written.contains address = true then image.get? address else none := by
  have hfilter : (covered image written).get? address =
      (image.get? address).filter fun _ ↦ written.contains address :=
    SortedMap.get?_filter image.words _ address
  rw [hfilter]
  cases written.contains address with
  | true => cases image.get? address <;> rfl
  | false => cases image.get? address <;> rfl

/-- A word of an image that is not in its cell: the EEPROM ends before it, or something else is
there. -/
inductive Corrupted (cells : List Word) (written : Image) : WordDiff → Prop
  | beyond {address : Address} {word : Word} (hword : written.get? address = some word)
      (hcell : cells.length ≤ address.toNat) :
      Corrupted cells written ⟨address, some word, none⟩
  | changed {address : Address} {word cell : Word} (hword : written.get? address = some word)
      (hcell : cells[address.toNat]? = some cell) (hne : cell ≠ word) :
      Corrupted cells written ⟨address, some word, some cell⟩

/-- The image read from the EEPROM differs from the one written where a word is corrupted. -/
theorem mem_diff_covered_iff {image : Image}
    (himage : ∀ address, image.get? address = cells[address.toNat]?) {entry : WordDiff} :
    entry ∈ written.diff (covered image written) ↔ Corrupted cells written entry := by
  rw [Image.mem_diff_iff, get?_covered]
  obtain ⟨address, expected, actual⟩ := entry
  simp only [himage]
  constructor
  · rintro ⟨rfl, rfl, hne⟩
    cases hword : written.get? address with
    | none =>
      have hnot : ¬written.contains address = true := SortedMap.not_contains_iff.2 hword
      rw [hword, if_neg hnot] at hne
      exact absurd rfl hne
    | some word =>
      have hcontains : written.contains address = true := Image.contains_iff.2 ⟨word, hword⟩
      rw [hword, if_pos hcontains] at hne
      rw [if_pos hcontains]
      cases hcell : cells[address.toNat]? with
      | none => exact .beyond hword (List.getElem?_eq_none_iff.1 hcell)
      | some cell =>
        rw [hcell] at hne
        exact .changed hword hcell fun heq ↦ hne (congrArg some heq.symm)
  · intro h
    cases h with
    | beyond hword hcell =>
      have hcontains : written.contains address = true := Image.contains_iff.2 ⟨_, hword⟩
      rw [hword, if_pos hcontains, List.getElem?_eq_none hcell]
      simp
    | changed hword hcell hne =>
      have hcontains : written.contains address = true := Image.contains_iff.2 ⟨_, hword⟩
      rw [hword, if_pos hcontains, hcell]
      simpa using hne.symm

/-- Verifying lists exactly the words of the image that are not in their cells, and changes no cell.
-/
theorem verifyImage_finds_corrupted (written : Image) {board : Board} {eeprom : Eeprom}
    (heeprom : board.eeprom = some eeprom) (hsize : eeprom.cells.length < UInt32.size)
    (hcells : ∀ cell ∈ eeprom.cells, written.width.Fits cell) :
    ∃ diffs after,
      ((ofSize eeprom.cells.length).verifyImage Board.device written).runFrom board =
        (.ok diffs, after) ∧
      diffs.Pairwise (fun a b ↦ a.address < b.address) ∧
      (∀ entry, entry ∈ diffs ↔ Corrupted eeprom.cells written entry) ∧
      after.eeprom.map Eeprom.cells = some eeprom.cells := by
  obtain ⟨memory, _⟩ := board
  obtain rfl := heeprom
  obtain ⟨image, after, hread, -, hget⟩ := runFrom_readImage memory hcells hsize.le
  have hrun : ((ofSize eeprom.cells.length).verifyImage Board.device written).runFrom
      ⟨memory, some eeprom⟩ = (.ok (written.diff (covered image written)), after) :=
    Session.runFrom_bind_of_ok hread _
  have hkept := (keeps_cells_verifyImage eeprom.cells eeprom.cells.length written
    ⟨memory, some eeprom⟩ rfl).1
  rw [hrun] at hkept
  exact ⟨_, after, hrun, Image.pairwise_diff _ _, fun _ ↦ mem_diff_covered_iff hget, hkept⟩

/-- An image with a gap and a word behind the last cell, of which one word is not in its cell. -/
def sparseImage : Image :=
  ⟨.w16, SortedMap.ofList [(0, 1), (2, 0x0202), (5, 6)]⟩

theorem verifyImage_finds_corrupted_sparseImage :
    lockedBoard.eeprom = some ⟨[1, 2, 3], 7, 9⟩ ∧
      ∃ diffs after,
        ((ofSize 3).verifyImage Board.device sparseImage).runFrom lockedBoard = (.ok diffs, after) ∧
        ⟨2, some 0x0202, some 3⟩ ∈ diffs ∧ ⟨5, some 6, none⟩ ∈ diffs ∧
        (∀ entry ∈ diffs, entry.address ≠ 0 ∧ entry.address ≠ 1) ∧
        after.eeprom.map Eeprom.cells = some [1, 2, 3] := by
  have heeprom : lockedBoard.eeprom = some ⟨[1, 2, 3], 7, 9⟩ := rfl
  have hcells : ∀ cell ∈ ([1, 2, 3] : List Word), sparseImage.width.Fits cell := by
    intro cell hcell
    simp only [List.mem_cons, List.not_mem_nil, or_false] at hcell
    rcases hcell with rfl | rfl | rfl <;> decide
  obtain ⟨diffs, after, hrun, -, hmem, hkept⟩ :=
    verifyImage_finds_corrupted sparseImage heeprom (by decide) hcells
  refine ⟨heeprom, diffs, after, hrun, ?_, ?_, ?_, hkept⟩
  · exact (hmem _).2 (.changed rfl rfl (by decide))
  · exact (hmem _).2 (.beyond rfl (by decide))
  · intro entry hentry
    cases (hmem entry).1 hentry with
    | beyond hword hcell =>
      constructor
      · rintro rfl
        exact absurd hcell (by decide)
      · rintro rfl
        exact absurd hcell (by decide)
    | changed hword hcell hne =>
      constructor
      · rintro rfl
        cases hword
        cases hcell
        exact hne rfl
      · rintro rfl
        cases hword

end EepromInterface

end ChipConfig
