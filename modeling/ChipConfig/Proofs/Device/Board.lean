import ChipConfig.Device.Board
import ChipConfig.Proofs.Device.Session
import ChipConfig.Proofs.Fallible
import ChipConfig.Proofs.SortedMap
import ChipConfig.Proofs.Word

/-!
# What a board does

Writing a word that fits always succeeds and leaves the board in a state that depends on the address
and the word alone.  While the lock shows its pattern, a run of writes to the data register stores
the words in the cells from the write pointer on and touches no other cell.
-/

namespace ChipConfig

namespace Memory

def written (memory : Memory) (address : Address) (word : Word) : Memory :=
  { memory with
    words := memory.words.insert address word
    accesses := memory.accesses ++ [Access.write address word] }

@[simp]
theorem poke_eq_ok_iff {memory after : Memory} {address : Address} {word : Word} :
    memory.poke address word = .ok after ↔
      memory.width.Fits word ∧
        after = { memory with words := memory.words.insert address word } := by
  simp [poke]

theorem runFrom_write {memory : Memory} {word : Word} (h : memory.width.Fits word)
    (address : Address) :
    (write address word).runFrom memory = (.ok word, memory.written address word) := by
  have hget : (get : Session Memory DeviceError Memory).runFrom memory = (.ok memory, memory) := rfl
  unfold write
  rw [Session.runFrom_bind_of_ok hget, poke_eq_ok_iff.2 ⟨h, rfl⟩]
  rfl

@[simp]
theorem peek_written (memory : Memory) (address other : Address) (word : Word) :
    (memory.written address word).peek other =
      if other = address then word else memory.peek other := by
  unfold written peek
  rw [SortedMap.get?_insert]
  split <;> rfl

end Memory

namespace Eeprom

@[simp]
theorem writePointer_store (eeprom : Eeprom) (word : Word) :
    (eeprom.store word).writePointer = eeprom.writePointer + 1 := rfl

@[simp]
theorem cells_store (eeprom : Eeprom) (word : Word) :
    (eeprom.store word).cells = eeprom.cells.set eeprom.writePointer word := rfl

def storeAll (eeprom : Eeprom) (words : List Word) : Eeprom :=
  words.foldl store eeprom

@[simp]
theorem length_storeAll (eeprom : Eeprom) (words : List Word) :
    (eeprom.storeAll words).cells.length = eeprom.cells.length := by
  unfold storeAll
  induction words generalizing eeprom with
  | nil => rfl
  | cons word words ih =>
    rw [List.foldl_cons, ih, cells_store, List.length_set]

/-- Words are stored from the write pointer on, as far as there are cells. -/
theorem getElem?_storeAll (eeprom : Eeprom) (words : List Word) (i : Nat) :
    (eeprom.storeAll words).cells[i]? =
      if eeprom.writePointer ≤ i ∧ i < eeprom.writePointer + words.length ∧
          i < eeprom.cells.length then
        words[i - eeprom.writePointer]?
      else
        eeprom.cells[i]? := by
  unfold storeAll
  induction words generalizing eeprom with
  | nil =>
    rw [List.length_nil, if_neg (by omega)]
    rfl
  | cons word words ih =>
    rw [List.foldl_cons, ih, writePointer_store, cells_store, List.length_cons, List.length_set,
      List.getElem?_set]
    by_cases hself : i = eeprom.writePointer
    · subst hself
      by_cases hcell : eeprom.writePointer < eeprom.cells.length
      · simp [hcell]
      · simp [hcell]
    · by_cases hafter : eeprom.writePointer + 1 ≤ i
      · have hposition : i - eeprom.writePointer = i - (eeprom.writePointer + 1) + 1 := by
          omega
        rw [if_neg (Ne.symm hself), hposition, List.getElem?_cons_succ]
        congr 1
        simp only [eq_iff_iff]
        omega
      · rw [if_neg (by omega), if_neg (Ne.symm hself), if_neg (by omega)]

theorem mem_or_mem_of_mem_storeAll {eeprom : Eeprom} {words : List Word} {cell : Word}
    (h : cell ∈ (eeprom.storeAll words).cells) : cell ∈ words ∨ cell ∈ eeprom.cells := by
  obtain ⟨i, hi⟩ := List.getElem?_of_mem h
  rw [getElem?_storeAll] at hi
  split at hi
  · exact .inl (List.mem_of_getElem? hi)
  · exact .inr (List.mem_of_getElem? hi)

end Eeprom

namespace Board

def written (board : Board) (address : Address) (word : Word) : Board :=
  ⟨board.memory.written address word,
    board.eeprom.map (onWrite board.memory · address word)⟩

def writtenAll (board : Board) (address : Address) (words : List Word) : Board :=
  words.foldl (fun board word ↦ board.written address word) board

theorem runFrom_write {board : Board} {word : Word} (h : board.memory.width.Fits word)
    (address : Address) :
    (write address word).runFrom board = (.ok word, board.written address word) := by
  have hmodify : (modify fun board ↦
      { board with eeprom := board.eeprom.map (onWrite board.memory · address word) } :
      Session Board DeviceError PUnit).runFrom board =
        (.ok ⟨⟩, ⟨board.memory, board.eeprom.map (onWrite board.memory · address word)⟩) := rfl
  unfold write
  rw [Session.runFrom_bind_of_ok hmodify]
  change (let (result, memory) := (Memory.write address word).runFrom board.memory
    (result, (⟨memory, board.eeprom.map (onWrite board.memory · address word)⟩ : Board))) = _
  rw [Memory.runFrom_write h]
  rfl

/-- Asking for data answers the cell at the read pointer, which moves on. -/
theorem runFrom_read_readData (memory : Memory) (eeprom : Eeprom) :
    (read readData).runFrom ⟨memory, some eeprom⟩ =
      (.ok eeprom.current, ⟨memory, some eeprom.advance⟩) := rfl

@[simp]
theorem eeprom_written (board : Board) (address : Address) (word : Word) :
    (board.written address word).eeprom =
      board.eeprom.map (onWrite board.memory · address word) := rfl

/-- Only writing the lock register changes what it shows. -/
theorem isUnlocked_written {board : Board} {address : Address} (h : address ≠ lock) (word : Word) :
    isUnlocked (board.written address word).memory = isUnlocked board.memory := by
  unfold isUnlocked written
  rw [Memory.peek_written, if_neg h.symm]

/-- Any board is unlocked by the word for it. -/
@[simp]
theorem isUnlocked_written_lock (board : Board) :
    isUnlocked (board.written lock 0x5000).memory = true := by
  unfold isUnlocked written
  rw [Memory.peek_written, if_pos rfl]
  decide

/-- Words for the data register go into the cells of an unlocked EEPROM. -/
theorem eeprom_writtenAll {board : Board} (h : isUnlocked board.memory = true)
    (words : List Word) :
    (board.writtenAll writeData words).eeprom = board.eeprom.map (Eeprom.storeAll · words) := by
  unfold writtenAll Eeprom.storeAll
  induction words generalizing board with
  | nil => simp
  | cons word words ih =>
    have hstep : (board.written writeData word).eeprom = board.eeprom.map (·.store word) := by
      rw [eeprom_written]
      congr 1
      funext eeprom
      simp [onWrite, writeData, writePointer, readPointer, h]
    have hunlocked : isUnlocked (board.written writeData word).memory = true := by
      rw [isUnlocked_written (by decide), h]
    rw [List.foldl_cons, ih hunlocked, hstep, Option.map_map]
    rfl

end Board

end ChipConfig
