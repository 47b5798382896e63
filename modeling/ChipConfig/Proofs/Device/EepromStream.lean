import ChipConfig.Device.EepromStream
import ChipConfig.Proofs.Device.Board
import ChipConfig.Proofs.Layout.RoundTrip

/-!
# Images through an EEPROM

Writing an image into the EEPROM of a board stores its words in the cells from the first one on,
wherever the pointers stood and whatever the lock showed before.  Reading the EEPROM gives an image
of its cells.  So the registers that an image was built from can be read from the EEPROM.
-/

namespace ChipConfig

namespace EepromInterface

/-- The interface of the CDCE6214 to an EEPROM of that many words. -/
def ofSize (wordCount : Nat) : EepromInterface :=
  { cdce6214 with wordCount }

theorem runFrom_writeWord {board : Board} {word : Word} (h : board.memory.width.Fits word)
    (address : Address) :
    (writeWord Board.device address word).runFrom board = (.ok (), board.written address word) := by
  have hwrite : ((Board.write address word).mapError EepromError.device).runFrom board =
      (.ok word, board.written address word) := by
    rw [Session.runFrom_mapError, Board.runFrom_write h]
    rfl
  exact Session.runFrom_bind_of_ok hwrite fun _ ↦ pure ()

theorem runFrom_stream {board : Board} {words : List Word}
    (h : ∀ word ∈ words, board.memory.width.Fits word) (address : Address) :
    (stream Board.device address words).runFrom board =
      (.ok (), board.writtenAll address words) := by
  induction words generalizing board with
  | nil => rfl
  | cons word words ih =>
    obtain ⟨hword, hrest⟩ := List.forall_mem_cons.1 h
    have hstep := runFrom_writeWord hword address
    unfold stream
    rw [Session.runFrom_bind_of_ok hstep]
    exact ih hrest

theorem runFrom_wordsOf {image : Image} {words : List Word} (hwords : image.toWords = .ok words)
    {capacity : Nat} (hcapacity : words.length ≤ capacity) (board : Board) :
    (Session.ofExcept ((ofSize capacity).wordsOf image) :
      Session Board EepromError (List Word)).runFrom board = (.ok words, board) := by
  unfold wordsOf
  rw [hwords, Session.runFrom_ofExcept]
  change (if capacity < words.length then _ else Except.ok words, board) = _
  rw [if_neg (by omega)]

/-- Writing an image unlocks the EEPROM, moves the write pointer to the first cell and stores the
words from there on. -/
theorem runFrom_writeImage {board : Board} {eeprom : Eeprom} (heeprom : board.eeprom = some eeprom)
    {image : Image} {words : List Word} (hwords : image.toWords = .ok words)
    (hcapacity : words.length ≤ eeprom.cells.length)
    (hunlock : board.memory.width.Fits cdce6214.unlockWord)
    (hfits : ∀ word ∈ words, board.memory.width.Fits word) :
    ∃ memory, ((ofSize eeprom.cells.length).writeImage Board.device image).runFrom board =
      (.ok (), ⟨memory, some (Eeprom.storeAll { eeprom with writePointer := 0 } words)⟩) := by
  let unlocked := board.written cdce6214.lockRegister cdce6214.unlockWord
  let ready := unlocked.written cdce6214.writePointer 0
  let final := ready.writtenAll cdce6214.writeData words
  have hlock : ((ofSize eeprom.cells.length).unlock Board.device).runFrom board =
      (.ok (), unlocked) := runFrom_writeWord hunlock cdce6214.lockRegister
  have hstart : (writeWord Board.device cdce6214.writePointer 0).runFrom unlocked =
      (.ok (), ready) := by
    apply runFrom_writeWord
    exact Width.fits_zero _
  have hstream : (stream Board.device cdce6214.writeData words).runFrom ready =
      (.ok (), final) := by
    apply runFrom_stream
    exact hfits
  have hrun : ((ofSize eeprom.cells.length).writeImage Board.device image).runFrom board =
      (.ok (), final) := by
    unfold writeImage
    rw [Session.runFrom_bind_of_ok (runFrom_wordsOf hwords hcapacity board),
      Session.runFrom_bind_of_ok hlock]
    exact (Session.runFrom_bind_of_ok hstart _).trans hstream
  have hready : Board.isUnlocked ready.memory = true := by
    rw [Board.isUnlocked_written (by decide)]
    exact board.isUnlocked_written_lock
  have hpointer : ready.eeprom = some { eeprom with writePointer := 0 } := by
    rw [Board.eeprom_written, Board.eeprom_written, heeprom]
    rfl
  have hfinal : final.eeprom = some (Eeprom.storeAll { eeprom with writePointer := 0 } words) := by
    have hcells := Board.eeprom_writtenAll hready words
    rwa [hpointer, Option.map_some] at hcells
  refine ⟨final.memory, ?_⟩
  rw [hrun, ← hfinal]

/-- Reading a word of data takes the next cell. -/
theorem runFrom_readWord (memory : Memory) (eeprom : Eeprom) :
    (readWord Board.device Board.readData).runFrom ⟨memory, some eeprom⟩ =
      (.ok eeprom.current, ⟨memory, some eeprom.advance⟩) := by
  change ((Board.read Board.readData).mapError EepromError.device).runFrom _ = _
  rw [Session.runFrom_mapError, Board.runFrom_read_readData]
  rfl

/-- Reading a number of cells adds an image of them to the image read so far. -/
theorem runFrom_collect (memory : Memory) {cells : List Word} (writePointer : Nat) (image : Image)
    (address count : Nat) (hfits : ∀ cell ∈ cells, image.width.Fits cell)
    (hcount : address + count ≤ cells.length) (hsize : cells.length ≤ UInt32.size) :
    ∃ result after,
      (collect Board.device Board.readData image address count).runFrom
        ⟨memory, some ⟨cells, writePointer, address⟩⟩ = (.ok result, after) ∧
      result.width = image.width ∧
      ∀ other : Address, result.get? other =
        if address ≤ other.toNat ∧ other.toNat < address + count then cells[other.toNat]?
        else image.get? other := by
  induction count generalizing image address with
  | zero =>
    refine ⟨image, _, rfl, rfl, fun other ↦ ?_⟩
    rw [if_neg (by omega)]
  | succ count ih =>
    have hcell : address < cells.length := by omega
    have hcurrent : (⟨cells, writePointer, address⟩ : Eeprom).current = cells[address] :=
      List.getD_eq_getElem _ _ hcell
    have hread := runFrom_readWord memory ⟨cells, writePointer, address⟩
    rw [hcurrent] at hread
    let next : Image :=
      { image with words := image.words.insert (UInt32.ofNat address) cells[address] }
    have hset : image.set (UInt32.ofNat address) cells[address] = .ok next :=
      Image.set_eq_ok_iff.2 ⟨hfits _ (List.getElem_mem hcell), rfl⟩
    obtain ⟨result, after, hrun, hwidth, hget⟩ := ih next (address + 1) hfits (by omega)
    refine ⟨result, after, ?_, hwidth, fun other ↦ ?_⟩
    · unfold collect
      rw [Session.runFrom_bind_of_ok hread]
      simp only [hset]
      exact hrun
    · have hnumber : (UInt32.ofNat address).toNat = address :=
        UInt32.toNat_ofNat_of_lt' (hcell.trans_le hsize)
      rw [hget, Image.get?_insert]
      by_cases hself : other = UInt32.ofNat address
      · subst hself
        rw [hnumber, if_neg (by omega), if_pos rfl, if_pos (by omega),
          List.getElem?_eq_getElem hcell]
      · have hne : other.toNat ≠ address := by
          intro heq
          apply hself
          rw [← heq, UInt32.ofNat_toNat]
        rw [if_neg hself]
        congr 1
        simp only [eq_iff_iff]
        omega

/-- Reading the EEPROM gives its cells at the addresses from 0 on. -/
theorem runFrom_readImage (memory : Memory) {eeprom : Eeprom} {width : Width}
    (hfits : ∀ cell ∈ eeprom.cells, width.Fits cell)
    (hsize : eeprom.cells.length ≤ UInt32.size) :
    ∃ image after,
      ((ofSize eeprom.cells.length).readImage Board.device width).runFrom ⟨memory, some eeprom⟩ =
        (.ok image, after) ∧
      image.width = width ∧ ∀ address, image.get? address = eeprom.cells[address.toNat]? := by
  have hstart : (writeWord Board.device cdce6214.readPointer 0).runFrom ⟨memory, some eeprom⟩ =
      (.ok (), (⟨memory, some eeprom⟩ : Board).written cdce6214.readPointer 0) :=
    runFrom_writeWord (Width.fits_zero _) cdce6214.readPointer
  obtain ⟨image, after, hrun, hwidth, hget⟩ :=
    runFrom_collect (memory.written cdce6214.readPointer 0) eeprom.writePointer (.empty width) 0
      eeprom.cells.length hfits (by omega) hsize
  refine ⟨image, after, ?_, hwidth, fun address ↦ ?_⟩
  · unfold readImage
    change (writeWord Board.device cdce6214.readPointer 0 >>= fun _ ↦
      collect Board.device Board.readData (.empty width) 0 eeprom.cells.length).runFrom _ = _
    rw [Session.runFrom_bind_of_ok hstart]
    exact hrun
  · rw [hget]
    by_cases h : address.toNat < eeprom.cells.length
    · rw [if_pos (by omega)]
    · rw [if_neg (by omega), List.getElem?_eq_none (by omega)]
      rfl

/-- Whatever state a board is in, an image that is written into its EEPROM and read back shows the
registers that it was built from. -/
theorem decode_readImage_writeImage {policy : MissingPolicy} {map : RegisterMap} {bitMap : BitMap}
    {file : RegisterFile} {encoded : Layout.Encoded} {board : Board} {eeprom : Eeprom}
    {count : Nat} (hmap : bitMap.Reachable)
    (haddresses : ∀ address, bitMap.words.contains address = true ↔ address.toNat < count)
    (hencode : Layout.encode policy map bitMap file = .ok encoded)
    (heeprom : board.eeprom = some eeprom) (hunlock : 15 ≤ board.memory.width.bits)
    (hwidth : bitMap.width.bits ≤ board.memory.width.bits)
    (hcapacity : count ≤ eeprom.cells.length) (hsize : eeprom.cells.length < UInt32.size)
    (hcells : ∀ cell ∈ eeprom.cells, bitMap.width.Fits cell) :
    ∃ written stored,
      ((ofSize eeprom.cells.length).writeImage Board.device encoded.image).runFrom board =
        (.ok (), written) ∧
      written.eeprom = some stored ∧
      stored.cells.length = eeprom.cells.length ∧
      (∀ i, count ≤ i → stored.cells[i]? = eeprom.cells[i]?) ∧
      ∃ image after,
        ((ofSize eeprom.cells.length).readImage Board.device bitMap.width).runFrom written =
          (.ok image, after) ∧
        ∃ decoded, Layout.decode image bitMap file.width = .ok decoded ∧
          decoded.mismatches = [] ∧
          ∀ register, decoded.registers.get register =
            file.get register &&& bitMap.projectedBits register := by
  have hwellFormed := hmap.wellFormed
  obtain ⟨havailable, rfl⟩ := (Layout.encode_eq_ok_iff hwellFormed).1 hencode
  have hcovered (address : Address) :
      (Layout.shownImage bitMap file).contains address = true ↔ address.toNat < count := by
    rw [Layout.contains_shownImage, haddresses]
  obtain ⟨words, hwords, hlength, hget⟩ := Image.toWords_eq_ok (hcapacity.trans hsize.le) hcovered
  have hshown : ∀ word ∈ words, bitMap.width.Fits word :=
    (Layout.fits_shownImage hwellFormed).toWords hwords
  let stored := Eeprom.storeAll { eeprom with writePointer := 0 } words
  have hlock : board.memory.width.Fits cdce6214.unlockWord :=
    lt_of_lt_of_le (by decide) (Nat.pow_le_pow_right (by decide) hunlock)
  obtain ⟨memory, hwrite⟩ := runFrom_writeImage heeprom hwords (hlength.trans_le hcapacity) hlock
    fun word hword ↦ Width.fits_mono hwidth (hshown word hword)
  have hstored : stored.cells.length = eeprom.cells.length := Eeprom.length_storeAll _ _
  have hkept (i : Nat) (hi : count ≤ i) : stored.cells[i]? = eeprom.cells[i]? := by
    rw [Eeprom.getElem?_storeAll, if_neg (by simp only; omega)]
  have hfits : ∀ cell ∈ stored.cells, bitMap.width.Fits cell := by
    intro cell hcell
    rcases Eeprom.mem_or_mem_of_mem_storeAll hcell with hnew | hold
    · exact hshown cell hnew
    · exact hcells cell hold
  obtain ⟨image, after, hread, himage, hcell⟩ :=
    runFrom_readImage memory hfits (hstored.trans_le hsize.le)
  rw [hstored] at hread
  have hsame (address : Address) (haddress : bitMap.words.contains address = true) :
      image.get? address = (Layout.shownImage bitMap file).get? address := by
    have hlt := (haddresses address).1 haddress
    rw [hcell, Eeprom.getElem?_storeAll, if_pos (by simp only; omega), ← hget address hlt]
    rfl
  exact ⟨⟨memory, some stored⟩, stored, hwrite, rfl, hstored, hkept, image, after, hread, _,
    Layout.decode_of_get?_eq hwellFormed havailable himage hsame, rfl,
    Layout.get_readRegisters_shownImage hwellFormed⟩

/-- A board with three cells whose lock is shut and whose pointers stand behind them. -/
def lockedBoard : Board :=
  ⟨⟨.w16, SortedMap.ofList [(0x0f, 0x1234)], []⟩, some ⟨[1, 2, 3], 7, 9⟩⟩

theorem decode_readImage_writeImage_lockedBoard :
    ∃ written stored,
      ((ofSize 3).writeImage Board.device Layout.sampleImage).runFrom lockedBoard =
        (.ok (), written) ∧
      written.eeprom = some stored ∧ stored.cells[2]? = some 3 ∧
      ∃ image after,
        ((ofSize 3).readImage Board.device BitMap.sample.width).runFrom written =
          (.ok image, after) ∧
        ∃ decoded, Layout.decode image BitMap.sample .w16 = .ok decoded ∧
          decoded.mismatches = [] ∧ decoded.registers.get 3 = 0x0400 := by
  have haddresses (address : Address) :
      BitMap.sample.words.contains address = true ↔ address.toNat < 2 := by
    have hkeys : BitMap.sample.words.keys = [0, 1] := by decide +kernel
    rw [← SortedMap.mem_keys_iff, hkeys, List.mem_pair, ← UInt32.toNat_inj, ← UInt32.toNat_inj]
    change address.toNat = 0 ∨ address.toNat = 1 ↔ address.toNat < 2
    omega
  have hencode : Layout.encode .reject ⟨.w16, ∅, ∅⟩ BitMap.sample Layout.sampleFile =
      .ok ⟨Layout.sampleImage,
        [⟨0, 1, 3, .undeclared⟩, ⟨0, 0, 3, .undeclared⟩, ⟨1, 2, 0, .undeclared⟩]⟩ := by
    decide +kernel
  have hcells : ∀ cell ∈ ([1, 2, 3] : List Word), BitMap.sample.width.Fits cell := by
    intro cell hcell
    simp only [List.mem_cons, List.not_mem_nil, or_false] at hcell
    rcases hcell with rfl | rfl | rfl <;> decide
  obtain ⟨written, stored, hwrite, hstored, -, hkept, image, after, hread, decoded, hdecode,
      hmismatches, hget⟩ :=
    decode_readImage_writeImage BitMap.reachable_sample haddresses hencode
      (show lockedBoard.eeprom = some ⟨[1, 2, 3], 7, 9⟩ from rfl) (by decide) (by decide)
      (by decide) (by decide) hcells
  refine ⟨written, stored, hwrite, hstored, hkept 2 le_rfl, image, after, hread, decoded, hdecode,
    hmismatches, ?_⟩
  rw [hget]
  decide +kernel

end EepromInterface

end ChipConfig
