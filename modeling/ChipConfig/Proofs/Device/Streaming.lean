import ChipConfig.Device.EepromStream
import ChipConfig.Device.Memory
import ChipConfig.Proofs.Device.Calls
import ChipConfig.Proofs.Image

/-!
# Writing an image checks it first and then streams it in order

A word in an EEPROM cannot be taken back, so an image is checked before the first access: an image
with a gap and one with too many words are refused without any call.  All other images have a plan,
which unlocks the EEPROM, sets the write pointer to the first cell and then sends the words in
order.  However the device answers, the calls made are the first ones of this plan, and they end
with the first one that fails.
-/

namespace ChipConfig.EepromInterface

variable {σ : Type} {image : Image} (interface : EepromInterface) (device : Device σ)

theorem wordsOf_of_not_gapless (hsize : image.size < UInt32.size) (h : ¬image.Gapless) :
    ∃ address, IsLeast {other | image.contains other = false} address ∧
      interface.wordsOf image = .error (.layout (.missingWord address)) := by
  obtain ⟨address, hleast, hwords⟩ := Image.toWords_of_not_gapless hsize.le h
  refine ⟨address, hleast, ?_⟩
  rw [wordsOf, hwords]

/-- An image without a gap is refused only if it has more words than the EEPROM. -/
theorem wordsOf_of_gapless (hsize : image.size < UInt32.size) (h : image.Gapless) :
    ∃ words, words.length = image.size ∧
      (∀ address, address.toNat < image.size → words[address.toNat]? = image.get? address) ∧
      interface.wordsOf image =
        if interface.wordCount < image.size then
          .error (.imageTooLarge image.size interface.wordCount)
        else
          .ok words := by
  obtain ⟨words, hwords, hlength, hget⟩ := Image.toWords_eq_ok hsize.le h
  refine ⟨words, hlength, hget, ?_⟩
  rw [wordsOf, hwords, ← hlength]

theorem follows_writeWord (address : Address) (word : Word) :
    Session.Follows EepromError.device [.write address word]
      (writeWord device.watched address word) := by
  have hwrite : Session.Follows id [.write address word] (device.watched.write address word) :=
    Session.follows_watch _ _
  exact (hwrite.mapError EepromError.device).bind fun _ ↦ Session.follows_pure ()

theorem mirrors_writeWord (address : Address) (word : Word) :
    Session.Mirrors (writeWord device.watched address word) (writeWord device address word) := by
  have hwrite : Session.Mirrors (device.watched.write address word) (device.write address word) :=
    Session.mirrors_watch _ _
  exact (hwrite.mapError EepromError.device).bind fun _ ↦ Session.mirrors_pure ()

theorem follows_stream (address : Address) (words : List Word) :
    Session.Follows EepromError.device (words.map (Access.write address))
      (stream device.watched address words) := by
  induction words with
  | nil => exact Session.follows_pure ()
  | cons word words ih => exact (follows_writeWord device address word).bind fun _ ↦ ih

theorem mirrors_stream (address : Address) (words : List Word) :
    Session.Mirrors (stream device.watched address words) (stream device address words) := by
  induction words with
  | nil => exact Session.mirrors_pure ()
  | cons word words ih => exact (mirrors_writeWord device address word).bind fun _ ↦ ih

/-- The accesses that write words into the EEPROM from its first cell on. -/
def streamPlan (words : List Word) : List Access :=
  .write interface.lockRegister interface.unlockWord :: .write interface.writePointer 0 ::
    words.map (Access.write interface.writeData)

/-- The part of writing an image that accesses the device. -/
def transfer (words : List Word) : Session σ EepromError Unit := do
  interface.unlock device
  writeWord device interface.writePointer 0
  stream device interface.writeData words

theorem follows_transfer (words : List Word) :
    Session.Follows EepromError.device (interface.streamPlan words)
      (interface.transfer device.watched words) := by
  have hunlock := follows_writeWord device interface.lockRegister interface.unlockWord
  have hpointer := follows_writeWord device interface.writePointer 0
  have hwords := follows_stream device interface.writeData words
  exact hunlock.bind fun _ ↦ hpointer.bind fun _ ↦ hwords

theorem mirrors_writeImage (image : Image) :
    Session.Mirrors (interface.writeImage device.watched image)
      (interface.writeImage device image) := by
  have hcheck : Session.Mirrors (Session.ofExcept (interface.wordsOf image) :
      Session (σ × Calls) EepromError (List Word)) (Session.ofExcept (interface.wordsOf image)) :=
    fun _ _ ↦ ⟨rfl, rfl⟩
  refine hcheck.bind fun words ↦ ?_
  refine (mirrors_writeWord device interface.lockRegister interface.unlockWord).bind fun _ ↦ ?_
  refine (mirrors_writeWord device interface.writePointer 0).bind fun _ ↦ ?_
  exact mirrors_stream device interface.writeData words

/-- An image is checked before the device is accessed, and then streamed in order up to the first
access that fails. -/
theorem writeImage_checks_then_streams (hsize : image.size < UInt32.size) (state : σ) :
    let run := (interface.writeImage device.watched image).runFrom (state, [])
    ((run.1, run.2.1) = (interface.writeImage device image).runFrom state) ∧
    (¬image.Gapless → ∃ address, IsLeast {other | image.contains other = false} address ∧
      run = (.error (.layout (.missingWord address)), state, [])) ∧
    (image.Gapless → interface.wordCount < image.size →
      run = (.error (.imageTooLarge image.size interface.wordCount), state, [])) ∧
    (image.Gapless → image.size ≤ interface.wordCount → ∃ words : List Word,
      words.length = image.size ∧
      (∀ address, address.toNat < image.size → words[address.toNat]? = image.get? address) ∧
      run.2.2.map Prod.fst <+: interface.streamPlan words ∧
      (run.1 = .ok () ↔ run.2.2.map Prod.fst = interface.streamPlan words ∧
        ∀ call ∈ run.2.2, ∃ answer, call.2 = .ok answer) ∧
      ∀ error, run.1 = .error error → ∃ cause earlier access, error = .device cause ∧
        run.2.2 = earlier ++ [(access, .error cause)] ∧
        ∀ call ∈ earlier, ∃ answer, call.2 = .ok answer) := by
  intro run
  have hcheck (result : Except EepromError (List Word))
      (h : interface.wordsOf image = result) :
      (Session.ofExcept (interface.wordsOf image) :
        Session (σ × Calls) EepromError (List Word)).runFrom (state, []) = (result, state, []) := by
    rw [h]
    rfl
  obtain ⟨hresult, hstate⟩ := interface.mirrors_writeImage device image state []
  refine ⟨Prod.ext hresult hstate, fun hgap ↦ ?_, fun hgapless hlarge ↦ ?_,
    fun hgapless hcapacity ↦ ?_⟩
  · obtain ⟨address, hleast, hwords⟩ := interface.wordsOf_of_not_gapless hsize hgap
    exact ⟨address, hleast, Session.runFrom_bind_of_error (hcheck _ hwords) _⟩
  · obtain ⟨words, -, -, hwords⟩ := interface.wordsOf_of_gapless hsize hgapless
    rw [if_pos hlarge] at hwords
    exact Session.runFrom_bind_of_error (hcheck _ hwords) _
  · obtain ⟨words, hlength, hget, hwords⟩ := interface.wordsOf_of_gapless hsize hgapless
    rw [if_neg (Nat.not_lt.2 hcapacity)] at hwords
    have hrun : run = (interface.transfer device.watched words).runFrom (state, []) :=
      Session.runFrom_bind_of_ok (hcheck _ hwords) _
    have hfollows := interface.follows_transfer device words
    rw [hrun]
    refine ⟨words, hlength, hget, hfollows.isPrefix state, ?_, fun error herror ↦ ?_⟩
    · exact Unique.exists_iff.symm.trans (hfollows.exists_ok_iff state)
    · obtain ⟨cause, hcause, earlier, access, -, hcalls, hearlier, -⟩ :=
        hfollows.breaksOff state herror
      exact ⟨cause, earlier, access, hcause, hcalls, hearlier⟩

def twoWords : Image :=
  ⟨.w16, SortedMap.ofList [(0, 0x1111), (1, 0x2222)]⟩

/-- Memory that refuses the words of an image. -/
def deafMemory : Device Memory :=
  Memory.device.failing "nak" [cdce6214.writeData] []

theorem writeImage_checks_then_streams_twoWords :
    twoWords.size < UInt32.size ∧
      (({ cdce6214 with wordCount := 1 }.writeImage deafMemory.watched twoWords).runFrom
        (.empty .w16, [])) = (.error (.imageTooLarge 2 1), .empty .w16, []) ∧
      let run := (cdce6214.writeImage deafMemory.watched twoWords).runFrom (.empty .w16, [])
      run.2.2.map Prod.fst <+:
          [.write 0x0f 0x5000, .write 0x0d 0, .write 0x0e 0x1111, .write 0x0e 0x2222] ∧
        run.1 = .error (.device (.write 0x0e 0x1111 "nak")) := by
  have hsize : twoWords.size < UInt32.size := by decide +kernel
  have hgapless : twoWords.Gapless := by
    intro address
    have hkeys : twoWords.words.keys = [0, 1] := by decide +kernel
    rw [Image.contains, ← SortedMap.mem_keys_iff, hkeys, List.mem_pair, ← UInt32.toNat_inj,
      ← UInt32.toNat_inj]
    change address.toNat = 0 ∨ address.toNat = 1 ↔ address.toNat < 2
    omega
  obtain ⟨-, -, hlarge, -⟩ := writeImage_checks_then_streams { cdce6214 with wordCount := 1 }
    deafMemory hsize (.empty .w16)
  obtain ⟨-, -, -, hfits⟩ := writeImage_checks_then_streams cdce6214 deafMemory hsize (.empty .w16)
  obtain ⟨words, hlength, hget, hprefix, -⟩ := hfits hgapless (by decide +kernel)
  have hwords : words = [0x1111, 0x2222] := by
    obtain ⟨first, second, rfl⟩ := List.length_eq_two.1 hlength
    have hfirst : some first = some 0x1111 := hget 0 (by decide +kernel)
    have hsecond : some second = some 0x2222 := hget 1 (by decide +kernel)
    rw [Option.some.inj hfirst, Option.some.inj hsecond]
  refine ⟨hsize, hlarge hgapless (by decide +kernel), ?_, ?_⟩
  · rw [hwords] at hprefix
    exact hprefix
  · decide +kernel

end ChipConfig.EepromInterface
