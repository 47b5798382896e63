import ChipConfig.Device.Commit
import ChipConfig.Device.Memory
import ChipConfig.Device.Programming
import ChipConfig.Proofs.Device.Board
import ChipConfig.Proofs.Image
import ChipConfig.Proofs.InPlace
import ChipConfig.Proofs.RegisterFile

/-!
# What access to a device keeps

Programming, reading back, streaming and committing get at a device through its single accesses
only, so they keep whatever these keep, at whichever access they fail.  What they read is checked on
its way into a register file or an image, so it fits however the device answers.  Memory keeps its
width, and all words in it and in its record of writes fit.
-/

namespace ChipConfig

variable {σ : Type}

/-- Whether no access to a device breaks an invariant of its states. -/
structure Device.Keeps (inv : σ → Prop) (device : Device σ) : Prop where
  write (address : Address) (word : Word) :
    Session.Keeps inv (fun _ ↦ True) (device.write address word)
  read (address : Address) : Session.Keeps inv (fun _ ↦ True) (device.read address)

section Keeps

variable {inv : σ → Prop} {device : Device σ}

namespace Device

/-- All that is known of a device in general. -/
theorem keeps_true (device : Device σ) : device.Keeps fun _ ↦ True :=
  ⟨fun _ _ _ _ ↦ ⟨trivial, fun _ _ ↦ trivial⟩, fun _ _ _ ↦ ⟨trivial, fun _ _ ↦ trivial⟩⟩

theorem Keeps.writeAll (h : device.Keeps inv) (words : List (Address × Word)) :
    Session.Keeps inv (fun _ ↦ True) (device.writeAll words) := by
  induction words with
  | nil => exact Session.keeps_pure trivial
  | cons entry words ih => exact (h.write entry.1 entry.2).bind fun _ _ ↦ ih

theorem Keeps.program (h : device.Keeps inv) (map : RegisterMap) (file : RegisterFile) :
    Session.Keeps inv (fun _ ↦ True) (device.program map file) :=
  (h.writeAll _).bind fun _ _ ↦ Session.keeps_pure trivial

theorem Keeps.readAll (h : device.Keeps inv) {width : Width} {file : RegisterFile}
    (hfile : file.FitsIn width) (registers : List Address) :
    Session.Keeps inv (RegisterFile.FitsIn width) (device.readAll file registers) := by
  induction registers generalizing file with
  | nil => exact Session.keeps_pure hfile
  | cons register registers ih =>
    refine (h.read register).bind fun word _ ↦ ?_
    cases hset : file.set register word with
    | error cause => exact Session.keeps_throw _
    | ok after => exact ih (hfile.set hset)

theorem Keeps.readBack (h : device.Keeps inv) (map : RegisterMap) :
    Session.Keeps inv (RegisterFile.FitsIn map.width) (device.readBack map) :=
  h.readAll (RegisterFile.fitsIn_empty map.width) _

end Device

namespace EepromInterface

theorem keeps_writeWord {address : Address} {word : Word}
    (h : Session.Keeps inv (fun _ ↦ True) (device.write address word)) :
    Session.Keeps inv (fun _ ↦ True) (writeWord device address word) :=
  (h.mapError EepromError.device).bind fun _ _ ↦ Session.keeps_pure trivial

theorem keeps_readWord {address : Address}
    (h : Session.Keeps inv (fun _ ↦ True) (device.read address)) :
    Session.Keeps inv (fun _ ↦ True) (readWord device address) :=
  h.mapError EepromError.device

theorem keeps_stream (h : device.Keeps inv) (address : Address) (words : List Word) :
    Session.Keeps inv (fun _ ↦ True) (stream device address words) := by
  induction words with
  | nil => exact Session.keeps_pure trivial
  | cons word words ih => exact (keeps_writeWord (h.write address word)).bind fun _ _ ↦ ih

variable (interface : EepromInterface)

theorem keeps_unlock (h : device.Keeps inv) :
    Session.Keeps inv (fun _ ↦ True) (interface.unlock device) :=
  keeps_writeWord (h.write interface.lockRegister interface.unlockWord)

theorem keeps_writeImage (h : device.Keeps inv) (image : Image) :
    Session.Keeps inv (fun _ ↦ True) (interface.writeImage device image) := by
  refine Session.keeps_ofExcept_bind fun words _ ↦ ?_
  refine (interface.keeps_unlock h).bind fun _ _ ↦ ?_
  refine (keeps_writeWord (h.write interface.writePointer 0)).bind fun _ _ ↦ ?_
  exact keeps_stream h interface.writeData words

theorem keeps_collect {source : Address}
    (h : Session.Keeps inv (fun _ ↦ True) (device.read source)) {width : Width} {image : Image}
    (himage : image.FitsIn width) (address count : Nat) :
    Session.Keeps inv (Image.FitsIn width) (collect device source image address count) := by
  induction count generalizing image address with
  | zero => exact Session.keeps_pure himage
  | succ count ih =>
    refine (keeps_readWord h).bind fun word _ ↦ ?_
    cases hset : image.set (UInt32.ofNat address) word with
    | error cause => exact Session.keeps_throw _
    | ok after => exact ih (himage.set hset) (address + 1)

theorem keeps_readImage (h : device.Keeps inv) (width : Width) :
    Session.Keeps inv (Image.FitsIn width) (interface.readImage device width) := by
  refine (keeps_writeWord (h.write interface.readPointer 0)).bind fun _ _ ↦ ?_
  exact keeps_collect (h.read interface.readData) (Image.fitsIn_empty width) 0 interface.wordCount

theorem keeps_verifyImage (h : device.Keeps inv) (written : Image) :
    Session.Keeps inv (fun _ ↦ True) (interface.verifyImage device written) :=
  (interface.keeps_readImage h written.width).bind fun _ _ ↦ Session.keeps_pure trivial

end EepromInterface

theorem CommitSequence.keeps_run (h : device.Keeps inv) (sequence : CommitSequence)
    (interface : EepromInterface) :
    Session.Keeps inv (fun _ ↦ True) (sequence.run interface device) := by
  have hwrite (address : Address) (word : Word) :=
    EepromInterface.keeps_writeWord (h.write address word)
  refine (EepromInterface.keeps_readWord (h.read _)).bind fun live _ ↦ ?_
  refine Session.keeps_ofExcept_bind fun calibration _ ↦ ?_
  refine (hwrite sequence.calibrationRegister (live ||| calibration)).bind fun _ _ ↦ ?_
  refine Session.keeps_ofExcept_bind fun page _ ↦ ?_
  refine (hwrite sequence.commitRegister page).bind fun _ _ ↦ ?_
  refine (interface.keeps_unlock h).bind fun _ _ ↦ ?_
  refine Session.keeps_ofExcept_bind fun commit _ ↦ ?_
  exact hwrite sequence.commitRegister (page ||| commit)

end Keeps

namespace Memory

/-- Whether a memory has a width, and the words in it and those written to it fit. -/
structure FitsIn (width : Width) (memory : Memory) : Prop where
  width_eq : memory.width = width
  words : ∀ address word, memory.words.get? address = some word → width.Fits word
  writes : ∀ write ∈ memory.writes, width.Fits write.2

variable {width : Width} {memory after : Memory}

theorem fitsIn_empty (width : Width) : FitsIn width (empty width) :=
  ⟨rfl, fun _ _ h ↦ (nomatch h), fun _ h ↦ (nomatch h)⟩

theorem FitsIn.poke (h : memory.FitsIn width) {address : Address} {word : Word}
    (hpoke : memory.poke address word = .ok after) : after.FitsIn width := by
  obtain ⟨hword, rfl⟩ := poke_eq_ok_iff.1 hpoke
  rw [h.width_eq] at hword
  exact ⟨h.width_eq, SortedMap.forall_get?_insert h.words hword address, h.writes⟩

/-- A record of an access fits if the word does that the access wrote, if it wrote one. -/
theorem FitsIn.record (h : memory.FitsIn width) (access : Access)
    (haccess : ∀ write, access.written? = some write → width.Fits write.2) :
    FitsIn width { memory with accesses := memory.accesses ++ [access] } := by
  refine ⟨h.width_eq, h.words, fun write hwrite ↦ ?_⟩
  rw [Memory.writes, List.filterMap_append, List.mem_append] at hwrite
  rcases hwrite with hold | hnew
  · exact h.writes write hold
  · obtain ⟨other, hother, hwritten⟩ := List.mem_filterMap.1 hnew
    rw [List.mem_singleton.1 hother] at hwritten
    exact haccess write hwritten

theorem keeps_write (width : Width) (address : Address) (word : Word) :
    Session.Keeps (FitsIn width) (fun _ ↦ True) (write address word) := by
  refine Session.keeps_get_bind fun memory hmemory ↦ ?_
  cases hpoke : memory.poke address word with
  | error cause => exact Session.keeps_throw _
  | ok written =>
    have hwritten := hmemory.poke hpoke
    obtain ⟨hword, rfl⟩ := poke_eq_ok_iff.1 hpoke
    have hrecord := hwritten.record (.write address word) fun write hwrite ↦ by
      rw [← Option.some.inj hwrite, ← hmemory.width_eq]
      exact hword
    exact (Session.keeps_set hrecord).bind fun _ _ ↦ Session.keeps_pure trivial

theorem keeps_read (width : Width) (address : Address) :
    Session.Keeps (FitsIn width) (fun _ ↦ True) (read address) := by
  refine Session.keeps_get_bind fun memory hmemory ↦ ?_
  have hrecord := hmemory.record (.read address) fun _ h ↦ nomatch h
  exact (Session.keeps_set hrecord).bind fun _ _ ↦ Session.keeps_pure trivial

theorem keeps_device (width : Width) : device.Keeps (FitsIn width) :=
  ⟨keeps_write width, keeps_read width⟩

end Memory

end ChipConfig
