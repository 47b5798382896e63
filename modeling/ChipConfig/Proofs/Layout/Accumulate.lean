import ChipConfig.Proofs.InPlace
import ChipConfig.Proofs.Layout.RoundTrip

/-!
# Reading images into registers

Reading an image into registers that hold something flips the bits that the image shows to be set.
The flips are made one after the other, but only when all findings have been collected, so no error
leaves some of them behind.  As a function of the registers it is an exclusive or with what the
image shows: twice the same image gives the registers back, and the order of two images does not
matter.
-/

namespace ChipConfig.Layout

variable {image : Image} {bitMap : BitMap} {file : RegisterFile} {registerWidth : Width}

/-- Makes the flips among the findings one after the other and gives the mismatches. -/
def applyFindings (findings : List Finding) :
    Session RegisterFile LayoutError (List Mismatch) := do
  Session.changeAll applyToggle (findings.filterMap Finding.place?)
  return findings.filterMap Finding.mismatch?

/-- Reads an image into registers that change with every flip. -/
def decodeInPlace (image : Image) (bitMap : BitMap) :
    Session RegisterFile LayoutError (List Mismatch) := do
  let file ← get
  applyFindings (← Session.ofExcept (findAll file.width image bitMap))

theorem runFrom_applyFindings_of_ok {findings : List Finding} {after : RegisterFile}
    (h : (findings.filterMap Finding.place?).foldlM applyToggle file = .ok after) :
    (applyFindings findings).runFrom file =
      (.ok (findings.filterMap Finding.mismatch?), after) := by
  rw [applyFindings, Session.runFrom_bind_of_ok (Session.runFrom_changeAll_of_ok h)]
  rfl

/-- Once the findings have been collected no flip fails.  An error is met before the first flip, so
it leaves the registers as they were. -/
theorem runFrom_decodeInPlace (image : Image) (bitMap : BitMap) (file : RegisterFile) :
    (decodeInPlace image bitMap).runFrom file =
      match decodeInto image bitMap file with
      | .ok decoded => (.ok decoded.mismatches, decoded.registers)
      | .error cause => (.error cause, file) := by
  have hstart : (decodeInPlace image bitMap).runFrom file =
      (Session.ofExcept (findAll file.width image bitMap) >>= applyFindings).runFrom file := rfl
  rw [hstart]
  cases hfindings : findAll file.width image bitMap with
  | error cause =>
    have hinto : decodeInto image bitMap file = .error cause := by
      rw [decodeInto, hfindings]
      rfl
    rw [hinto]
    rfl
  | ok findings =>
    have hreadable := (findAll_eq_ok_iff.1 hfindings).1
    have hinto := decodeInto_eq_ok_iff.2 ⟨hreadable, rfl⟩
    rw [hinto]
    rw [decodeInto, hfindings, Fallible.bind_eq_ok_iff] at hinto
    obtain ⟨_, hok, hinto⟩ := hinto
    cases hok
    rw [Fallible.bind_eq_ok_iff] at hinto
    obtain ⟨registers, hregisters, hinto⟩ := hinto
    obtain ⟨rfl, hmismatches⟩ := Decoded.mk.inj (Except.ok.inj hinto)
    rw [Session.runFrom_bind_of_ok (Session.runFrom_ofExcept _ _),
      runFrom_applyFindings_of_ok hregisters, hmismatches]

theorem keeps_decodeInPlace (image : Image) (bitMap : BitMap) (width : Width) :
    Session.Keeps (RegisterFile.FitsIn width) (fun _ ↦ True) (decodeInPlace image bitMap) := by
  refine Session.keeps_get_bind fun file _ ↦ Session.keeps_ofExcept_bind fun findings _ ↦ ?_
  have hflips : Session.Keeps (RegisterFile.FitsIn width) (fun _ ↦ True)
      (Session.changeAll applyToggle (findings.filterMap Finding.place?)) := by
    refine Session.keeps_changeAll (fun file place after hfile hstep ↦ ?_) _
    obtain ⟨hplace, rfl⟩ := applyToggle_eq_ok_iff.1 hstep
    exact hfile.flipped hplace
  exact hflips.bind fun _ _ ↦ Session.keeps_pure trivial

theorem fitsIn_of_decode {decoded : Decoded}
    (h : decode image bitMap registerWidth = .ok decoded) :
    RegisterFile.FitsIn registerWidth decoded.registers := by
  have hstart := (RegisterFile.fitsIn_empty registerWidth).foldl_touch bitMap.referencedRegisters
  have hrun := (keeps_decodeInPlace image bitMap registerWidth _ hstart).1
  rw [runFrom_decodeInPlace] at hrun
  rw [decode] at h
  rwa [h] at hrun

/-- Reading asks for the width, the words, and a bit for every place that reads as set. -/
theorem readable_iff :
    Readable registerWidth image bitMap ↔
      image.width = bitMap.width ∧
        (∀ address, bitMap.words.contains address = true → image.contains address = true) ∧
        ∀ place, ShowsSet image bitMap place → place.bit.toNat < registerWidth.bits := by
  constructor
  · intro h
    exact ⟨h.width_eq, h.contains_of_contains, fun place hplace ↦
      h.lt_of_mem_setPlaces (mem_setPlaces_iff.2 hplace)⟩
  · intro h
    obtain ⟨hwidth, hwords, hplaces⟩ := h
    refine ⟨hwidth, hwords, ?_⟩
    intro placement hplacement place hsource hbit
    have hposition := BitMap.mem_placements_iff.1 hplacement
    rw [hsource] at hposition
    exact hplaces place ⟨_, _, hposition, hbit⟩

theorem get_flippedAll_setPlaces (hmap : bitMap.WellFormed) (file : RegisterFile)
    (registerWidth : Width) (register : Address) :
    (file.flippedAll (setPlaces image bitMap)).get register =
      file.get register ^^^ (readRegisters image bitMap registerWidth).get register := by
  apply BitVec.eq_of_getLsbD_eq
  intro i hi
  obtain ⟨place, rfl, rfl⟩ := RegisterBit.exists_of_lt register hi
  rw [BitVec.getLsbD_xor, RegisterFile.getLsbD_get_flippedAll _ (nodup_setPlaces hmap image) hi,
    getLsbD_readRegisters hmap hi]

theorem contains_flippedAll_setPlaces (register : Address) :
    (file.flippedAll (setPlaces image bitMap)).contains register = true ↔
      file.contains register = true ∨
        ∃ place, place.register = register ∧ ShowsSet image bitMap place := by
  rw [RegisterFile.contains_flippedAll, or_comm]
  simp only [mem_setPlaces_iff, and_comm]

/-- Flipping twice is flipping not at all. -/
theorem get_flippedAll_flippedAll (hmap : bitMap.WellFormed) (register : Address) :
    ((file.flippedAll (setPlaces image bitMap)).flippedAll (setPlaces image bitMap)).get register =
      file.get register := by
  let shown := (readRegisters image bitMap file.width).get register
  calc ((file.flippedAll (setPlaces image bitMap)).flippedAll (setPlaces image bitMap)).get register
      = (file.flippedAll (setPlaces image bitMap)).get register ^^^ shown :=
        get_flippedAll_setPlaces hmap _ file.width register
    _ = (file.get register ^^^ shown) ^^^ shown := by
        rw [get_flippedAll_setPlaces hmap file file.width]
    _ = file.get register := by rw [BitVec.xor_assoc, BitVec.xor_self, BitVec.xor_zero]

theorem flippedAll_comm (hmap : bitMap.WellFormed) (a b : Image) :
    (file.flippedAll (setPlaces a bitMap)).flippedAll (setPlaces b bitMap) =
      (file.flippedAll (setPlaces b bitMap)).flippedAll (setPlaces a bitMap) := by
  let shown (image : Image) (register : Address) : Word :=
    (readRegisters image bitMap file.width).get register
  have hget (first second : Image) (register : Address) :
      ((file.flippedAll (setPlaces first bitMap)).flippedAll (setPlaces second bitMap)).get
        register = (file.get register ^^^ shown first register) ^^^ shown second register := by
    rw [get_flippedAll_setPlaces hmap _ file.width, get_flippedAll_setPlaces hmap _ file.width]
  apply RegisterFile.eq_of_get_eq
  · simp
  · intro register
    rw [Bool.eq_iff_iff]
    simp only [contains_flippedAll_setPlaces]
    exact or_right_comm
  · intro register
    calc ((file.flippedAll (setPlaces a bitMap)).flippedAll (setPlaces b bitMap)).get register
        = (file.get register ^^^ shown a register) ^^^ shown b register := hget a b register
      _ = (file.get register ^^^ shown b register) ^^^ shown a register := by
          rw [BitVec.xor_assoc, BitVec.xor_comm (shown a register), BitVec.xor_assoc]
      _ = ((file.flippedAll (setPlaces b bitMap)).flippedAll (setPlaces a bitMap)).get register :=
          (hget b a register).symm

/-- Reading into registers is an exclusive or with what the image shows, made as a whole or not at
all. So reading an image twice restores the registers, and two images can be read in either order.
-/
theorem decodeInto_accumulates (hmap : bitMap.Reachable) (image : Image) (file : RegisterFile) :
    ((decodeInPlace image bitMap).runFrom file =
      match decodeInto image bitMap file with
      | .ok decoded => (.ok decoded.mismatches, decoded.registers)
      | .error cause => (.error cause, file)) ∧
    ((∃ decoded, decodeInto image bitMap file = .ok decoded) ↔
      image.width = bitMap.width ∧
        (∀ address, bitMap.words.contains address = true → image.contains address = true) ∧
        ∀ place, ShowsSet image bitMap place → place.bit.toNat < file.width.bits) ∧
    ∀ decoded, decodeInto image bitMap file = .ok decoded →
      (∃ alone, decode image bitMap file.width = .ok alone ∧
        decoded.mismatches = alone.mismatches ∧
        ∀ register, decoded.registers.get register =
          file.get register ^^^ alone.registers.get register) ∧
      decoded.registers.width = file.width ∧
      (∀ register, decoded.registers.contains register = true ↔
        file.contains register = true ∨
          ∃ place, place.register = register ∧ ShowsSet image bitMap place) ∧
      (∃ again, decodeInto image bitMap decoded.registers = .ok again ∧
        ∀ register, again.registers.get register = file.get register) ∧
      ∀ (other : Image) (both : Decoded), decodeInto other bitMap decoded.registers = .ok both →
        ∃ first second, decodeInto other bitMap file = .ok first ∧
          decodeInto image bitMap first.registers = .ok second ∧
          second.registers = both.registers := by
  have hwellFormed := hmap.wellFormed
  refine ⟨runFrom_decodeInPlace image bitMap file, ?_, ?_⟩
  · rw [← readable_iff]
    constructor
    · intro h
      obtain ⟨decoded, hdecoded⟩ := h
      exact (decodeInto_eq_ok_iff.1 hdecoded).1
    · intro hreadable
      exact ⟨_, decodeInto_eq_ok_iff.2 ⟨hreadable, rfl⟩⟩
  · intro decoded hdecoded
    obtain ⟨hreadable, rfl⟩ := decodeInto_eq_ok_iff.1 hdecoded
    have hwidth : (file.flippedAll (setPlaces image bitMap)).width = file.width :=
      RegisterFile.width_flippedAll file _
    refine ⟨?_, hwidth, contains_flippedAll_setPlaces, ?_, ?_⟩
    · exact ⟨_, decode_eq_ok_iff.2 ⟨hreadable, rfl⟩, rfl,
        get_flippedAll_setPlaces hwellFormed file file.width⟩
    · refine ⟨_, decodeInto_eq_ok_iff.2 ⟨?_, rfl⟩, get_flippedAll_flippedAll hwellFormed⟩
      rwa [hwidth]
    · intro other both hboth
      obtain ⟨hother, rfl⟩ := decodeInto_eq_ok_iff.1 hboth
      rw [hwidth] at hother
      refine ⟨_, _, decodeInto_eq_ok_iff.2 ⟨hother, rfl⟩, decodeInto_eq_ok_iff.2 ⟨?_, rfl⟩,
        flippedAll_comm hwellFormed other image⟩
      rwa [RegisterFile.width_flippedAll]

/-- Registers that are too narrow for the sample bit map. -/
def narrowFile : RegisterFile :=
  ⟨⟨8, by decide, by decide⟩, SortedMap.ofList [(0, 0x10)]⟩

theorem decodeInto_accumulates_sample :
    (∃ decoded, decodeInto sampleImage BitMap.sample sampleFile = .ok decoded ∧
      (decodeInPlace sampleImage BitMap.sample).runFrom sampleFile =
        (.ok decoded.mismatches, decoded.registers) ∧
      decoded.registers.get 3 = 0 ∧
      ∃ again, decodeInto sampleImage BitMap.sample decoded.registers = .ok again ∧
        again.registers.get 3 = 0x0400) ∧
    ∃ cause, (decodeInPlace sampleImage BitMap.sample).runFrom narrowFile =
      (.error cause, narrowFile) := by
  obtain ⟨hrun, -, hdecoded⟩ :=
    decodeInto_accumulates BitMap.reachable_sample sampleImage sampleFile
  obtain ⟨hnarrow, -, -⟩ := decodeInto_accumulates BitMap.reachable_sample sampleImage narrowFile
  have hok : decodeInto sampleImage BitMap.sample sampleFile =
      .ok ⟨⟨.w16, SortedMap.ofList [(0, 0), (3, 0)]⟩, []⟩ := by
    decide +kernel
  have herror : decodeInto sampleImage BitMap.sample narrowFile =
      .error (.bit (.indexOutOfRange 10 8)) := by
    decide +kernel
  rw [hok] at hrun
  rw [herror] at hnarrow
  obtain ⟨-, -, -, ⟨again, hagain, hget⟩, -⟩ := hdecoded _ hok
  refine ⟨⟨_, hok, hrun, by decide +kernel, again, hagain, ?_⟩, _, hnarrow⟩
  rw [hget]
  decide +kernel

end ChipConfig.Layout
