import ChipConfig.Proofs.Device.Board
import ChipConfig.Proofs.Device.Invariant
import ChipConfig.Proofs.Device.Programming

/-!
# Registers are read back as they were programmed

Memory takes every word that fits and answers the word that it holds, so no access to it fails.
Programming a register file into it replaces the words of the registers that the file has and the
map allows to write.  Reading back then gives the registers that the map allows to read: those that
were just written with the words of the file, all others with the words that they had before.
-/

namespace ChipConfig

namespace RegisterMap

variable {map : RegisterMap} {file : RegisterFile} {register : Address}

/-- Whether the map has a register and allows reading it. -/
def isReadable (map : RegisterMap) (register : Address) : Bool :=
  (map.mode? register).any AccessMode.isReadable

@[simp]
theorem mem_readableRegisters_iff :
    register ∈ Device.readableRegisters map ↔ map.isReadable register = true := by
  rw [isReadable, mode?, Option.any_map, Option.any_eq_true, Device.readableRegisters, List.mem_map]
  constructor
  · rintro ⟨⟨key, info⟩, hentry, rfl⟩
    obtain ⟨hmem, hmode⟩ := List.mem_filter.1 hentry
    exact ⟨info, SortedMap.mem_toList_iff.1 hmem, hmode⟩
  · rintro ⟨info, hinfo, hmode⟩
    exact ⟨(register, info), List.mem_filter.2 ⟨SortedMap.mem_toList_iff.2 hinfo, hmode⟩, rfl⟩

theorem pairwise_readableRegisters (map : RegisterMap) :
    (Device.readableRegisters map).Pairwise (· < ·) :=
  List.pairwise_map.2 ((map.registers.sorted.filter _).imp Std.compare_eq_lt.1)

@[simp]
theorem mem_allowedWrites_iff {word : Word} :
    (register, word) ∈ map.allowedWrites file ↔
      file.words.get? register = some word ∧ map.isWritable register = true := by
  rw [allowedWrites, List.mem_filter, RegisterFile.toList, SortedMap.mem_toList_iff]

theorem nodup_allowedWrites (map : RegisterMap) (file : RegisterFile) :
    ((map.allowedWrites file).map Prod.fst).Nodup :=
  List.pairwise_map.2 ((map.pairwise_allowedWrites file).imp UInt32.ne_of_lt)

theorem mem_map_allowedWrites_iff :
    register ∈ (map.allowedWrites file).map Prod.fst ↔
      file.contains register = true ∧ map.isWritable register = true := by
  rw [RegisterFile.contains, SortedMap.contains_eq_isSome, Option.isSome_iff_exists,
    ← exists_and_right, List.mem_map]
  simp

end RegisterMap

namespace RegisterFile

def assigned (file : RegisterFile) (entries : List (Address × Word)) : RegisterFile :=
  { file with words := entries.foldl (fun words entry ↦ words.insert entry.1 entry.2) file.words }

/-- A file to which every register of a list has been copied from somewhere. -/
theorem get?_assigned_empty (width : Width) (word : Address → Word) {registers : List Address}
    (h : registers.Nodup) (register : Address) :
    ((empty width).assigned (registers.map fun r ↦ (r, word r))).words.get? register =
      if register ∈ registers then some (word register) else none := by
  have hkeys : (registers.map fun r ↦ (r, word r)).map Prod.fst = registers := by
    rw [List.map_map]
    exact List.map_id registers
  split
  · next hmem =>
    apply SortedMap.get?_foldl_insert_of_mem (by rwa [hkeys])
    exact List.mem_map.2 ⟨register, hmem, rfl⟩
  · next hnot =>
    apply SortedMap.get?_foldl_insert_of_not_mem
    rwa [hkeys]

end RegisterFile

/-! ## Accesses to memory -/

namespace Memory

open Device (writeAccess)

def writtenAll (memory : Memory) (entries : List (Address × Word)) : Memory :=
  { memory with
    words := entries.foldl (fun words entry ↦ words.insert entry.1 entry.2) memory.words
    accesses := memory.accesses ++ entries.map writeAccess }

def seen (memory : Memory) (registers : List Address) : Memory :=
  { memory with accesses := memory.accesses ++ registers.map Access.read }

theorem runFrom_writeAll {memory : Memory} {entries : List (Address × Word)}
    (h : ∀ entry ∈ entries, memory.width.Fits entry.2) :
    (device.writeAll entries).runFrom memory = (.ok (), memory.writtenAll entries) := by
  induction entries generalizing memory with
  | nil =>
    have hnone : memory.writtenAll [] = memory := by simp [writtenAll]
    rw [hnone]
    rfl
  | cons entry rest ih =>
    obtain ⟨hentry, hrest⟩ := List.forall_mem_cons.1 h
    have hwrite : (device.write entry.1 entry.2).runFrom memory =
        (.ok entry.2, memory.written entry.1 entry.2) := runFrom_write hentry entry.1
    have hlater : (memory.written entry.1 entry.2).writtenAll rest =
        memory.writtenAll (entry :: rest) := by
      simp [writtenAll, written, writeAccess]
    unfold Device.writeAll
    rw [Session.runFrom_bind_of_ok hwrite, ← hlater]
    exact ih hrest

/-- What is read from memory goes into a file if it fits. -/
theorem runFrom_readAll {memory : Memory} {file : RegisterFile} {registers : List Address}
    (h : ∀ register ∈ registers, file.width.Fits (memory.peek register)) :
    (device.readAll file registers).runFrom memory =
      (.ok (file.assigned (registers.map fun register ↦ (register, memory.peek register))),
        memory.seen registers) := by
  induction registers generalizing memory file with
  | nil =>
    have hnone : memory.seen [] = memory := by simp [seen]
    rw [hnone]
    rfl
  | cons register rest ih =>
    obtain ⟨hregister, hrest⟩ := List.forall_mem_cons.1 h
    have hread : (device.read register).runFrom memory =
        (.ok (memory.peek register), memory.seen [register]) := rfl
    have hset : file.set register (memory.peek register) =
        .ok (file.assigned [(register, memory.peek register)]) :=
      RegisterFile.set_eq_ok_iff.2 ⟨hregister, rfl⟩
    have hlater : (memory.seen [register]).seen rest = memory.seen (register :: rest) := by
      simp [seen]
    unfold Device.readAll
    rw [Session.runFrom_bind_of_ok hread]
    simp only [hset]
    rw [← hlater]
    exact ih hrest

/-- Programming leaves the words of the file in the registers that may be written, and touches no
other register. -/
theorem get?_writtenAll_allowedWrites (memory : Memory) (map : RegisterMap) (file : RegisterFile)
    (address : Address) :
    (memory.writtenAll (map.allowedWrites file)).words.get? address =
      if file.contains address = true ∧ map.isWritable address = true then
        some (file.get address)
      else
        memory.words.get? address := by
  unfold writtenAll
  split
  · next h =>
    apply SortedMap.get?_foldl_insert_of_mem (map.nodup_allowedWrites file)
    rw [RegisterMap.mem_allowedWrites_iff, RegisterFile.get?_words, if_pos h.1]
    exact ⟨rfl, h.2⟩
  · next h =>
    apply SortedMap.get?_foldl_insert_of_not_mem
    rwa [RegisterMap.mem_map_allowedWrites_iff]

theorem FitsIn.peek {width : Width} {memory : Memory} (h : memory.FitsIn width)
    (address : Address) : width.Fits (memory.peek address) := by
  unfold Memory.peek
  cases hword : memory.words.get? address with
  | none => exact width.fits_zero
  | some word => exact h.words address word hword

section

variable {map : RegisterMap} {file : RegisterFile} {memory : Memory}

theorem runFrom_program (hfile : file.FitsIn map.width) (hmemory : memory.FitsIn map.width) :
    (device.program map file).runFrom memory =
      (.ok (map.rejected file), memory.writtenAll (map.allowedWrites file)) := by
  have hfits : ∀ entry ∈ map.allowedWrites file, memory.width.Fits entry.2 := by
    intro entry hentry
    have hword := (RegisterMap.mem_allowedWrites_iff.1 hentry).1
    rw [hmemory.width_eq, ← hfile.width_eq]
    exact hfile.fits entry.1 entry.2 hword
  have hwrites := runFrom_writeAll hfits
  rw [← RegisterMap.toList_writablePart] at hwrites ⊢
  exact Session.runFrom_bind_of_ok hwrites fun _ ↦ pure (map.rejected file)

theorem runFrom_readBack (h : ∀ register, map.width.Fits (memory.peek register)) :
    (device.readBack map).runFrom memory =
      (.ok ((RegisterFile.empty map.width).assigned
          ((Device.readableRegisters map).map fun register ↦ (register, memory.peek register))),
        memory.seen (Device.readableRegisters map)) := by
  apply runFrom_readAll
  exact fun register _ ↦ h register

/-- Registers are read back as they were programmed if the map allows both, and otherwise as they
were before. -/
theorem readBack_program (hfile : file.FitsIn map.width) (hmemory : memory.FitsIn map.width) :
    ∃ programmed back after,
      (device.program map file).runFrom memory = (.ok (map.rejected file), programmed) ∧
      (device.readBack map).runFrom programmed = (.ok back, after) ∧
      back.width = map.width ∧
      (∀ register, back.contains register = true ↔ map.isReadable register = true) ∧
      (∀ register, map.isReadable register = true → back.get register =
        if file.contains register = true ∧ map.isWritable register = true then file.get register
        else memory.peek register) ∧
      (∀ address, after.words.get? address =
        if file.contains address = true ∧ map.isWritable address = true then
          some (file.get address)
        else
          memory.words.get? address) ∧
      ∃ (writes : List (Address × Word)) (reads : List Address),
        after.accesses = memory.accesses ++ writes.map writeAccess ++ reads.map Access.read ∧
        writes.Pairwise (fun a b ↦ a.1 < b.1) ∧
        (∀ register word, (register, word) ∈ writes ↔
          file.words.get? register = some word ∧ map.isWritable register = true) ∧
        reads.Pairwise (· < ·) ∧
        ∀ register, register ∈ reads ↔ map.isReadable register = true := by
  let programmed := memory.writtenAll (map.allowedWrites file)
  have hword (address : Address) : programmed.words.get? address =
      if file.contains address = true ∧ map.isWritable address = true then
        some (file.get address)
      else
        memory.words.get? address := memory.get?_writtenAll_allowedWrites map file address
  have hpeek (address : Address) : programmed.peek address =
      if file.contains address = true ∧ map.isWritable address = true then file.get address
      else memory.peek address := by
    unfold peek
    rw [hword]
    split <;> rfl
  have hfits (address : Address) : map.width.Fits (programmed.peek address) := by
    rw [hpeek]
    split
    · rw [← hfile.width_eq]
      exact hfile.fits.get address
    · exact hmemory.peek address
  have hnodup : (Device.readableRegisters map).Nodup :=
    map.pairwise_readableRegisters.imp UInt32.ne_of_lt
  have hback := RegisterFile.get?_assigned_empty map.width programmed.peek hnodup
  refine ⟨programmed, _, _, runFrom_program hfile hmemory, runFrom_readBack hfits, rfl,
    fun register ↦ ?_, fun register hreadable ↦ ?_, hword,
    map.allowedWrites file, Device.readableRegisters map, rfl, map.pairwise_allowedWrites file,
    fun _ _ ↦ RegisterMap.mem_allowedWrites_iff, map.pairwise_readableRegisters,
    fun _ ↦ RegisterMap.mem_readableRegisters_iff⟩
  · rw [RegisterFile.contains, SortedMap.contains_eq_isSome, hback,
      ← RegisterMap.mem_readableRegisters_iff]
    split
    · next hmem => exact iff_of_true rfl hmem
    · next hnot => exact iff_of_false Bool.false_ne_true hnot
  · rw [RegisterFile.get, hback, if_pos (RegisterMap.mem_readableRegisters_iff.2 hreadable),
      Option.getD_some, hpeek]

end

/-- A register of each mode. -/
def fourModes : RegisterMap :=
  ⟨.w16, SortedMap.ofList [(0, ⟨0, .readWrite, []⟩), (2, ⟨2, .writeOnly, []⟩),
    (7, ⟨7, .readOnly, []⟩), (8, ⟨8, .reserved, []⟩)], ∅⟩

/-- Words for all but one of these registers, and for one that the map does not have. -/
def fourWords : RegisterFile :=
  ⟨.w16, SortedMap.ofList [(0, 0x10), (2, 0x22), (7, 0x3), (9, 0x1)]⟩

/-- A memory that has been used before. -/
def usedMemory : Memory :=
  ⟨.w16, SortedMap.ofList [(0, 0x1010), (7, 0x55), (8, 0x88), (9, 0x99)], [.read 7]⟩

theorem readBack_program_fourModes :
    RegisterMap.compile [⟨"0x0", some "RW", []⟩, ⟨"0x2", some "W", []⟩, ⟨"0x7", some "R", []⟩,
      ⟨"0x8", some "Reserved", []⟩] .w16 ∅ = .ok fourModes ∧
    ∃ programmed back after,
      (device.program fourModes fourWords).runFrom usedMemory = (.ok [7, 9], programmed) ∧
      (device.readBack fourModes).runFrom programmed = (.ok back, after) ∧
      back.get 0 = 0x10 ∧ back.get 7 = 0x55 ∧ ¬back.contains 2 = true ∧
      after.words.get? 2 = some 0x22 ∧ after.words.get? 9 = some 0x99 := by
  have hfile : fourWords.FitsIn fourModes.width := by
    have hset : RegisterFile.ofList .w16 [(0, 0x10), (2, 0x22), (7, 0x3), (9, 0x1)] =
        .ok fourWords := by
      decide +kernel
    exact RegisterFile.fitsIn_of_ofList hset
  have hmemory : usedMemory.FitsIn fourModes.width := by
    have hall : (usedMemory.words.toList.all fun entry ↦ Width.w16.Fits entry.2) = true := by
      decide +kernel
    refine ⟨rfl, fun address word hword ↦ ?_, fun _ h ↦ nomatch h⟩
    exact of_decide_eq_true (List.all_eq_true.1 hall _ (SortedMap.mem_toList_iff.2 hword))
  obtain ⟨programmed, back, after, hprogram, hread, -, hcontains, hget, hwords, -⟩ :=
    readBack_program hfile hmemory
  refine ⟨by decide +kernel, programmed, back, after, hprogram, hread, ?_, ?_, ?_, ?_, ?_⟩
  · rw [hget 0 (by decide +kernel)]
    decide +kernel
  · rw [hget 7 (by decide +kernel)]
    decide +kernel
  · rw [hcontains]
    decide +kernel
  · rw [hwords]
    decide +kernel
  · rw [hwords]
    decide +kernel

end Memory

end ChipConfig
