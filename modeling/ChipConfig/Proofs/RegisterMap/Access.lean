import ChipConfig.Proofs.Field.Staging
import ChipConfig.Proofs.RegisterMap.Compile

/-!
# Reading and writing the fields of a map

Everything that reading and writing a field asks for has been checked when its description was
compiled, with one exception: two pieces of a field may have register bits in common.  Such a field
accepts every raw value that fits it and then reads back another one.  A field may be written only
if all of its registers may be, so no sequence of writes touches any other register.
-/

namespace ChipConfig

namespace RegisterMap

def writeFieldInPlace (map : RegisterMap) (name : String) (value : Value) :
    Session RegisterFile FieldError Unit :=
  match map.field name with
  | .error cause => Session.ofExcept (.error cause)
  | .ok field => field.writeInPlace value

/-- The file after writing one value after the other, whether the writes succeed or not. -/
def writeAll (map : RegisterMap) (calls : List (String × Value)) (file : RegisterFile) :
    RegisterFile :=
  calls.foldl (fun file call ↦ ((map.writeFieldInPlace call.1 call.2).runFrom file).2) file

theorem runFrom_writeFieldInPlace (map : RegisterMap) (name : String) (value : Value)
    (file : RegisterFile) :
    (map.writeFieldInPlace name value).runFrom file =
      match map.writeField file name value with
      | .ok after => (.ok (), after)
      | .error cause => (.error cause, file) := by
  unfold writeFieldInPlace writeField
  cases map.field name with
  | error cause => rfl
  | ok field => exact field.runFrom_writeInPlace file value

variable {map : RegisterMap} {width : Width} {registry : InterpretationRegistry}
  {entries : List RegisterEntry} {name : String} {field : Field} {file after : RegisterFile}

@[simp]
theorem field_eq_ok_iff : map.field name = .ok field ↔ map.fields.get? name = some field := by
  unfold RegisterMap.field
  cases map.fields.get? name <;> simp

theorem WellFormed.get?_writeField (hmap : map.WellFormed) {value : Value}
    (h : map.writeField file name value = .ok after) {register : Address}
    (hregister : map.isWritable register = false) :
    after.words.get? register = file.words.get? register := by
  unfold writeField at h
  rw [Fallible.bind_eq_ok_iff] at h
  obtain ⟨field, hfield, hwrite⟩ := h
  have hwellFormed := hmap.field name field (field_eq_ok_iff.1 hfield)
  unfold Field.write at hwrite
  split at hwrite
  · cases hwrite
  · obtain ⟨hwritable, -, -, rfl⟩ := Field.writeRaw_eq_ok_iff.1 hwrite
    apply Field.get?_depositAll_of_not_mem
    intro hmem
    obtain ⟨fragment, hfragment, rfl⟩ := List.mem_map.1 hmem
    have hallowed := hwellFormed.isWritable_iff.1 hwritable fragment hfragment
    exact Bool.false_ne_true (hregister.symm.trans hallowed)

/-- One write, whether it succeeds or not, leaves the registers alone that must not be written. -/
theorem WellFormed.get?_runFrom_writeFieldInPlace (hmap : map.WellFormed) (name : String)
    (value : Value) (file : RegisterFile) {register : Address}
    (hregister : map.isWritable register = false) :
    ((map.writeFieldInPlace name value).runFrom file).2.words.get? register =
      file.words.get? register := by
  rw [runFrom_writeFieldInPlace]
  split
  · next after h => exact hmap.get?_writeField h hregister
  · rfl

theorem WellFormed.get?_writeAll (hmap : map.WellFormed) (calls : List (String × Value))
    (file : RegisterFile) {register : Address} (hregister : map.isWritable register = false) :
    (map.writeAll calls file).words.get? register = file.words.get? register := by
  unfold writeAll
  induction calls generalizing file with
  | nil => rfl
  | cons call calls ih =>
    rw [List.foldl_cons, ih]
    exact hmap.get?_runFrom_writeFieldInPlace call.1 call.2 file hregister

/-- Nothing of a file is rejected if all registers with an entry may be written. -/
theorem rejected_eq_nil_iff :
    map.rejected file = [] ↔
      ∀ register, file.contains register = true → map.isWritable register = true := by
  unfold rejected
  rw [List.filter_eq_nil_iff]
  simp only [SortedMap.mem_keys_iff, Bool.not_eq_true', Bool.not_eq_false]
  rfl

@[simp]
theorem mem_rejected_iff {register : Address} :
    register ∈ map.rejected file ↔
      file.contains register = true ∧ map.isWritable register = false := by
  simp [rejected, RegisterFile.contains]

@[simp]
theorem width_writablePart (map : RegisterMap) (file : RegisterFile) :
    (map.writablePart file).width = file.width :=
  (RegisterFile.foldl_erase _ file).1

/-- The part of a file that may be written has the entries of the writable registers. -/
@[simp]
theorem get?_writablePart (map : RegisterMap) (file : RegisterFile) (register : Address) :
    (map.writablePart file).words.get? register =
      if map.isWritable register then file.words.get? register else none := by
  rw [writablePart, (RegisterFile.foldl_erase _ file).2]
  simp only [mem_rejected_iff]
  cases map.isWritable register with
  | true => simp
  | false =>
    rw [RegisterFile.contains, SortedMap.contains_eq_isSome]
    cases file.words.get? register <;> rfl

/-- Whatever fields are written, registers that the map does not have or does not allow to write
keep their entries. -/
theorem writeAll_respects_modes (h : compile entries width registry = .ok map)
    (calls : List (String × Value)) :
    (∀ name value file, (map.writeFieldInPlace name value).runFrom file =
      match map.writeField file name value with
      | .ok after => (.ok (), after)
      | .error cause => (.error cause, file)) ∧
    (∀ file register, map.isWritable register = false →
      (map.writeAll calls file).words.get? register = file.words.get? register) ∧
    ∀ fileWidth, map.rejected (map.writeAll calls (.empty fileWidth)) = [] ∧
      map.writablePart (map.writeAll calls (.empty fileWidth)) =
        map.writeAll calls (.empty fileWidth) := by
  obtain ⟨hmap, -⟩ := wellFormed_of_compile h
  refine ⟨runFrom_writeFieldInPlace map, fun file register ↦ hmap.get?_writeAll calls file, ?_⟩
  intro fileWidth
  have hrejected : map.rejected (map.writeAll calls (.empty fileWidth)) = [] := by
    rw [rejected_eq_nil_iff]
    intro register hcontains
    by_contra hwritable
    have hentry := hmap.get?_writeAll calls (.empty fileWidth) (Bool.not_eq_true _ ▸ hwritable)
    rw [RegisterFile.contains, SortedMap.contains_eq_isSome, hentry] at hcontains
    cases hcontains
  refine ⟨hrejected, ?_⟩
  rw [writablePart, hrejected]
  rfl

/-- A write that succeeds, one of a field that must not be written, and one of no field at all. -/
def sampleCalls : List (String × Value) :=
  [("PLL_N", .unsigned 0x2abcd), ("STATUS", .unsigned 3), ("XTAL", .unsigned 0)]

theorem writeAll_respects_modes_sample :
    compile sampleEntries .w16 ∅ = .ok sampleMap ∧
      (sampleMap.writeAll sampleCalls (.empty .w16)).get 0x1d = 0xabcd ∧
      sampleMap.isWritable 0x02 = false ∧
      (sampleMap.writeAll sampleCalls (.empty .w16)).words.get? 0x02 = none ∧
      sampleMap.rejected (sampleMap.writeAll sampleCalls (.empty .w16)) = [] := by
  obtain ⟨-, hkeeps, hempty⟩ := writeAll_respects_modes compile_sampleEntries sampleCalls
  exact ⟨compile_sampleEntries, by decide +kernel, by decide, hkeeps (.empty .w16) 0x02 (by decide),
    (hempty .w16).1⟩

/-- A field that may be written accepts every raw value that fits it, and it always reads back this
value if and only if no two of its fragments have a register bit in common. -/
theorem roundTrips_iff_of_compile (h : compile entries width registry = .ok map)
    (hfield : map.fields.get? name = some field) (hwritable : field.mode.isWritable = true) :
    (∀ file : RegisterFile, file.width = map.width →
      ∀ raw : Word, (∀ j, field.totalBits ≤ j → raw.getLsbD j = false) →
        ∃ after, field.writeRaw file raw = .ok after) ∧
    (field.RoundTrips map.width ↔ field.fragments.Pairwise Fragment.Apart) := by
  obtain ⟨hmap, -⟩ := wellFormed_of_compile h
  have hwellFormed := hmap.field name field hfield
  constructor
  · intro file hwidth raw hraw
    exact ⟨_, Field.writeRaw_eq_ok_iff.2 ⟨hwritable, hraw, hwidth ▸ hwellFormed.within, rfl⟩⟩
  · exact Field.roundTrips_iff hwellFormed.tiles hwellFormed.within hwellFormed.totalBits_le
      hwritable

theorem roundTrips_iff_of_compile_sample :
    compile sampleEntries .w16 ∅ = .ok sampleMap ∧
      sampleMap.fields.get? "PLL_N" = some sampleDivider ∧
      sampleDivider.mode.isWritable = true ∧ sampleDivider.RoundTrips .w16 := by
  have hfield : sampleMap.fields.get? "PLL_N" = some sampleDivider := rfl
  obtain ⟨-, hroundTrips⟩ := roundTrips_iff_of_compile compile_sampleEntries hfield rfl
  exact ⟨compile_sampleEntries, hfield, rfl, hroundTrips.2 (by decide)⟩

/-- Two pieces of one field on the same register bit. -/
def overlappingEntries : List RegisterEntry :=
  [⟨"0x3", some "RW", [⟨"A[0][5]", ⟨5, 5⟩, none, none⟩, ⟨"A[1][5]", ⟨5, 5⟩, none, none⟩]⟩]

def overlappingField : Field :=
  ⟨"A", none, .readWrite, .concatenated [⟨3, ⟨5, 5⟩, 0⟩, ⟨3, ⟨5, 5⟩, 1⟩], .identity⟩

/-- A description is accepted although a field of it loses a bit that is written to it. -/
theorem not_roundTrips_overlappingField :
    (∃ map, compile overlappingEntries .w16 ∅ = .ok map ∧
      map.fields.get? "A" = some overlappingField) ∧
    overlappingField.mode.isWritable = true ∧
    (∃ after, overlappingField.writeRaw (.empty .w16) 1 = .ok after ∧
      overlappingField.readRaw after = .ok 0) ∧
    ¬overlappingField.RoundTrips .w16 := by
  have hwrite : overlappingField.writeRaw (.empty .w16) 1 =
      .ok ⟨.w16, SortedMap.ofList [(3, 0)]⟩ := by
    decide +kernel
  have hread : overlappingField.readRaw ⟨.w16, SortedMap.ofList [(3, 0)]⟩ = .ok 0 := by
    decide +kernel
  have hcompile : compile overlappingEntries .w16 ∅ = .ok {
      width := .w16
      registers := SortedMap.ofList
        [(3, ⟨3, .readWrite, [⟨"A", ⟨5, 5⟩, none⟩, ⟨"A", ⟨5, 5⟩, none⟩]⟩)]
      fields := SortedMap.ofList [("A", overlappingField)] } := by
    decide +kernel
  refine ⟨⟨_, hcompile, rfl⟩, rfl, ⟨_, hwrite, hread⟩, ?_⟩
  intro h
  have hfits : ∀ j, overlappingField.totalBits ≤ j → (1 : Word).getLsbD j = false :=
    Word.and_complement_lowMask_eq_zero_iff.1 (by decide)
  obtain ⟨after, hafter, hback⟩ := h (.empty .w16) rfl 1 hfits
  rw [hwrite] at hafter
  cases hafter
  rw [hread] at hback
  exact absurd (Except.ok.inj hback) (by decide)

end RegisterMap

end ChipConfig
