import ChipConfig.Proofs.Interpretation
import ChipConfig.Proofs.RegisterMap.Access
import ChipConfig.Proofs.Text.ByteOrder

/-!
# How reading and writing fields can end

Compiling a description has checked where the fragments of every field are and that its
interpretation makes sense.  What is left to go wrong with registers of the right width is a name
that no field has, a code without a label, a value without raw bits in the field, and a field that
must not be written; a bit error is none of these.  Reading all fields goes through them in the
order of their names and stops at the first one that cannot be read.
-/

namespace ChipConfig

namespace Field.WellFormed

variable {field : Field} {width : Width} {modes : Address → Option AccessMode}
  {file after : RegisterFile} {value : Value} {cause : FieldError}
  (hfield : field.WellFormed width modes) (hwidth : file.width = width)

include hfield hwidth

theorem readRaw_eq : field.readRaw file = .ok (gathered file field.fragments) :=
  readRaw_eq_ok_iff.2 ⟨hwidth ▸ hfield.within, rfl⟩

/-- Reading fails for a code without a label and for nothing else. -/
theorem read_eq_error_iff :
    field.read file = .error cause ↔
      ∃ labels raw, field.interpretation = .enumerated labels ∧ field.readRaw file = .ok raw ∧
        labels.get? raw = none ∧ cause = .unreadable field.name (.unknownCode raw) := by
  have hraw := hfield.readRaw_eq hwidth
  have hread : field.read file = .error cause ↔
      ∃ reason, field.interpretation.toValue (gathered file field.fragments) field.totalBits =
        .error reason ∧ cause = .unreadable field.name reason := by
    simp only [read, hraw]
    cases field.interpretation.toValue (gathered file field.fragments) field.totalBits with
    | error reason => simp [eq_comm]
    | ok value => simp
  rw [hread, hraw]
  simp only [Interpretation.toValue_eq_error_iff hfield.validate]
  constructor
  · rintro ⟨_, ⟨labels, hlabels, hcode, rfl⟩, rfl⟩
    exact ⟨labels, _, hlabels, rfl, hcode, rfl⟩
  · rintro ⟨labels, raw, hlabels, hok, hcode, rfl⟩
    obtain rfl := Except.ok.inj hok
    exact ⟨_, ⟨labels, hlabels, hcode, rfl⟩, rfl⟩

/-- Raw bits that fit the field find their place, so the mode alone decides. -/
theorem writeRaw_eq {raw : Word} (hraw : raw.toNat < 2 ^ field.totalBits) :
    field.writeRaw file raw =
      if field.mode.isWritable = true then
        .ok (depositAll raw file field.fragments)
      else
        .error (.notWritable field.name field.mode) := by
  split
  · next hmode =>
    exact writeRaw_eq_ok_iff.2 ⟨hmode, Word.lt_two_pow_iff.1 hraw, hwidth ▸ hfield.within, rfl⟩
  · next hmode => simp [writeRaw, hmode]

theorem write_eq_ite {raw : Word}
    (hraw : field.interpretation.toRaw value field.totalBits = .ok raw) :
    field.write file value =
      if field.mode.isWritable = true then
        .ok (depositAll raw file field.fragments)
      else
        .error (.notWritable field.name field.mode) := by
  rw [write, hraw]
  exact hfield.writeRaw_eq hwidth (Interpretation.toRaw_eq_ok_iff.1 hraw).2.2

theorem write_eq_ok_iff :
    field.write file value = .ok after ↔
      ∃ raw, field.interpretation.toRaw value field.totalBits = .ok raw ∧
        field.mode.isWritable = true ∧ after = depositAll raw file field.fragments := by
  cases hraw : field.interpretation.toRaw value field.totalBits with
  | error reason => simp [write, hraw]
  | ok raw =>
    rw [hfield.write_eq_ite hwidth hraw]
    cases field.mode.isWritable <;> simp [eq_comm]

/-- Writing fails for a value without raw bits, and otherwise for the mode of the field only. -/
theorem write_eq_error_iff :
    field.write file value = .error cause ↔
      (∃ reason, field.interpretation.toRaw value field.totalBits = .error reason ∧
        cause = .invalidValue field.name reason) ∨
      (∃ raw, field.interpretation.toRaw value field.totalBits = .ok raw) ∧
        field.mode.isWritable = false ∧ cause = .notWritable field.name field.mode := by
  cases hraw : field.interpretation.toRaw value field.totalBits with
  | error reason => simp [write, hraw, eq_comm (b := cause)]
  | ok raw =>
    rw [hfield.write_eq_ite hwidth hraw]
    cases field.mode.isWritable <;> simp [eq_comm]

end Field.WellFormed

namespace RegisterMap

variable {map : RegisterMap} {width : Width} {registry : InterpretationRegistry}
  {entries : List RegisterEntry} {name : String} {file after : RegisterFile} {value : Value}
  {cause : FieldError}

@[simp]
theorem field_eq_error_iff :
    map.field name = .error cause ↔
      map.fields.get? name = none ∧ cause = .unknownField name := by
  unfold RegisterMap.field
  split
  · next field h => simp [h]
  · next h => simp [h, eq_comm]

/-- All fields are read by asking for one name after the other. -/
theorem readFields_eq_mapM (map : RegisterMap) (file : RegisterFile) :
    map.readFields file =
      map.fields.keys.mapM fun name ↦ do return (name, ← map.readField file name) := by
  have hentries (entries : List (String × Field))
      (h : ∀ entry ∈ entries, map.field entry.1 = .ok entry.2) :
      (entries.mapM fun entry ↦ do return (entry.1, ← entry.2.read file)) =
        (entries.map Prod.fst).mapM fun name ↦ do return (name, ← map.readField file name) := by
    induction entries with
    | nil => rfl
    | cons entry entries ih =>
      obtain ⟨hentry, hrest⟩ := List.forall_mem_cons.1 h
      have hread : map.readField file entry.1 = entry.2.read file := by
        rw [readField, hentry]
        rfl
      rw [List.map_cons, List.mapM_cons, List.mapM_cons, ih hrest, hread]
  apply hentries
  intro entry hentry
  exact field_eq_ok_iff.2 (SortedMap.mem_toList_iff.1 hentry)

/-- Reading all fields gives every name with the value of its field. -/
theorem readFields_eq_ok_iff {values : List (String × Value)} :
    map.readFields file = .ok values ↔
      values.map Prod.fst = map.fields.keys ∧
        ∀ entry ∈ values, map.readField file entry.1 = .ok entry.2 := by
  rw [readFields_eq_mapM]
  exact Fallible.mapM_pair_eq_ok_iff

theorem exists_readFields_iff :
    (∃ values, map.readFields file = .ok values) ↔
      ∀ name ∈ map.fields.keys, ∃ value, map.readField file name = .ok value := by
  rw [readFields_eq_mapM, Fallible.exists_mapM_iff]
  simp only [Fallible.exists_bind_pure_iff]

/-- The first field that cannot be read, by the bytes of the names, stops reading all of them. -/
theorem readFields_eq_error_iff :
    map.readFields file = .error cause ↔
      ∃ name ∈ map.fields.keys, map.readField file name = .error cause ∧
        ∀ other ∈ map.fields.keys, Text.bytes other < Text.bytes name →
          ∃ value, map.readField file other = .ok value := by
  have hnames : map.fields.keys.Pairwise fun a b ↦ a < b :=
    map.fields.pairwise_keys.imp compare_lt_iff_lt.1
  rw [readFields_eq_mapM, Fallible.mapM_eq_error_iff hnames]
  simp only [Fallible.bind_pure_eq_error_iff, Fallible.exists_bind_pure_iff, Text.lt_iff_bytes_lt]

namespace WellFormed

variable (hmap : map.WellFormed) (hwidth : file.width = map.width)

include hmap hwidth

theorem readField_eq_error_iff :
    map.readField file name = .error cause ↔
      (map.fields.get? name = none ∧ cause = .unknownField name) ∨
      ∃ field labels raw, map.fields.get? name = some field ∧
        field.interpretation = .enumerated labels ∧ field.readRaw file = .ok raw ∧
        labels.get? raw = none ∧ cause = .unreadable name (.unknownCode raw) := by
  have hfield (field : Field) (hget : map.fields.get? name = some field) :
      field.read file = .error cause ↔
        ∃ labels raw, field.interpretation = .enumerated labels ∧ field.readRaw file = .ok raw ∧
          labels.get? raw = none ∧ cause = .unreadable name (.unknownCode raw) := by
    have hread : field.read file = .error cause ↔ _ :=
      (hmap.field name field hget).read_eq_error_iff hwidth
    rwa [hmap.name name field hget] at hread
  rw [readField, Fallible.bind_eq_error_iff, field_eq_error_iff]
  simp only [field_eq_ok_iff, exists_and_left] at hfield ⊢
  exact or_congr_right (exists_congr fun field ↦ and_congr_right (hfield field))

theorem exists_writeField_iff :
    (∃ after, map.writeField file name value = .ok after) ↔
      ∃ field raw, map.fields.get? name = some field ∧
        field.interpretation.toRaw value field.totalBits = .ok raw ∧
        field.mode.isWritable = true := by
  simp only [writeField, Fallible.bind_eq_ok_iff, field_eq_ok_iff]
  constructor
  · rintro ⟨after, field, hget, hwrite⟩
    obtain ⟨raw, hraw, hmode, -⟩ := ((hmap.field name field hget).write_eq_ok_iff hwidth).1 hwrite
    exact ⟨field, raw, hget, hraw, hmode⟩
  · rintro ⟨field, raw, hget, hraw, hmode⟩
    exact ⟨_, field, hget,
      ((hmap.field name field hget).write_eq_ok_iff hwidth).2 ⟨raw, hraw, hmode, rfl⟩⟩

theorem writeField_eq_error_iff :
    map.writeField file name value = .error cause ↔
      (map.fields.get? name = none ∧ cause = .unknownField name) ∨
      ∃ field, map.fields.get? name = some field ∧
        ((∃ reason, field.interpretation.toRaw value field.totalBits = .error reason ∧
          cause = .invalidValue name reason) ∨
        (∃ raw, field.interpretation.toRaw value field.totalBits = .ok raw) ∧
          field.mode.isWritable = false ∧ cause = .notWritable name field.mode) := by
  rw [writeField, Fallible.bind_eq_error_iff, field_eq_error_iff]
  simp only [field_eq_ok_iff]
  refine or_congr_right (exists_congr fun field ↦ and_congr_right fun hget ↦ ?_)
  rw [(hmap.field name field hget).write_eq_error_iff hwidth, hmap.name name field hget]

end WellFormed

/-- How reading and writing the fields of a compiled map can end on registers of its width.  The
value is looked at before the mode, and a failure changes no register. -/
theorem access_outcomes_of_compile (h : compile entries width registry = .ok map)
    (hwidth : file.width = map.width) :
    (∀ name cause, map.readField file name = .error cause ↔
      (map.fields.get? name = none ∧ cause = .unknownField name) ∨
      ∃ field labels raw, map.fields.get? name = some field ∧
        field.interpretation = .enumerated labels ∧ field.readRaw file = .ok raw ∧
        labels.get? raw = none ∧ cause = .unreadable name (.unknownCode raw)) ∧
    (∀ name value,
      ((∃ after, map.writeField file name value = .ok after) ↔
        ∃ field raw, map.fields.get? name = some field ∧
          field.interpretation.toRaw value field.totalBits = .ok raw ∧
          raw.toNat < 2 ^ field.totalBits ∧ field.mode.isWritable = true) ∧
      (∀ cause, map.writeField file name value = .error cause ↔
        (map.fields.get? name = none ∧ cause = .unknownField name) ∨
        ∃ field, map.fields.get? name = some field ∧
          ((∃ reason, field.interpretation.toRaw value field.totalBits = .error reason ∧
            cause = .invalidValue name reason) ∨
          (∃ raw, field.interpretation.toRaw value field.totalBits = .ok raw) ∧
            field.mode.isWritable = false ∧ cause = .notWritable name field.mode)) ∧
      (map.writeFieldInPlace name value).runFrom file =
        match map.writeField file name value with
        | .ok after => (.ok (), after)
        | .error cause => (.error cause, file)) ∧
    ((∃ values, map.readFields file = .ok values) ↔
      ∀ name ∈ map.fields.keys, ∃ value, map.readField file name = .ok value) ∧
    (∀ values, map.readFields file = .ok values ↔
      values.map Prod.fst = map.fields.keys ∧
        ∀ entry ∈ values, map.readField file entry.1 = .ok entry.2) ∧
    ∀ cause, map.readFields file = .error cause ↔
      ∃ name ∈ map.fields.keys, map.readField file name = .error cause ∧
        ∀ other ∈ map.fields.keys, Text.bytes other < Text.bytes name →
          ∃ value, map.readField file other = .ok value := by
  obtain ⟨hmap, -⟩ := wellFormed_of_compile h
  refine ⟨fun name cause ↦ hmap.readField_eq_error_iff hwidth, fun name value ↦ ⟨?_, ?_, ?_⟩,
    exists_readFields_iff, fun values ↦ readFields_eq_ok_iff, fun cause ↦ readFields_eq_error_iff⟩
  · rw [hmap.exists_writeField_iff hwidth]
    refine exists₂_congr fun field raw ↦ and_congr_right fun _ ↦ and_congr_right fun hraw ↦ ?_
    exact (and_iff_right (Interpretation.toRaw_eq_ok_iff.1 hraw).2.2).symm
  · exact fun cause ↦ hmap.writeField_eq_error_iff hwidth
  · exact runFrom_writeFieldInPlace map name value file

/-- The labels of a switch of two bits; one code has none. -/
def switchLabels : SortedMap Word String :=
  ⟨[(0, "off"), (1, "on"), (2, "auto")], by decide⟩

/-- A switch, and a counter that must not be written. -/
def switchEntries : List RegisterEntry :=
  [⟨"0x4", some "RW", [⟨"SWITCH", ⟨2, 3⟩, none, some (.inline (.enumerated switchLabels))⟩]⟩,
    ⟨"0x5", some "R", [⟨"COUNT", ⟨0, 7⟩, none, none⟩]⟩]

def switchMap : RegisterMap where
  width := .w16
  registers := SortedMap.ofList [
    (4, ⟨4, .readWrite, [⟨"SWITCH", ⟨2, 3⟩, none⟩]⟩),
    (5, ⟨5, .readOnly, [⟨"COUNT", ⟨0, 7⟩, none⟩]⟩)]
  fields := SortedMap.ofList [
    ("COUNT", ⟨"COUNT", none, .readOnly, .single ⟨5, ⟨0, 7⟩, 0⟩, .identity⟩),
    ("SWITCH", ⟨"SWITCH", none, .readWrite, .single ⟨4, ⟨2, 3⟩, 0⟩, .enumerated switchLabels⟩)]

/-- Registers in which the switch has the code without a label. -/
def switchFile : RegisterFile :=
  ⟨.w16, SortedMap.ofList [(4, 0xc), (5, 0x7f)]⟩

theorem access_outcomes_of_compile_switch :
    compile switchEntries .w16 ∅ = .ok switchMap ∧
      switchMap.readField switchFile "SWITCH" = .error (.unreadable "SWITCH" (.unknownCode 3)) ∧
      switchMap.readFields switchFile = .error (.unreadable "SWITCH" (.unknownCode 3)) ∧
      (∃ after, switchMap.writeField switchFile "SWITCH" (.label "auto") = .ok after) ∧
      (switchMap.writeFieldInPlace "COUNT" (.unsigned 0)).runFrom switchFile =
        (.error (.notWritable "COUNT" .readOnly), switchFile) := by
  have hcompile : compile switchEntries .w16 ∅ = .ok switchMap := by decide +kernel
  have hwidth : switchFile.width = switchMap.width := rfl
  obtain ⟨hread, hwrite, -, -, hreadAll⟩ := access_outcomes_of_compile hcompile hwidth
  have hswitch : switchMap.readField switchFile "SWITCH" =
      .error (.unreadable "SWITCH" (.unknownCode 3)) := by
    apply (hread _ _).2
    exact .inr ⟨_, switchLabels, 3, rfl, rfl, by decide +kernel, by decide, rfl⟩
  refine ⟨hcompile, hswitch, ?_, ?_, ?_⟩
  · refine (hreadAll _).2 ⟨"SWITCH", by decide, hswitch, fun other hother hbefore ↦ ?_⟩
    have hkeys : switchMap.fields.keys = ["COUNT", "SWITCH"] := rfl
    have hname : other = "COUNT" ∨ other = "SWITCH" := by simpa [hkeys] using hother
    rcases hname with rfl | rfl
    · exact ⟨.unsigned 0x7f, by decide +kernel⟩
    · exact absurd hbefore (List.lt_irrefl _)
  · exact (hwrite _ _).1.2 ⟨_, 2, rfl, by decide +kernel, by decide, rfl⟩
  · have hcount : switchMap.writeField switchFile "COUNT" (.unsigned 0) =
        .error (.notWritable "COUNT" .readOnly) := by
      apply ((hwrite _ _).2.1 _).2
      exact .inr ⟨_, rfl, .inr ⟨⟨0, by decide +kernel⟩, rfl, rfl⟩⟩
    rw [(hwrite _ _).2.2, hcount]

end RegisterMap

end ChipConfig
