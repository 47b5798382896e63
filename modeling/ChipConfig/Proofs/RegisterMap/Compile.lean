import ChipConfig.RegisterMap
import ChipConfig.Proofs.FieldDraft
import ChipConfig.Proofs.FieldName
import ChipConfig.Proofs.SortedMap

/-!
# What compiling a description guarantees

Reading a description builds two maps at once, one from registers to slots and one from names to
field drafts.  Every piece enters both, and every draft stays valid for the registers that have been
read, the one being read included.  When all drafts are complete the fields are well-formed, and
the slots of the registers and the fragments of the fields are the same pieces.
-/

namespace ChipConfig

open scoped List

structure Piece where
  register : Address
  bits : BitRange
  field : String
deriving DecidableEq, Repr

def Piece.ofSlots (register : Address) (slots : List FieldSlot) : List Piece :=
  slots.map fun slot ↦ ⟨register, slot.bits, slot.field⟩

def Piece.ofFragments (field : String) (fragments : List Fragment) : List Piece :=
  fragments.map fun fragment ↦ ⟨fragment.register, fragment.bits, field⟩

def InterpretationRef.lookup? (registry : InterpretationRegistry) :
    InterpretationRef → Option Interpretation
  | inline interpretation => some interpretation
  | named name => registry.get? name

namespace RegisterMap

def slotPieces (registers : SortedMap Address RegisterInfo) : List Piece :=
  registers.values.flatMap fun info ↦ Piece.ofSlots info.address info.slots

def fieldPieces (fields : SortedMap String Field) : List Piece :=
  fields.values.flatMap fun field ↦ Piece.ofFragments field.name field.fragments

def draftPieces (fields : SortedMap String FieldDraft) : List Piece :=
  fields.toList.flatMap fun entry ↦ Piece.ofFragments entry.1 entry.2.layout.fragments

def modesOf (registers : SortedMap Address RegisterInfo) (register : Address) :
    Option AccessMode :=
  (registers.get? register).map RegisterInfo.mode

variable {width : Width} {registry : InterpretationRegistry}

@[simp]
theorem lengthOf_eq_ok_iff {address : Address} {bits : BitRange} {length : Nat} :
    lengthOf width address bits = .ok length ↔ bits.Within width ∧ length = bits.length := by
  unfold lengthOf
  split
  · next n h => rw [Fallible.ok_eq_ok_iff, ← BitRange.check_eq_ok_iff, h, Fallible.ok_eq_ok_iff]
  · next cause h => simp [← BitRange.check_eq_ok_iff, h]

@[simp]
theorem nameOf_eq_ok_iff {text : String} {name : FieldName} :
    nameOf text = .ok name ↔ FieldName.ofText? text = some name := by
  unfold nameOf
  cases FieldName.ofText? text <;> simp

/-- A name in the registry stands for the interpretation that it has there. -/
theorem resolve_named {field name : String} {interpretation : Interpretation}
    (h : registry.get? name = some interpretation) :
    resolve registry field (some (.named name)) =
      resolve registry field (some (.inline interpretation)) := by
  simp only [resolve, h]

theorem resolve_eq_ok_iff {field : String} {ref? : Option InterpretationRef}
    {given : Option Interpretation} :
    resolve registry field ref? = .ok given ↔
      (∀ ref, ref? = some ref → ∃ interpretation, ref.lookup? registry = some interpretation ∧
        interpretation.validate = .ok ()) ∧
      given = ref?.bind (InterpretationRef.lookup? registry) := by
  have hinline (interpretation : Interpretation) :
      resolve registry field (some (.inline interpretation)) = .ok given ↔
        interpretation.validate = .ok () ∧ given = some interpretation := by
    simp only [resolve, bind, Except.bind]
    split
    · next h => rw [Fallible.ok_eq_ok_iff, h, eq_self, true_and]
    · next cause h => simp [h]
  cases ref? with
  | none =>
    rw [resolve, Fallible.ok_eq_ok_iff]
    simp
  | some ref =>
    cases ref with
    | inline interpretation =>
      simpa [InterpretationRef.lookup?] using hinline interpretation
    | named name =>
      cases hget : registry.get? name with
      | none => simp [resolve, InterpretationRef.lookup?, hget]
      | some interpretation =>
        rw [resolve_named hget]
        simpa [InterpretationRef.lookup?, hget] using hinline interpretation

/-- An interpretation that is given makes sense, whether it is given inline or by name. -/
theorem validate_of_resolve {field : String} {ref : Option InterpretationRef}
    {interpretation : Interpretation}
    (h : resolve registry field ref = .ok (some interpretation)) :
    interpretation.validate = .ok () := by
  obtain ⟨hvalid, hgiven⟩ := resolve_eq_ok_iff.1 h
  obtain ⟨meant, hmeant, hlookup⟩ := Option.bind_eq_some_iff.1 hgiven.symm
  obtain ⟨found, hfound, hvalidate⟩ := hvalid meant hmeant
  rwa [← Option.some.inj (hfound.symm.trans hlookup)]

@[simp]
theorem checkBracket_some_eq_ok_iff {field : String} {length : Nat} {range : BitRange} :
    checkBracket field length (some range) = .ok () ↔ range.length = length := by
  unfold checkBracket
  split <;> simp_all

@[simp]
theorem checkFieldBits_eq_ok_iff {field : String} {range : BitRange} :
    checkFieldBits field range = .ok () ↔ range.high < 64 := by
  unfold checkFieldBits
  split <;> simp_all

/-- A draft in place of one of the same name only adds the pieces that it has in addition. -/
theorem draftPieces_insert_perm {fields : SortedMap String FieldDraft} {name : String}
    {draft : FieldDraft} {fragment : Fragment}
    (h : draft.layout.fragments ~ fragment ::
      ((fields.get? name).map fun known ↦ known.layout.fragments).getD []) :
    draftPieces (fields.insert name draft) ~
      ⟨fragment.register, fragment.bits, name⟩ :: draftPieces fields := by
  let known := ((fields.get? name).map fun known ↦ known.layout.fragments).getD []
  have hfields : draftPieces fields ~
      Piece.ofFragments name known ++ draftPieces (fields.erase name) := by
    unfold known
    cases hget : fields.get? name with
    | none =>
      rw [SortedMap.erase_of_get?_eq_none hget]
      exact .refl _
    | some known => exact (SortedMap.toList_perm_cons_erase hget).flatMap_right _
  calc draftPieces (fields.insert name draft)
      ~ Piece.ofFragments name draft.layout.fragments ++ draftPieces (fields.erase name) :=
        (fields.toList_insert_perm_cons_erase name draft).flatMap_right _
    _ ~ ⟨fragment.register, fragment.bits, name⟩ ::
          (Piece.ofFragments name known ++ draftPieces (fields.erase name)) :=
        (h.map _).append_right _
    _ ~ ⟨fragment.register, fragment.bits, name⟩ :: draftPieces fields := hfields.symm.cons _

/-- What has been read is valid if every draft is and the registers have the same pieces as the
drafts. -/
structure Draft.Valid (width : Width) (draft : Draft) : Prop where
  address : ∀ register info, draft.registers.get? register = some info → info.address = register
  field : ∀ name field, draft.fields.get? name = some field →
    field.Valid width (modesOf draft.registers)
  pieces : slotPieces draft.registers ~ draftPieces draft.fields

section Piece

variable {modes : Address → Option AccessMode} {mode : AccessMode} {register : Address}
  {entry : FieldEntry} {name : FieldName} {interpretation : Option Interpretation}
  {fields result : SortedMap String FieldDraft}

/-- A piece that finds its place makes one draft longer by itself, and this draft is valid. -/
theorem exists_draft_of_placePiece
    (hfields : ∀ key draft, fields.get? key = some draft → draft.Valid width modes)
    (hbits : entry.bits.Within width) (hmode : modes register = some mode)
    (hinterpretation : ∀ given, interpretation = some given → given.validate = .ok ())
    (hname : ∀ range, name.fieldBits = some range → range.low ≤ range.high)
    (h : placePiece mode register entry name entry.bits.length interpretation fields =
      .ok result) :
    ∃ draft offset, result = fields.insert name.base draft ∧ draft.Valid width modes ∧
      draft.layout.fragments ~ ⟨register, entry.bits, offset⟩ ::
        ((fields.get? name.base).map fun known ↦ known.layout.fragments).getD [] := by
  unfold placePiece at h
  split at h
  · split at h
    · cases h
    · next hfresh =>
      have hnone := SortedMap.not_contains_iff.1 hfresh
      refine ⟨_, 0, (Except.ok.inj h).symm,
        FieldDraft.valid_plain hbits hmode hinterpretation, ?_⟩
      rw [hnone]
      exact .refl _
  · next range hrange =>
    simp only [Fallible.bind_eq_ok_iff, Fallible.pure_eq_ok_iff] at h
    obtain ⟨⟨⟩, hbracket, ⟨⟩, hfieldBits, draft, hdraft, rfl⟩ := h
    have hlength := checkBracket_some_eq_ok_iff.1 hbracket
    have hhigh := checkFieldBits_eq_ok_iff.1 hfieldBits
    have hle := hname range hrange
    have hend : range.low + entry.bits.length ≤ 64 := by
      rw [← hlength, BitRange.length]
      omega
    obtain ⟨hvalid, hperm⟩ :=
      FieldDraft.valid_addPiece hbits hmode hinterpretation (hfields name.base) hend hdraft
    exact ⟨draft, _, rfl, hvalid, hperm⟩

end Piece

/-! ## Reading one register -/

namespace Draft

variable {draft : Draft} {address : Address} {mode : AccessMode}
  {seen result : SortedMap String FieldDraft × List FieldSlot}

/-- What has been read when some pieces of a further register have. -/
def during (draft : Draft) (address : Address) (mode : AccessMode)
    (seen : SortedMap String FieldDraft × List FieldSlot) : Draft :=
  ⟨draft.registers.insert address ⟨address, mode, seen.2⟩, seen.1⟩

theorem address_during (hdraft : ∀ register info, draft.registers.get? register = some info →
      info.address = register) (register : Address) (info : RegisterInfo)
    (h : (draft.during address mode seen).registers.get? register = some info) :
    info.address = register := by
  rw [during, SortedMap.get?_insert] at h
  split at h
  · next hregister =>
    rw [hregister, ← Option.some.inj h]
  · exact hdraft register info h

theorem modesOf_during : modesOf (draft.during address mode seen).registers =
    fun register ↦ if register = address then some mode else modesOf draft.registers register := by
  funext register
  rw [modesOf, during, SortedMap.get?_insert]
  split <;> rfl

/-- The modes of registers do not depend on the pieces that have been read. -/
theorem modesOf_during_eq (seen others : SortedMap String FieldDraft × List FieldSlot) :
    modesOf (draft.during address mode seen).registers =
      modesOf (draft.during address mode others).registers :=
  modesOf_during.trans modesOf_during.symm

theorem slotPieces_during_perm (hfresh : draft.registers.get? address = none) :
    slotPieces (draft.during address mode seen).registers ~
      Piece.ofSlots address seen.2 ++ slotPieces draft.registers :=
  ((SortedMap.toList_insert_perm hfresh _).map Prod.snd).flatMap_right _

theorem slotPieces_during_append_perm (hfresh : draft.registers.get? address = none)
    (fields : SortedMap String FieldDraft) (slot : FieldSlot) :
    slotPieces (draft.during address mode (fields, seen.2 ++ [slot])).registers ~
      ⟨address, slot.bits, slot.field⟩ ::
        slotPieces (draft.during address mode seen).registers := by
  calc slotPieces (draft.during address mode (fields, seen.2 ++ [slot])).registers
      ~ Piece.ofSlots address (seen.2 ++ [slot]) ++ slotPieces draft.registers :=
        slotPieces_during_perm hfresh
    _ = Piece.ofSlots address seen.2 ++
          ⟨address, slot.bits, slot.field⟩ :: slotPieces draft.registers := by
        rw [Piece.ofSlots, List.map_append, List.append_assoc]
        rfl
    _ ~ ⟨address, slot.bits, slot.field⟩ ::
          (Piece.ofSlots address seen.2 ++ slotPieces draft.registers) := List.perm_middle
    _ ~ ⟨address, slot.bits, slot.field⟩ ::
          slotPieces (draft.during address mode seen).registers :=
        (slotPieces_during_perm hfresh).symm.cons _

/-- A piece enters the slots of its register and the drafts of the fields alike. -/
theorem valid_addPiece (hdraft : draft.Valid width) (hfresh : draft.registers.get? address = none)
    {entry : FieldEntry} (hseen : (draft.during address mode seen).Valid width)
    (h : addPiece width registry mode address seen entry = .ok result) :
    (draft.during address mode result).Valid width := by
  simp only [addPiece, Fallible.bind_eq_ok_iff, Fallible.pure_eq_ok_iff, lengthOf_eq_ok_iff,
    nameOf_eq_ok_iff] at h
  obtain ⟨length, ⟨hbits, rfl⟩, name, hname, ⟨⟩, -, interpretation, hinterpretation, fields,
    hfields, rfl⟩ := h
  have hmode : modesOf (draft.during address mode seen).registers address = some mode := by
    rw [modesOf_during]
    exact if_pos rfl
  obtain ⟨field, offset, rfl, hfield, hperm⟩ := exists_draft_of_placePiece hseen.field hbits hmode
    (fun given hgiven ↦ validate_of_resolve (hgiven ▸ hinterpretation))
    (fun range hrange ↦ FieldName.low_le_high_of_ofText? hname hrange) hfields
  refine ⟨address_during hdraft.address, ?_, ?_⟩
  · intro key known hknown
    rw [modesOf_during_eq _ seen]
    change (seen.1.insert name.base field).get? key = some known at hknown
    rw [SortedMap.get?_insert] at hknown
    split at hknown
    · rwa [← Option.some.inj hknown]
    · exact hseen.field key known hknown
  · calc slotPieces (draft.during address mode _).registers
        ~ ⟨address, entry.bits, name.base⟩ ::
            slotPieces (draft.during address mode seen).registers :=
          slotPieces_during_append_perm hfresh _ _
      _ ~ ⟨address, entry.bits, name.base⟩ :: draftPieces seen.1 := hseen.pieces.cons _
      _ ~ draftPieces (seen.1.insert name.base field) := (draftPieces_insert_perm hperm).symm

theorem valid_add (hdraft : draft.Valid width) {entry : RegisterEntry} {result : Draft}
    (h : draft.add width registry entry = .ok result) : result.Valid width := by
  simp only [add, Fallible.bind_eq_ok_iff, Fallible.throw_eq_error, Fallible.error_bind,
    Fallible.guard_eq_ok_iff, Fallible.pure_eq_ok_iff] at h
  obtain ⟨address, -, hcontains, mode, -, seen, hseen, rfl⟩ := h
  have hfresh := SortedMap.not_contains_iff.1 hcontains
  have hstart : (draft.during address mode (draft.fields, [])).Valid width := by
    refine ⟨address_during hdraft.address, ?_, ?_⟩
    · intro name field hfield
      apply (hdraft.field name field hfield).mono
      intro register known hknown
      have hne : register ≠ address := by
        rintro rfl
        rw [modesOf, hfresh] at hknown
        cases hknown
      rw [modesOf_during]
      exact (if_neg hne).trans hknown
    · exact (slotPieces_during_perm hfresh).trans hdraft.pieces
  exact Fallible.foldlM_keeps
    (fun seen entry result hvalid hstep ↦ valid_addPiece hdraft hfresh hvalid hstep) hstart hseen

theorem valid_empty : Draft.empty.Valid width where
  address _ _ h := nomatch h
  field _ _ h := nomatch h
  pieces := .refl _

/-- Whatever has been read of a description is valid. -/
theorem valid_of_foldlM {entries : List RegisterEntry}
    (h : entries.foldlM (Draft.add width registry) Draft.empty = .ok draft) :
    draft.Valid width :=
  Fallible.foldlM_keeps (fun _ _ _ hvalid hstep ↦ valid_add hvalid hstep) valid_empty h

end Draft

def Draft.finished (draft : Draft) (width : Width) : RegisterMap :=
  ⟨width, draft.registers,
    SortedMap.ofList (draft.fields.toList.map fun entry ↦ (entry.1, entry.2.toField entry.1))⟩

theorem compile_eq_ok_iff {entries : List RegisterEntry} {map : RegisterMap} :
    compile entries width registry = .ok map ↔
      ∃ draft, entries.foldlM (Draft.add width registry) Draft.empty = .ok draft ∧
        (∀ name field, draft.fields.get? name = some field → field.Complete) ∧
        map = draft.finished width := by
  have hstep (fields : SortedMap String Field) (entry : String × FieldDraft)
      (result : SortedMap String Field) :
      finishField fields entry = .ok result ↔
        entry.2.Complete ∧ result = fields.insert entry.1 (entry.2.toField entry.1) := by
    simp [finishField]
  have hfinish (draft : Draft) (fields : SortedMap String Field) :
      draft.fields.toList.foldlM finishField ∅ = .ok fields ↔
        (∀ entry ∈ draft.fields.toList, entry.2.Complete) ∧
          fields = (draft.finished width).fields := by
    rw [Fallible.foldlM_eq_ok_iff (fun _ ↦ True) (fun _ _ entry _ _ ↦ hstep _ entry _)
      (fun _ _ _ _ ↦ trivial) trivial, Draft.finished, SortedMap.ofList, List.foldl_map]
  have hcomplete (draft : Draft) :
      (∀ entry ∈ draft.fields.toList, entry.2.Complete) ↔
        ∀ name field, draft.fields.get? name = some field → field.Complete := by
    simp
  simp only [compile, Fallible.bind_eq_ok_iff, Fallible.bind_eq_ok_iff_of_iff (hfinish _),
    Fallible.pure_eq_ok_iff, hcomplete]
  rfl

end RegisterMap

/-! ## Well-formed maps -/

/-- A field that later reads and writes rely on: its fragments tile at most a machine word, lie
inside registers that have modes, and the field allows what all of these registers allow. -/
structure Field.WellFormed (width : Width) (modes : Address → Option AccessMode) (field : Field) :
    Prop where
  ne_nil : field.fragments ≠ []
  tiles : Fragment.TilesFrom 0 field.fragments
  totalBits_le : field.totalBits ≤ 64
  within : ∀ fragment ∈ field.fragments, fragment.bits.Within width
  known : ∀ fragment ∈ field.fragments, ∃ mode, modes fragment.register = some mode
  isReadable_iff : field.mode.isReadable = true ↔
    Fragment.AllAllow modes AccessMode.isReadable field.fragments
  isWritable_iff : field.mode.isWritable = true ↔
    Fragment.AllAllow modes AccessMode.isWritable field.fragments
  validate : field.interpretation.validate = .ok ()

theorem FieldDraft.Valid.wellFormed_toField {width : Width} {modes : Address → Option AccessMode}
    {draft : FieldDraft} (hdraft : draft.Valid width modes) (hcomplete : draft.Complete)
    (name : String) : (draft.toField name).WellFormed width modes where
  ne_nil := hdraft.ne_nil
  tiles := hdraft.tilesFrom hcomplete
  totalBits_le := hcomplete.1
  within := hdraft.within
  known := hdraft.known
  isReadable_iff := hdraft.isReadable_iff
  isWritable_iff := hdraft.isWritable_iff
  validate := hdraft.validate_toField name

namespace RegisterMap

/-- A map whose keys are the addresses and names of what they lead to, whose fields are well-formed,
and whose registers and fields have the same pieces. -/
structure WellFormed (map : RegisterMap) : Prop where
  address : ∀ register info, map.registers.get? register = some info → info.address = register
  name : ∀ name field, map.fields.get? name = some field → field.name = name
  field : ∀ name field, map.fields.get? name = some field →
    field.WellFormed map.width (modesOf map.registers)
  pieces : slotPieces map.registers ~ fieldPieces map.fields

variable {width : Width} {registry : InterpretationRegistry} {draft : Draft}

theorem Draft.nodup_finished (draft : Draft) :
    ((draft.fields.toList.map fun entry ↦ (entry.1, entry.2.toField entry.1)).map
      Prod.fst).Nodup := by
  rw [List.map_map]
  exact draft.fields.nodup_keys

theorem Draft.get?_finished {name : String} {field : Field} :
    (draft.finished width).fields.get? name = some field ↔
      ∃ known, draft.fields.get? name = some known ∧ field = known.toField name := by
  rw [finished, SortedMap.get?_ofList draft.nodup_finished, List.mem_map]
  constructor
  · intro h
    obtain ⟨⟨key, known⟩, hknown, hentry⟩ := h
    obtain ⟨rfl, rfl⟩ := Prod.mk.inj hentry
    exact ⟨known, SortedMap.mem_toList_iff.1 hknown, rfl⟩
  · intro h
    obtain ⟨known, hknown, rfl⟩ := h
    exact ⟨(name, known), SortedMap.mem_toList_iff.2 hknown, rfl⟩

theorem Draft.fieldPieces_finished_perm (draft : Draft) (width : Width) :
    fieldPieces (draft.finished width).fields ~ draftPieces draft.fields := by
  have hperm := (SortedMap.toList_ofList_perm draft.nodup_finished).map Prod.snd
  refine (hperm.flatMap_right _).trans (.of_eq ?_)
  rw [List.map_map, List.flatMap_map]
  rfl

theorem wellFormed_of_compile {entries : List RegisterEntry} {map : RegisterMap}
    (h : compile entries width registry = .ok map) : map.WellFormed ∧ map.width = width := by
  obtain ⟨draft, hdraft, hcomplete, rfl⟩ := compile_eq_ok_iff.1 h
  have hvalid := Draft.valid_of_foldlM hdraft
  refine ⟨⟨hvalid.address, ?_, ?_, ?_⟩, rfl⟩
  · intro name field hfield
    obtain ⟨known, -, rfl⟩ := Draft.get?_finished.1 hfield
    rfl
  · intro name field hfield
    obtain ⟨known, hknown, rfl⟩ := Draft.get?_finished.1 hfield
    exact (hvalid.field name known hknown).wellFormed_toField (hcomplete name known hknown) name
  · exact hvalid.pieces.trans (draft.fieldPieces_finished_perm width).symm

/-- The fields of a map of a description can be relied on: their fragments give the bits from 0 on
one after the other, each inside a register of the map, and a field may be used in the ways that
all of its registers allow.  Registers and fields have the same pieces. -/
theorem sound_of_compile {entries : List RegisterEntry} {map : RegisterMap}
    (h : compile entries width registry = .ok map) :
    (∀ name field, map.fields.get? name = some field →
      field.fragments ≠ [] ∧
      (∀ first, field.fragments.head? = some first → first.offset = 0) ∧
      field.fragments.IsChain (fun a b ↦ b.offset = a.offset + a.length) ∧
      (1 ≤ field.totalBits ∧ field.totalBits ≤ 64) ∧
      field.fragments.Pairwise (fun a b ↦ a.fieldMask &&& b.fieldMask = 0) ∧
      FieldDraft.occupied field.fragments = Word.lowMask field.totalBits ∧
      (∀ fragment ∈ field.fragments,
        fragment.bits.low ≤ fragment.bits.high ∧ fragment.bits.high < width.bits ∧
          map.registers.contains fragment.register = true) ∧
      (field.mode.isReadable = true ↔ ∀ register ∈ field.registers,
        (map.mode? register).any AccessMode.isReadable = true) ∧
      (field.mode.isWritable = true ↔ ∀ register ∈ field.registers,
        (map.mode? register).any AccessMode.isWritable = true) ∧
      field.interpretation.validate = .ok ()) ∧
    (map.registers.values.flatMap fun info ↦
        info.slots.map fun slot ↦ Piece.mk info.address slot.bits slot.field) ~
      map.fields.values.flatMap fun field ↦
        field.fragments.map fun fragment ↦
          Piece.mk fragment.register fragment.bits field.name := by
  obtain ⟨hmap, rfl⟩ := wellFormed_of_compile h
  refine ⟨?_, hmap.pieces⟩
  intro name field hfield
  have hwellFormed := hmap.field name field hfield
  have hallow (access : AccessMode → Bool) :
      Fragment.AllAllow (modesOf map.registers) access field.fragments ↔
        ∀ register ∈ field.registers, (map.mode? register).any access = true := by
    rw [Field.registers, List.forall_mem_map]
    rfl
  refine ⟨hwellFormed.ne_nil, hwellFormed.tiles.offset_head, hwellFormed.tiles.isChain,
    ⟨Fragment.totalLength_pos hwellFormed.ne_nil, hwellFormed.totalBits_le⟩,
    hwellFormed.tiles.pairwise_before.imp Fragment.Before.fieldMask_and_eq_zero,
    hwellFormed.tiles.occupied_eq, ?_, ?_, ?_, hwellFormed.validate⟩
  · intro fragment hfragment
    obtain ⟨hle, hlt⟩ := hwellFormed.within fragment hfragment
    obtain ⟨mode, hmode⟩ := hwellFormed.known fragment hfragment
    refine ⟨hle, hlt, ?_⟩
    obtain ⟨info, hinfo, -⟩ := Option.map_eq_some_iff.1 hmode
    rw [SortedMap.contains_eq_isSome, hinfo]
    rfl
  · rw [hwellFormed.isReadable_iff, hallow]
  · rw [hwellFormed.isWritable_iff, hallow]

/-- A divider of 18 bits in two registers, a status of which one half must not be written, and a
bit on its own. -/
def sampleEntries : List RegisterEntry :=
  [⟨"0x1e", some "R/W", [⟨"PLL_N[17:16][1:0]", ⟨0, 1⟩, none, none⟩, ⟨"RESET", ⟨7, 7⟩, none, none⟩,
      ⟨"STATUS[0][4]", ⟨4, 4⟩, none, none⟩]⟩,
    ⟨"1D", some "rw", [⟨"PLL_N[15:0][15:0]", ⟨0, 15⟩, none, none⟩]⟩,
    ⟨"0x2", some "R", [⟨"STATUS[1][0]", ⟨0, 0⟩, none, none⟩]⟩]

def sampleDivider : Field :=
  ⟨"PLL_N", none, .readWrite, .concatenated [⟨0x1d, ⟨0, 15⟩, 0⟩, ⟨0x1e, ⟨0, 1⟩, 16⟩], .identity⟩

def sampleMap : RegisterMap where
  width := .w16
  registers := SortedMap.ofList [
    (0x02, ⟨0x02, .readOnly, [⟨"STATUS", ⟨0, 0⟩, none⟩]⟩),
    (0x1d, ⟨0x1d, .readWrite, [⟨"PLL_N", ⟨0, 15⟩, none⟩]⟩),
    (0x1e, ⟨0x1e, .readWrite,
      [⟨"PLL_N", ⟨0, 1⟩, none⟩, ⟨"RESET", ⟨7, 7⟩, none⟩, ⟨"STATUS", ⟨4, 4⟩, none⟩]⟩)]
  fields := SortedMap.ofList [
    ("PLL_N", sampleDivider),
    ("RESET", ⟨"RESET", none, .readWrite, .single ⟨0x1e, ⟨7, 7⟩, 0⟩, .identity⟩),
    ("STATUS", ⟨"STATUS", none, .readOnly,
      .concatenated [⟨0x1e, ⟨4, 4⟩, 0⟩, ⟨0x02, ⟨0, 0⟩, 1⟩], .identity⟩)]

theorem compile_sampleEntries : compile sampleEntries .w16 ∅ = .ok sampleMap := by
  decide +kernel

theorem sound_of_compile_sample :
    compile sampleEntries .w16 ∅ = .ok sampleMap ∧
      (∃ field, sampleMap.fields.get? "PLL_N" = some field ∧ field.totalBits = 18 ∧
        FieldDraft.occupied field.fragments = Word.lowMask field.totalBits) ∧
      (∃ field, sampleMap.fields.get? "STATUS" = some field ∧ field.mode.isReadable = true ∧
        ¬∀ register ∈ field.registers,
          (sampleMap.mode? register).any AccessMode.isWritable = true) ∧
      (slotPieces sampleMap.registers).length = 5 ∧
      slotPieces sampleMap.registers ~ fieldPieces sampleMap.fields := by
  obtain ⟨hfields, hpieces⟩ := sound_of_compile compile_sampleEntries
  refine ⟨compile_sampleEntries, ?_, ?_, rfl, hpieces⟩
  · obtain ⟨-, -, -, -, -, hoccupied, -⟩ := hfields "PLL_N" _ rfl
    exact ⟨_, rfl, rfl, hoccupied⟩
  · obtain ⟨-, -, -, -, -, -, -, -, hwritable, -⟩ := hfields "STATUS" _ rfl
    refine ⟨_, rfl, rfl, ?_⟩
    rw [← hwritable]
    decide

end RegisterMap

end ChipConfig
