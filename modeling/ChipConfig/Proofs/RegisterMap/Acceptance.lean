import ChipConfig.Proofs.RegisterMap.Pieces

/-!
# Which descriptions are accepted

Compiling goes through a description once and stops at the first thing that is wrong.  What it asks
for can be said without that order: every register and every piece makes sense by itself, no two
registers have the same address, and the pieces of every name make up a field.
-/

namespace ChipConfig

def FieldEntry.slot (entry : FieldEntry) : FieldSlot :=
  ⟨entry.base?.getD "", entry.bits, entry.description⟩

namespace RegisterEntry

def address? (entry : RegisterEntry) : Option Address :=
  let token := Text.trim entry.address.toList
  (Numeral.bounded? 16 UInt32.size ((Numeral.stripHexMark? token).getD token)).map UInt32.ofNat

def mode? (entry : RegisterEntry) : Option AccessMode :=
  entry.mode.bind AccessMode.ofText?

/-- What an entry has to be by itself: it has an address and a mode, and each of its pieces makes
sense. -/
structure WellFormed (width : Width) (registry : InterpretationRegistry) (entry : RegisterEntry) :
    Prop where
  address : ∃ address, entry.address? = some address
  mode : ∃ mode, entry.mode? = some mode
  pieces : ∀ piece ∈ entry.fields, piece.WellFormed width registry

/-- The address of an entry that has one. -/
def registerAddress (entry : RegisterEntry) : Address :=
  entry.address?.getD 0

/-- The mode of an entry that has one. -/
def accessMode (entry : RegisterEntry) : AccessMode :=
  entry.mode?.getD default

theorem registerAddress_of_address? {entry : RegisterEntry} {address : Address}
    (h : entry.address? = some address) : entry.registerAddress = address := by
  rw [registerAddress, h, Option.getD_some]

theorem accessMode_of_mode? {entry : RegisterEntry} {mode : AccessMode}
    (h : entry.mode? = some mode) : entry.accessMode = mode := by
  rw [accessMode, h, Option.getD_some]

def placed (entry : RegisterEntry) : List PlacedEntry :=
  entry.fields.map fun piece ↦ ⟨entry.registerAddress, entry.accessMode, piece⟩

def info (entry : RegisterEntry) : RegisterInfo where
  address := entry.registerAddress
  mode := entry.accessMode
  slots := entry.fields.map FieldEntry.slot

end RegisterEntry

namespace RegisterMap

variable {width : Width} {registry : InterpretationRegistry}

@[simp]
theorem addressOf_eq_ok_iff {entry : RegisterEntry} {address : Address} :
    addressOf entry.address = .ok address ↔ entry.address? = some address := by
  unfold addressOf RegisterEntry.address?
  simp only
  split
  · next n h => simp [h]
  · next h => simp [h]

@[simp]
theorem modeOf_eq_ok_iff {entry : RegisterEntry} {address : Address} {mode : AccessMode} :
    modeOf address entry.mode = .ok mode ↔ entry.mode? = some mode := by
  unfold RegisterEntry.mode?
  cases entry.mode with
  | none => simp [modeOf]
  | some text =>
    rw [modeOf]
    split
    · next read h => simp [h]
    · next h => simp [h]

theorem checkBracket_eq_ok_iff {field : String} {length : Nat} {range? : Option BitRange} :
    checkBracket field length range? = .ok () ↔
      ∀ range, range? = some range → range.length = length := by
  cases range? with
  | none => exact iff_of_true rfl fun _ h ↦ nomatch h
  | some range => simp

section Piece

variable {mode : AccessMode} {register : Address} {entry : FieldEntry}
  {fields result : SortedMap String FieldDraft}

/-- A piece that has been read finds its place if its field takes it in. -/
theorem placePiece_eq_ok_iff {name : FieldName}
    (hname : FieldName.ofText? entry.name = some name) :
    placePiece mode register entry name entry.bits.length (entry.given? registry) fields =
        .ok result ↔
      (∀ range, name.fieldBits = some range →
        range.length = entry.bits.length ∧ range.high < 64) ∧
      SortedMap.update PlacedEntry.base (PlacedEntry.extend registry) fields
        ⟨register, mode, entry⟩ = .ok result := by
  have hbase : PlacedEntry.base ⟨register, mode, entry⟩ = name.base := by
    simp [PlacedEntry.base, FieldEntry.base?, hname]
  have hbits : entry.fieldBits? = name.fieldBits := by
    simp [FieldEntry.fieldBits?, hname]
  rw [SortedMap.update_eq_ok_iff, hbase]
  unfold placePiece
  cases hrange : name.fieldBits with
  | none =>
    have hplain : (PlacedEntry.mk register mode entry).entry.fieldBits? = none := by
      rw [← hrange]
      exact hbits
    have hextend (known : Option FieldDraft) (draft : FieldDraft) :
        PlacedEntry.extend registry known ⟨register, mode, entry⟩ = .ok draft ↔
          known = none ∧ draft = .plain mode register entry (entry.given? registry) := by
      rw [PlacedEntry.extend_plain_eq_ok_iff hplain]
      rfl
    simp only [hextend]
    cases hget : fields.get? name.base with
    | none =>
      have hfresh : fields.contains name.base = false := by
        rw [SortedMap.contains_eq_isSome, hget]
        rfl
      simp [hfresh, eq_comm]
    | some draft =>
      have hknown : fields.contains name.base = true := by
        rw [SortedMap.contains_eq_isSome, hget]
        rfl
      simp [hknown]
  | some range =>
    have hextend (known : Option FieldDraft) :
        PlacedEntry.extend registry known ⟨register, mode, entry⟩ =
          (known.getD (.start mode entry)).addPiece name.base mode register entry range
            (entry.given? registry) := by
      simp only [PlacedEntry.extend, hbits, hrange, hbase]
    simp only [Fallible.bind_eq_ok_iff, Fallible.pure_eq_ok_iff, hextend]
    constructor
    · rintro ⟨⟨⟩, hbracket, ⟨⟩, hhigh, hplace⟩
      refine ⟨fun other hother ↦ ?_, hplace⟩
      obtain rfl := Option.some.inj hother
      exact ⟨checkBracket_some_eq_ok_iff.1 hbracket, checkFieldBits_eq_ok_iff.1 hhigh⟩
    · rintro ⟨hranges, hplace⟩
      obtain ⟨hlength, hhigh⟩ := hranges range rfl
      exact ⟨(), checkBracket_some_eq_ok_iff.2 hlength, (), checkFieldBits_eq_ok_iff.2 hhigh,
        hplace⟩

/-- A piece is read if it makes sense by itself and its field takes it in. -/
theorem addPiece_eq_ok_iff {seen after : SortedMap String FieldDraft × List FieldSlot} :
    addPiece width registry mode register seen entry = .ok after ↔
      entry.WellFormed width registry ∧
      SortedMap.update PlacedEntry.base (PlacedEntry.extend registry) seen.1
        ⟨register, mode, entry⟩ = .ok after.1 ∧
      after.2 = seen.2 ++ [entry.slot] := by
  unfold addPiece
  simp only [Fallible.bind_eq_ok_iff, Fallible.pure_eq_ok_iff, lengthOf_eq_ok_iff,
    nameOf_eq_ok_iff, resolve_eq_ok_iff]
  constructor
  · rintro ⟨length, ⟨hwithin, rfl⟩, name, hname, ⟨⟩, hbracket, given, ⟨hvalid, rfl⟩, fields,
      hplace, rfl⟩
    obtain ⟨hbits, hupdate⟩ := (placePiece_eq_ok_iff hname).1 hplace
    refine ⟨⟨hwithin, ⟨name, hname, checkBracket_eq_ok_iff.1 hbracket, hbits⟩, hvalid⟩, hupdate, ?_⟩
    simp [FieldEntry.slot, FieldEntry.base?, hname]
  · rintro ⟨⟨hwithin, ⟨name, hname, hbracket, hbits⟩, hvalid⟩, hupdate, hslots⟩
    refine ⟨_, ⟨hwithin, rfl⟩, name, hname, (), checkBracket_eq_ok_iff.2 hbracket, _,
      ⟨hvalid, rfl⟩, after.1, (placePiece_eq_ok_iff hname).2 ⟨hbits, hupdate⟩, ?_⟩
    have hslot : entry.slot = ⟨name.base, entry.bits, entry.description⟩ := by
      simp [FieldEntry.slot, FieldEntry.base?, hname]
    exact Prod.ext rfl (hslots.trans (by rw [hslot]))

theorem foldlM_addPiece_eq_ok_iff {pieces : List FieldEntry}
    {seen after : SortedMap String FieldDraft × List FieldSlot} :
    pieces.foldlM (addPiece width registry mode register) seen = .ok after ↔
      (∀ piece ∈ pieces, piece.WellFormed width registry) ∧
      (pieces.map (PlacedEntry.mk register mode)).foldlM
        (SortedMap.update PlacedEntry.base (PlacedEntry.extend registry)) seen.1 = .ok after.1 ∧
      after.2 = seen.2 ++ pieces.map FieldEntry.slot := by
  induction pieces generalizing seen with
  | nil =>
    simp [Prod.ext_iff]
  | cons piece rest ih =>
    simp only [List.foldlM_cons, Fallible.bind_eq_ok_iff, addPiece_eq_ok_iff, ih,
      List.forall_mem_cons, List.map_cons]
    constructor
    · rintro ⟨middle, ⟨hpiece, hupdate, hslot⟩, hrest, hrun, hslots⟩
      refine ⟨⟨hpiece, hrest⟩, ⟨middle.1, hupdate, hrun⟩, ?_⟩
      rw [hslots, hslot, List.append_assoc]
      rfl
    · rintro ⟨⟨hpiece, hrest⟩, ⟨fields, hupdate, hrun⟩, hslots⟩
      refine ⟨(fields, seen.2 ++ [piece.slot]), ⟨hpiece, hupdate, rfl⟩, hrest, hrun, ?_⟩
      rw [hslots, List.append_assoc]
      rfl

end Piece

namespace Draft

variable {draft result : Draft}

/-- A register is read if its entry makes sense by itself, its address is new and the fields take
in its pieces. -/
theorem add_eq_ok_iff {entry : RegisterEntry} :
    draft.add width registry entry = .ok result ↔
      entry.WellFormed width registry ∧ ¬draft.registers.contains entry.registerAddress = true ∧
      entry.placed.foldlM (SortedMap.update PlacedEntry.base (PlacedEntry.extend registry))
        draft.fields = .ok result.fields ∧
      result.registers = draft.registers.insert entry.registerAddress entry.info := by
  unfold add
  simp only [Fallible.bind_eq_ok_iff, Fallible.throw_eq_error, Fallible.error_bind,
    Fallible.guard_eq_ok_iff, Fallible.pure_eq_ok_iff,
    addressOf_eq_ok_iff, modeOf_eq_ok_iff, foldlM_addPiece_eq_ok_iff]
  constructor
  · rintro ⟨address, haddress, hfresh, mode, hmode, seen, ⟨hpieces, hrun, hslots⟩, rfl⟩
    have hregister := RegisterEntry.registerAddress_of_address? haddress
    have haccess := RegisterEntry.accessMode_of_mode? hmode
    rw [RegisterEntry.placed, RegisterEntry.info, hregister, haccess, hslots]
    exact ⟨⟨⟨address, haddress⟩, ⟨mode, hmode⟩, hpieces⟩, hfresh, hrun, rfl⟩
  · rintro ⟨⟨⟨address, haddress⟩, ⟨mode, hmode⟩, hpieces⟩, hfresh, hrun, hregisters⟩
    have hregister := RegisterEntry.registerAddress_of_address? haddress
    have haccess := RegisterEntry.accessMode_of_mode? hmode
    rw [RegisterEntry.placed, hregister, haccess] at hrun
    rw [hregister] at hfresh
    refine ⟨address, haddress, hfresh, mode, hmode,
      (result.fields, entry.fields.map FieldEntry.slot), ⟨hpieces, hrun, rfl⟩, ?_⟩
    rw [RegisterEntry.info, hregister, haccess] at hregisters
    rw [← hregisters]

/-- All registers are read if every entry makes sense by itself, the addresses are new and
distinct, and the fields take in all pieces. -/
theorem foldlM_add_eq_ok_iff {entries : List RegisterEntry} :
    entries.foldlM (Draft.add width registry) draft = .ok result ↔
      (∀ entry ∈ entries, entry.WellFormed width registry ∧
        ¬draft.registers.contains entry.registerAddress = true) ∧
      (entries.map RegisterEntry.registerAddress).Nodup ∧
      (entries.flatMap RegisterEntry.placed).foldlM
        (SortedMap.update PlacedEntry.base (PlacedEntry.extend registry)) draft.fields =
          .ok result.fields ∧
      result.registers = entries.foldl
        (fun registers entry ↦ registers.insert entry.registerAddress entry.info)
        draft.registers := by
  induction entries generalizing draft with
  | nil =>
    have hsame : result = draft ↔ result.fields = draft.fields ∧
        result.registers = draft.registers := by
      cases result
      cases draft
      simp [and_comm]
    simpa using hsame
  | cons entry rest ih =>
    have hcontains (registers : SortedMap Address RegisterInfo) (address : Address) :
        ¬(registers.insert entry.registerAddress entry.info).contains address = true ↔
          address ≠ entry.registerAddress ∧ ¬registers.contains address = true := by
      rw [SortedMap.contains_insert, not_or]
    simp only [List.foldlM_cons, Fallible.bind_eq_ok_iff, add_eq_ok_iff, ih, List.forall_mem_cons,
      List.map_cons, List.nodup_cons, List.flatMap_cons, List.foldlM_append, List.foldl_cons]
    constructor
    · rintro ⟨⟨registers, fields⟩, ⟨hentry, hfresh, hplaced, rfl⟩, hrest, hnodup, hrun, hresult⟩
      simp only [hcontains] at hrest
      refine ⟨⟨⟨hentry, hfresh⟩, fun other hother ↦ ?_⟩, ⟨?_, hnodup⟩, ⟨fields, hplaced, hrun⟩,
        hresult⟩
      · exact ⟨(hrest other hother).1, (hrest other hother).2.2⟩
      · rw [List.mem_map]
        rintro ⟨other, hother, heq⟩
        exact (hrest other hother).2.1 heq
    · rintro ⟨⟨⟨hentry, hfresh⟩, hrest⟩, ⟨hnew, hnodup⟩, ⟨fields, hplaced, hrun⟩, hresult⟩
      refine ⟨⟨draft.registers.insert entry.registerAddress entry.info, fields⟩,
        ⟨hentry, hfresh, hplaced, rfl⟩, fun other hother ↦ ?_, hnodup, hrun, hresult⟩
      have hne : other.registerAddress ≠ entry.registerAddress := fun heq ↦
        hnew (List.mem_map.2 ⟨other, hother, heq⟩)
      exact ⟨(hrest other hother).1, (hcontains _ _).2 ⟨hne, (hrest other hother).2⟩⟩

end Draft

/-! ## The whole description -/

/-- What a description has to be.  Every register has an address that no other one has, and a mode;
every piece makes sense by itself; and the pieces of every name, wherever they are, make up a
field. -/
structure Acceptable (entries : List RegisterEntry) (width : Width)
    (registry : InterpretationRegistry) : Prop where
  address : ∀ entry ∈ entries, ∃ address, entry.address? = some address
  distinct : (entries.map RegisterEntry.address?).Nodup
  mode : ∀ entry ∈ entries, ∃ mode, entry.mode? = some mode
  pieces : ∀ entry ∈ entries, ∀ piece ∈ entry.fields, piece.WellFormed width registry
  field : ∀ base, FieldEntry.MakeUpField registry
    ((entries.flatMap RegisterEntry.fields).filter fun piece ↦ piece.base? = some base)

variable {entries : List RegisterEntry}

@[simp]
theorem map_entry_placed (entry : RegisterEntry) :
    entry.placed.map PlacedEntry.entry = entry.fields := by
  rw [RegisterEntry.placed, List.map_map]
  exact List.map_id _

theorem wellFormed_of_mem_placed
    (hpieces : ∀ entry ∈ entries, ∀ piece ∈ entry.fields, piece.WellFormed width registry) :
    ∀ placed ∈ entries.flatMap RegisterEntry.placed,
      placed.entry.WellFormed width registry := by
  intro placed hplaced
  obtain ⟨entry, hentry, hmem⟩ := List.mem_flatMap.1 hplaced
  obtain ⟨piece, hpiece, rfl⟩ := List.mem_map.1 hmem
  exact hpieces entry hentry piece hpiece

/-- The placed pieces of a name are the pieces of that name. -/
theorem map_entry_filter_base
    (hpieces : ∀ entry ∈ entries, ∀ piece ∈ entry.fields, piece.WellFormed width registry)
    (base : String) :
    ((entries.flatMap RegisterEntry.placed).filter fun piece ↦ piece.base = base).map
        PlacedEntry.entry =
      (entries.flatMap RegisterEntry.fields).filter fun piece ↦ piece.base? = some base := by
  have hall : (entries.flatMap RegisterEntry.placed).map PlacedEntry.entry =
      entries.flatMap RegisterEntry.fields := by
    rw [List.map_flatMap]
    exact List.flatMap_congr fun entry _ ↦ map_entry_placed entry
  rw [← hall, List.filter_map]
  congr 1
  refine List.filter_congr fun placed hplaced ↦ ?_
  obtain ⟨name, hname, -⟩ := (wellFormed_of_mem_placed hpieces placed hplaced).name
  simp [PlacedEntry.base, FieldEntry.base?, hname]

/-- Addresses that are there are distinct as addresses. -/
theorem nodup_registerAddress_iff
    (haddress : ∀ entry ∈ entries, ∃ address, entry.address? = some address) :
    (entries.map RegisterEntry.registerAddress).Nodup ↔
      (entries.map RegisterEntry.address?).Nodup := by
  have hmap : entries.map RegisterEntry.address? =
      (entries.map RegisterEntry.registerAddress).map some := by
    rw [List.map_map]
    refine List.map_congr_left fun entry hentry ↦ ?_
    obtain ⟨address, haddress⟩ := haddress entry hentry
    simp [RegisterEntry.registerAddress_of_address? haddress, haddress]
  rw [hmap, List.nodup_map_iff (Option.some_injective _)]

/-- A description has a map if its entries make sense by themselves, their addresses differ, and the
pieces of each name leave a complete draft. -/
theorem exists_compile_iff_updateEntry :
    (∃ map, compile entries width registry = .ok map) ↔
      (∀ entry ∈ entries, entry.WellFormed width registry) ∧
      (entries.map RegisterEntry.registerAddress).Nodup ∧
      ∀ base, ∃ known, SortedMap.updateEntry (PlacedEntry.extend registry)
          ((entries.flatMap RegisterEntry.placed).filter fun piece ↦ piece.base = base) none =
            .ok known ∧
        ∀ draft : FieldDraft, known = some draft → draft.Complete := by
  -- The fields are taken in name by name, whatever stands between their pieces.
  have hfields : (∃ fields : SortedMap String FieldDraft,
        (entries.flatMap RegisterEntry.placed).foldlM
          (SortedMap.update PlacedEntry.base (PlacedEntry.extend registry)) ∅ = .ok fields ∧
        ∀ name draft, fields.get? name = some draft → draft.Complete) ↔ _ :=
    SortedMap.exists_foldlM_update_iff fun _ known ↦
      ∀ draft : FieldDraft, known = some draft → draft.Complete
  simp only [SortedMap.get?_empty] at hfields
  rw [← hfields]
  simp only [compile_eq_ok_iff, Draft.foldlM_add_eq_ok_iff]
  constructor
  · rintro ⟨-, draft, ⟨hentries, hnodup, hrun, -⟩, hcomplete, -⟩
    exact ⟨fun entry hentry ↦ (hentries entry hentry).1, hnodup, draft.fields, hrun, hcomplete⟩
  · rintro ⟨hentries, hnodup, fields, hrun, hcomplete⟩
    exact ⟨_, ⟨_, fields⟩, ⟨fun entry hentry ↦ ⟨hentries entry hentry, Bool.false_ne_true⟩,
      hnodup, hrun, rfl⟩, hcomplete, rfl⟩

/-- A description has a map exactly if it is acceptable: what is checked on the way, entry by entry
and piece by piece, is what can be said about the description as a whole. -/
theorem exists_compile_iff (entries : List RegisterEntry) (width : Width)
    (registry : InterpretationRegistry) :
    (∃ map, compile entries width registry = .ok map) ↔ Acceptable entries width registry := by
  have hfield (hpieces : ∀ entry ∈ entries, ∀ piece ∈ entry.fields, piece.WellFormed width registry)
      (base : String) :
      (∃ known, SortedMap.updateEntry (PlacedEntry.extend registry)
          ((entries.flatMap RegisterEntry.placed).filter fun piece ↦ piece.base = base) none =
            .ok known ∧
        ∀ draft : FieldDraft, known = some draft → draft.Complete) ↔
      FieldEntry.MakeUpField registry
        ((entries.flatMap RegisterEntry.fields).filter fun piece ↦ piece.base? = some base) := by
    have hplaced : ∀ placed ∈ (entries.flatMap RegisterEntry.placed).filter
        fun piece ↦ piece.base = base, placed.entry.WellFormed width registry :=
      fun placed hplaced ↦
        wellFormed_of_mem_placed hpieces placed (List.mem_of_mem_filter hplaced)
    rw [← map_entry_filter_base hpieces]
    exact PlacedEntry.exists_updateEntry_complete_iff hplaced
  rw [exists_compile_iff_updateEntry]
  constructor
  · rintro ⟨hentries, hnodup, hbases⟩
    have haddress (entry : RegisterEntry) (hentry : entry ∈ entries) :=
      (hentries entry hentry).address
    have hpieces (entry : RegisterEntry) (hentry : entry ∈ entries) :=
      (hentries entry hentry).pieces
    exact ⟨haddress, (nodup_registerAddress_iff haddress).1 hnodup,
      fun entry hentry ↦ (hentries entry hentry).mode, hpieces,
      fun base ↦ (hfield hpieces base).1 (hbases base)⟩
  · intro h
    exact ⟨fun entry hentry ↦
        ⟨h.address entry hentry, h.mode entry hentry, h.pieces entry hentry⟩,
      (nodup_registerAddress_iff h.address).2 h.distinct,
      fun base ↦ (hfield h.pieces base).2 (h.field base)⟩

end RegisterMap

end ChipConfig
