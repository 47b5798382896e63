import ChipConfig.Proofs.RegisterMap.Order
import ChipConfig.Proofs.RegisterMap.Outcome

/-!
# What a compiled field reads

A piece of a description says which bits of a register give which bits of a field: the piece gives
the bits of the field from the number in its first bracket on, or from 0 on if it has no such
bracket.  Whatever happens to the pieces on the way, the fragments of the compiled field are those
of the pieces of its name, in another order, so reading the field gives the declared bits and looks
at no others.
-/

namespace ChipConfig

open scoped List

/-- The bit of its field that the lowest bit of a piece gives. -/
def FieldEntry.offset (entry : FieldEntry) : Nat :=
  (entry.fieldBits?.map BitRange.low).getD 0

namespace Field

/-- What fragments give together depends on the register bits below them only. -/
theorem gathered_congr {a b : RegisterFile} {fragments : List Fragment} (hwidth : a.width = b.width)
    (hwithin : ∀ fragment ∈ fragments, fragment.bits.Within a.width)
    (h : ∀ fragment ∈ fragments, ∀ i, fragment.bits.Covers i →
      (a.get fragment.register).getLsbD i = (b.get fragment.register).getLsbD i) :
    gathered a fragments = gathered b fragments := by
  apply BitVec.eq_of_getLsbD_eq
  intro j hj
  rw [Bool.eq_iff_iff, getLsbD_gathered hwithin hj, getLsbD_gathered (hwidth ▸ hwithin) hj]
  refine exists_congr fun fragment ↦ and_congr_right fun hmem ↦ and_congr_right fun hgives ↦ ?_
  have hlies := Fragment.liesOn_registerBit (hwithin fragment hmem) hgives
  rw [h fragment hmem _ hlies.2]

end Field

/-- The fragments that are known of a field are those of the pieces that were taken in. -/
theorem PlacedEntry.knownFragments_perm {width : Width} {registry : InterpretationRegistry}
    {pieces : List PlacedEntry} {known : Option FieldDraft}
    (hpieces : ∀ piece ∈ pieces, piece.entry.WellFormed width registry)
    (h : SortedMap.updateEntry (extend registry) pieces none = .ok known) :
    knownFragments known ~ pieces.map fragment := by
  rcases gathers_of_updateEntry hpieces h with ⟨placed, rfl, hplain, rfl⟩ | ⟨hgathers, -⟩
  · have hfragment : placed.fragment = ⟨placed.register, placed.entry.bits, 0⟩ := by
      simp [fragment, hplain]
    rw [List.map_singleton, hfragment]
    rfl
  · exact hgathers.perm

namespace RegisterMap

variable {width : Width} {registry : InterpretationRegistry} {entries : List RegisterEntry}
  {map : RegisterMap} {name : String} {field : Field}

theorem mem_placedPieces_iff (hentries : ∀ entry ∈ entries, entry.WellFormed width registry)
    {placed : PlacedEntry} :
    placed ∈ placedPieces entries name ↔
      ∃ entry ∈ entries, ∃ piece ∈ entry.fields, piece.base? = some name ∧
        placed = ⟨entry.registerAddress, entry.accessMode, piece⟩ := by
  have hbase (entry : RegisterEntry) (hentry : entry ∈ entries) (piece : FieldEntry)
      (hpiece : piece ∈ entry.fields) : piece.base?.getD "" = name ↔ piece.base? = some name := by
    obtain ⟨read, hread, -⟩ := ((hentries entry hentry).pieces piece hpiece).name
    simp [FieldEntry.base?, hread]
  simp only [placedPieces, List.mem_filter, List.mem_flatMap, RegisterEntry.placed, List.mem_map,
    decide_eq_true_eq]
  constructor
  · rintro ⟨⟨entry, hentry, piece, hpiece, rfl⟩, hname⟩
    exact ⟨entry, hentry, piece, hpiece, (hbase entry hentry piece hpiece).1 hname, rfl⟩
  · rintro ⟨entry, hentry, piece, hpiece, hname, rfl⟩
    exact ⟨⟨entry, hentry, piece, hpiece, rfl⟩, (hbase entry hentry piece hpiece).2 hname⟩

namespace Assembles

variable (h : Assembles width registry entries map)

include h

/-- The fragments of a field are those of its pieces. -/
theorem fragments_perm (hfield : map.fields.get? name = some field) :
    field.fragments ~ (placedPieces entries name).map PlacedEntry.fragment := by
  obtain ⟨known, hrun, hget⟩ := h.field name
  obtain ⟨draft, rfl, rfl⟩ := Option.map_eq_some_iff.1 (hget.symm.trans hfield)
  exact PlacedEntry.knownFragments_perm (wellFormed_of_mem_placedPieces h.entry) hrun

/-- A map has a field for every name of a piece, and no others. -/
theorem exists_field_iff :
    (∃ field, map.fields.get? name = some field) ↔
      ∃ entry ∈ entries, ∃ piece ∈ entry.fields, piece.base? = some name := by
  obtain ⟨known, hrun, hget⟩ := h.field name
  have hperm := PlacedEntry.knownFragments_perm (wellFormed_of_mem_placedPieces h.entry) hrun
  rw [hget]
  constructor
  · rintro ⟨field, hfield⟩
    have hne : placedPieces entries name ≠ [] := by
      intro hnil
      rw [hnil] at hrun
      obtain rfl := Except.ok.inj hrun
      cases hfield
    obtain ⟨placed, hplaced⟩ := List.exists_mem_of_ne_nil _ hne
    obtain ⟨entry, hentry, piece, hpiece, hname, -⟩ := (mem_placedPieces_iff h.entry).1 hplaced
    exact ⟨entry, hentry, piece, hpiece, hname⟩
  · rintro ⟨entry, hentry, piece, hpiece, hname⟩
    have hplaced := (mem_placedPieces_iff h.entry).2 ⟨entry, hentry, piece, hpiece, hname, rfl⟩
    cases known with
    | none => exact absurd (hperm.mem_iff.2 (List.mem_map_of_mem hplaced)) List.not_mem_nil
    | some draft => exact ⟨_, rfl⟩

/-- A piece is a fragment of its field. -/
theorem fragment_mem (hfield : map.fields.get? name = some field) {entry : RegisterEntry}
    (hentry : entry ∈ entries) {piece : FieldEntry} (hpiece : piece ∈ entry.fields)
    (hname : piece.base? = some name) :
    ⟨entry.registerAddress, piece.bits, piece.offset⟩ ∈ field.fragments := by
  rw [(h.fragments_perm hfield).mem_iff, List.mem_map]
  exact ⟨⟨entry.registerAddress, entry.accessMode, piece⟩,
    (mem_placedPieces_iff h.entry).2 ⟨entry, hentry, piece, hpiece, hname, rfl⟩, rfl⟩

/-- A fragment of a field is one of its pieces. -/
theorem exists_piece_of_mem (hfield : map.fields.get? name = some field) {fragment : Fragment}
    (hfragment : fragment ∈ field.fragments) :
    ∃ entry ∈ entries, ∃ piece ∈ entry.fields, piece.base? = some name ∧
      fragment = ⟨entry.registerAddress, piece.bits, piece.offset⟩ := by
  obtain ⟨placed, hplaced, rfl⟩ := List.mem_map.1 ((h.fragments_perm hfield).mem_iff.1 hfragment)
  obtain ⟨entry, hentry, piece, hpiece, hname, rfl⟩ := (mem_placedPieces_iff h.entry).1 hplaced
  exact ⟨entry, hentry, piece, hpiece, hname, rfl⟩

end Assembles

/-- A compiled field reads the bits that its description declares, each at its place, and no others.
-/
theorem readRaw_declared_of_compile (h : compile entries width registry = .ok map) :
    (∀ name, (∃ field, map.fields.get? name = some field) ↔
      ∃ entry ∈ entries, ∃ piece ∈ entry.fields, piece.base? = some name) ∧
    ∀ name field, map.fields.get? name = some field →
      ∀ file : RegisterFile, file.width = map.width →
        ∃ raw, field.readRaw file = .ok raw ∧
          (∀ entry ∈ entries, ∀ piece ∈ entry.fields, piece.base? = some name →
            ∃ address, entry.address? = some address ∧ piece.bits.low ≤ piece.bits.high ∧
              ∀ k ≤ piece.bits.high - piece.bits.low,
                raw.getLsbD (piece.offset + k) =
                  (file.get address).getLsbD (piece.bits.low + k)) ∧
          (∀ j < field.totalBits, ∃ entry ∈ entries, ∃ piece ∈ entry.fields,
            piece.base? = some name ∧ ∃ k ≤ piece.bits.high - piece.bits.low,
              j = piece.offset + k) ∧
          (∀ j, field.totalBits ≤ j → raw.getLsbD j = false) ∧
          ∀ other : RegisterFile, other.width = map.width →
            (∀ entry ∈ entries, ∀ piece ∈ entry.fields, piece.base? = some name →
              ∀ address, entry.address? = some address → ∀ i, piece.bits.Covers i →
                (other.get address).getLsbD i = (file.get address).getLsbD i) →
            field.readRaw other = .ok raw := by
  have hassembles := assembles_of_compile h
  obtain ⟨hmap, -⟩ := wellFormed_of_compile h
  refine ⟨fun name ↦ hassembles.exists_field_iff, ?_⟩
  intro name field hfield file hwidth
  have hwellFormed := hmap.field name field hfield
  have htiles := hwellFormed.tiles.tiles
  have hwithin : ∀ fragment ∈ field.fragments, fragment.bits.Within file.width :=
    hwidth ▸ hwellFormed.within
  have htotal : field.totalBits ≤ 64 := hwellFormed.totalBits_le
  refine ⟨_, hwellFormed.readRaw_eq hwidth, ?_, ?_, ?_, ?_⟩
  · intro entry hentry piece hpiece hname
    obtain ⟨address, haddress⟩ := (hassembles.entry entry hentry).address
    have hmem := hassembles.fragment_mem hfield hentry hpiece hname
    rw [RegisterEntry.registerAddress_of_address? haddress] at hmem
    refine ⟨address, haddress, (hwithin _ hmem).1, fun k hk ↦ ?_⟩
    have hgives : Fragment.Gives ⟨address, piece.bits, piece.offset⟩ (piece.offset + k) :=
      ⟨Nat.le_add_right _ _, Nat.add_lt_add_left (Nat.lt_succ_of_le hk) _⟩
    have hlt : piece.offset + k < field.totalBits := (htiles.gives_iff _).1 ⟨_, hmem, hgives⟩
    rw [Field.getLsbD_gathered_of_gives htiles.disjoint hwithin hmem hgives (by omega)]
    rw [Fragment.registerBit, Nat.add_sub_cancel_left]
  · intro j hj
    obtain ⟨fragment, hmem, hgives⟩ := (htiles.gives_iff j).2 hj
    obtain ⟨entry, hentry, piece, hpiece, hname, rfl⟩ := hassembles.exists_piece_of_mem hfield hmem
    have hstart : piece.offset ≤ j := hgives.1
    have hend : j < piece.offset + (piece.bits.high - piece.bits.low + 1) := hgives.2
    exact ⟨entry, hentry, piece, hpiece, hname, j - piece.offset, by omega, by omega⟩
  · exact fun _ ↦ Field.getLsbD_gathered_of_ge htiles hwithin
  · intro other hother hsame
    rw [hwellFormed.readRaw_eq hother, Field.gathered_congr (hother.trans hwidth.symm)]
    · rw [hother]
      exact hwellFormed.within
    · intro fragment hmem i hcovers
      obtain ⟨entry, hentry, piece, hpiece, hname, rfl⟩ :=
        hassembles.exists_piece_of_mem hfield hmem
      obtain ⟨address, haddress⟩ := (hassembles.entry entry hentry).address
      rw [RegisterEntry.registerAddress_of_address? haddress]
      exact hsame entry hentry piece hpiece hname address haddress i hcovers

/-- Registers of the sample description with the divider at 0x21234. -/
def dividerFile : RegisterFile :=
  ⟨.w16, SortedMap.ofList [(0x1d, 0x1234), (0x1e, 0x92)]⟩

/-- The same divider, with all bits changed that it does not have. -/
def dividerFileAround : RegisterFile :=
  ⟨.w16, SortedMap.ofList [(0x02, 0xffff), (0x1d, 0x1234), (0x1e, 0xff6e)]⟩

theorem readRaw_declared_of_compile_sample :
    compile sampleEntries .w16 ∅ = .ok sampleMap ∧
      (∃ field, sampleMap.fields.get? "STATUS" = some field) ∧
      ∃ raw, sampleDivider.readRaw dividerFile = .ok raw ∧
        raw.getLsbD 17 = (dividerFile.get 0x1e).getLsbD 1 ∧ raw.getLsbD 18 = false ∧
        sampleDivider.readRaw dividerFileAround = .ok raw := by
  obtain ⟨hnames, hfields⟩ := readRaw_declared_of_compile compile_sampleEntries
  obtain ⟨raw, hread, hpieces, -, habove, hsame⟩ :=
    hfields "PLL_N" sampleDivider rfl dividerFile rfl
  have hhigh : ∃ entry ∈ sampleEntries, ∃ piece ∈ entry.fields, piece.base? = some "PLL_N" ∧
      entry.address? = some 0x1e ∧ piece.offset = 16 ∧ piece.bits = ⟨0, 1⟩ := by
    decide +kernel
  have hregisters : ∀ entry ∈ sampleEntries, ∀ piece ∈ entry.fields,
      piece.base? = some "PLL_N" → entry.address? = some 0x1e ∧ piece.bits = ⟨0, 1⟩ ∨
        entry.address? = some 0x1d := by
    decide +kernel
  refine ⟨compile_sampleEntries, (hnames "STATUS").2 (by decide +kernel), raw, hread, ?_,
    habove 18 (by decide), ?_⟩
  · obtain ⟨entry, hentry, piece, hpiece, hname, hregister, hoffset, hrange⟩ := hhigh
    obtain ⟨address, haddress, -, hbits⟩ := hpieces entry hentry piece hpiece hname
    obtain rfl := Option.some.inj (haddress.symm.trans hregister)
    rw [hoffset, hrange] at hbits
    exact hbits 1 (by decide)
  · apply hsame dividerFileAround rfl
    intro entry hentry piece hpiece hname address haddress i hi
    rcases hregisters entry hentry piece hpiece hname with ⟨hregister, hrange⟩ | hregister
    · obtain rfl := Option.some.inj (haddress.symm.trans hregister)
      rw [hrange] at hi
      have hlow : ∀ i ≤ 1, (dividerFileAround.get 0x1e).getLsbD i =
          (dividerFile.get 0x1e).getLsbD i := by
        decide +kernel
      exact hlow i hi.2
    · obtain rfl := Option.some.inj (haddress.symm.trans hregister)
      rfl

end RegisterMap

end ChipConfig
