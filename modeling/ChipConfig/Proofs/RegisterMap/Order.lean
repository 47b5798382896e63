import ChipConfig.Proofs.RegisterMap.Acceptance

/-!
# The order of registers in a description

The registers of a description may stand in any order.  The pieces of a field then turn up in
another order as well, but whether they make up a field does not depend on it, the fragments are put
in the order of their offsets in the end, and a mode is what all registers allow.  What is taken
from the pieces as they turn up is the interpretation, of which all agree, and the description of
the first piece, which is the only trace that the order leaves.
-/

namespace ChipConfig

open scoped List

/-- A mode is what it allows. -/
theorem AccessMode.eq_of_allows_iff {a b : AccessMode}
    (hread : a.isReadable = true ↔ b.isReadable = true)
    (hwrite : a.isWritable = true ↔ b.isWritable = true) : a = b := by
  cases a <;> cases b <;> simp_all [isReadable, isWritable]

namespace FieldEntry

variable {registry : InterpretationRegistry} {pieces others : List FieldEntry}

theorem Tile.of_perm (h : Tile registry pieces) (hperm : pieces ~ others) :
    Tile registry others where
  annotated piece hpiece := h.annotated piece (hperm.mem_iff.2 hpiece)
  disjoint := hperm.pairwise h.disjoint fun hab j hb ha ↦ hab j ha hb
  covers := by
    obtain ⟨n, hn⟩ := h.covers
    refine ⟨n, fun j ↦ ?_⟩
    simp only [hn, hperm.mem_iff]
  agrees a ha b hb := h.agrees a (hperm.mem_iff.2 ha) b (hperm.mem_iff.2 hb)

theorem MakeUpField.of_perm (h : MakeUpField registry pieces) (hperm : pieces ~ others) :
    MakeUpField registry others := by
  rcases h with ⟨piece, rfl, hplain⟩ | htile
  · exact .inl ⟨piece, List.perm_singleton.1 hperm.symm, hplain⟩
  · exact .inr (htile.of_perm hperm)

end FieldEntry

namespace PlacedEntry

variable {width : Width} {registry : InterpretationRegistry} {pieces others : List PlacedEntry}
  {known twin : Option FieldDraft}

/-- The description of a draft is the one given with its first piece. -/
theorem description_of_extend {placed : PlacedEntry} {draft : FieldDraft}
    (h : extend registry known placed = .ok draft) :
    draft.description = (known.map FieldDraft.description).getD placed.entry.description := by
  cases hrange : placed.entry.fieldBits? with
  | none =>
    obtain ⟨rfl, rfl⟩ := (extend_plain_eq_ok_iff hrange).1 h
    rfl
  | some range =>
    simp only [extend, hrange] at h
    obtain ⟨fragments, agreed, -, -, -, rfl⟩ := FieldDraft.addPiece_eq_ok_iff.1 h
    cases known <;> rfl

theorem description_of_updateEntry
    (h : SortedMap.updateEntry (extend registry) pieces none = .ok known) :
    known.map FieldDraft.description = pieces.head?.map fun placed ↦ placed.entry.description := by
  induction pieces using List.reverseRecOn generalizing known with
  | nil =>
    obtain rfl := Except.ok.inj h
    rfl
  | append_singleton pieces placed ih =>
    obtain ⟨before, draft, hbefore, hextend, rfl⟩ := SortedMap.updateEntry_concat_eq_ok_iff.1 h
    have hfirst := ih hbefore
    rw [Option.map_some, description_of_extend hextend, hfirst, List.head?_append]
    cases pieces.head? <;> rfl

theorem Gathers.fragments_eq_of_perm (h : Gathers registry pieces known)
    (htwin : Gathers registry others twin) (hperm : pieces ~ others) :
    knownFragments twin = knownFragments known := by
  have hfragments : knownFragments twin ~ knownFragments known :=
    htwin.perm.trans ((hperm.symm.map _).trans h.perm.symm)
  refine hfragments.eq_of_pairwise (fun a b _ _ hab hba ↦ ?_) htwin.before h.before
  have hlength := a.length_pos
  unfold Fragment.Before at hab hba
  omega

theorem Gathers.agrees_of_perm (h : Gathers registry pieces known)
    (htwin : Gathers registry others twin) (hperm : pieces ~ others) :
    ((known.bind FieldDraft.interpretation).getD .identity).agrees
      ((twin.bind FieldDraft.interpretation).getD .identity) = true := by
  cases hknown : known.bind FieldDraft.interpretation with
  | some i =>
    obtain ⟨piece, hpiece, hgiven⟩ := h.given i hknown
    obtain ⟨j, hj, hagrees⟩ := htwin.agrees piece (hperm.mem_iff.1 hpiece) i hgiven
    rw [hj]
    exact hagrees
  | none =>
    cases hother : twin.bind FieldDraft.interpretation with
    | none => rfl
    | some j =>
      obtain ⟨piece, hpiece, hgiven⟩ := htwin.given j hother
      obtain ⟨i, hi, -⟩ := h.agrees piece (hperm.mem_iff.2 hpiece) j hgiven
      rw [hknown] at hi
      cases hi

/-- The same pieces in another order leave the same draft, or both are made of annotated pieces. -/
theorem eq_or_gathers_of_perm (hpieces : ∀ piece ∈ pieces, piece.entry.WellFormed width registry)
    (hperm : pieces ~ others)
    (h : SortedMap.updateEntry (extend registry) pieces none = .ok known)
    (htwin : SortedMap.updateEntry (extend registry) others none = .ok twin) :
    known = twin ∨ Gathers registry pieces known ∧ Gathers registry others twin := by
  have hothers : ∀ piece ∈ others, piece.entry.WellFormed width registry :=
    fun piece hpiece ↦ hpieces piece (hperm.mem_iff.2 hpiece)
  have hsame (heq : pieces = others) : known = twin := by
    rw [heq, htwin] at h
    exact (Except.ok.inj h).symm
  rcases gathers_of_updateEntry hpieces h with ⟨placed, rfl, -⟩ | ⟨hgathers, -⟩
  · exact .inl (hsame (List.perm_singleton.1 hperm.symm).symm)
  · rcases gathers_of_updateEntry hothers htwin with ⟨placed, rfl, -⟩ | ⟨hother, -⟩
    · exact .inl (hsame (List.perm_singleton.1 hperm))
    · exact .inr ⟨hgathers, hother⟩

end PlacedEntry

namespace Field

/-- Fields on the same fragments of the same registers may be used in the same ways. -/
theorem WellFormed.mode_eq {width : Width} {modes : Address → Option AccessMode} {a b : Field}
    (ha : a.WellFormed width modes) (hb : b.WellFormed width modes)
    (hlayout : a.layout = b.layout) : a.mode = b.mode := by
  have hfragments : a.fragments = b.fragments := congrArg FieldLayout.fragments hlayout
  apply AccessMode.eq_of_allows_iff
  · rw [ha.isReadable_iff, hb.isReadable_iff, hfragments]
  · rw [ha.isWritable_iff, hb.isWritable_iff, hfragments]

/-- Two fields that are the same, except that fields of several pieces may be described by different
pieces. -/
structure Alike (a b : Field) : Prop where
  name : a.name = b.name
  mode : a.mode = b.mode
  layout : a.layout = b.layout
  interpretation : a.interpretation.agrees b.interpretation = true
  description : ∀ fragment, a.layout = .single fragment → a.description = b.description

end Field

namespace RegisterMap

variable {width : Width} {registry : InterpretationRegistry} {entries others : List RegisterEntry}
  {map twin : RegisterMap}

/-- The pieces of a name in their registers. -/
def placedPieces (entries : List RegisterEntry) (name : String) : List PlacedEntry :=
  (entries.flatMap RegisterEntry.placed).filter fun piece ↦ piece.base = name

theorem placedPieces_perm (h : entries ~ others) (name : String) :
    placedPieces entries name ~ placedPieces others name :=
  (h.flatMap_right _).filter _

theorem wellFormed_of_mem_placedPieces
    (hentries : ∀ entry ∈ entries, entry.WellFormed width registry) {name : String} :
    ∀ placed ∈ placedPieces entries name, placed.entry.WellFormed width registry :=
  fun placed hplaced ↦
    wellFormed_of_mem_placed (fun entry hentry ↦ (hentries entry hentry).pieces) placed
      (List.mem_of_mem_filter hplaced)

/-- The description given with the first piece of a name. -/
def firstDescription? (entries : List RegisterEntry) (name : String) : Option (Option String) :=
  ((entries.flatMap RegisterEntry.fields).find? fun piece ↦ piece.base? = some name).map
    FieldEntry.description

/-- What is put together when a description is compiled: its registers, and for every name the draft
of the pieces of that name. -/
structure Assembles (width : Width) (registry : InterpretationRegistry)
    (entries : List RegisterEntry) (map : RegisterMap) : Prop where
  entry : ∀ entry ∈ entries, entry.WellFormed width registry
  nodup : (entries.map RegisterEntry.registerAddress).Nodup
  registers : map.registers =
    SortedMap.ofList (entries.map fun entry ↦ (entry.registerAddress, entry.info))
  field : ∀ name, ∃ known,
    SortedMap.updateEntry (PlacedEntry.extend registry) (placedPieces entries name) none =
      .ok known ∧
    map.fields.get? name = known.map fun draft ↦ draft.toField name

theorem assembles_of_compile (h : compile entries width registry = .ok map) :
    Assembles width registry entries map := by
  obtain ⟨draft, hdraft, -, rfl⟩ := compile_eq_ok_iff.1 h
  obtain ⟨hentries, hnodup, hrun, hregisters⟩ := Draft.foldlM_add_eq_ok_iff.1 hdraft
  refine ⟨fun entry hentry ↦ (hentries entry hentry).1, hnodup, ?_, fun name ↦ ?_⟩
  · rw [SortedMap.ofList, List.foldl_map]
    exact hregisters
  · refine ⟨draft.fields.get? name, SortedMap.updateEntry_of_foldlM_update hrun name, ?_⟩
    apply Option.ext
    intro field
    rw [Draft.get?_finished, Option.map_eq_some_iff]
    simp only [eq_comm]

namespace Assembles

variable (h : Assembles width registry entries map)

include h

theorem description_eq {name : String} {field : Field}
    (hfield : map.fields.get? name = some field) :
    firstDescription? entries name = some field.description := by
  obtain ⟨known, hrun, hget⟩ := h.field name
  obtain ⟨draft, rfl, rfl⟩ := Option.map_eq_some_iff.1 (hget.symm.trans hfield)
  have hfirst := PlacedEntry.description_of_updateEntry hrun
  have hpieces (entry : RegisterEntry) (hentry : entry ∈ entries) := (h.entry entry hentry).pieces
  rw [firstDescription?, ← List.head?_filter, ← map_entry_filter_base hpieces, List.head?_map,
    Option.map_map]
  exact hfirst.symm

theorem registers_eq_of_perm (htwin : Assembles width registry others twin)
    (hperm : entries ~ others) : map.registers = twin.registers := by
  rw [h.registers, htwin.registers]
  apply SortedMap.ofList_eq_of_perm
  · rw [List.map_map]
    exact h.nodup
  · exact hperm.map _

/-- The drafts of a name under both orders. -/
theorem exists_drafts_of_perm (htwin : Assembles width registry others twin)
    (hperm : entries ~ others) (name : String) :
    ∃ known other, map.fields.get? name = known.map (fun draft ↦ draft.toField name) ∧
      twin.fields.get? name = other.map (fun draft ↦ draft.toField name) ∧
      (known = other ∨
        PlacedEntry.Gathers registry (placedPieces entries name) known ∧
          PlacedEntry.Gathers registry (placedPieces others name) other) := by
  obtain ⟨known, hrun, hget⟩ := h.field name
  obtain ⟨other, hotherRun, hotherGet⟩ := htwin.field name
  exact ⟨known, other, hget, hotherGet, PlacedEntry.eq_or_gathers_of_perm
    (wellFormed_of_mem_placedPieces h.entry) (placedPieces_perm hperm name) hrun hotherRun⟩

theorem keys_eq_of_perm (htwin : Assembles width registry others twin)
    (hperm : entries ~ others) : map.fields.keys = twin.fields.keys := by
  apply SortedMap.keys_eq_of_contains_iff
  intro name
  obtain ⟨known, other, hget, hother, hdrafts⟩ := h.exists_drafts_of_perm htwin hperm name
  have hnone : known = none ↔ other = none := by
    rcases hdrafts with rfl | ⟨hgathers, hotherGathers⟩
    · rfl
    · have hpieces := placedPieces_perm hperm name
      rw [hgathers.isNone_iff, hotherGathers.isNone_iff, ← List.perm_nil, ← List.perm_nil]
      exact ⟨hpieces.symm.trans, hpieces.trans⟩
  rw [SortedMap.contains_eq_isSome, SortedMap.contains_eq_isSome, hget, hother, Option.isSome_map,
    Option.isSome_map, Option.isSome_iff_ne_none, Option.isSome_iff_ne_none, ne_eq, ne_eq, hnone]

end Assembles

/-- The fields of a name under both orders have the same fragments, so the same registers decide
about their modes, and their interpretations agree. -/
theorem alike_of_perm (hperm : entries ~ others) (h : compile entries width registry = .ok map)
    (htwin : compile others width registry = .ok twin) {name : String} {field other : Field}
    (hfield : map.fields.get? name = some field) (hother : twin.fields.get? name = some other) :
    field.Alike other := by
  have hmap := assembles_of_compile h
  have hregisters := hmap.registers_eq_of_perm (assembles_of_compile htwin) hperm
  obtain ⟨hwellFormed, hwidth⟩ := wellFormed_of_compile h
  obtain ⟨hotherWellFormed, hotherWidth⟩ := wellFormed_of_compile htwin
  have hvalid := hwellFormed.field name field hfield
  have hotherValid := hotherWellFormed.field name other hother
  rw [hwidth] at hvalid
  rw [hotherWidth, ← hregisters] at hotherValid
  obtain ⟨known, twinKnown, hget, hotherGet, hdrafts⟩ :=
    hmap.exists_drafts_of_perm (assembles_of_compile htwin) hperm name
  obtain ⟨draft, rfl, rfl⟩ := Option.map_eq_some_iff.1 (hget.symm.trans hfield)
  obtain ⟨otherDraft, rfl, rfl⟩ := Option.map_eq_some_iff.1 (hotherGet.symm.trans hother)
  rcases hdrafts with hsame | ⟨hgathers, hotherGathers⟩
  · obtain rfl := Option.some.inj hsame
    exact ⟨rfl, rfl, rfl, Interpretation.agrees_self_of_validate hvalid.validate, fun _ _ ↦ rfl⟩
  · have hpieces := placedPieces_perm hperm name
    have hlayout : draft.layout = otherDraft.layout := by
      rw [hgathers.concatenated draft rfl, hotherGathers.concatenated otherDraft rfl,
        hgathers.fragments_eq_of_perm hotherGathers hpieces]
    refine ⟨rfl, hvalid.mode_eq hotherValid hlayout, hlayout,
      hgathers.agrees_of_perm hotherGathers hpieces, fun fragment hsingle ↦ ?_⟩
    have hconcatenated := hgathers.concatenated draft rfl
    change draft.layout = .single fragment at hsingle
    rw [hsingle] at hconcatenated
    cases hconcatenated

/-- A description that has a map has one in every order of its registers. -/
theorem exists_compile_of_perm (hperm : entries ~ others)
    (h : ∃ map, compile entries width registry = .ok map) :
    ∃ map, compile others width registry = .ok map := by
  rw [exists_compile_iff_updateEntry] at h ⊢
  obtain ⟨hentries, hnodup, hfields⟩ := h
  have hothers : ∀ entry ∈ others, entry.WellFormed width registry :=
    fun entry hentry ↦ hentries entry (hperm.mem_iff.2 hentry)
  refine ⟨hothers, (hperm.map _).nodup_iff.1 hnodup, fun base ↦ ?_⟩
  have hfield := (PlacedEntry.exists_updateEntry_complete_iff
    (wellFormed_of_mem_placedPieces hentries)).1 (hfields base)
  apply (PlacedEntry.exists_updateEntry_complete_iff
    (wellFormed_of_mem_placedPieces hothers)).2
  exact hfield.of_perm ((placedPieces_perm hperm base).map _)

/-- The order of the registers does not matter, except that the description of a field of several
pieces is the one given with the piece that stands first. -/
theorem compile_perm (hperm : entries ~ others) (width : Width)
    (registry : InterpretationRegistry) :
    ((∃ map, compile entries width registry = .ok map) ↔
      ∃ map, compile others width registry = .ok map) ∧
    ∀ map twin, compile entries width registry = .ok map →
      compile others width registry = .ok twin →
        map.width = twin.width ∧ map.registers = twin.registers ∧
        map.fields.keys = twin.fields.keys ∧
        ∀ name field other, map.fields.get? name = some field →
          twin.fields.get? name = some other →
            field.Alike other ∧
            firstDescription? entries name = some field.description ∧
            firstDescription? others name = some other.description := by
  refine ⟨⟨exists_compile_of_perm hperm, exists_compile_of_perm hperm.symm⟩, ?_⟩
  intro map twin h htwin
  have hmap := assembles_of_compile h
  have hother := assembles_of_compile htwin
  refine ⟨?_, hmap.registers_eq_of_perm hother hperm, hmap.keys_eq_of_perm hother hperm, ?_⟩
  · rw [(wellFormed_of_compile h).2, (wellFormed_of_compile htwin).2]
  · intro name field twinField hfield htwinField
    exact ⟨alike_of_perm hperm h htwin hfield htwinField, hmap.description_eq hfield,
      hother.description_eq htwinField⟩

/-- A field of two pieces, each of which has a description of its own. -/
def pairEntries : List RegisterEntry :=
  [⟨"0x1", some "RW", [⟨"GAIN[15:8][7:0]", ⟨0, 7⟩, some "upper byte", none⟩]⟩,
    ⟨"0x2", some "R", [⟨"GAIN[7:0][11:4]", ⟨4, 11⟩, some "lower byte", some (.inline .signed)⟩]⟩]

def pairField (description : String) : Field :=
  ⟨"GAIN", some description, .readOnly, .concatenated [⟨2, ⟨4, 11⟩, 0⟩, ⟨1, ⟨0, 7⟩, 8⟩], .signed⟩

def pairMap (description : String) : RegisterMap where
  width := .w16
  registers := SortedMap.ofList [
    (1, ⟨1, .readWrite, [⟨"GAIN", ⟨0, 7⟩, some "upper byte"⟩]⟩),
    (2, ⟨2, .readOnly, [⟨"GAIN", ⟨4, 11⟩, some "lower byte"⟩]⟩)]
  fields := SortedMap.ofList [("GAIN", pairField description)]

theorem compile_perm_pairEntries :
    (∃ twin, compile pairEntries.reverse .w16 ∅ = .ok twin) ∧
      (pairField "upper byte").Alike (pairField "lower byte") ∧
      firstDescription? pairEntries "GAIN" = some (some "upper byte") ∧
      firstDescription? pairEntries.reverse "GAIN" = some (some "lower byte") := by
  have hperm : pairEntries ~ pairEntries.reverse := (List.reverse_perm _).symm
  have hcompile : compile pairEntries .w16 ∅ = .ok (pairMap "upper byte") := by decide +kernel
  have hreverse : compile pairEntries.reverse .w16 ∅ = .ok (pairMap "lower byte") := by
    decide +kernel
  obtain ⟨hexists, hmaps⟩ := compile_perm hperm .w16 ∅
  obtain ⟨-, -, -, hfields⟩ := hmaps _ _ hcompile hreverse
  exact ⟨hexists.1 ⟨_, hcompile⟩, hfields "GAIN" _ _ rfl rfl⟩

end RegisterMap

end ChipConfig
