import ChipConfig.Proofs.RegisterMap.Building
import ChipConfig.Proofs.RegisterMap.Order
import ChipConfig.Proofs.Text.ByteOrder

/-!
# The first entry that is refused

A description is read entry by entry, and reading stops at the first entry that is refused.  What
follows such an entry does not matter any more, and none of the entries before it is refused.  A
field with a gap is not the fault of one entry: it is found when all entries have been read, and
then the first such field is reported, by the bytes of the names.
-/

namespace ChipConfig

open Fallible (FailsOnly)

/-- Whether an error says that a field has a gap. -/
def DescriptionError.isGap : DescriptionError → Bool
  | fieldGap _ => true
  | _ => false

/-- Whether an error is the fault of an entry.  Only a gap is not: a later entry could fill it. -/
def DescriptionError.BlamesEntry (cause : DescriptionError) : Prop :=
  cause.isGap = false

theorem DescriptionError.not_blamesEntry_fieldGap (name : String) :
    ¬(fieldGap name).BlamesEntry :=
  Bool.noConfusion

namespace FieldDraft

theorem failsOnly_agreeOn (field : String) (known given : Option Interpretation) :
    FailsOnly DescriptionError.BlamesEntry (agreeOn field known given) := by
  unfold agreeOn
  split
  · exact .ok _
  · exact .ok _
  · split
    · exact .ok _
    · exact .error rfl

theorem failsOnly_addPiece (draft : FieldDraft) (field : String) (mode : AccessMode)
    (register : Address) (entry : FieldEntry) (fieldBits : BitRange)
    (interpretation : Option Interpretation) :
    FailsOnly DescriptionError.BlamesEntry
      (draft.addPiece field mode register entry fieldBits interpretation) := by
  unfold addPiece
  split
  · exact .error rfl
  · exact .guard rfl (.bind (failsOnly_agreeOn _ _ _) fun _ ↦ .ok _)

end FieldDraft

namespace RegisterMap

variable {width : Width} {registry : InterpretationRegistry}

theorem failsOnly_addressOf (text : String) :
    FailsOnly DescriptionError.BlamesEntry (addressOf text) := by
  unfold addressOf
  simp only
  split
  · exact .ok _
  · exact .error rfl

theorem failsOnly_modeOf (address : Address) (text? : Option String) :
    FailsOnly DescriptionError.BlamesEntry (modeOf address text?) := by
  unfold modeOf
  split
  · exact .error rfl
  · split
    · exact .ok _
    · exact .error rfl

theorem failsOnly_lengthOf (address : Address) (bits : BitRange) :
    FailsOnly DescriptionError.BlamesEntry (lengthOf width address bits) := by
  unfold lengthOf
  split
  · exact .ok _
  · exact .error rfl

theorem failsOnly_nameOf (text : String) :
    FailsOnly DescriptionError.BlamesEntry (nameOf text) := by
  unfold nameOf
  split
  · exact .ok _
  · exact .error rfl

theorem failsOnly_checkBracket (field : String) (length : Nat) (range? : Option BitRange) :
    FailsOnly DescriptionError.BlamesEntry (checkBracket field length range?) := by
  unfold checkBracket
  split
  · exact .ok _
  · split
    · exact .ok _
    · exact .error rfl

theorem failsOnly_checkFieldBits (field : String) (range : BitRange) :
    FailsOnly DescriptionError.BlamesEntry (checkFieldBits field range) := by
  unfold checkFieldBits
  split
  · exact .ok _
  · exact .error rfl

theorem failsOnly_resolve (field : String) (ref? : Option InterpretationRef) :
    FailsOnly DescriptionError.BlamesEntry (resolve registry field ref?) := by
  have hinline (interpretation : Interpretation) : FailsOnly DescriptionError.BlamesEntry
      (resolve registry field (some (.inline interpretation))) := by
    simp only [resolve, bind, Except.bind]
    split
    · exact .ok _
    · exact .error rfl
  cases ref? with
  | none => exact .ok _
  | some ref =>
    cases ref with
    | inline interpretation => exact hinline interpretation
    | named name =>
      cases hget : registry.get? name with
      | none =>
        simp only [resolve, hget, bind, Except.bind]
        exact .error rfl
      | some interpretation =>
        rw [resolve_named hget]
        exact hinline interpretation

theorem failsOnly_placePiece (mode : AccessMode) (register : Address) (entry : FieldEntry)
    (name : FieldName) (length : Nat) (interpretation : Option Interpretation)
    (fields : SortedMap String FieldDraft) :
    FailsOnly DescriptionError.BlamesEntry
      (placePiece mode register entry name length interpretation fields) := by
  unfold placePiece
  split
  · split
    · exact .error rfl
    · exact .ok _
  · refine .bind (failsOnly_checkBracket _ _ _) fun _ ↦ ?_
    refine .bind (failsOnly_checkFieldBits _ _) fun _ ↦ ?_
    exact .bind (FieldDraft.failsOnly_addPiece _ _ _ _ _ _ _) fun _ ↦ .ok _

theorem failsOnly_addPiece (mode : AccessMode) (register : Address)
    (seen : SortedMap String FieldDraft × List FieldSlot) (entry : FieldEntry) :
    FailsOnly DescriptionError.BlamesEntry (addPiece width registry mode register seen entry) := by
  refine .bind (failsOnly_lengthOf _ _) fun _ ↦ .bind (failsOnly_nameOf _) fun _ ↦ ?_
  refine .bind (failsOnly_checkBracket _ _ _) fun _ ↦ .bind (failsOnly_resolve _ _) fun _ ↦ ?_
  exact .bind (failsOnly_placePiece _ _ _ _ _ _ _) fun _ ↦ .ok _

theorem Draft.failsOnly_add (draft : Draft) (entry : RegisterEntry) :
    FailsOnly DescriptionError.BlamesEntry (draft.add width registry entry) := by
  refine .bind (failsOnly_addressOf _) fun address ↦ .guard rfl ?_
  refine .bind (failsOnly_modeOf _ _) fun mode ↦ ?_
  exact .bind (.foldlM (fun seen piece _ ↦ failsOnly_addPiece mode address seen piece) _)
    fun _ ↦ .ok _

variable {entries : List RegisterEntry} {draft : Draft}

/-- The draft of a description all of whose entries can be read. -/
def collect (entries : List RegisterEntry) (width : Width) (registry : InterpretationRegistry) :
    Except DescriptionError Draft :=
  entries.foldlM (Draft.add width registry) Draft.empty

/-- Whether a field that has been collected is incomplete. -/
def Draft.HasGap (draft : Draft) (name : String) : Prop :=
  ∃ known, draft.fields.get? name = some known ∧ ¬known.Complete

/-- Whether the bits that the pieces of a name say they give are not those below some number. -/
def LeavesGap (entries : List RegisterEntry) (name : String) : Prop :=
  ¬∃ n, ∀ j, j < n ↔ ∃ piece ∈ (entries.flatMap RegisterEntry.fields).filter fun piece ↦
    piece.base? = some name, piece.GivesBit j

/-- Which fields have a gap can be told from the pieces of their names. -/
theorem hasGap_iff_of_collect (h : collect entries width registry = .ok draft) (name : String) :
    draft.HasGap name ↔ LeavesGap entries name := by
  obtain ⟨hentries, -, hrun, -⟩ := Draft.foldlM_add_eq_ok_iff.1 h
  have hpieces : ∀ placed ∈ placedPieces entries name, placed.entry.WellFormed width registry :=
    wellFormed_of_mem_placedPieces fun entry hentry ↦ (hentries entry hentry).1
  have hplaced : (placedPieces entries name).map PlacedEntry.entry =
      (entries.flatMap RegisterEntry.fields).filter fun piece ↦ piece.base? = some name :=
    map_entry_filter_base (fun entry hentry ↦ (hentries entry hentry).1.pieces) name
  have hcomplete : (∀ known, draft.fields.get? name = some known → known.Complete) ↔
      ∃ n, ∀ j, j < n ↔ ∃ piece ∈ placedPieces entries name, piece.entry.GivesBit j := by
    have hknown := SortedMap.updateEntry_of_foldlM_update hrun name
    rcases PlacedEntry.gathers_of_updateEntry hpieces hknown with
      ⟨placed, hsingle, hplain, hdraft⟩ | ⟨hgathers, -⟩
    · -- A piece without annotation says nothing about bits, and its field is complete.
      refine iff_of_true (fun known hsome ↦ ?_) ⟨0, fun j ↦ ?_⟩
      · rw [hdraft] at hsome
        rw [← Option.some.inj hsome]
        exact PlacedEntry.complete_plain (hpieces placed (by rw [hsingle]; exact .head _))
      · rw [hsingle]
        simp [FieldEntry.GivesBit, hplain]
    · exact hgathers.complete_iff hpieces
  have hgives (j : Nat) :
      (∃ piece ∈ (entries.flatMap RegisterEntry.fields).filter fun piece ↦
          piece.base? = some name, piece.GivesBit j) ↔
        ∃ piece ∈ placedPieces entries name, piece.entry.GivesBit j := by
    rw [← hplaced]
    simp only [List.mem_map, exists_exists_and_eq_and]
  simp only [LeavesGap, hgives, ← hcomplete, Draft.HasGap, not_forall, exists_prop]

/-- Finishing the fields fails for the first of them that has a gap. -/
theorem foldlM_finishField_eq_error_iff (h : collect entries width registry = .ok draft)
    {cause : DescriptionError} :
    draft.fields.toList.foldlM finishField ∅ = .error cause ↔
      ∃ name, cause = .fieldGap name ∧ draft.HasGap name ∧
        ∀ other, draft.HasGap other → ¬Text.bytes other < Text.bytes name := by
  have hfinish {name : String} {known : FieldDraft}
      (hmem : (name, known) ∈ draft.fields.toList) {cause : DescriptionError} :
      known.finish name = .error cause ↔ ¬known.Complete ∧ cause = .fieldGap name :=
    ((Draft.valid_of_foldlM h).field name known
      (SortedMap.mem_toList_iff.1 hmem)).finish_eq_error_iff
  have hrun : draft.fields.toList.foldlM finishField ∅ = .error cause ↔
      (draft.fields.toList.mapM fun entry ↦ entry.2.finish entry.1) = .error cause :=
    Fallible.foldlM_bind_pure_eq_error_iff
  have hnames : draft.fields.toList.Pairwise fun a b ↦ a.1 < b.1 :=
    draft.fields.sorted.imp compare_lt_iff_lt.1
  have hasymm : Std.Asymm fun a b : String × FieldDraft ↦ a.1 < b.1 :=
    ⟨fun _ _ hab hba ↦ lt_asymm hab hba⟩
  rw [hrun, Fallible.mapM_eq_error_iff hnames]
  constructor
  · rintro ⟨⟨name, known⟩, hmem, hfails, hearlier⟩
    obtain ⟨hgap, rfl⟩ := (hfinish hmem).1 hfails
    refine ⟨name, rfl, ⟨known, SortedMap.mem_toList_iff.1 hmem, hgap⟩, ?_⟩
    rintro other ⟨otherKnown, hget, hotherGap⟩ hbefore
    obtain ⟨field, hfield⟩ := hearlier (other, otherKnown) (SortedMap.mem_toList_iff.2 hget)
      (Text.lt_iff_bytes_lt.2 hbefore)
    exact hotherGap (FieldDraft.finish_eq_ok_iff.1 hfield).1
  · rintro ⟨name, rfl, ⟨known, hget, hgap⟩, hleast⟩
    have hmem : (name, known) ∈ draft.fields.toList := SortedMap.mem_toList_iff.2 hget
    refine ⟨(name, known), hmem, (hfinish hmem).2 ⟨hgap, rfl⟩, ?_⟩
    rintro ⟨other, otherKnown⟩ hother hbefore
    have hcomplete : otherKnown.Complete := by
      by_contra hotherGap
      exact hleast other ⟨otherKnown, SortedMap.mem_toList_iff.1 hother, hotherGap⟩
        (Text.lt_iff_bytes_lt.1 hbefore)
    exact ⟨_, FieldDraft.finish_eq_ok_iff.2 ⟨hcomplete, rfl⟩⟩

/-- A description has no map because an entry is refused, or because all can be read and a field has
a gap. -/
theorem compile_eq_error_iff {cause : DescriptionError} :
    compile entries width registry = .error cause ↔
      collect entries width registry = .error cause ∨
      ∃ draft, collect entries width registry = .ok draft ∧
        ∃ name, cause = .fieldGap name ∧ draft.HasGap name ∧
          ∀ other, draft.HasGap other → ¬Text.bytes other < Text.bytes name := by
  have hrun : compile entries width registry = .error cause ↔
      collect entries width registry = .error cause ∨
      ∃ draft, collect entries width registry = .ok draft ∧
        draft.fields.toList.foldlM finishField ∅ = .error cause := by
    unfold compile
    rw [Fallible.bind_eq_error_iff]
    simp only [Fallible.bind_pure_eq_error_iff, collect]
  rw [hrun]
  exact or_congr_right (exists_congr fun draft ↦
    and_congr_right fun h ↦ foldlM_finishField_eq_error_iff h)

/-! ## The first entry that is refused -/

theorem blamesEntry_of_collect {cause : DescriptionError}
    (h : collect entries width registry = .error cause) : cause.BlamesEntry :=
  FailsOnly.foldlM (fun draft entry _ ↦ draft.failsOnly_add entry) Draft.empty cause h

/-- An error that is the fault of an entry turns up when the entries are read. -/
theorem compile_eq_error_iff_collect {cause : DescriptionError} (hcause : cause.BlamesEntry) :
    compile entries width registry = .error cause ↔
      collect entries width registry = .error cause := by
  rw [compile_eq_error_iff]
  refine or_iff_left ?_
  rintro ⟨-, -, name, rfl, -⟩
  exact DescriptionError.not_blamesEntry_fieldGap name hcause

/-- A gap is reported if all entries can be read and the field is the first one that has a gap. -/
theorem compile_eq_fieldGap_iff {name : String} :
    compile entries width registry = .error (.fieldGap name) ↔
      (∃ draft, collect entries width registry = .ok draft) ∧ LeavesGap entries name ∧
        ∀ other, LeavesGap entries other → ¬Text.bytes other < Text.bytes name := by
  have hread : collect entries width registry ≠ .error (.fieldGap name) :=
    fun h ↦ DescriptionError.not_blamesEntry_fieldGap name (blamesEntry_of_collect h)
  rw [compile_eq_error_iff, or_iff_right hread, ← exists_and_right]
  refine exists_congr fun draft ↦ and_congr_right fun h ↦ ?_
  simp only [DescriptionError.fieldGap.injEq, exists_eq_left', hasGap_iff_of_collect h]

/-- Whether no entry of a description is refused: it has a map, or only a field has a gap. -/
def Readable (entries : List RegisterEntry) (width : Width) (registry : InterpretationRegistry) :
    Prop :=
  (∃ map, compile entries width registry = .ok map) ∨
    ∃ name, compile entries width registry = .error (.fieldGap name)

theorem readable_of_collect (h : collect entries width registry = .ok draft) :
    Readable entries width registry := by
  cases hcompile : compile entries width registry with
  | ok map => exact .inl ⟨map, hcompile⟩
  | error cause =>
    rcases compile_eq_error_iff.1 hcompile with hread | ⟨-, -, name, rfl, -⟩
    · rw [hread] at h
      cases h
    · exact .inr ⟨name, hcompile⟩

/-- Whether a description is refused at its first entries, of a given number, and not before. -/
structure FirstRefusal (entries : List RegisterEntry) (width : Width)
    (registry : InterpretationRegistry) (cause : DescriptionError) (n : Nat) : Prop where
  le : n ≤ entries.length
  refused : compile (entries.take n) width registry = .error cause
  earlier : ∀ m < n, Readable (entries.take m) width registry

theorem FirstRefusal.le_of_refused {cause : DescriptionError} (hcause : cause.BlamesEntry)
    {n m : Nat} (h : FirstRefusal entries width registry cause n)
    (hm : compile (entries.take m) width registry = .error cause) : n ≤ m := by
  by_contra hlt
  rcases h.earlier m (Nat.lt_of_not_le hlt) with ⟨map, hmap⟩ | ⟨name, hname⟩
  · rw [hm] at hmap
    cases hmap
  · rw [hm] at hname
    rw [Except.error.inj hname] at hcause
    exact DescriptionError.not_blamesEntry_fieldGap name hcause

theorem exists_firstRefusal {cause : DescriptionError}
    (h : collect entries width registry = .error cause) :
    ∃ n, FirstRefusal entries width registry cause n := by
  have hcause := blamesEntry_of_collect h
  obtain ⟨before, entry, after, reached, rfl, hbefore, hentry⟩ := Fallible.foldlM_eq_error_iff.1 h
  -- The entry at fault is the last one of the prefix, so that shorter prefixes lie before it.
  refine ⟨before.length + 1, by simp, ?_, fun m hm ↦ ?_⟩
  · have htake : (before ++ entry :: after).take (before.length + 1) = before ++ [entry] := by
      rw [List.take_length_add_append]
      rfl
    rw [htake, compile_eq_error_iff_collect hcause]
    exact Fallible.foldlM_eq_error_iff.2 ⟨before, entry, [], reached, rfl, hbefore, hentry⟩
  · rw [List.take_append_of_le_length (Nat.le_of_lt_succ hm)]
    rw [← List.take_append_drop m before, List.foldlM_append, Fallible.bind_eq_ok_iff] at hbefore
    obtain ⟨draft, hdraft, -⟩ := hbefore
    exact readable_of_collect hdraft

/-- The first entry that is refused is reported, and a gap only if no entry is.  Put together from
builders, a description gives the same result. -/
theorem compile_reports_first_refusal (entries : List RegisterEntry) (width : Width)
    (registry : InterpretationRegistry) :
    (∀ cause : DescriptionError, cause.BlamesEntry →
      compile entries width registry = .error cause →
        (∀ more, compile (entries ++ more) width registry = .error cause) ∧
        ∃! n, FirstRefusal entries width registry cause n) ∧
    (∀ name, compile entries width registry = .error (.fieldGap name) ↔
      (∃ draft, collect entries width registry = .ok draft) ∧ LeavesGap entries name ∧
        ∀ other, LeavesGap entries other → ¬Text.bytes other < Text.bytes name) ∧
    build entries width registry = compile entries width registry ∧
    ∀ builders, entries.foldlM (Builders.add width registry) Builders.empty = .ok builders →
      ∀ name builder, builders.fields.get? name = some builder →
        (∃ field, builder.finish name = .ok field) ∨
          builder.finish name = .error (.fieldGap name) := by
  refine ⟨fun cause hcause h ↦ ?_, fun name ↦ compile_eq_fieldGap_iff,
    build_eq_compile entries width registry, fun builders h name builder ↦ finish_of_foldlM_add h⟩
  have hread := (compile_eq_error_iff_collect hcause).1 h
  refine ⟨fun more ↦ ?_, ?_⟩
  · apply (compile_eq_error_iff_collect hcause).2
    exact Fallible.foldlM_append_eq_error hread more
  · obtain ⟨n, hn⟩ := exists_firstRefusal hread
    refine ⟨n, hn, fun m hm ↦ ?_⟩
    exact Nat.le_antisymm (hm.le_of_refused hcause hn.refused) (hn.le_of_refused hcause hm.refused)

/-- A field of which only the second bit is given. -/
def gappedEntries : List RegisterEntry :=
  [⟨"0x5", some "RW", [⟨"A[1][0]", ⟨0, 0⟩, none, none⟩]⟩]

def repeatedEntries : List RegisterEntry :=
  gappedEntries ++ [⟨"5", some "R", []⟩]

theorem compile_reports_first_refusal_repeatedEntries :
    ((∀ more, compile (repeatedEntries ++ more) .w16 ∅ = .error (.duplicateRegister 5)) ∧
      ∃! n, FirstRefusal repeatedEntries .w16 ∅ (.duplicateRegister 5) n) ∧
    (LeavesGap gappedEntries "A" ∧ build gappedEntries .w16 ∅ = .error (.fieldGap "A")) ∧
    ∃ builders builder,
      gappedEntries.foldlM (Builders.add .w16 ∅) Builders.empty = .ok builders ∧
        builders.fields.get? "A" = some builder ∧
        ((∃ field, builder.finish "A" = .ok field) ∨
          builder.finish "A" = .error (.fieldGap "A")) := by
  obtain ⟨hrefused, -⟩ := compile_reports_first_refusal repeatedEntries .w16 ∅
  obtain ⟨-, hgap, hbuild, hfinish⟩ := compile_reports_first_refusal gappedEntries .w16 ∅
  have hrepeated : compile repeatedEntries .w16 ∅ = .error (.duplicateRegister 5) := by
    decide +kernel
  have hgapped : compile gappedEntries .w16 ∅ = .error (.fieldGap "A") := by decide +kernel
  have hbuilders : ((gappedEntries.foldlM (Builders.add .w16 ∅) Builders.empty).toOption.bind
      fun builders ↦ builders.fields.get? "A").isSome = true := by decide +kernel
  refine ⟨hrefused _ rfl hrepeated, ⟨((hgap "A").1 hgapped).2.1, hbuild.trans hgapped⟩, ?_⟩
  cases hrun : gappedEntries.foldlM (Builders.add .w16 ∅) Builders.empty with
  | error cause =>
    rw [hrun] at hbuilders
    cases hbuilders
  | ok builders =>
    rw [hrun] at hbuilders
    obtain ⟨builder, hbuilder⟩ := Option.isSome_iff_exists.1 hbuilders
    exact ⟨builders, builder, rfl, hbuilder, hfinish builders hrun "A" builder hbuilder⟩

end RegisterMap

end ChipConfig
