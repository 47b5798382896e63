import ChipConfig.Proofs.Lockstep
import ChipConfig.Proofs.RegisterMap.Compile

/-!
# Fields that are built piece by piece

A draft keeps the fragments of a field in the order of their offsets and works out anew which bits
they give.  A builder only appends each fragment and keeps the mask of the bits that have been given
so far; the fragments are put in order once, when the field is finished.  Finishing has three ways
to fail here: the field is too wide, has a gap, or has no piece at all.  Both ways compile a
description to the same result, and of the three failures only the gap can happen.
-/

namespace ChipConfig

open scoped List

/-- A field while its pieces are collected. -/
structure FieldBuilder where
  /-- Whether the pieces say which bits of the field they give. -/
  concatenated : Bool
  mode : AccessMode
  description : Option String
  interpretation : Option Interpretation
  /-- The fragments in the order in which their pieces turned up. -/
  fragments : List Fragment
  occupied : Word

namespace FieldBuilder

def plain (mode : AccessMode) (register : Address) (entry : FieldEntry) (length : Nat)
    (interpretation : Option Interpretation) : FieldBuilder :=
  ⟨false, mode, entry.description, interpretation, [⟨register, entry.bits, 0⟩],
    Word.lowMask length⟩

def start (mode : AccessMode) (entry : FieldEntry) : FieldBuilder :=
  ⟨true, mode, entry.description, none, [], 0⟩

/-- Appends a piece that gives the bits of the field from `fieldBits.low` on. -/
def addPiece (builder : FieldBuilder) (field : String) (mode : AccessMode) (register : Address)
    (entry : FieldEntry) (fieldBits : BitRange) (interpretation : Option Interpretation) :
    Except DescriptionError FieldBuilder := do
  if ¬builder.concatenated then
    throw (.duplicateField field)
  let fragment : Fragment := ⟨register, entry.bits, fieldBits.low⟩
  if builder.occupied &&& fragment.fieldMask ≠ 0 then
    throw (.overlappingFragment field fieldBits)
  let interpretation ← FieldDraft.agreeOn field builder.interpretation interpretation
  return { builder with
    mode := builder.mode.meet mode
    interpretation
    fragments := builder.fragments ++ [fragment]
    occupied := builder.occupied ||| fragment.fieldMask }

def byOffset (fragments : List Fragment) : List Fragment :=
  fragments.mergeSort fun a b ↦ a.offset ≤ b.offset

/-- The layout of the finished field.  A field without annotations takes its last fragment. -/
def layout (builder : FieldBuilder) (name : String) : Except DescriptionError FieldLayout :=
  if builder.concatenated then
    .ok (.concatenated (byOffset builder.fragments))
  else
    match (byOffset builder.fragments).getLast? with
    | some fragment => .ok (.single fragment)
    | none => .error (.malformedFieldName name)

def finish (builder : FieldBuilder) (name : String) : Except DescriptionError Field := do
  let total := Fragment.totalLength (byOffset builder.fragments)
  if 64 < total then
    throw (.fieldTooWide name total)
  if builder.occupied ≠ Word.lowMask total then
    throw (.fieldGap name)
  let layout ← builder.layout name
  return {
    name
    description := builder.description
    mode := builder.mode
    layout
    interpretation := builder.interpretation.getD .identity }

end FieldBuilder

namespace RegisterMap

/-- What has been collected of a description. -/
structure Builders where
  registers : SortedMap Address RegisterInfo
  fields : SortedMap String FieldBuilder

namespace Builders

def empty : Builders :=
  ⟨∅, ∅⟩

def placePiece (mode : AccessMode) (register : Address) (entry : FieldEntry) (name : FieldName)
    (length : Nat) (interpretation : Option Interpretation)
    (fields : SortedMap String FieldBuilder) :
    Except DescriptionError (SortedMap String FieldBuilder) :=
  match name.fieldBits with
  | none =>
    if fields.contains name.base then
      .error (.duplicateField name.base)
    else
      .ok (fields.insert name.base (.plain mode register entry length interpretation))
  | some range => do
    checkBracket name.base length (some range)
    checkFieldBits name.base range
    let builder := (fields.get? name.base).getD (.start mode entry)
    let builder ← builder.addPiece name.base mode register entry range interpretation
    return fields.insert name.base builder

def addPiece (width : Width) (registry : InterpretationRegistry) (mode : AccessMode)
    (register : Address) (seen : SortedMap String FieldBuilder × List FieldSlot)
    (entry : FieldEntry) :
    Except DescriptionError (SortedMap String FieldBuilder × List FieldSlot) := do
  let length ← lengthOf width register entry.bits
  let name ← nameOf entry.name
  checkBracket name.base length name.registerBits
  let interpretation ← resolve registry name.base entry.interpretation
  let fields ← placePiece mode register entry name length interpretation seen.1
  return (fields, seen.2 ++ [⟨name.base, entry.bits, entry.description⟩])

def add (width : Width) (registry : InterpretationRegistry) (builders : Builders)
    (entry : RegisterEntry) : Except DescriptionError Builders := do
  let address ← addressOf entry.address
  if builders.registers.contains address then
    throw (.duplicateRegister address)
  let mode ← modeOf address entry.mode
  let (fields, slots) ←
    entry.fields.foldlM (addPiece width registry mode address) (builders.fields, [])
  return ⟨builders.registers.insert address ⟨address, mode, slots⟩, fields⟩

def finishField (fields : SortedMap String Field) (entry : String × FieldBuilder) :
    Except DescriptionError (SortedMap String Field) := do
  let field ← entry.2.finish entry.1
  return fields.insert entry.1 field

end Builders

/-- The map of a description, made with builders in place of drafts. -/
def build (entries : List RegisterEntry) (width : Width) (registry : InterpretationRegistry) :
    Except DescriptionError RegisterMap := do
  let builders ← entries.foldlM (Builders.add width registry) Builders.empty
  let fields ← builders.fields.toList.foldlM Builders.finishField ∅
  return ⟨width, builders.registers, fields⟩

end RegisterMap

namespace FieldBuilder

/-- Whether the fragments of a builder are those of a layout, in whatever order. -/
inductive ArrangedAs : Bool → List Fragment → FieldLayout → Prop
  | single (fragment : Fragment) : ArrangedAs false [fragment] (.single fragment)
  | concatenated {fragments sorted : List Fragment} (hperm : fragments ~ sorted) :
    ArrangedAs true fragments (.concatenated sorted)

/-- Whether a builder holds what a draft holds. -/
structure Represents (builder : FieldBuilder) (draft : FieldDraft) : Prop where
  mode : builder.mode = draft.mode
  description : builder.description = draft.description
  interpretation : builder.interpretation = draft.interpretation
  arranged : ArrangedAs builder.concatenated builder.fragments draft.layout
  occupied : builder.occupied = FieldDraft.occupied draft.layout.fragments

@[simp]
theorem occupied_insertByOffset (fragment : Fragment) (fragments : List Fragment) :
    FieldDraft.occupied (FieldDraft.insertByOffset fragment fragments) =
      FieldDraft.occupied fragments ||| fragment.fieldMask := by
  apply BitVec.eq_of_getLsbD_eq
  intro j _
  rw [BitVec.getLsbD_or, Fragment.getLsbD_occupied, Fragment.getLsbD_occupied,
    Fragment.getLsbD_fieldMask, Bool.eq_iff_iff]
  simp only [(FieldDraft.insertByOffset_perm fragment fragments).mem_iff,
    List.exists_mem_cons_iff, Bool.or_eq_true, decide_eq_true_eq, ← or_and_right]
  rw [or_comm]

theorem represents_plain (mode : AccessMode) (register : Address) (entry : FieldEntry)
    (interpretation : Option Interpretation) :
    (plain mode register entry entry.bits.length interpretation).Represents
      (.plain mode register entry interpretation) where
  mode := rfl
  description := rfl
  interpretation := rfl
  arranged := .single _
  occupied := by
    change Word.lowMask entry.bits.length = 0 ||| Word.lowMask entry.bits.length <<< 0
    simp

theorem represents_start (mode : AccessMode) (entry : FieldEntry) :
    (start mode entry).Represents (.start mode entry) where
  mode := rfl
  description := rfl
  interpretation := rfl
  arranged := .concatenated (.refl [])
  occupied := rfl

variable {builder : FieldBuilder} {draft : FieldDraft}

/-- A builder and a draft take in the same pieces. -/
theorem Represents.addPiece (h : builder.Represents draft) (field : String) (mode : AccessMode)
    (register : Address) (entry : FieldEntry) (fieldBits : BitRange)
    (interpretation : Option Interpretation) :
    Fallible.Lockstep Represents
      (builder.addPiece field mode register entry fieldBits interpretation)
      (draft.addPiece field mode register entry fieldBits interpretation) := by
  obtain ⟨concatenated, seenMode, description, known, fragments, occupied⟩ := builder
  obtain ⟨draftMode, draftDescription, draftKnown, layout⟩ := draft
  obtain ⟨rfl, rfl, rfl, harranged, hoccupied⟩ := h
  dsimp only at harranged hoccupied
  subst hoccupied
  cases harranged with
  | single fragment => exact .error _
  | @concatenated _ sorted hperm =>
    have hchecked : ¬¬(true : Bool) = true := not_not_intro rfl
    unfold FieldBuilder.addPiece FieldDraft.addPiece
    rw [if_neg hchecked]
    refine .guard Iff.rfl _ ?_
    refine .bind_same _ fun agreed _ ↦ .ok ?_
    refine ⟨rfl, rfl, rfl, .concatenated ?_, (occupied_insertByOffset _ _).symm⟩
    calc fragments ++ [_] ~ _ :: fragments := List.perm_append_singleton _ _
      _ ~ _ :: sorted := hperm.cons _
      _ ~ _ := (FieldDraft.insertByOffset_perm _ _).symm

/-- Fragments that do not overlap have one order of their offsets. -/
theorem byOffset_eq {fragments sorted : List Fragment} (hperm : fragments ~ sorted)
    (hbefore : sorted.Pairwise Fragment.Before) : byOffset fragments = sorted := by
  have hle : sorted.Pairwise fun a b ↦ a.offset ≤ b.offset :=
    hbefore.imp fun hab ↦ (Nat.le_add_right _ _).trans hab
  have hsorted : (byOffset fragments).Pairwise fun a b ↦ a.offset ≤ b.offset := by
    have hpairwise : (byOffset fragments).Pairwise fun a b ↦ decide (a.offset ≤ b.offset) = true :=
      List.pairwise_mergeSort (by simpa using fun a b c : Fragment ↦ Nat.le_trans)
        (by simpa using fun a b : Fragment ↦ Nat.le_total a.offset b.offset) fragments
    exact hpairwise.imp of_decide_eq_true
  have hmerge : byOffset fragments ~ sorted := (List.mergeSort_perm _ _).trans hperm
  -- Two fragments that do not overlap start at different offsets.
  have hdistinct : sorted.Pairwise fun a b ↦ a.offset = b.offset → a = b := by
    refine hbefore.imp fun {a b} hab heq ↦ ?_
    have hlength := a.length_pos
    unfold Fragment.Before at hab
    omega
  have hsymm : Std.Symm fun a b : Fragment ↦ a.offset = b.offset → a = b :=
    ⟨fun _ _ h heq ↦ (h heq.symm).symm⟩
  refine hmerge.eq_of_pairwise (fun a b ha hb hab hba ↦ ?_) hsorted hle
  exact hdistinct.forall_of_forall (fun _ _ _ ↦ rfl) (hmerge.mem_iff.1 ha) hb
    (Nat.le_antisymm hab hba)

/-- A builder is finished as the draft is whose pieces it holds. -/
theorem Represents.finish_eq (h : builder.Represents draft)
    (hbefore : draft.layout.fragments.Pairwise Fragment.Before) (name : String) :
    builder.finish name = draft.finish name := by
  have hlayout : byOffset builder.fragments = draft.layout.fragments ∧
      builder.layout name = .ok draft.layout := by
    have harranged := h.arranged
    unfold FieldBuilder.layout
    generalize builder.concatenated = concatenated, builder.fragments = fragments,
      draft.layout = layout at harranged hbefore ⊢
    cases harranged with
    | single fragment =>
      have hsorted := byOffset_eq (.refl [fragment]) hbefore
      exact ⟨hsorted, by rw [hsorted]; rfl⟩
    | concatenated hperm =>
      have hsorted := byOffset_eq hperm hbefore
      exact ⟨hsorted, by rw [hsorted]; rfl⟩
  unfold FieldBuilder.finish FieldDraft.finish
  rw [hlayout.1, hlayout.2, h.occupied, h.mode, h.description, h.interpretation]
  rfl

end FieldBuilder

/-- What can go wrong when a valid draft is finished is a gap. -/
theorem FieldDraft.Valid.finish_eq_error_iff {width : Width}
    {modes : Address → Option AccessMode} {draft : FieldDraft} (hdraft : draft.Valid width modes)
    {name : String} {cause : DescriptionError} :
    draft.finish name = .error cause ↔ ¬draft.Complete ∧ cause = .fieldGap name := by
  have htotal : Fragment.totalLength draft.layout.fragments ≤ 64 := by
    obtain ⟨last, hmem, hend⟩ :=
      Fragment.exists_end_ge hdraft.ne_nil hdraft.before fun _ _ ↦ Nat.zero_le _
    have hle := hdraft.ends last hmem
    omega
  have hcomplete : draft.Complete ↔ FieldDraft.occupied draft.layout.fragments =
      Word.lowMask (Fragment.totalLength draft.layout.fragments) := and_iff_right htotal
  unfold FieldDraft.finish
  rw [if_neg (Nat.not_lt.2 htotal), hcomplete]
  by_cases hoccupied : FieldDraft.occupied draft.layout.fragments =
      Word.lowMask (Fragment.totalLength draft.layout.fragments)
  · simp [hoccupied]
  · simp [hoccupied, eq_comm]

/-! ## Whole descriptions -/

namespace RegisterMap

variable {width : Width} {registry : InterpretationRegistry}

/-- Whether builders have collected what a draft has. -/
structure Builders.Represents (builders : Builders) (draft : Draft) : Prop where
  registers : builders.registers = draft.registers
  fields : SortedMap.Related FieldBuilder.Represents builders.fields draft.fields

/-- Whether the same pieces of a register have been collected, with the same slots. -/
def SameSeen (builders : SortedMap String FieldBuilder × List FieldSlot)
    (drafts : SortedMap String FieldDraft × List FieldSlot) : Prop :=
  SortedMap.Related FieldBuilder.Represents builders.1 drafts.1 ∧ builders.2 = drafts.2

theorem lockstep_placePiece {mode : AccessMode} {register : Address} {entry : FieldEntry}
    {name : FieldName} {interpretation : Option Interpretation}
    {builders : SortedMap String FieldBuilder} {fields : SortedMap String FieldDraft}
    (h : SortedMap.Related FieldBuilder.Represents builders fields) :
    Fallible.Lockstep (SortedMap.Related FieldBuilder.Represents)
      (Builders.placePiece mode register entry name entry.bits.length interpretation builders)
      (placePiece mode register entry name entry.bits.length interpretation fields) := by
  unfold Builders.placePiece placePiece
  cases name.fieldBits with
  | none =>
    simp only [h.contains_eq]
    split
    · exact .error _
    · exact .ok (h.insert _ (FieldBuilder.represents_plain mode register entry interpretation))
  | some range =>
    refine .bind_same _ fun _ _ ↦ .bind_same _ fun _ _ ↦ ?_
    have hknown : ((builders.get? name.base).getD (.start mode entry)).Represents
        ((fields.get? name.base).getD (.start mode entry)) := by
      have hget := h.get? name.base
      generalize builders.get? name.base = builder, fields.get? name.base = draft at hget
      cases hget with
      | none => exact FieldBuilder.represents_start mode entry
      | some hsame => exact hsame
    exact (hknown.addPiece _ _ _ _ _ _).bind fun builder draft hsame ↦ .ok (h.insert _ hsame)

theorem lockstep_addPiece {mode : AccessMode} {register : Address}
    {builders : SortedMap String FieldBuilder × List FieldSlot}
    {drafts : SortedMap String FieldDraft × List FieldSlot} (entry : FieldEntry)
    (h : SameSeen builders drafts) :
    Fallible.Lockstep SameSeen (Builders.addPiece width registry mode register builders entry)
      (addPiece width registry mode register drafts entry) := by
  refine .bind_same _ fun length hlength ↦ .bind_same _ fun name _ ↦ ?_
  obtain ⟨-, rfl⟩ := lengthOf_eq_ok_iff.1 hlength
  refine .bind_same _ fun _ _ ↦ .bind_same _ fun interpretation _ ↦ ?_
  refine (lockstep_placePiece h.1).bind fun fields others hfields ↦ .ok ⟨hfields, ?_⟩
  exact congrArg (· ++ _) h.2

theorem Builders.Represents.add {builders : Builders} {draft : Draft}
    (h : builders.Represents draft) (entry : RegisterEntry) :
    Fallible.Lockstep Builders.Represents (builders.add width registry entry)
      (draft.add width registry entry) := by
  refine .bind_same _ fun address _ ↦ .guard (by rw [h.registers]) _ ?_
  refine .bind_same _ fun mode _ ↦ ?_
  have hstart : SameSeen (builders.fields, []) (draft.fields, []) := ⟨h.fields, rfl⟩
  refine (Fallible.Lockstep.foldlM (fun _ _ piece ↦ lockstep_addPiece piece) entry.fields
    hstart).bind fun seen others hseen ↦ .ok ⟨?_, hseen.1⟩
  rw [h.registers, hseen.2]

theorem lockstep_foldlM_add (entries : List RegisterEntry) :
    Fallible.Lockstep Builders.Represents
      (entries.foldlM (Builders.add width registry) Builders.empty)
      (entries.foldlM (Draft.add width registry) Draft.empty) :=
  .foldlM (fun _ _ entry h ↦ h.add entry) entries ⟨rfl, SortedMap.related_empty⟩

/-- A builder that has collected its pieces is finished like their draft. -/
theorem finish_eq_of_represents {entries : List RegisterEntry} {draft : Draft}
    (h : entries.foldlM (Draft.add width registry) Draft.empty = .ok draft) {name : String}
    {builder : FieldBuilder} {known : FieldDraft} (hknown : (name, known) ∈ draft.fields.toList)
    (hsame : builder.Represents known) : builder.finish name = known.finish name :=
  hsame.finish_eq
    ((Draft.valid_of_foldlM h).field name known (SortedMap.mem_toList_iff.1 hknown)).before name

/-- Builders and drafts compile a description to the same result. -/
theorem build_eq_compile (entries : List RegisterEntry) (width : Width)
    (registry : InterpretationRegistry) :
    build entries width registry = compile entries width registry := by
  have hrun : Fallible.Lockstep Builders.Represents
      (entries.foldlM (Builders.add width registry) Builders.empty)
      (entries.foldlM (Draft.add width registry) Draft.empty) := lockstep_foldlM_add entries
  unfold build compile
  cases hdraft : entries.foldlM (Draft.add width registry) Draft.empty with
  | error cause =>
    rw [hdraft] at hrun
    generalize entries.foldlM (Builders.add width registry) Builders.empty = result at hrun ⊢
    cases hrun
    rfl
  | ok draft =>
    rw [hdraft] at hrun
    generalize entries.foldlM (Builders.add width registry) Builders.empty = result at hrun ⊢
    cases hrun with
    | @ok builders _ hsame =>
      have hfinish : builders.fields.toList.foldlM Builders.finishField ∅ =
          draft.fields.toList.foldlM finishField ∅ := by
        refine Fallible.foldlM_eq_of_forall₂ hsame.fields ?_ ∅
        rintro ⟨_, builder⟩ ⟨name, known⟩ hknown ⟨rfl, hrepresents⟩ fields
        rw [Builders.finishField, finish_eq_of_represents hdraft hknown hrepresents]
        rfl
      change builders.fields.toList.foldlM Builders.finishField ∅ >>= _ =
        draft.fields.toList.foldlM finishField ∅ >>= _
      rw [hfinish, hsame.registers]

/-- A builder that has collected its pieces becomes a field, or the field has a gap.  It is never
too wide, and it always has a piece. -/
theorem finish_of_foldlM_add {entries : List RegisterEntry} {builders : Builders}
    (h : entries.foldlM (Builders.add width registry) Builders.empty = .ok builders) {name : String}
    {builder : FieldBuilder} (hbuilder : builders.fields.get? name = some builder) :
    (∃ field, builder.finish name = .ok field) ∨ builder.finish name = .error (.fieldGap name) := by
  obtain ⟨draft, hdraft, hsame⟩ := (lockstep_foldlM_add entries).exists_ok h
  have hget := hsame.fields.get? name
  rw [hbuilder] at hget
  generalize hknown : draft.fields.get? name = known at hget
  cases hget with
  | @some _ known hrepresents =>
    have hvalid := (Draft.valid_of_foldlM hdraft).field name known hknown
    rw [hrepresents.finish_eq hvalid.before]
    cases hfinish : known.finish name with
    | ok field => exact .inl ⟨field, rfl⟩
    | error cause =>
      obtain ⟨-, rfl⟩ := hvalid.finish_eq_error_iff.1 hfinish
      exact .inr rfl

end RegisterMap

end ChipConfig
