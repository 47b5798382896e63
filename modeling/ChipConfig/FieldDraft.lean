import ChipConfig.Description

/-!
# Field drafts

While a description is read, the pieces of a field turn up one by one and in any order.  A draft
holds the pieces seen so far; when all have been seen it becomes a field, if the pieces cover the
bits from 0 on without a gap.
-/

namespace ChipConfig

/-- A field some of whose pieces may still be missing. -/
structure FieldDraft where
  /-- What all registers seen so far allow. -/
  mode : AccessMode
  /-- The description given with the first piece. -/
  description : Option String
  interpretation : Option Interpretation
  layout : FieldLayout
deriving DecidableEq

namespace FieldDraft

/-- Puts a fragment before the first one with a larger offset. -/
def insertByOffset (fragment : Fragment) : List Fragment → List Fragment
  | [] => [fragment]
  | head :: rest =>
    if fragment.offset < head.offset then
      fragment :: head :: rest
    else
      head :: insertByOffset fragment rest

def occupied (fragments : List Fragment) : Word :=
  fragments.foldl (fun mask fragment ↦ mask ||| fragment.fieldMask) 0

/-- The interpretation of the whole field after a piece that may give one: pieces that give one
have to agree. -/
def agreeOn (field : String) (known given : Option Interpretation) :
    Except DescriptionError (Option Interpretation) :=
  match known, given with
  | known, none => .ok known
  | none, some given => .ok (some given)
  | some known, some given =>
    if known.agrees given then .ok (some given) else .error (.conflictingInterpretation field)

/-- The draft of a field without annotations for its pieces, which is complete at once. -/
def plain (mode : AccessMode) (register : Address) (entry : FieldEntry)
    (interpretation : Option Interpretation) : FieldDraft :=
  ⟨mode, entry.description, interpretation, .single ⟨register, entry.bits, 0⟩⟩

/-- The draft of a field of several pieces before its first piece. -/
def start (mode : AccessMode) (entry : FieldEntry) : FieldDraft :=
  ⟨mode, entry.description, none, .concatenated []⟩

/-- Adds a piece that gives the bits of the field from `fieldBits.low` on. -/
def addPiece (draft : FieldDraft) (field : String) (mode : AccessMode) (register : Address)
    (entry : FieldEntry) (fieldBits : BitRange) (interpretation : Option Interpretation) :
    Except DescriptionError FieldDraft :=
  match draft.layout with
  | .single _ => .error (.duplicateField field)
  | .concatenated fragments => do
    let fragment : Fragment := ⟨register, entry.bits, fieldBits.low⟩
    if occupied fragments &&& fragment.fieldMask ≠ 0 then
      throw (.overlappingFragment field fieldBits)
    let interpretation ← agreeOn field draft.interpretation interpretation
    return {
      mode := draft.mode.meet mode
      description := draft.description
      interpretation
      layout := .concatenated (insertByOffset fragment fragments) }

def finish (draft : FieldDraft) (name : String) : Except DescriptionError Field := do
  let fragments := draft.layout.fragments
  let total := Fragment.totalLength fragments
  if 64 < total then
    throw (.fieldTooWide name total)
  if occupied fragments ≠ Word.lowMask total then
    throw (.fieldGap name)
  return {
    name
    description := draft.description
    mode := draft.mode
    layout := draft.layout
    interpretation := draft.interpretation.getD .identity }

end FieldDraft

end ChipConfig
