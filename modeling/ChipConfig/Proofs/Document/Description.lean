import ChipConfig.Document.Description
import ChipConfig.Proofs.Document.BitMap
import ChipConfig.Proofs.Document.Interpretation

/-!
# Description documents are read as they are written

A description can be written as a document and is read back from it, member by member: numbers and
texts keep apart, what is missing is written as null and is missing again, and the interpretation of
a field is a name or a record.  So writing a document that has been read changes nothing but its
spelling, and writing it again changes nothing at all.
-/

namespace ChipConfig

namespace Document

theorem writable_ofOptionalText (text : Option String) : (ofOptionalText text).Writable := by
  cases text with
  | none => exact .null
  | some text => exact writable_ofText text

@[simp]
theorem optionalText?_ofOptionalText (text : Option String) :
    optionalText? (some (ofOptionalText text)) = some text := by
  cases text with
  | none => rfl
  | some text => exact congrArg (Option.map some) (text?_ofText text)

end Document

namespace Quantity

theorem writable_toJson (quantity : Quantity) : quantity.toJson.Writable := by
  cases quantity with
  | number n => exact Document.writable_ofNat n.toNat
  | text t => exact Document.writable_ofText t

@[simp]
theorem ofJson?_toJson (quantity : Quantity) : ofJson? quantity.toJson = some quantity := by
  cases quantity with
  | number n =>
    have hnumber : Document.natural? UInt64.size (Document.ofNat n.toNat) = some n.toNat :=
      Document.natural?_ofNat n.isLt
    refine (congrArg (Option.map fun n ↦ number (BitVec.ofNat 64 n)) hnumber).trans ?_
    rw [Option.map_some, BitVec.ofNat_toNat, BitVec.setWidth_eq]
  | text t => exact congrArg (Option.map text) (Document.text?_ofText t)

end Quantity

namespace FieldDoc

/-- Whether the interpretation of a field is not one that scales numbers. -/
def IsLinearFree (field : FieldDoc) : Prop :=
  ∀ ref ∈ field.interpretation, ref.isLinear = false

instance : DecidablePred IsLinearFree := fun _ ↦
  inferInstanceAs (Decidable (∀ ref ∈ _, _))

def interpretationJson (interpretation : Option InterpretationRefDoc) : Json :=
  (interpretation.map InterpretationRefDoc.toJson).getD .null

variable {field : FieldDoc}

theorem writable_interpretationJson (h : field.IsLinearFree) :
    (interpretationJson field.interpretation).Writable := by
  unfold IsLinearFree at h
  cases href : field.interpretation with
  | none => exact .null
  | some ref => exact InterpretationRefDoc.writable_toJson (h ref href)

theorem interpretation?_interpretationJson (h : field.IsLinearFree) :
    interpretation? (some (interpretationJson field.interpretation)) =
      some field.interpretation := by
  unfold IsLinearFree at h
  cases hinterpretation : field.interpretation with
  | none => rfl
  | some ref =>
    have hdepth : interpretationDepth = 120 + 2 := rfl
    have hread := congrArg (Option.map some)
      (InterpretationRefDoc.ofJson?_toJson (h ref hinterpretation) 120)
    rw [← hdepth] at hread
    -- neither a name nor a record is taken for null
    cases ref with
    | named name => exact hread
    | inline interpretation => cases interpretation <;> exact hread

theorem writable_toJson (h : field.IsLinearFree) : field.toJson.Writable := by
  apply Document.writable_ofRecord
  simp only [List.forall_mem_cons]
  exact ⟨Document.writable_ofText _, field.startBit.writable_toJson, field.endBit.writable_toJson,
    Document.writable_ofOptionalText _, writable_interpretationJson h, List.forall_mem_nil _⟩

@[simp]
theorem ofJson?_toJson (h : field.IsLinearFree) : ofJson? field.toJson = some field := by
  have hrecord : Document.record?
      ["Field_Name", "Start_Bit", "End_Bit", "Field_Description", "Translation"] field.toJson =
      some [some (Document.ofText field.name), some field.startBit.toJson,
        some field.endBit.toJson, some (Document.ofOptionalText field.description),
        some (interpretationJson field.interpretation)] :=
    Document.record?_ofRecord (by simp)
  simp [ofJson?, hrecord, interpretation?_interpretationJson h]

end FieldDoc

namespace RegisterDoc

def IsLinearFree (register : RegisterDoc) : Prop :=
  ∀ field ∈ register.fields, field.IsLinearFree

instance : DecidablePred IsLinearFree := fun _ ↦
  inferInstanceAs (Decidable (∀ field ∈ _, _))

variable {register : RegisterDoc}

theorem writable_toJson (h : register.IsLinearFree) : register.toJson.Writable := by
  apply Document.writable_ofRecord
  simp only [List.forall_mem_cons]
  refine ⟨register.address.writable_toJson, Document.writable_ofOptionalText _, ?_,
    List.forall_mem_nil _⟩
  exact .list (List.forall_mem_map.2 fun field hfield ↦ FieldDoc.writable_toJson (h field hfield))

@[simp]
theorem ofJson?_toJson (h : register.IsLinearFree) : ofJson? register.toJson = some register := by
  have hrecord : Document.record? ["Address", "Mode", "Fields"] register.toJson =
      some [some register.address.toJson, some (Document.ofOptionalText register.mode),
        some (.list (register.fields.map FieldDoc.toJson))] :=
    Document.record?_ofRecord (by simp)
  have hfields : (register.fields.map FieldDoc.toJson).mapM FieldDoc.ofJson? =
      some register.fields :=
    Document.mapM_map_eq_some fun field hfield ↦ FieldDoc.ofJson?_toJson (h field hfield)
  simp [ofJson?, hrecord, fields?, Document.items?, hfields]

end RegisterDoc

namespace DescriptionDoc

def IsLinearFree (doc : DescriptionDoc) : Prop :=
  ∀ register ∈ doc.registers, register.IsLinearFree

instance : DecidablePred IsLinearFree := fun _ ↦
  inferInstanceAs (Decidable (∀ register ∈ _, _))

variable {doc : DescriptionDoc}

theorem writable_toJson (h : doc.IsLinearFree) : doc.toJson.Writable := by
  refine Document.writable_ofRecord (List.forall_mem_singleton.2 (.list ?_))
  exact List.forall_mem_map.2 fun register hregister ↦
    RegisterDoc.writable_toJson (h register hregister)

@[simp]
theorem ofJson?_toJson (h : doc.IsLinearFree) : ofJson? doc.toJson = some doc := by
  have hrecord : Document.record? ["Registers"] doc.toJson =
      some [some (.list (doc.registers.map RegisterDoc.toJson))] :=
    Document.record?_ofRecord (by simp)
  have hregisters : (doc.registers.map RegisterDoc.toJson).mapM RegisterDoc.ofJson? =
      some doc.registers :=
    Document.mapM_map_eq_some fun register hregister ↦
      RegisterDoc.ofJson?_toJson (h register hregister)
  simp [ofJson?, hrecord, Document.items?, hregisters]

/-- A description is read back from the document that it is written as. -/
theorem parse?_render (h : doc.IsLinearFree) : parse? doc.render = some doc := by
  rw [parse?, render, Json.parse?_render (writable_toJson h)]
  exact ofJson?_toJson h

/-- The document that is written for the description that a text gives. -/
def rewrite? (text : String) : Option String :=
  (parse? text).map render

end DescriptionDoc

def BitMapDoc.rewrite? (text : String) : Option String :=
  (parse? text).map render

/-- A description whose fields do not scale numbers is read back from the document that it is
written as, and so is every bit map. -/
theorem DescriptionDoc.parse?_written {description : DescriptionDoc} (h : description.IsLinearFree)
    (bitMap : BitMapDoc) :
    DescriptionDoc.parse? description.render = some description ∧
    BitMapDoc.parse? bitMap.render = some bitMap ∧
    DescriptionDoc.rewrite? description.render = some description.render ∧
    BitMapDoc.rewrite? bitMap.render = some bitMap.render := by
  have hdescription := DescriptionDoc.parse?_render h
  have hbitMap := bitMap.parse?_render
  exact ⟨hdescription, hbitMap, congrArg (Option.map DescriptionDoc.render) hdescription,
    congrArg (Option.map BitMapDoc.render) hbitMap⟩

/-- A description with the largest address, texts in the place of numbers, characters that have to
be escaped, and labels whose codes look like members. -/
def oddDescription : DescriptionDoc :=
  ⟨[⟨.number 0xffffffffffffffff, none, []⟩,
    ⟨.text "0x0F", some "", [
      ⟨"MODE[1:0]", .text " 0 ", .number 1, some "a\"b\\\n\x07é",
        some (.inline (.enumerated (SortedMap.ofList [("kind", "Linear"), ("0x1", "ON")])))⟩,
      ⟨"N", .number 4, .number 5, none, some (.named "Signed")⟩,
      ⟨"T", .number 6, .number 7, some "null", some (.inline .signed)⟩]⟩]⟩

def oneWord : BitMapDoc :=
  ⟨2, [⟨0, ["1", "R3[9]"]⟩]⟩

theorem DescriptionDoc.parse?_written_oddDescription :
    oddDescription.IsLinearFree ∧
      DescriptionDoc.parse? oddDescription.render = some oddDescription ∧
      BitMapDoc.parse? oneWord.render = some oneWord ∧
      DescriptionDoc.rewrite? oddDescription.render = some oddDescription.render ∧
      BitMapDoc.rewrite? oneWord.render = some oneWord.render := by
  have hfree : oddDescription.IsLinearFree := by decide +kernel
  exact ⟨hfree, DescriptionDoc.parse?_written hfree oneWord⟩

example : oneWord.render =
    "\x7b\"width\":2,\"words\":[\x7b\"address\":0,\"bits\":[\"1\",\"R3[9]\"]\x7d]\x7d" := by
  decide +kernel

end ChipConfig
