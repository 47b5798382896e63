import ChipConfig.Document.BitMap
import ChipConfig.Proofs.Document.Record

/-!
# Bit map documents are read as they are written

Whatever the tokens of its words are, a bit map can be written as a document, and reading the
document gives it back.
-/

namespace ChipConfig

namespace WordDoc

theorem writable_toJson (word : WordDoc) : word.toJson.Writable := by
  refine Document.writable_ofRecord (List.forall_mem_cons.2 ⟨Document.writable_ofNat _, ?_⟩)
  refine List.forall_mem_singleton.2 (.list (List.forall_mem_map.2 fun token _ ↦ ?_))
  exact Document.writable_ofText token

@[simp]
theorem ofJson?_toJson (word : WordDoc) : ofJson? word.toJson = some word := by
  have hrecord : Document.record? ["address", "bits"] word.toJson =
      some [some (Document.ofNat word.address.toNat),
        some (.list (word.bits.map Document.ofText))] :=
    Document.record?_ofRecord (by simp)
  have hbits : (word.bits.map Document.ofText).mapM Document.text? = some word.bits :=
    Document.mapM_map_eq_some fun token _ ↦ Document.text?_ofText token
  simp [ofJson?, hrecord, Document.items?, hbits,
    Document.natural?_ofNat word.address.toNat_lt_size]

end WordDoc

namespace BitMapDoc

theorem writable_toJson (doc : BitMapDoc) : doc.toJson.Writable := by
  refine Document.writable_ofRecord (List.forall_mem_cons.2 ⟨Document.writable_ofNat _, ?_⟩)
  refine List.forall_mem_singleton.2 (.list (List.forall_mem_map.2 fun word _ ↦ ?_))
  exact word.writable_toJson

@[simp]
theorem ofJson?_toJson (doc : BitMapDoc) : ofJson? doc.toJson = some doc := by
  have hrecord : Document.record? ["width", "words"] doc.toJson =
      some [some (Document.ofNat doc.width.toNat), some (.list (doc.words.map WordDoc.toJson))] :=
    Document.record?_ofRecord (by simp)
  have hwords : (doc.words.map WordDoc.toJson).mapM WordDoc.ofJson? = some doc.words :=
    Document.mapM_map_eq_some fun word _ ↦ word.ofJson?_toJson
  simp [ofJson?, hrecord, Document.items?, hwords,
    Document.natural?_ofNat doc.width.toNat_lt_size]

/-- A bit map is read back from the document that it is written as. -/
@[simp]
theorem parse?_render (doc : BitMapDoc) : parse? doc.render = some doc := by
  rw [parse?, render, Json.parse?_render doc.writable_toJson]
  exact doc.ofJson?_toJson

end BitMapDoc

end ChipConfig
