import ChipConfig.BitMap
import ChipConfig.Document.Record

/-!
# Bit map documents

A bit map can come as a document instead of a table.  The document carries the width of its words,
and each word lists the tokens of its sources.
-/

namespace ChipConfig

structure WordDoc where
  address : Address
  /-- The tokens of the sources, the most significant bit first. -/
  bits : List String
deriving DecidableEq, Repr

structure BitMapDoc where
  width : UInt32
  words : List WordDoc
deriving DecidableEq, Repr

namespace WordDoc

def ofJson? (json : Json) : Option WordDoc := do
  let [some address, some bits] ← Document.record? ["address", "bits"] json | none
  return {
    address := UInt32.ofNat (← Document.natural? UInt32.size address)
    bits := ← (← Document.items? bits).mapM Document.text? }

def toJson (word : WordDoc) : Json :=
  Document.ofRecord
    [("address", Document.ofNat word.address.toNat),
      ("bits", .list (word.bits.map Document.ofText))]

end WordDoc

namespace BitMapDoc

def ofJson? (json : Json) : Option BitMapDoc := do
  let [some width, some words] ← Document.record? ["width", "words"] json | none
  return {
    width := UInt32.ofNat (← Document.natural? UInt32.size width)
    words := ← (← Document.items? words).mapM WordDoc.ofJson? }

def parse? (text : String) : Option BitMapDoc := do
  ofJson? (← Json.parse? text)

def toJson (doc : BitMapDoc) : Json :=
  Document.ofRecord
    [("width", Document.ofNat doc.width.toNat),
      ("words", .list (doc.words.map WordDoc.toJson))]

def render (doc : BitMapDoc) : String :=
  doc.toJson.render

/-- The map with the words of the definition, added in order. -/
def toBitMap (doc : BitMapDoc) : Except BitMapError BitMap :=
  match Width.ofBits doc.width.toNat with
  | .error cause => .error (.bit cause)
  | .ok width =>
    doc.words.foldlM (fun map word ↦ map.insertTokens word.address word.bits) (BitMap.empty width)

end BitMapDoc

def BitMap.parseDocument (text : String) : Except BitMapError BitMap :=
  match BitMapDoc.parse? text with
  | none => .error .unreadable
  | some doc => doc.toBitMap

end ChipConfig
