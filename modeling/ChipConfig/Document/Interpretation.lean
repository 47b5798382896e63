import ChipConfig.Description
import ChipConfig.Document.Record

/-!
# Interpretations in documents

A document names an interpretation, or writes it as a record whose member `kind` says what it is.
What it is shows only at its `kind`, which may come last, so the whole value is read ahead first.
A kind that has been read ahead may also be given by its number, from 0.
-/

namespace ChipConfig

/-- An interpretation as a document writes it.  The codes of labels are still text. -/
inductive InterpretationDoc where
  | identity
  | signed
  | linear (scale offset : Double)
  | enumerated (labels : SortedMap String String)
deriving DecidableEq

inductive InterpretationRefDoc where
  | named (name : String)
  | inline (interpretation : InterpretationDoc)
deriving DecidableEq

namespace InterpretationDoc

inductive Kind where
  | identity
  | signed
  | linear
  | enumerated
deriving DecidableEq, Repr

def Kind.ofName? (name : String) : Option Kind :=
  if name = "Identity" then some identity
  else if name = "Signed" then some signed
  else if name = "Linear" then some linear
  else if name = "Enumerated" then some enumerated
  else none

/-- The kind that a value names, or numbers where that is allowed. -/
def Kind.ofJson? (numbered : Bool) : Json → Option Kind
  | .text written => written.text?.bind ofName?
  | .number number =>
    if numbered then do
      let position ← number.natural? UInt64.size
      [identity, signed, linear, enumerated][position]?
    else
      none
  | _ => none

def double? : Json → Option Double
  | .number number => number.double?
  | _ => none

/-- Labels by the texts of their codes.  Of several labels for one text the last one stays. -/
def labels? : Json → Option (SortedMap String String)
  | .object members => do
    let members ← Document.keyed? members
    let labels ← members.mapM fun member ↦
      (Document.text? member.2).map fun label ↦ (member.1, label)
    return SortedMap.ofList labels
  | _ => none

/-- Whether no item is left in a list.  The members left in an object do not matter. -/
def isUsedUp : Json → Bool
  | .list items => items.isEmpty
  | _ => true

/-- The interpretation of a kind with the members that are left besides the kind. -/
def ofBody? (kind : Kind) (body : Json) : Option InterpretationDoc :=
  match kind with
  | .identity => if isUsedUp body then some identity else none
  | .signed => if isUsedUp body then some signed else none
  | .linear => do
    let [some scale, offset] ← Document.record? ["scale", "offset"] body | none
    let scale ← double? scale
    match offset with
    | none => return linear scale 0
    | some offset => return linear scale (← double? offset)
  | .enumerated => do
    let [some labels] ← Document.record? ["labels"] body | none
    return enumerated (← labels? labels)

/-- The interpretation that a value gives, its members being read ahead as deep as told. -/
def ofJson? (numbered : Bool) (depth : Nat) : Json → Option InterpretationDoc
  | .object members => do
    let keyed ← Document.keyed? members
    let some tag ← Document.member? keyed "kind" | none
    let kind ← Kind.ofJson? numbered tag
    let body := members.filter fun member ↦ member.1.text? ≠ some "kind"
    if Json.membersReadable depth body then ofBody? kind (.object body) else none
  | .list (tag :: body) => do
    let kind ← Kind.ofJson? numbered tag
    if Json.areReadable depth body then ofBody? kind (.list body) else none
  | _ => none

def parse? (text : String) : Option InterpretationDoc := do
  ofJson? false (Document.maxDepth - 1) (← Json.parse? text)

/-- A floating-point number as a value; null if it is not finite. -/
def ofDouble (x : Double) : Json :=
  if x.isFinite then .number (Json.Number.ofDouble x) else .null

def toJson : InterpretationDoc → Json
  | identity => Document.ofRecord [("kind", Document.ofText "Identity")]
  | signed => Document.ofRecord [("kind", Document.ofText "Signed")]
  | linear scale offset =>
    Document.ofRecord
      [("kind", Document.ofText "Linear"), ("scale", ofDouble scale), ("offset", ofDouble offset)]
  | enumerated labels =>
    let entries := labels.toList.map fun entry ↦ (entry.1, Document.ofText entry.2)
    Document.ofRecord
      [("kind", Document.ofText "Enumerated"), ("labels", Document.ofRecord entries)]

/-- Adds a label whose code is still text. -/
def addLabel (labels : SortedMap Word String) (entry : String × String) :
    Except InterpretationError (SortedMap Word String) :=
  match Numeral.word? .decimal (Text.trim entry.1.toList) with
  | some code => .ok (labels.insert (BitVec.ofNat 64 code) entry.2)
  | none => .error (.invalidCode entry.1)

/-- The interpretation that is meant.  Labels are taken in the order of the texts of their codes, so
of several spellings of one code the last one stays. -/
def toInterpretation : InterpretationDoc → Except InterpretationError Interpretation
  | identity => .ok .identity
  | signed => .ok .signed
  | linear scale offset => .ok (.linear scale offset)
  | enumerated labels => do
    return .enumerated (← labels.toList.foldlM addLabel ∅)

end InterpretationDoc

namespace InterpretationRefDoc

/-- The interpretation that the value of a member gives, read ahead as deep as told. -/
def ofJson? (depth : Nat) (json : Json) : Option InterpretationRefDoc :=
  if json.isReadable depth then
    match json with
    | .text written => written.text?.map named
    | json => (InterpretationDoc.ofJson? true depth json).map inline
  else
    none

def toJson : InterpretationRefDoc → Json
  | named name => Document.ofText name
  | inline interpretation => interpretation.toJson

end InterpretationRefDoc

end ChipConfig
