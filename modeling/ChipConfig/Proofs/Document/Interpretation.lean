import ChipConfig.Document.Interpretation
import ChipConfig.Proofs.Document.Record
import ChipConfig.Proofs.SortedMap

/-!
# Interpretations are read as they are written

An interpretation that is written as a record has its kind in front and its other members behind
it.  Reading it ahead loses nothing, the kind leaves the other members for what it says they are,
and labels come back in the order of their codes.  Numbers with a point are left out here: whether
these come back depends on how they are rounded.
-/

namespace ChipConfig

namespace Document

@[simp]
theorem isReadable_ofText (depth : Nat) (text : String) :
    (ofText text).isReadable depth = true := by
  simp [ofText, Json.isReadable]

theorem membersReadable_ofRecord {depth : Nat} {members : List (String × Json)}
    (h : ∀ member ∈ members, member.2.isReadable depth = true) :
    Json.membersReadable depth
      (members.map fun member ↦ (Json.Written.ofText member.1, member.2)) = true := by
  induction members with
  | nil => rfl
  | cons member members ih =>
    obtain ⟨hmember, hmembers⟩ := List.forall_mem_cons.1 h
    simp [Json.membersReadable, hmember, ih hmembers]

theorem isReadable_ofRecord {depth : Nat} {members : List (String × Json)}
    (h : ∀ member ∈ members, member.2.isReadable depth = true) :
    (ofRecord members).isReadable (depth + 1) = true :=
  membersReadable_ofRecord h

end Document

namespace InterpretationDoc

def isLinear : InterpretationDoc → Bool
  | linear _ _ => true
  | _ => false

def labelMembers (labels : SortedMap String String) : List (String × Json) :=
  labels.toList.map fun entry ↦ (entry.1, Document.ofText entry.2)

theorem writable_labelMembers (labels : SortedMap String String) :
    ∀ member ∈ labelMembers labels, member.2.Writable :=
  List.forall_mem_map.2 fun entry _ ↦ Document.writable_ofText entry.2

theorem isReadable_labelMembers (depth : Nat) (labels : SortedMap String String) :
    ∀ member ∈ labelMembers labels, member.2.isReadable depth = true :=
  List.forall_mem_map.2 fun entry _ ↦ Document.isReadable_ofText depth entry.2

@[simp]
theorem labels?_ofRecord (labels : SortedMap String String) :
    labels? (Document.ofRecord (labelMembers labels)) = some labels := by
  have hentries : ((labelMembers labels).mapM fun member ↦
      (Document.text? member.2).map fun label ↦ (member.1, label)) = some labels.toList := by
    refine Document.mapM_map_eq_some fun entry _ ↦ ?_
    rw [Document.text?_ofText]
    rfl
  rw [Document.ofRecord, labels?, Document.keyed?_ofText]
  simp [hentries]

/-- A record with a kind in front is read as its kind says, from the members behind the kind. -/
theorem ofJson?_ofRecord {numbered : Bool} {depth : Nat} {name : String} {kind : Kind}
    {members : List (String × Json)} (hkind : Kind.ofName? name = some kind)
    (hnames : ∀ member ∈ members, member.1 ≠ "kind")
    (hreadable : ∀ member ∈ members, member.2.isReadable depth = true) :
    ofJson? numbered depth (Document.ofRecord (("kind", Document.ofText name) :: members)) =
      ofBody? kind (Document.ofRecord members) := by
  have htag : Document.member? (("kind", Document.ofText name) :: members) "kind" =
      some (some (Document.ofText name)) := by
    have hnone : (members.filter fun member ↦ member.1 = "kind") = [] := by
      simpa [List.filter_eq_nil_iff] using hnames
    rw [Document.member?, List.filter_cons_of_pos (by simp), hnone]
  have hread : Kind.ofJson? numbered (Document.ofText name) = some kind := by
    rw [Document.ofText, Kind.ofJson?, Json.Written.text?_ofText]
    exact hkind
  have hbody : ((("kind", Document.ofText name) :: members).map fun member ↦
      (Json.Written.ofText member.1, member.2)).filter (fun member ↦
        decide (member.1.text? ≠ some "kind")) =
      members.map fun member ↦ (Json.Written.ofText member.1, member.2) := by
    rw [List.map_cons, List.filter_cons_of_neg (by simp), List.filter_eq_self]
    exact List.forall_mem_map.2 fun member hmember ↦ by simpa using hnames member hmember
  rw [Document.ofRecord, ofJson?, Document.keyed?_ofText]
  simp only [Option.bind_eq_bind, Option.bind_some, htag, hread, hbody,
    Document.membersReadable_ofRecord hreadable, if_true]
  rfl

variable {doc : InterpretationDoc}

theorem writable_toJson (h : doc.isLinear = false) : doc.toJson.Writable := by
  cases doc with
  | identity =>
    exact Document.writable_ofRecord (List.forall_mem_singleton.2 (Document.writable_ofText _))
  | signed =>
    exact Document.writable_ofRecord (List.forall_mem_singleton.2 (Document.writable_ofText _))
  | linear scale offset => cases h
  | enumerated labels =>
    refine Document.writable_ofRecord (List.forall_mem_cons.2 ⟨Document.writable_ofText _, ?_⟩)
    refine List.forall_mem_singleton.2 ?_
    exact Document.writable_ofRecord (writable_labelMembers labels)

theorem isReadable_toJson (h : doc.isLinear = false) (depth : Nat) :
    doc.toJson.isReadable (depth + 2) = true := by
  cases doc with
  | identity =>
    exact Document.isReadable_ofRecord
      (List.forall_mem_singleton.2 (Document.isReadable_ofText _ _))
  | signed =>
    exact Document.isReadable_ofRecord
      (List.forall_mem_singleton.2 (Document.isReadable_ofText _ _))
  | linear scale offset => cases h
  | enumerated labels =>
    refine Document.isReadable_ofRecord
      (List.forall_mem_cons.2 ⟨Document.isReadable_ofText _ _, ?_⟩)
    refine List.forall_mem_singleton.2 ?_
    exact Document.isReadable_ofRecord (isReadable_labelMembers depth labels)

theorem ofJson?_toJson (h : doc.isLinear = false) (numbered : Bool) (depth : Nat) :
    ofJson? numbered (depth + 1) doc.toJson = some doc := by
  cases doc with
  | identity =>
    have hkind : Kind.ofName? "Identity" = some .identity := by decide
    exact ofJson?_ofRecord hkind (List.forall_mem_nil _) (List.forall_mem_nil _)
  | signed =>
    have hkind : Kind.ofName? "Signed" = some .signed := by decide
    exact ofJson?_ofRecord hkind (List.forall_mem_nil _) (List.forall_mem_nil _)
  | linear scale offset => cases h
  | enumerated labels =>
    have hkind : Kind.ofName? "Enumerated" = some .enumerated := by decide
    have hlabels : ∀ member ∈ [("labels", Document.ofRecord (labelMembers labels))],
        member.2.isReadable (depth + 1) = true :=
      List.forall_mem_singleton.2
        (Document.isReadable_ofRecord (isReadable_labelMembers depth labels))
    have hrecord : Document.record? ["labels"]
        (Document.ofRecord [("labels", Document.ofRecord (labelMembers labels))]) =
          some [some (Document.ofRecord (labelMembers labels))] :=
      Document.record?_ofRecord (by simp)
    refine (ofJson?_ofRecord hkind (by simp) hlabels).trans ?_
    simp [ofBody?, hrecord]

end InterpretationDoc

namespace InterpretationRefDoc

/-- Whether an interpretation is written out and scales its numbers. -/
def isLinear : InterpretationRefDoc → Bool
  | named _ => false
  | inline interpretation => interpretation.isLinear

variable {ref : InterpretationRefDoc}

theorem writable_toJson (h : ref.isLinear = false) : ref.toJson.Writable := by
  cases ref with
  | named name => exact Document.writable_ofText name
  | inline interpretation => exact InterpretationDoc.writable_toJson h

theorem ofJson?_toJson (h : ref.isLinear = false) (depth : Nat) :
    ofJson? (depth + 2) ref.toJson = some ref := by
  cases ref with
  | named name =>
    have hname : (Json.Written.ofText name).text?.map named = some (named name) := by
      rw [Json.Written.text?_ofText, Option.map_some]
    exact (if_pos (Document.isReadable_ofText _ name)).trans hname
  | inline interpretation =>
    have hread := congrArg (Option.map inline)
      (InterpretationDoc.ofJson?_toJson h true (depth + 1))
    have hreadable := InterpretationDoc.isReadable_toJson h depth
    -- what is written out is an object, so it is not taken for a name
    cases interpretation with
    | linear scale offset => cases h
    | _ => exact (if_pos hreadable).trans hread

end InterpretationRefDoc

end ChipConfig
