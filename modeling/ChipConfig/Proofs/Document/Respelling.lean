import ChipConfig.Proofs.Document.Spelling

/-!
# Documents that differ in the spelling of numbers

Two documents may be the same but for the spelling of addresses and bit numbers.  From the inside
out, a piece of a field makes the same entry in both, a register makes an entry with the same
address, mode and pieces, and a description makes entries of the same registers.
-/

namespace ChipConfig

namespace FieldDoc

def memberNames : List String :=
  ["Field_Name", "Start_Bit", "End_Bit", "Field_Description", "Translation"]

/-- A value is read as a field member by member. -/
theorem ofJson?_eq_some_iff {json : Json} {field : FieldDoc} :
    ofJson? json = some field ↔ ∃ name startBit endBit description interpretation,
      Document.record? memberNames json =
        some [some name, some startBit, some endBit, description, interpretation] ∧
      Document.text? name = some field.name ∧
      Quantity.ofJson? startBit = some field.startBit ∧
      Quantity.ofJson? endBit = some field.endBit ∧
      Document.optionalText? description = some field.description ∧
      interpretation? interpretation = some field.interpretation := by
  unfold ofJson? memberNames
  constructor
  · intro h
    obtain ⟨values, hvalues, hread⟩ := Option.bind_eq_some_iff.1 h
    split at hread
    · next name startBit endBit description interpretation =>
      simp only [Option.bind_eq_bind, Option.bind_eq_some_iff, Option.pure_def,
        Option.some.injEq] at hread
      obtain ⟨n, hn, s, hs, e, he, d, hd, i, hi, rfl⟩ := hread
      exact ⟨name, startBit, endBit, description, interpretation, hvalues, hn, hs, he, hd, hi⟩
    · cases hread
  · rintro ⟨name, startBit, endBit, description, interpretation, hvalues, hn, hs, he, hd, hi⟩
    rw [hvalues]
    simp [hn, hs, he, hd, hi]

theorem toEntry_eq_ok_iff {field : FieldDoc} {entry : FieldEntry} :
    field.toEntry = .ok entry ↔ field.startBit.bitNumber? = some entry.bits.low ∧
      field.endBit.bitNumber? = some entry.bits.high ∧
      field.refOf field.interpretation = .ok entry.interpretation ∧
      entry.name = field.name ∧ entry.description = field.description := by
  have hbit {quantity : Quantity} {bit : Nat} :
      field.bitOf quantity = .ok bit ↔ quantity.bitNumber? = some bit := by
    unfold bitOf
    cases quantity.bitNumber? <;> simp
  unfold toEntry
  simp only [Fallible.bind_eq_ok_iff, hbit, Fallible.pure_eq_ok_iff]
  constructor
  · rintro ⟨low, hlow, high, hhigh, interpretation, hinterpretation, rfl⟩
    exact ⟨hlow, hhigh, hinterpretation, rfl, rfl⟩
  · rintro ⟨hlow, hhigh, hinterpretation, hname, hdescription⟩
    obtain ⟨name, ⟨low, high⟩, description, interpretation⟩ := entry
    obtain rfl : name = field.name := hname
    obtain rfl : description = field.description := hdescription
    exact ⟨low, hlow, high, hhigh, interpretation, hinterpretation, rfl⟩

/-- Whether two values under a name give the same bit number. -/
def SameBit (name : String) (a b : Json) : Prop :=
  (name = "Start_Bit" ∨ name = "End_Bit") ∧ Document.SameNumber IsBitText a b

/-- Whether two values are the same piece of a field but for the spelling of its bit numbers. -/
def Respelled : Json → Json → Prop :=
  Document.Alike memberNames SameBit

theorem Respelled.symm {json other : Json} (h : Respelled json other) : Respelled other json :=
  Document.Alike.symm (fun _ _ _ ↦ And.imp_right Document.SameNumber.symm) h

theorem Respelled.record? {json other name startBit endBit : Json}
    {description interpretation : Option Json} (h : Respelled json other)
    (hrecord : Document.record? memberNames json =
      some [some name, some startBit, some endBit, description, interpretation]) :
    ∃ startBit' endBit', Document.record? memberNames other =
        some [some name, some startBit', some endBit', description, interpretation] ∧
      Document.Varies SameBit (some "Start_Bit") startBit startBit' ∧
      Document.Varies SameBit (some "End_Bit") endBit endBit' := by
  obtain ⟨others, hothers, halike⟩ := Document.Alike.record? h hrecord
  obtain _ | ⟨hname, _ | ⟨hstart, _ | ⟨hend, _ | ⟨hdescription, _ | ⟨hinterpretation, _ | _⟩⟩⟩⟩⟩ :=
    halike
  obtain ⟨startBit', rfl, hstartBit⟩ := Document.exists_some_of_varies hstart
  obtain ⟨endBit', rfl, hendBit⟩ := Document.exists_some_of_varies hend
  have hfixed {other : String} (hother : other ≠ "Start_Bit" ∧ other ≠ "End_Bit") (a b : Json) :
      ¬SameBit other a b := fun h ↦ h.1.elim hother.1 hother.2
  obtain rfl := Document.eq_of_varies (hfixed (by decide)) hname
  obtain rfl := Document.eq_of_varies (hfixed (by decide)) hdescription
  obtain rfl := Document.eq_of_varies (hfixed (by decide)) hinterpretation
  exact ⟨startBit', endBit', hothers, hstartBit, hendBit⟩

/-- Values that give the same bit number are read as the same bit. -/
theorem exists_bit_of_varies {name : String} {a b : Json}
    (h : Document.Varies SameBit (some name) a b) {quantity : Quantity} {bit : Nat}
    (hquantity : Quantity.ofJson? a = some quantity) (hbit : quantity.bitNumber? = some bit) :
    ∃ twin, Quantity.ofJson? b = some twin ∧ twin.bitNumber? = some bit := by
  rcases h with rfl | ⟨_, -, -, n, ha, hb⟩
  · exact ⟨quantity, hquantity, hbit⟩
  · rw [Quantity.exists_bitNumber?_iff hb, ← Quantity.exists_bitNumber?_iff ha]
    exact ⟨quantity, hquantity, hbit⟩

def Gives (json : Json) (entry : FieldEntry) : Prop :=
  ∃ field, ofJson? json = some field ∧ field.toEntry = .ok entry

/-- The spelling of its bit numbers does not matter to a piece of a field. -/
theorem Respelled.gives {json other : Json} (h : Respelled json other) {entry : FieldEntry}
    (hgives : Gives json entry) : Gives other entry := by
  obtain ⟨field, hfield, hentry⟩ := hgives
  obtain ⟨name, startBit, endBit, description, interpretation, hrecord, hname, hstart, hend,
    hdescription, hinterpretation⟩ := ofJson?_eq_some_iff.1 hfield
  obtain ⟨hlow, hhigh, href⟩ := toEntry_eq_ok_iff.1 hentry
  obtain ⟨startBit', endBit', hothers, hstart', hend'⟩ := h.record? hrecord
  obtain ⟨low, hlowRead, hlowBit⟩ := exists_bit_of_varies hstart' hstart hlow
  obtain ⟨high, hhighRead, hhighBit⟩ := exists_bit_of_varies hend' hend hhigh
  refine ⟨{ field with startBit := low, endBit := high }, ?_, ?_⟩
  · exact ofJson?_eq_some_iff.2 ⟨name, startBit', endBit', description, interpretation, hothers,
      hname, hlowRead, hhighRead, hdescription, hinterpretation⟩
  · exact toEntry_eq_ok_iff.2 ⟨hlowBit, hhighBit, href⟩

end FieldDoc

namespace RegisterDoc

def memberNames : List String :=
  ["Address", "Mode", "Fields"]

/-- A value is read as a register member by member. -/
theorem ofJson?_eq_some_iff {json : Json} {register : RegisterDoc} :
    ofJson? json = some register ↔ ∃ address mode fields,
      Document.record? memberNames json = some [some address, mode, fields] ∧
      Quantity.ofJson? address = some register.address ∧
      Document.optionalText? mode = some register.mode ∧
      fields? fields = some register.fields := by
  unfold ofJson? memberNames
  constructor
  · intro h
    obtain ⟨values, hvalues, hread⟩ := Option.bind_eq_some_iff.1 h
    split at hread
    · next address mode fields =>
      simp only [Option.bind_eq_bind, Option.bind_eq_some_iff, Option.pure_def,
        Option.some.injEq] at hread
      obtain ⟨a, ha, m, hm, f, hf, rfl⟩ := hread
      exact ⟨address, mode, fields, hvalues, ha, hm, hf⟩
    · cases hread
  · rintro ⟨address, mode, fields, hvalues, ha, hm, hf⟩
    rw [hvalues]
    simp [ha, hm, hf]

theorem toEntry_eq_ok_iff {register : RegisterDoc} {entry : RegisterEntry} :
    register.toEntry = .ok entry ↔
      List.Forall₂ (fun field piece ↦ field.toEntry = .ok piece) register.fields entry.fields ∧
      entry.address = register.address.addressText ∧ entry.mode = register.mode := by
  unfold toEntry
  simp only [Fallible.bind_eq_ok_iff, Paired.mapM_eq_ok_iff, Fallible.pure_eq_ok_iff]
  constructor
  · rintro ⟨fields, hfields, rfl⟩
    exact ⟨hfields, rfl, rfl⟩
  · rintro ⟨hfields, haddress, hmode⟩
    obtain ⟨address, mode, fields⟩ := entry
    obtain rfl : address = register.address.addressText := haddress
    obtain rfl : mode = register.mode := hmode
    exact ⟨fields, hfields, rfl⟩

/-- Whether two values under a name give the same address, or the same pieces of fields. -/
def SameMember (name : String) (a b : Json) : Prop :=
  (name = "Address" ∧ Document.SameNumber IsAddressText a b) ∨
    (name = "Fields" ∧ Document.ItemsRelated FieldDoc.Respelled a b)

/-- Whether two values are the same register but for the spelling of its address and its bit
numbers. -/
def Respelled : Json → Json → Prop :=
  Document.Alike memberNames SameMember

theorem Respelled.symm {json other : Json} (h : Respelled json other) : Respelled other json := by
  refine Document.Alike.symm (fun _ _ _ hmember ↦ ?_) h
  refine hmember.imp (And.imp_right Document.SameNumber.symm) (And.imp_right ?_)
  exact Document.ItemsRelated.symm fun _ _ ↦ FieldDoc.Respelled.symm

theorem Respelled.record? {json other address : Json} {mode fields : Option Json}
    (h : Respelled json other)
    (hrecord : Document.record? memberNames json = some [some address, mode, fields]) :
    ∃ address' fields',
      Document.record? memberNames other = some [some address', mode, fields'] ∧
      Document.Varies SameMember (some "Address") address address' ∧
      Option.Rel (Document.Varies SameMember (some "Fields")) fields fields' := by
  obtain ⟨others, hothers, halike⟩ := Document.Alike.record? h hrecord
  obtain _ | ⟨haddress, _ | ⟨hmode, _ | ⟨hfields, _ | _⟩⟩⟩ := halike
  obtain ⟨address', rfl, hsame⟩ := Document.exists_some_of_varies haddress
  have hfixed (a b : Json) : ¬SameMember "Mode" a b :=
    fun h ↦ h.elim (fun h ↦ absurd h.1 (by decide)) fun h ↦ absurd h.1 (by decide)
  obtain rfl := Document.eq_of_varies hfixed hmode
  exact ⟨address', _, hothers, hsame, hfields⟩

/-- Values that give the same address are read as this address. -/
theorem exists_address_of_varies {a b : Json}
    (h : Document.Varies SameMember (some "Address") a b) {quantity : Quantity} {address : Address}
    (hquantity : Quantity.ofJson? a = some quantity)
    (haddress : RegisterMap.addressOf quantity.addressText = .ok address) :
    ∃ twin, Quantity.ofJson? b = some twin ∧
      RegisterMap.addressOf twin.addressText = .ok address := by
  rcases h with rfl | ⟨_, hname, ⟨-, n, ha, hb⟩ | ⟨hfields, -⟩⟩
  · exact ⟨quantity, hquantity, haddress⟩
  · rw [Quantity.exists_addressOf_iff hb, ← Quantity.exists_addressOf_iff ha]
    exact ⟨quantity, hquantity, haddress⟩
  · exact absurd (hname.trans (congrArg some hfields)) (by decide)

/-- Whether a member that may be missing stands for pieces of fields. -/
def GiveFields (json : Option Json) (entries : List FieldEntry) : Prop :=
  ∃ fields, fields? json = some fields ∧
    List.Forall₂ (fun field piece ↦ field.toEntry = .ok piece) fields entries

theorem giveFields_some_iff {json : Json} {entries : List FieldEntry} :
    GiveFields (some json) entries ↔
      ∃ items, Document.items? json = some items ∧ List.Forall₂ FieldDoc.Gives items entries := by
  have hread (fields : List FieldDoc) : fields? (some json) = some fields ↔
      ∃ items, Document.items? json = some items ∧
        List.Forall₂ (fun item field ↦ FieldDoc.ofJson? item = some field) items fields := by
    simp only [← Paired.mapM_eq_some_iff]
    exact Option.bind_eq_some_iff
  constructor
  · rintro ⟨fields, hfields, hentries⟩
    obtain ⟨items, hitems, hread⟩ := (hread fields).1 hfields
    exact ⟨items, hitems, Paired.exists_both_iff.1 ⟨fields, hread, hentries⟩⟩
  · rintro ⟨items, hitems, hgives⟩
    obtain ⟨fields, hfields, hentries⟩ := Paired.exists_both_iff.2 hgives
    exact ⟨fields, (hread fields).2 ⟨items, hitems, hfields⟩, hentries⟩

/-- The spelling of bit numbers does not matter to the pieces of fields. -/
theorem giveFields_of_varies {a b : Option Json}
    (h : Option.Rel (Document.Varies SameMember (some "Fields")) a b) {entries : List FieldEntry}
    (ha : GiveFields a entries) : GiveFields b entries := by
  cases h with
  | none => exact ha
  | some hab =>
    rcases hab with rfl | ⟨_, hname, ⟨haddress, -⟩ | ⟨-, items, others, hitems, hothers, hrel⟩⟩
    · exact ha
    · exact absurd (hname.trans (congrArg some haddress)) (by decide)
    · obtain ⟨known, hknown, hgives⟩ := giveFields_some_iff.1 ha
      obtain rfl := Option.some.inj (hitems.symm.trans hknown)
      have hcarried : ∃ twins, List.Forall₂ FieldDoc.Gives others twins ∧
          List.Forall₂ Eq entries twins :=
        Paired.exists_carried (fun _ _ _ hxz hxy ↦ ⟨_, hxz.gives hxy, rfl⟩) hrel hgives
      rw [List.forall₂_eq_eq_eq] at hcarried
      obtain ⟨_, htwins, rfl⟩ := hcarried
      exact giveFields_some_iff.2 ⟨others, hothers, htwins⟩

def Gives (address : Address) (json : Json) (entry : RegisterEntry) : Prop :=
  ∃ register, ofJson? json = some register ∧ register.toEntry = .ok entry ∧
    RegisterMap.addressOf entry.address = .ok address

end RegisterDoc

/-- Whether two entries stand for the same register: they denote the same address and agree in
everything else. -/
structure RegisterEntry.Same (entry other : RegisterEntry) : Prop where
  address : ∃ address, RegisterMap.addressOf entry.address = .ok address ∧
    RegisterMap.addressOf other.address = .ok address
  mode : entry.mode = other.mode
  fields : entry.fields = other.fields

/-- The spelling of its numbers does not matter to a register. -/
theorem RegisterDoc.Respelled.exists_gives {json other : Json} (h : Respelled json other)
    {address : Address} {entry : RegisterEntry} (hgives : Gives address json entry) :
    ∃ twin, Gives address other twin ∧ entry.Same twin := by
  obtain ⟨register, hregister, hentry, haddress⟩ := hgives
  obtain ⟨value, mode, fields, hrecord, hvalue, hmode, hfields⟩ := ofJson?_eq_some_iff.1 hregister
  obtain ⟨hpieces, hspelled, hmodes⟩ := toEntry_eq_ok_iff.1 hentry
  obtain ⟨value', fields', hothers, hsame, hrel⟩ := h.record? hrecord
  obtain ⟨quantity, hquantity, htwin⟩ :=
    exists_address_of_varies hsame hvalue (hspelled ▸ haddress)
  obtain ⟨twinFields, hread, hgives⟩ := giveFields_of_varies hrel ⟨_, hfields, hpieces⟩
  refine ⟨⟨quantity.addressText, entry.mode, entry.fields⟩, ⟨⟨quantity, entry.mode, twinFields⟩,
    ofJson?_eq_some_iff.2 ⟨value', mode, fields', hothers, hquantity, hmodes ▸ hmode, hread⟩,
    toEntry_eq_ok_iff.2 ⟨hgives, rfl, rfl⟩, htwin⟩, ⟨address, haddress, htwin⟩, rfl, rfl⟩

namespace DescriptionDoc

def memberNames : List String :=
  ["Registers"]

theorem ofJson?_eq_some_iff {json : Json} {doc : DescriptionDoc} :
    ofJson? json = some doc ↔ ∃ registers items,
      Document.record? memberNames json = some [some registers] ∧
      Document.items? registers = some items ∧
      List.Forall₂ (fun item register ↦ RegisterDoc.ofJson? item = some register) items
        doc.registers := by
  unfold ofJson? memberNames
  constructor
  · intro h
    obtain ⟨values, hvalues, hread⟩ := Option.bind_eq_some_iff.1 h
    split at hread
    · next registers =>
      simp only [Option.bind_eq_bind, Option.bind_eq_some_iff, Option.pure_def,
        Option.some.injEq] at hread
      obtain ⟨items, hitems, known, hknown, rfl⟩ := hread
      exact ⟨registers, items, hvalues, hitems, Paired.mapM_eq_some_iff.1 hknown⟩
    · cases hread
  · rintro ⟨registers, items, hvalues, hitems, hread⟩
    rw [hvalues]
    simp [hitems, Paired.mapM_eq_some_iff.2 hread]

/-- Whether a document gives a number as the address of a register. -/
def HasAddress (json : Json) (n : Nat) : Prop :=
  ∃ registers register value, Document.Member memberNames "Registers" json (.list registers) ∧
    register ∈ registers ∧ Document.Member RegisterDoc.memberNames "Address" register value ∧
    Document.Gives IsAddressText n value

/-- Whether a document gives a number as the first or the last bit of a piece of a field. -/
def HasBit (json : Json) (n : Nat) : Prop :=
  ∃ registers register fields field value,
    Document.Member memberNames "Registers" json (.list registers) ∧ register ∈ registers ∧
    Document.Member RegisterDoc.memberNames "Fields" register (.list fields) ∧ field ∈ fields ∧
    (Document.Member FieldDoc.memberNames "Start_Bit" field value ∨
      Document.Member FieldDoc.memberNames "End_Bit" field value) ∧
    Document.Gives IsBitText n value

/-- Whether two values are the same description but for the spelling of addresses and bit
numbers. -/
def Respelled : Json → Json → Prop :=
  Document.Alike memberNames fun name a b ↦
    name = "Registers" ∧ Document.ItemsRelated RegisterDoc.Respelled a b

theorem Respelled.symm {json other : Json} (h : Respelled json other) : Respelled other json := by
  refine Document.Alike.symm (fun _ _ _ ↦ And.imp_right ?_) h
  exact Document.ItemsRelated.symm fun _ _ ↦ RegisterDoc.Respelled.symm

def Gives (json : Json) (entries : List RegisterEntry) : Prop :=
  ∃ registers items, Document.record? memberNames json = some [some registers] ∧
    Document.items? registers = some items ∧
    List.Forall₂ (fun item entry ↦ ∃ address, RegisterDoc.Gives address item entry) items entries

/-- The spelling of its numbers does not matter to a description. -/
theorem Respelled.exists_gives {json other : Json} (h : Respelled json other)
    {entries : List RegisterEntry} (hgives : Gives json entries) :
    ∃ twins, Gives other twins ∧ List.Forall₂ RegisterEntry.Same entries twins := by
  obtain ⟨registers, items, hrecord, hitems, hentries⟩ := hgives
  obtain ⟨values, hvalues, halike⟩ := Document.Alike.record? h hrecord
  obtain _ | ⟨hregisters, _ | _⟩ := halike
  obtain ⟨twin, rfl, hvaries⟩ := Document.exists_some_of_varies hregisters
  have htwin : ∃ others, Document.items? twin = some others ∧
      List.Forall₂ RegisterDoc.Respelled items others := by
    rcases hvaries with rfl | ⟨_, -, -, known, others, hknown, hothers, hrel⟩
    · exact ⟨items, hitems, List.forall₂_same.2 fun item _ ↦ .same item⟩
    · obtain rfl := Option.some.inj (hitems.symm.trans hknown)
      exact ⟨others, hothers, hrel⟩
  obtain ⟨others, hothers, hrel⟩ := htwin
  have hregister (item : Json) (entry : RegisterEntry) (respelled : Json)
      (hrespelled : RegisterDoc.Respelled item respelled)
      (hitem : ∃ address, RegisterDoc.Gives address item entry) :
      ∃ twin, (∃ address, RegisterDoc.Gives address respelled twin) ∧ entry.Same twin := by
    obtain ⟨address, hgives⟩ := hitem
    obtain ⟨twin, htwin, hsame⟩ := hrespelled.exists_gives hgives
    exact ⟨twin, ⟨address, htwin⟩, hsame⟩
  obtain ⟨twins, htwins, hsame⟩ := Paired.exists_carried hregister hrel hentries
  exact ⟨twins, ⟨twin, others, hvalues, hothers, htwins⟩, hsame⟩

end DescriptionDoc

end ChipConfig
