import ChipConfig.Proofs.Document.Description
import ChipConfig.Proofs.Document.Respelling

/-!
# The map of a document does not depend on the spelling of numbers

A document has a map if each of its registers makes an entry and the entries are compiled.  Two
documents that differ in the spelling of addresses and bit numbers only make entries of the same
registers, so they have the same map, or none.  A number that reaches `2 ^ 32` is no address and no
bit number in any spelling, and a document with such a number has no map.
-/

namespace ChipConfig.RegisterMap

variable {width : Width} {registry : InterpretationRegistry} {text : String} {json : Json}
  {map : RegisterMap}

theorem Draft.add_eq_of_same {entry other : RegisterEntry} (h : entry.Same other) (draft : Draft) :
    draft.add width registry entry = draft.add width registry other := by
  obtain ⟨⟨address, hentry, hother⟩, hmode, hfields⟩ := h
  unfold Draft.add
  rw [hentry, hother, hmode, hfields]

/-- Descriptions of the same registers have the same map. -/
theorem compile_eq_of_same {entries others : List RegisterEntry}
    (h : List.Forall₂ RegisterEntry.Same entries others) :
    compile entries width registry = compile others width registry := by
  unfold compile
  rw [Fallible.foldlM_eq_of_forall₂ h fun _ _ _ hsame draft ↦ Draft.add_eq_of_same hsame draft]

/-- A description is compiled only if each of its entries has an address. -/
theorem exists_addressOf_of_compile {entries : List RegisterEntry}
    (h : compile entries width registry = .ok map) {entry : RegisterEntry}
    (hentry : entry ∈ entries) : ∃ address, addressOf entry.address = .ok address := by
  have haccepted := (exists_compile_iff entries width registry).1 ⟨map, h⟩
  exact (haccepted.address entry hentry).imp fun _ ↦ addressOf_eq_ok_iff.2

/-- A document has a map if each of its registers makes an entry and the entries are compiled. -/
theorem parse_eq_ok_iff :
    parse text width registry = .ok map ↔ ∃ doc entries,
      DescriptionDoc.parse? text = some doc ∧
      List.Forall₂ (fun register entry ↦ register.toEntry = .ok entry) doc.registers entries ∧
      compile entries width registry = .ok map := by
  unfold parse
  cases hdoc : DescriptionDoc.parse? text with
  | none => simp
  | some doc =>
    simp only [Fallible.bind_eq_ok_iff, DescriptionDoc.toEntries, Paired.mapM_eq_ok_iff]
    constructor
    · rintro ⟨entries, hentries, hmap⟩
      exact ⟨doc, entries, rfl, hentries, hmap⟩
    · rintro ⟨_, entries, hsame, hentries, hmap⟩
      obtain rfl := Option.some.inj hsame
      exact ⟨entries, hentries, hmap⟩

/-- A document has a map if its value stands for registers that are compiled. -/
theorem parse_eq_ok_iff_gives (hjson : Json.parse? text = some json) :
    parse text width registry = .ok map ↔
      ∃ entries, DescriptionDoc.Gives json entries ∧ compile entries width registry = .ok map := by
  have hdoc : DescriptionDoc.parse? text = DescriptionDoc.ofJson? json := by
    rw [DescriptionDoc.parse?, hjson]
    rfl
  rw [parse_eq_ok_iff, hdoc]
  constructor
  · rintro ⟨doc, entries, hread, hentries, hmap⟩
    obtain ⟨registers, items, hrecord, hitems, hregisters⟩ :=
      DescriptionDoc.ofJson?_eq_some_iff.1 hread
    refine ⟨entries, ⟨registers, items, hrecord, hitems, ?_⟩, hmap⟩
    have hread := Paired.exists_both_iff.1 ⟨doc.registers, hregisters, hentries⟩
    have haddress : ∀ entry ∈ entries, ∃ address, addressOf entry.address = .ok address :=
      fun _ ↦ exists_addressOf_of_compile hmap
    apply (Paired.and_right hread haddress).imp
    rintro item entry ⟨⟨register, hregister, hentry⟩, address, haddress⟩
    exact ⟨address, register, hregister, hentry, haddress⟩
  · rintro ⟨entries, ⟨registers, items, hrecord, hitems, hgives⟩, hmap⟩
    have hread : List.Forall₂ (fun item entry ↦ ∃ register,
        RegisterDoc.ofJson? item = some register ∧ register.toEntry = .ok entry) items entries := by
      apply hgives.imp
      rintro item entry ⟨address, register, hregister, hentry, -⟩
      exact ⟨register, hregister, hentry⟩
    obtain ⟨known, hknown, hentries⟩ := Paired.exists_both_iff.2 hread
    exact ⟨⟨known⟩, entries,
      DescriptionDoc.ofJson?_eq_some_iff.2 ⟨registers, items, hrecord, hitems, hknown⟩, hentries,
      hmap⟩

/-- The spelling of the numbers in a document does not matter to its map. -/
theorem parse_of_respelled {other : String} {twin : Json} (hjson : Json.parse? text = some json)
    (htwin : Json.parse? other = some twin) (h : DescriptionDoc.Respelled json twin)
    (hmap : parse text width registry = .ok map) : parse other width registry = .ok map := by
  obtain ⟨entries, hgives, hcompile⟩ := (parse_eq_ok_iff_gives hjson).1 hmap
  obtain ⟨twins, htwins, hsame⟩ := h.exists_gives hgives
  rw [compile_eq_of_same hsame] at hcompile
  exact (parse_eq_ok_iff_gives htwin).2 ⟨twins, htwins, hcompile⟩

theorem exists_registerGives {entries : List RegisterEntry}
    (hgives : DescriptionDoc.Gives json entries) {registers : List Json} {register : Json}
    (hmember : Document.Member DescriptionDoc.memberNames "Registers" json (.list registers))
    (hregister : register ∈ registers) :
    ∃ address entry, RegisterDoc.Gives address register entry := by
  obtain ⟨known, items, hrecord, hitems, hentries⟩ := hgives
  have hknown : [some known][0]? = some (some (.list registers)) :=
    hmember.getElem?_eq (by decide) hrecord rfl
  obtain rfl : known = .list registers := by simpa using hknown
  obtain rfl : registers = items := Option.some.inj hitems
  obtain ⟨entry, -, address, hgives⟩ := Paired.exists_of_mem hentries hregister
  exact ⟨address, entry, hgives⟩

/-- The addresses of a document that has a map are below `2 ^ 32`. -/
theorem lt_of_hasAddress {entries : List RegisterEntry} (hgives : DescriptionDoc.Gives json entries)
    {n : Nat} (h : DescriptionDoc.HasAddress json n) : n < UInt32.size := by
  obtain ⟨registers, register, value, hmember, hregister, hvalue, hnumber⟩ := h
  obtain ⟨address, entry, doc, hdoc, hentry, haddress⟩ :=
    exists_registerGives hgives hmember hregister
  obtain ⟨known, mode, fields, hrecord, hquantity, -⟩ := RegisterDoc.ofJson?_eq_some_iff.1 hdoc
  have hknown : [some known, mode, fields][0]? = some (some value) :=
    hvalue.getElem?_eq (by decide) hrecord rfl
  obtain rfl : known = value := by simpa using hknown
  rw [(RegisterDoc.toEntry_eq_ok_iff.1 hentry).2.1] at haddress
  exact ((Quantity.exists_addressOf_iff hnumber).1 ⟨_, hquantity, haddress⟩).1

/-- The bit numbers of a document that has a map are below `2 ^ 32`. -/
theorem lt_of_hasBit {entries : List RegisterEntry} (hgives : DescriptionDoc.Gives json entries)
    {n : Nat} (h : DescriptionDoc.HasBit json n) : n < UInt32.size := by
  obtain ⟨registers, register, fields, field, value, hmember, hregister, hfields, hfield, hvalue,
    hnumber⟩ := h
  obtain ⟨address, entry, doc, hdoc, hentry, haddress⟩ :=
    exists_registerGives hgives hmember hregister
  obtain ⟨spelled, mode, known, hrecord, -, -, hknown⟩ := RegisterDoc.ofJson?_eq_some_iff.1 hdoc
  have hfieldsKnown : [some spelled, mode, known][2]? = some (some (.list fields)) :=
    hfields.getElem?_eq (by decide) hrecord rfl
  obtain rfl : known = some (.list fields) := by simpa using hfieldsKnown
  obtain ⟨items, hitems, hpieces⟩ :=
    RegisterDoc.giveFields_some_iff.1 ⟨_, hknown, (RegisterDoc.toEntry_eq_ok_iff.1 hentry).1⟩
  obtain rfl : fields = items := Option.some.inj hitems
  obtain ⟨piece, -, fieldDoc, hfieldDoc, hpiece⟩ := Paired.exists_of_mem hpieces hfield
  obtain ⟨name, startBit, endBit, description, interpretation, hfieldRecord, -, hstart, hend, -⟩ :=
    FieldDoc.ofJson?_eq_some_iff.1 hfieldDoc
  let found := [some name, some startBit, some endBit, description, interpretation]
  obtain ⟨hlow, hhigh, -⟩ := FieldDoc.toEntry_eq_ok_iff.1 hpiece
  rcases hvalue with hvalue | hvalue
  · have hbit : found[1]? = some (some value) := hvalue.getElem?_eq (by decide) hfieldRecord rfl
    obtain rfl : startBit = value := by simpa [found] using hbit
    exact ((Quantity.exists_bitNumber?_iff hnumber).1 ⟨_, hstart, hlow⟩).1
  · have hbit : found[2]? = some (some value) := hvalue.getElem?_eq (by decide) hfieldRecord rfl
    obtain rfl : endBit = value := by simpa [found] using hbit
    exact ((Quantity.exists_bitNumber?_iff hnumber).1 ⟨_, hend, hhigh⟩).1

/-- Documents that differ only in the way addresses and bit numbers are spelled have the same map,
and a number from `2 ^ 32` on is refused in every spelling. -/
theorem parse_respelled (text : String) (width : Width) (registry : InterpretationRegistry) :
    (∀ map, parse text width registry = .ok map ↔ ∃ doc entries,
      DescriptionDoc.parse? text = some doc ∧
      List.Forall₂ (fun register entry ↦ register.toEntry = .ok entry) doc.registers entries ∧
      compile entries width registry = .ok map) ∧
    ∀ json, Json.parse? text = some json →
      (∀ other twin, Json.parse? other = some twin → DescriptionDoc.Respelled json twin →
        ∀ map, parse text width registry = .ok map ↔ parse other width registry = .ok map) ∧
      ∀ n, UInt32.size ≤ n → DescriptionDoc.HasAddress json n ∨ DescriptionDoc.HasBit json n →
        ∀ map, parse text width registry ≠ .ok map := by
  refine ⟨fun map ↦ parse_eq_ok_iff, fun json hjson ↦ ⟨?_, ?_⟩⟩
  · intro other twin htwin h map
    exact ⟨parse_of_respelled hjson htwin h, parse_of_respelled htwin hjson h.symm⟩
  · intro n hn hnumber map hmap
    obtain ⟨entries, hgives, -⟩ := (parse_eq_ok_iff_gives hjson).1 hmap
    have hlt : n < UInt32.size :=
      hnumber.elim (lt_of_hasAddress hgives) (lt_of_hasBit hgives)
    exact absurd hlt (Nat.not_lt.2 hn)

/-- A register with one field, its numbers written as numbers. -/
def numbered : DescriptionDoc :=
  ⟨[⟨.number 15, some "RW", [⟨"LOCK[15:12]", .number 12, .number 15, none, none⟩]⟩]⟩

/-- The same register, some of its numbers written as texts. -/
def spelled : DescriptionDoc :=
  ⟨[⟨.text "0X0f", some "RW", [⟨"LOCK[15:12]", .text " 12", .number 15, none, none⟩]⟩]⟩

/-- A register whose address is too large. -/
def distant : DescriptionDoc :=
  ⟨[⟨.text "100000000", some "RW", []⟩]⟩

theorem respelled_numbered : DescriptionDoc.Respelled numbered.toJson spelled.toJson := by
  have haddress :
      Document.SameNumber IsAddressText (Document.ofNat 15) (Document.ofText "0X0f") := by
    refine ⟨15, .inl rfl, .inr ⟨"0X0f", Document.text?_ofText _, ?_⟩⟩
    exact ⟨['0', 'X'], ['0', 'f'], .inr (.inr rfl), ⟨_, ⟨1, rfl⟩, .inl rfl⟩, Text.padded_refl _⟩
  have hbit : Document.SameNumber IsBitText (Document.ofNat 12) (Document.ofText " 12") := by
    refine ⟨12, .inl rfl, .inr ⟨" 12", Document.text?_ofText _, ?_⟩⟩
    exact ⟨_, Numeral.isNumeral_toDigits 10 12, [' '], [], by simp [Text.isBlank], by simp, rfl⟩
  have hsame {rel : String → Json → Json → Prop} (name : String) (json : Json) :
      name = name ∧ Document.Varies rel (some name) json json := ⟨rfl, .inl rfl⟩
  refine Document.alike_ofRecord (.cons ⟨rfl, .inr ⟨_, rfl, rfl, ?_⟩⟩ .nil)
  refine ⟨_, _, rfl, rfl, .cons ?_ .nil⟩
  refine Document.alike_ofRecord (.cons ⟨rfl, .inr ⟨_, rfl, .inl ⟨rfl, haddress⟩⟩⟩
    (.cons (hsame _ _) (.cons ⟨rfl, .inr ⟨_, rfl, .inr ⟨rfl, ?_⟩⟩⟩ .nil)))
  refine ⟨_, _, rfl, rfl, .cons ?_ .nil⟩
  exact Document.alike_ofRecord (.cons (hsame _ _) (.cons ⟨rfl, .inr ⟨_, rfl, .inl rfl, hbit⟩⟩
    (.cons (hsame _ _) (.cons (hsame _ _) (.cons (hsame _ _) .nil)))))

theorem hasAddress_distant : DescriptionDoc.HasAddress distant.toJson UInt32.size := by
  refine ⟨_, _, _, .keyed (List.mem_singleton_self _) (Json.Written.text?_ofText _),
    List.mem_singleton_self _, .keyed List.mem_cons_self (Json.Written.text?_ofText _), .inr ?_⟩
  refine ⟨"100000000", Document.text?_ofText _, [], _, .inl rfl, ?_, Text.padded_refl _⟩
  exact ⟨_, ⟨0, rfl⟩, .inl rfl⟩

theorem parse_respelled_numbered :
    (∃ map, parse numbered.render .w16 ∅ = .ok map ∧ parse spelled.render .w16 ∅ = .ok map) ∧
      ∀ map, parse distant.render .w16 ∅ ≠ .ok map := by
  have hread (doc : DescriptionDoc) (h : doc.IsLinearFree) :
      Json.parse? doc.render = some doc.toJson :=
    Json.parse?_render (DescriptionDoc.writable_toJson h)
  have hnumbered := hread numbered (by decide)
  have hspelled := hread spelled (by decide)
  have hdistant := hread distant (by decide)
  constructor
  · obtain ⟨map, hmap⟩ : ∃ map, parse numbered.render .w16 ∅ = .ok map := by
      have hentries : parse numbered.render .w16 ∅ =
          numbered.toEntries >>= fun entries ↦ compile entries .w16 ∅ := by
        rw [parse, DescriptionDoc.parse?_render (by decide)]
      have hok : (numbered.toEntries >>= fun entries ↦ compile entries .w16 ∅).isOk = true := by
        decide +kernel
      rw [hentries]
      cases hresult : numbered.toEntries >>= fun entries ↦ compile entries .w16 ∅ with
      | ok map => exact ⟨map, rfl⟩
      | error cause => simp [hresult, Except.isOk, Except.toBool] at hok
    have hiff := ((parse_respelled numbered.render .w16 ∅).2 _ hnumbered).1 _ _ hspelled
      respelled_numbered map
    exact ⟨map, hmap, hiff.1 hmap⟩
  · exact ((parse_respelled distant.render .w16 ∅).2 _ hdistant).2 UInt32.size le_rfl
      (.inl hasAddress_distant)

end ChipConfig.RegisterMap
