import ChipConfig.Document.Description
import ChipConfig.Proofs.Document.Member
import ChipConfig.Proofs.FieldName
import ChipConfig.Proofs.Lockstep
import ChipConfig.Proofs.RegisterMap.Acceptance

/-!
# Numbers of a description document may be spelled in any way

An address is given as a number or as a hexadecimal text, a bit number as a number or as a decimal
text.  What is read depends on the number only: two documents that differ in such spellings, in
however many places, describe the same map, or none of them describes one.
-/

namespace ChipConfig

/-- Whether a text spells an address: a hexadecimal numeral in letters of either case, perhaps after
a `0x` mark, between blanks. -/
def IsAddressText (n : Nat) (cs : List Char) : Prop :=
  ∃ mark numeral, (mark = [] ∨ mark = ['0', 'x'] ∨ mark = ['0', 'X']) ∧
    Numeral.IsNumeral 16 n numeral ∧ Text.Padded (mark ++ numeral) cs

namespace Document

/-- Whether a value gives a number: as an integer, or as a text that spells it. -/
def Gives (spells : Nat → List Char → Prop) (n : Nat) (json : Json) : Prop :=
  json = ofNat n ∨ ∃ text, text? json = some text ∧ spells n text.toList

def SameNumber (spells : Nat → List Char → Prop) (a b : Json) : Prop :=
  ∃ n, Gives spells n a ∧ Gives spells n b

theorem SameNumber.symm {spells : Nat → List Char → Prop} {a b : Json}
    (h : SameNumber spells a b) : SameNumber spells b a :=
  h.imp fun _ ↦ And.symm

end Document

theorem RegisterMap.addressOf_of_isAddressText {n : Nat} {text : String}
    (h : IsAddressText n text.toList) :
    addressOf text =
      if n < UInt32.size then .ok (UInt32.ofNat n) else .error (.invalidAddress text) := by
  obtain ⟨mark, numeral, hmark, hnumeral, hpadded⟩ := h
  have hblank : ∀ c ∈ mark ++ numeral, Text.isBlank c = false := by
    refine List.forall_mem_append.2 ⟨?_, fun c ↦ hnumeral.not_blank (by decide) (by decide)⟩
    rcases hmark with rfl | rfl | rfl <;> simp [Text.isBlank]
  have hdigits : (Numeral.stripHexMark? (mark ++ numeral)).getD (mark ++ numeral) = numeral := by
    rcases hmark with rfl | rfl | rfl
    · rw [List.nil_append, hnumeral.stripHexMark? (by decide) (by decide)]
      rfl
    · rfl
    · rfl
  have htoken : Text.trim text.toList = mark ++ numeral :=
    Text.trim_eq_iff.2 ⟨Text.trimmed_of_forall hblank, hpadded⟩
  have hvalue : Numeral.bounded? 16 UInt32.size numeral =
      if n < UInt32.size then some n else none :=
    Numeral.bounded?_of_isNumeral (by decide) (by decide) hnumeral _
  simp only [addressOf, htoken, hdigits, hvalue]
  by_cases hlt : n < UInt32.size
  · rw [if_pos hlt, if_pos hlt]
  · rw [if_neg hlt, if_neg hlt]

namespace Quantity

/-- A value that is a number is read if it fits 64 bits. -/
@[simp]
theorem ofJson?_ofNat (n : Nat) :
    ofJson? (Document.ofNat n) =
      if n < UInt64.size then some (number (BitVec.ofNat 64 n)) else none := by
  have hnatural : (Json.Number.ofNat n).natural? UInt64.size =
      if n < UInt64.size then some n else none :=
    Numeral.bounded?_of_isNumeral (by decide) (by decide) (Numeral.isNumeral_toDigits 10 n) _
  rw [Document.ofNat, ofJson?, hnatural]
  split <;> rfl

theorem ofJson?_of_text? {json : Json} {t : String} (h : Document.text? json = some t) :
    ofJson? json = some (text t) := by
  cases json with
  | text written => exact congrArg (Option.map text) h
  | _ => cases h

theorem isAddressText_hex (n : Nat) : IsAddressText n (Numeral.hex n).toList := by
  rw [Numeral.hex, String.toList_ofList]
  exact ⟨['0', 'x'], _, .inr (.inl rfl), Numeral.isNumeral_toDigits 16 n, Text.padded_refl _⟩

/-- The value that gives a number is read as an address exactly if the number is one. -/
theorem exists_addressOf_iff {n : Nat} {json : Json} (h : Document.Gives IsAddressText n json)
    {address : Address} :
    (∃ quantity, ofJson? json = some quantity ∧
        RegisterMap.addressOf quantity.addressText = .ok address) ↔
      n < UInt32.size ∧ address = UInt32.ofNat n := by
  have hread {text : String} (htext : IsAddressText n text.toList) :
      RegisterMap.addressOf text = .ok address ↔ n < UInt32.size ∧ address = UInt32.ofNat n := by
    rw [RegisterMap.addressOf_of_isAddressText htext]
    split
    · next hlt => rw [Fallible.ok_eq_ok_iff, and_iff_right hlt]
    · next hge => exact iff_of_false (fun h ↦ nomatch h) fun h ↦ hge h.1
  rcases h with rfl | ⟨t, ht, htext⟩
  · rw [ofJson?_ofNat]
    split
    · next hlt =>
      have hnumber : (BitVec.ofNat 64 n).toNat = n := Nat.mod_eq_of_lt hlt
      simp [addressText, hnumber, hread (isAddressText_hex n)]
    · next hge =>
      have hlarge : ¬n < UInt32.size := by
        unfold UInt64.size UInt32.size at *
        omega
      simp [hlarge]
  · simp [ofJson?_of_text? ht, addressText, hread htext]

/-- The value that gives a number is read as a bit number exactly if the number is one. -/
theorem exists_bitNumber?_iff {n : Nat} {json : Json} (h : Document.Gives IsBitText n json)
    {bit : Nat} :
    (∃ quantity, ofJson? json = some quantity ∧ quantity.bitNumber? = some bit) ↔
      n < UInt32.size ∧ bit = n := by
  rcases h with rfl | ⟨t, ht, htext⟩
  · rw [ofJson?_ofNat]
    split
    · next hlt =>
      have hnumber : (BitVec.ofNat 64 n).toNat = n := Nat.mod_eq_of_lt hlt
      simp [bitNumber?, hnumber, eq_comm]
    · next hge =>
      have hlarge : ¬n < UInt32.size := by
        unfold UInt64.size UInt32.size at *
        omega
      simp [hlarge]
  · simp [ofJson?_of_text? ht, bitNumber?, FieldName.bitNumber?_of_isBitText htext, eq_comm]

end Quantity

end ChipConfig
