import ChipConfig.Proofs.Bench
import ChipConfig.Proofs.Field.Staging
import ChipConfig.Proofs.Lockstep

/-!
# Files that agree

Two register files agree if they have one width and every register reads the same in both, be it
that it has an entry of zero or none.  Nothing that looks at the words of registers can tell them
apart: fields read the same, and so does an image that takes registers without an entry for zero.  A
change can be made in both or in neither, and the files agree again afterwards.
-/

namespace ChipConfig

open Fallible (Lockstep)

namespace RegisterFile

/-- Whether two files have one width and every register reads the same in both. -/
structure Agree (a b : RegisterFile) : Prop where
  width_eq : a.width = b.width
  get_eq : ∀ register, a.get register = b.get register

variable {a b : RegisterFile}

theorem agrees_iff_agree : a.agrees b = true ↔ Agree a b := by
  rw [agrees_iff]
  exact ⟨fun h ↦ ⟨h.1, h.2⟩, fun h ↦ ⟨h.width_eq, h.get_eq⟩⟩

/-- Touching a register shows in its entries only. -/
theorem agree_touch (file : RegisterFile) (register : Address) : Agree (file.touch register) file :=
  ⟨rfl, get_touch file register⟩

@[simp]
theorem get_erase (file : RegisterFile) (register other : Address) :
    (file.erase register).get other = if other = register then 0 else file.get other := by
  rw [get, erase, SortedMap.get?_erase, get]
  split <;> rfl

namespace Agree

variable (h : Agree a b)

include h

theorem insert (register : Address) (word : Word) :
    Agree { a with words := a.words.insert register word }
      { b with words := b.words.insert register word } := by
  refine ⟨h.width_eq, fun other ↦ ?_⟩
  rw [get_insert, get_insert, h.get_eq]

theorem set (register : Address) (word : Word) :
    Lockstep Agree (a.set register word) (b.set register word) := by
  have hcheck : a.width.check word = b.width.check word := by rw [h.width_eq]
  unfold RegisterFile.set Width.put
  rw [hcheck, bind_assoc, bind_assoc]
  exact .bind_same _ fun word _ ↦ .ok (h.insert register word)

theorem toggle (register : Address) (bit : Nat) :
    Lockstep Agree (a.toggle register bit) (b.toggle register bit) := by
  have hcheck : a.width.checkIndex bit = b.width.checkIndex bit := by rw [h.width_eq]
  unfold RegisterFile.toggle
  rw [hcheck, h.get_eq]
  exact .bind_same _ fun _ _ ↦ .ok (h.insert register _)

theorem touch (register : Address) : Agree (a.touch register) (b.touch register) := by
  rw [RegisterFile.touch, RegisterFile.touch, h.get_eq]
  exact h.insert register _

theorem erase (register : Address) : Agree (a.erase register) (b.erase register) := by
  refine ⟨h.width_eq, fun other ↦ ?_⟩
  rw [get_erase, get_erase, h.get_eq]

theorem readRaw_eq (field : Field) : field.readRaw a = field.readRaw b := by
  have hgather : Field.gather a = Field.gather b := by
    funext raw fragment
    rw [Field.gather, Field.gather, h.width_eq, h.get_eq]
  rw [Field.readRaw, Field.readRaw, hgather]

theorem read_eq (field : Field) : field.read a = field.read b := by
  rw [Field.read, Field.read, h.readRaw_eq]

theorem readFields_eq (map : RegisterMap) : map.readFields a = map.readFields b := by
  simp only [RegisterMap.readFields, h.read_eq]

theorem putChunk (raw : Word) (fragment : Fragment) :
    Lockstep Agree (Field.putChunk raw a fragment) (Field.putChunk raw b fragment) := by
  unfold Field.putChunk
  rw [h.width_eq, h.get_eq]
  exact .bind_same _ fun word _ ↦ h.set fragment.register word

/-- Words that wait to be written are no files, so both sides are followed along the plain way,
which changes a file with every chunk. -/
theorem scatter (field : Field) (raw : Word) :
    Lockstep Agree (field.scatter a raw) (field.scatter b raw) := by
  rw [Field.scatter_eq_putChunks, Field.scatter_eq_putChunks]
  exact .foldlM (fun _ _ fragment hab ↦ hab.putChunk raw fragment) field.fragments h

theorem writeRaw (field : Field) (raw : Word) :
    Lockstep Agree (field.writeRaw a raw) (field.writeRaw b raw) := by
  unfold Field.writeRaw
  split
  · exact .error _
  split
  · exact .error _
  have hscatter := h.scatter field raw
  generalize field.scatter a raw = x, field.scatter b raw = y at hscatter
  cases hscatter with
  | ok hab => exact .ok hab
  | error cause => exact .error (FieldError.bit cause)

theorem write (field : Field) (value : Value) :
    Lockstep Agree (field.write a value) (field.write b value) := by
  unfold Field.write
  split
  · exact .error _
  · next raw _ => exact h.writeRaw field raw

/-- Only the policy that refuses registers without an entry asks for entries. -/
theorem sourceBit_eq (address : Address) (source : BitSource) :
    Layout.sourceBit .zero a address source = Layout.sourceBit .zero b address source := by
  cases source with
  | constant value => rfl
  | ignored => rfl
  | register place =>
    have hpolicy : ¬MissingPolicy.zero = .reject := by decide
    rw [Layout.sourceBit, Layout.sourceBit, if_neg fun hmissing ↦ hpolicy hmissing.1,
      if_neg fun hmissing ↦ hpolicy hmissing.1, h.width_eq, h.get_eq]

theorem encode_eq (map : RegisterMap) (bitMap : BitMap) :
    Layout.encode .zero map bitMap a = Layout.encode .zero map bitMap b := by
  have hsource : Layout.sourceBit .zero a = Layout.sourceBit .zero b :=
    funext fun address ↦ funext fun source ↦ h.sourceBit_eq address source
  have hentry : Layout.encodeEntry .zero a = Layout.encodeEntry .zero b := by
    funext image entry
    rw [Layout.encodeEntry, Layout.encodeEntry, Layout.encodeWord, Layout.encodeWord, hsource]
  rw [Layout.encode, Layout.encode, Layout.encodeImage, Layout.encodeImage, hentry]

theorem applyToggle (place : RegisterBit) :
    Lockstep Agree (Layout.applyToggle a place) (Layout.applyToggle b place) := by
  have htoggle := h.toggle place.register place.bit.toNat
  unfold Layout.applyToggle
  generalize a.toggle place.register place.bit.toNat = x,
    b.toggle place.register place.bit.toNat = y at htoggle
  cases htoggle with
  | ok hab => exact .ok hab
  | error cause => exact .error (LayoutError.bit cause)

/-- What an image tells does not depend on the words of the registers that it is read into. -/
theorem decodeInto (image : Image) (bitMap : BitMap) :
    Lockstep (fun x y ↦ x.mismatches = y.mismatches ∧ Agree x.registers y.registers)
      (Layout.decodeInto image bitMap a) (Layout.decodeInto image bitMap b) := by
  unfold Layout.decodeInto
  rw [h.width_eq]
  refine .bind_same _ fun findings _ ↦ ?_
  have hflips := Lockstep.foldlM (fun _ _ place hab ↦ applyToggle hab place)
    (findings.filterMap Layout.Finding.place?) h
  exact hflips.bind fun _ _ hab ↦ .ok ⟨rfl, hab⟩

end Agree

end RegisterFile

namespace Bench

open RegisterFile (Agree)

variable {a b : RegisterFile}

def FileCall.result? : FileCall → RegisterFile → Option RegisterFile
  | set register word, file => (file.set register word).toOption
  | touch register, file => some (file.touch register)
  | toggle place, file => (Layout.applyToggle file place).toOption
  | erase register, file => some (file.erase register)
  | writeRaw field raw, file => (field.writeRaw file raw).toOption
  | write field value, file => (field.write file value).toOption
  | decodeInto image bitMap, file =>
    ((Layout.decodeInto image bitMap file).map Layout.Decoded.registers).toOption

/-- A call is made as a whole or not at all. -/
theorem FileCall.after_eq_getD (call : FileCall) (file : RegisterFile) :
    call.after file = (call.result? file).getD file := by
  cases call with
  | set register word =>
    rw [after, result?, Session.runFrom_change]
    cases file.set register word <;> rfl
  | touch register => rfl
  | toggle place =>
    rw [after, result?, Session.runFrom_change]
    cases Layout.applyToggle file place <;> rfl
  | erase register => rfl
  | writeRaw field raw =>
    rw [after, result?, Field.runFrom_writeRawInPlace]
    cases field.writeRaw file raw <;> rfl
  | write field value =>
    rw [after, result?, Field.runFrom_writeInPlace]
    cases field.write file value <;> rfl
  | decodeInto image bitMap =>
    rw [after, result?, Layout.runFrom_decodeInPlace]
    cases Layout.decodeInto image bitMap file <;> rfl

theorem FileCall.rel_result? (call : FileCall) (h : Agree a b) :
    Option.Rel Agree (call.result? a) (call.result? b) := by
  cases call with
  | set register word => exact (h.set register word).toOption
  | touch register => exact .some (h.touch register)
  | toggle place => exact (h.applyToggle place).toOption
  | erase register => exact .some (h.erase register)
  | writeRaw field raw => exact (h.writeRaw field raw).toOption
  | write field value => exact (h.write field value).toOption
  | decodeInto image bitMap =>
    exact ((h.decodeInto image bitMap).map fun _ _ hboth ↦ hboth.2).toOption

theorem FileCall.agree_after (call : FileCall) (h : Agree a b) :
    Agree (call.after a) (call.after b) := by
  have hresult := call.rel_result? h
  rw [after_eq_getD, after_eq_getD]
  generalize call.result? a = x, call.result? b = y at hresult
  cases hresult with
  | some hab => exact hab
  | none => exact h

def fileAfter (calls : List FileCall) (file : RegisterFile) : RegisterFile :=
  calls.foldl (fun file call ↦ call.after file) file

theorem agree_fileAfter (calls : List FileCall) (h : Agree a b) :
    Agree (fileAfter calls a) (fileAfter calls b) := by
  induction calls generalizing a b with
  | nil => exact h
  | cons call calls ih => exact ih (call.agree_after h)

/-- Files that agree cannot be told apart: whatever is done to both leaves files that agree, or
fails in both for the same reason. -/
theorem agrees_congruence (a b : RegisterFile) :
    (a.agrees b = true ↔ a.width = b.width ∧ ∀ register, a.get register = b.get register) ∧
    (a.agrees b = true →
      (∀ field : Field, field.readRaw a = field.readRaw b ∧ field.read a = field.read b) ∧
      (∀ map : RegisterMap, map.readFields a = map.readFields b) ∧
      (∀ map bitMap, Layout.encode .zero map bitMap a = Layout.encode .zero map bitMap b) ∧
      (∀ register word,
        Lockstep (fun x y ↦ x.agrees y = true) (a.set register word) (b.set register word)) ∧
      (∀ register bit,
        Lockstep (fun x y ↦ x.agrees y = true) (a.toggle register bit) (b.toggle register bit)) ∧
      (∀ register, (a.touch register).agrees (b.touch register) = true) ∧
      (∀ register, (a.erase register).agrees (b.erase register) = true) ∧
      (∀ (field : Field) raw,
        Lockstep (fun x y ↦ x.agrees y = true) (field.writeRaw a raw) (field.writeRaw b raw)) ∧
      (∀ (field : Field) value,
        Lockstep (fun x y ↦ x.agrees y = true) (field.write a value) (field.write b value)) ∧
      (∀ image bitMap,
        Lockstep (fun x y ↦ x.mismatches = y.mismatches ∧ x.registers.agrees y.registers = true)
          (Layout.decodeInto image bitMap a) (Layout.decodeInto image bitMap b)) ∧
      ∀ calls, (fileAfter calls a).agrees (fileAfter calls b) = true) ∧
    ∀ register, (a.touch register).agrees a = true := by
  refine ⟨RegisterFile.agrees_iff, ?_, fun register ↦ ?_⟩
  · simp only [RegisterFile.agrees_iff_agree]
    intro h
    exact ⟨fun field ↦ ⟨h.readRaw_eq field, h.read_eq field⟩, h.readFields_eq, h.encode_eq, h.set,
      h.toggle, h.touch, h.erase, h.writeRaw, h.write, h.decodeInto,
      fun calls ↦ agree_fileAfter calls h⟩
  · exact RegisterFile.agrees_iff_agree.2 (RegisterFile.agree_touch a register)

/-- A file without an entry for one of the registers that the sample bit map shows. -/
def bareFile : RegisterFile :=
  ⟨.w16, SortedMap.ofList [(0, 0x0010)]⟩

/-- An entry of zero is not seen, neither in an image nor after calls, the first of which fails.
Only an image that must not do without an entry is built in one case and not in the other. -/
theorem agrees_congruence_bareFile :
    bareFile.touch 3 ≠ bareFile ∧ (bareFile.touch 3).agrees bareFile = true ∧
      Layout.encode .zero (.empty .w16) BitMap.sample (bareFile.touch 3) =
        Layout.encode .zero (.empty .w16) BitMap.sample bareFile ∧
      (fileAfter [.set 3 0x10000, .toggle ⟨3, 9⟩, .erase 0] (bareFile.touch 3)).agrees
        (fileAfter [.set 3 0x10000, .toggle ⟨3, 9⟩, .erase 0] bareFile) = true ∧
      (Layout.encode .reject (.empty .w16) BitMap.sample (bareFile.touch 3)).isOk = true ∧
      Layout.encode .reject (.empty .w16) BitMap.sample bareFile =
        .error (.missingRegister 0 3) := by
  obtain ⟨-, hsame, -⟩ := agrees_congruence (bareFile.touch 3) bareFile
  obtain ⟨-, -, htouch⟩ := agrees_congruence bareFile bareFile
  obtain ⟨-, -, hencode, -, -, -, -, -, -, -, hcalls⟩ := hsame (htouch 3)
  exact ⟨by decide +kernel, htouch 3, hencode _ _, hcalls _, by decide +kernel, by decide +kernel⟩

end Bench

end ChipConfig
