import ChipConfig.Proofs.Field.Raw

/-!
# Reading and writing a field as a lens

A field that may be written and whose fragments give each of its bits once is a window on the
register bits below its fragments.  Writing changes nothing outside the window, writing back what
was read changes nothing at all, and writes through windows without a common bit can be made in
either order.  What was written is read back exactly if no two fragments of the field lie on one
register bit.
-/

namespace ChipConfig

namespace RegisterFile

/-- Files whose words fit are told apart by their entries and by the bits below the width. -/
theorem FitsIn.eq_of_bits {width : Width} {a b : RegisterFile} (ha : FitsIn width a)
    (hb : FitsIn width b)
    (hcontains : ∀ register, a.contains register = true ↔ b.contains register = true)
    (hbits : ∀ register, ∀ i < width.bits,
      (a.get register).getLsbD i = (b.get register).getLsbD i) : a = b := by
  have hget (register : Address) : a.get register = b.get register := by
    have hfits := ha.fits.get register
    have hother := hb.fits.get register
    rw [ha.width_eq] at hfits
    rw [hb.width_eq] at hother
    exact Width.eq_of_fits hfits hother (hbits register)
  exact eq_of_get_eq (ha.width_eq.trans hb.width_eq.symm)
    (fun register ↦ Bool.eq_iff_iff.2 (hcontains register)) hget

end RegisterFile

namespace Field

variable {field other : Field} {width : Width} {file : RegisterFile}
  {fragments others : List Fragment}

@[simp]
theorem contains_depositAll (raw : Word) (file : RegisterFile) (fragments : List Fragment)
    (register : Address) :
    (depositAll raw file fragments).contains register = true ↔
      file.contains register = true ∨ register ∈ fragments.map Fragment.register := by
  unfold depositAll
  induction fragments generalizing file with
  | nil => simp
  | cons head rest ih =>
    rw [List.foldl_cons, ih, deposit, RegisterFile.contains_insert, List.map_cons, List.mem_cons,
      or_assoc, or_left_comm]

theorem fitsIn_depositAll (raw : Word) (hfile : RegisterFile.FitsIn width file)
    (fragments : List Fragment) : RegisterFile.FitsIn width (depositAll raw file fragments) := by
  unfold depositAll
  induction fragments generalizing file with
  | nil => exact hfile
  | cons head rest ih => exact ih (hfile.insert head.register (BitRange.fits_splice _ _ _ _))

/-- What happens to a register bit depends on this bit only. -/
theorem getLsbD_get_depositAll_congr {a b : RegisterFile} (hwidth : a.width = b.width)
    (hwithin : ∀ fragment ∈ fragments, fragment.bits.Within a.width) (raw : Word)
    {register : Address} {i : Nat} (hi : i < a.width.bits)
    (h : (a.get register).getLsbD i = (b.get register).getLsbD i) :
    ((depositAll raw a fragments).get register).getLsbD i =
      ((depositAll raw b fragments).get register).getLsbD i := by
  unfold depositAll
  induction fragments generalizing a b with
  | nil => exact h
  | cons head rest ih =>
    obtain ⟨hhead, hrest⟩ := List.forall_mem_cons.1 hwithin
    have hbit : ((deposit raw a head).get register).getLsbD i =
        ((deposit raw b head).get register).getLsbD i := by
      rw [getLsbD_get_deposit hhead register hi,
        getLsbD_get_deposit (hwidth ▸ hhead) register (hwidth ▸ hi), h]
    exact ih (a := deposit raw a head) (b := deposit raw b head) hwidth hrest hi hbit

/-- On a register bit that only one of two fields has, the order of two writes does not matter. -/
theorem getLsbD_get_depositAll_depositAll
    (hwithin : ∀ fragment ∈ fragments, fragment.bits.Within file.width)
    (hothers : ∀ fragment ∈ others, fragment.bits.Within file.width) (raw otherRaw : Word)
    {register : Address} {i : Nat} (hi : i < file.width.bits)
    (hfree : ∀ fragment ∈ fragments, ¬fragment.LiesOn register i) :
    ((depositAll otherRaw (depositAll raw file fragments) others).get register).getLsbD i =
      ((depositAll raw (depositAll otherRaw file others) fragments).get register).getLsbD i := by
  have hfirst : ((depositAll raw file fragments).get register).getLsbD i =
      (file.get register).getLsbD i :=
    getLsbD_get_depositAll_of_not_liesOn hwithin hi hfree
  have hlast : ((depositAll raw (depositAll otherRaw file others) fragments).get register).getLsbD i
      = ((depositAll otherRaw file others).get register).getLsbD i := by
    apply getLsbD_get_depositAll_of_not_liesOn _ _ hfree
    · rwa [width_depositAll]
    · rwa [width_depositAll]
  rw [hlast]
  apply getLsbD_get_depositAll_congr _ _ _ _ hfirst
  · exact width_depositAll raw file fragments
  · rwa [width_depositAll]
  · rwa [width_depositAll]

theorem depositAll_comm (hfile : RegisterFile.FitsIn width file)
    (hwithin : ∀ fragment ∈ fragments, fragment.bits.Within width)
    (hothers : ∀ fragment ∈ others, fragment.bits.Within width)
    (hshare : ∀ a ∈ fragments, ∀ b ∈ others, ∀ register i,
      a.LiesOn register i → ¬b.LiesOn register i) (raw otherRaw : Word) :
    depositAll otherRaw (depositAll raw file fragments) others =
      depositAll raw (depositAll otherRaw file others) fragments := by
  obtain rfl := hfile.width_eq
  have hleft := fitsIn_depositAll otherRaw (fitsIn_depositAll raw hfile fragments) others
  have hright := fitsIn_depositAll raw (fitsIn_depositAll otherRaw hfile others) fragments
  apply hleft.eq_of_bits hright
  · intro register
    simp only [contains_depositAll, or_assoc]
    rw [or_comm (a := register ∈ fragments.map Fragment.register)]
  · intro register i hi
    by_cases hfree : ∀ fragment ∈ fragments, ¬fragment.LiesOn register i
    · exact getLsbD_get_depositAll_depositAll hwithin hothers raw otherRaw hi hfree
    · push Not at hfree
      obtain ⟨fragment, hfragment, hlies⟩ := hfree
      have hfreeOthers : ∀ other ∈ others, ¬other.LiesOn register i :=
        fun other hother ↦ hshare fragment hfragment other hother register i hlies
      exact (getLsbD_get_depositAll_depositAll hothers hwithin otherRaw raw hi hfreeOthers).symm

/-- A field of registers of a width that may be written: its fragments lie inside their registers
and give the bits of at most a machine word, each bit once and in any order. -/
structure LaidOut (width : Width) (field : Field) : Prop where
  isWritable : field.mode.isWritable = true
  tiles : Fragment.Tiles field.fragments
  totalBits_le : field.totalBits ≤ 64
  within : ∀ fragment ∈ field.fragments, fragment.bits.Within width

namespace LaidOut

variable (hfield : field.LaidOut width)

include hfield

theorem writeRaw_eq_ok (hfile : RegisterFile.FitsIn width file) {raw : Word}
    (hraw : raw.toNat < 2 ^ field.totalBits) :
    field.writeRaw file raw = .ok (depositAll raw file field.fragments) :=
  writeRaw_eq_ok_iff.2 ⟨hfield.isWritable, Word.lt_two_pow_iff.1 hraw,
    hfile.width_eq ▸ hfield.within, rfl⟩

/-- The raw bits that are read fit the field. -/
theorem exists_readRaw (hfile : RegisterFile.FitsIn width file) :
    ∃ raw, field.readRaw file = .ok raw ∧ raw.toNat < 2 ^ field.totalBits := by
  have hwithin : ∀ fragment ∈ field.fragments, fragment.bits.Within file.width :=
    hfile.width_eq ▸ hfield.within
  exact ⟨_, readRaw_eq_ok_iff.2 ⟨hwithin, rfl⟩,
    Word.lt_two_pow_iff.2 fun _ ↦ getLsbD_gathered_of_ge hfield.tiles hwithin⟩

/-- Two fragments that have no bit in common lie on different register bits. -/
theorem pairwise_apart_iff :
    field.fragments.Pairwise Fragment.Apart ↔
      field.fragments.Pairwise fun a b ↦ ∀ register i, a.LiesOn register i →
        ¬b.LiesOn register i := by
  constructor
  · exact fun h ↦ h.imp fun hapart _ _ ↦ hapart.not_liesOn
  · intro h
    refine h.imp_of_mem fun ha hb hdisjoint ↦ ?_
    by_contra hnot
    obtain ⟨register, i, hliesA, hliesB⟩ :=
      Fragment.exists_liesOn_of_not_apart (hfield.within _ ha) (hfield.within _ hb) hnot
    exact hdisjoint register i hliesA hliesB

/-- Writing back what was read puts every bit where it came from. -/
theorem get_depositAll_readRaw (hfile : RegisterFile.FitsIn width file) {raw : Word}
    (hread : field.readRaw file = .ok raw) (register : Address) :
    (depositAll raw file field.fragments).get register = file.get register := by
  obtain rfl := hfile.width_eq
  have hafter := (fitsIn_depositAll raw hfile field.fragments).fits.get register
  rw [width_depositAll] at hafter
  apply Width.eq_of_fits hafter (hfile.fits.get register)
  intro i hi
  apply getLsbD_get_depositAll_of_eq hfield.within hi
  intro fragment hmem hlies
  exact getLsbD_of_readRaw hfield.tiles hfield.totalBits_le hread hmem hlies

end LaidOut

/-- A field that is laid out in any order is a lens on its register bits, and it reads back every
value if and only if no two of its fragments lie on one register bit. -/
theorem writeRaw_lens (hfield : field.LaidOut width) :
    ((∀ file, RegisterFile.FitsIn width file → ∀ raw : Word, raw.toNat < 2 ^ field.totalBits →
        ∃ after, field.writeRaw file raw = .ok after ∧ field.readRaw after = .ok raw) ↔
      field.fragments.Pairwise fun a b ↦ ∀ register i, a.LiesOn register i →
        ¬b.LiesOn register i) ∧
    (∀ file, RegisterFile.FitsIn width file → ∀ raw : Word, raw.toNat < 2 ^ field.totalBits →
      ∃ after, field.writeRaw file raw = .ok after ∧
        (∀ register i, (∀ fragment ∈ field.fragments, ¬fragment.LiesOn register i) →
          (after.get register).getLsbD i = (file.get register).getLsbD i) ∧
        ∀ register, after.contains register = true ↔
          file.contains register = true ∨ register ∈ field.registers) ∧
    (∀ file, RegisterFile.FitsIn width file →
      ∃ raw after, field.readRaw file = .ok raw ∧ field.writeRaw file raw = .ok after ∧
        ∀ register, after.get register = file.get register) ∧
    ∀ other : Field, other.LaidOut width →
      (∀ a ∈ field.fragments, ∀ b ∈ other.fragments, ∀ register i,
        a.LiesOn register i → ¬b.LiesOn register i) →
      ∀ file, RegisterFile.FitsIn width file → ∀ raw otherRaw : Word,
        raw.toNat < 2 ^ field.totalBits → otherRaw.toNat < 2 ^ other.totalBits →
          ∃ after,
            (do other.writeRaw (← field.writeRaw file raw) otherRaw) = .ok after ∧
            (do field.writeRaw (← other.writeRaw file otherRaw) raw) = .ok after := by
  refine ⟨?_, ?_, ?_, ?_⟩
  · rw [← hfield.pairwise_apart_iff]
    constructor
    · intro h
      refine pairwise_apart_of_roundTrips hfield.tiles hfield.within hfield.totalBits_le ?_
      exact fun raw hraw ↦ h _ (RegisterFile.fitsIn_empty width) raw (Word.lt_two_pow_iff.2 hraw)
    · intro h file hfile raw hraw
      exact (roundTrips_iff_of_tiles hfield.tiles hfield.within hfield.totalBits_le
        hfield.isWritable).2 h file hfile.width_eq raw (Word.lt_two_pow_iff.1 hraw)
  · intro file hfile raw hraw
    refine ⟨_, hfield.writeRaw_eq_ok hfile hraw, ?_, contains_depositAll raw file field.fragments⟩
    intro register i hfree
    obtain rfl := hfile.width_eq
    by_cases hi : i < file.width.bits
    · exact getLsbD_get_depositAll_of_not_liesOn hfield.within hi hfree
    · have hafter := (fitsIn_depositAll raw hfile field.fragments).fits.get register
      rw [width_depositAll] at hafter
      rw [Width.fits_iff.1 hafter i (Nat.not_lt.1 hi),
        Width.fits_iff.1 (hfile.fits.get register) i (Nat.not_lt.1 hi)]
  · intro file hfile
    obtain ⟨raw, hread, hraw⟩ := hfield.exists_readRaw hfile
    exact ⟨raw, _, hread, hfield.writeRaw_eq_ok hfile hraw,
      hfield.get_depositAll_readRaw hfile hread⟩
  · intro other hother hshare file hfile raw otherRaw hraw hotherRaw
    have hleft := hother.writeRaw_eq_ok (fitsIn_depositAll raw hfile field.fragments) hotherRaw
    have hright := hfield.writeRaw_eq_ok (fitsIn_depositAll otherRaw hfile other.fragments) hraw
    refine ⟨depositAll raw (depositAll otherRaw file other.fragments) field.fragments, ?_, ?_⟩
    · rw [hfield.writeRaw_eq_ok hfile hraw,
        ← depositAll_comm hfile hfield.within hother.within hshare raw otherRaw]
      exact hleft
    · rw [hother.writeRaw_eq_ok hfile hotherRaw]
      exact hright

/-- A divider of 18 bits whose high bits stand first. -/
def shuffledDivider : Field :=
  ⟨"PLL_N", none, .readWrite, .concatenated [⟨0x1e, ⟨0, 1⟩, 16⟩, ⟨0x1d, ⟨0, 15⟩, 0⟩], .identity⟩

/-- A mode of five bits, two of which lie on bit 6 of a register. -/
def tangledMode : Field :=
  ⟨"MODE", none, .writeOnly, .concatenated [⟨0x1e, ⟨4, 6⟩, 0⟩, ⟨0x1e, ⟨6, 7⟩, 3⟩], .identity⟩

/-- Registers that share their word between both fields. -/
def sharedFile : RegisterFile :=
  ⟨.w16, SortedMap.ofList [(0x1e, 0xa5c3)]⟩

theorem laidOut_shuffledDivider : shuffledDivider.LaidOut .w16 where
  isWritable := rfl
  tiles := by
    refine ⟨List.pairwise_pair.2 fun j hhigh hlow ↦ ?_, fun j ↦ ?_⟩
    · exact absurd (hhigh.1.trans_lt hlow.2) (by decide)
    · have htotal : Fragment.totalLength shuffledDivider.fragments = 18 := rfl
      rw [htotal]
      simp only [shuffledDivider, fragments, FieldLayout.fragments, List.exists_mem_cons_iff,
        List.not_mem_nil, false_and, exists_false, or_false, Fragment.Gives, Fragment.length,
        BitRange.length]
      omega
  totalBits_le := by decide
  within := by decide

theorem laidOut_tangledMode : tangledMode.LaidOut .w16 where
  isWritable := rfl
  tiles := by
    have hordered : Fragment.TilesFrom 0 tangledMode.fragments := ⟨rfl, rfl, trivial⟩
    exact hordered.tiles
  totalBits_le := by decide
  within := by decide

theorem writeRaw_lens_sharedFile :
    shuffledDivider.LaidOut .w16 ∧ tangledMode.LaidOut .w16 ∧
      RegisterFile.FitsIn .w16 sharedFile ∧
      (∃ after, shuffledDivider.writeRaw sharedFile 0x2abcd = .ok after ∧
        shuffledDivider.readRaw after = .ok 0x2abcd) ∧
      (¬∀ file, RegisterFile.FitsIn .w16 file → ∀ raw : Word,
        raw.toNat < 2 ^ tangledMode.totalBits →
          ∃ after, tangledMode.writeRaw file raw = .ok after ∧
            tangledMode.readRaw after = .ok raw) ∧
      (∃ raw after, tangledMode.readRaw sharedFile = .ok raw ∧
        tangledMode.writeRaw sharedFile raw = .ok after ∧ after.get 0x1e = 0xa5c3) ∧
      ∃ after,
        (do tangledMode.writeRaw (← shuffledDivider.writeRaw sharedFile 0x2abcd) 0x15) =
          .ok after ∧
        (do shuffledDivider.writeRaw (← tangledMode.writeRaw sharedFile 0x15) 0x2abcd) =
          .ok after := by
  have hwords : RegisterFile.ofList .w16 [(0x1e, 0xa5c3)] = .ok sharedFile := by decide +kernel
  have hfile : RegisterFile.FitsIn .w16 sharedFile := RegisterFile.fitsIn_of_ofList hwords
  obtain ⟨hdivider, -, -, hcommutes⟩ := writeRaw_lens laidOut_shuffledDivider
  obtain ⟨hmode, -, hback, -⟩ := writeRaw_lens laidOut_tangledMode
  refine ⟨laidOut_shuffledDivider, laidOut_tangledMode, hfile, ?_, ?_, ?_, ?_⟩
  · refine hdivider.2 ?_ sharedFile hfile 0x2abcd (by decide)
    refine List.pairwise_pair.2 fun register i hhigh hlow ↦ ?_
    exact absurd (hhigh.1.trans hlow.1.symm) (by decide)
  · intro hroundTrips
    have hdisjoint := List.pairwise_pair.1 (hmode.1 hroundTrips)
    exact hdisjoint 0x1e 6 (by decide) (by decide)
  · obtain ⟨raw, after, hread, hwrite, hsame⟩ := hback sharedFile hfile
    exact ⟨raw, after, hread, hwrite, (hsame 0x1e).trans (by decide)⟩
  · refine hcommutes tangledMode laidOut_tangledMode ?_ sharedFile hfile 0x2abcd 0x15
      (by decide) (by decide)
    intro a ha b hb register i hliesA hliesB
    have hlow : i ≤ 1 ∨ register = 0x1d := by
      rcases List.mem_pair.1 ha with rfl | rfl
      · exact .inl hliesA.2.2
      · exact .inr hliesA.1.symm
    have hhigh : 4 ≤ i ∧ register = 0x1e := by
      rcases List.mem_pair.1 hb with rfl | rfl
      · exact ⟨hliesB.2.1, hliesB.1.symm⟩
      · exact ⟨hliesB.2.1.trans' (by decide), hliesB.1.symm⟩
    rcases hlow with hlow | hlow
    · omega
    · exact absurd (hlow.symm.trans hhigh.2) (by decide)

end Field

end ChipConfig
