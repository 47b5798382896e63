import ChipConfig.Proofs.Fragment
import ChipConfig.Proofs.RegisterFile

/-!
# Raw bits of fields

Reading a field takes each bit from the fragment that gives it.  Writing one collects the new words
of all registers first and then puts them in, which comes to the same as putting every chunk
straight into its register: later fragments see what earlier ones wrote, and once all chunks have
found their place nothing can fail.  So a field reads back what was written exactly if no two of its
fragments have a register bit in common.
-/

namespace ChipConfig

namespace Fragment

variable {fragment a b : Fragment} {file : RegisterFile}

/-- Whether a fragment lies on a bit of a register. -/
def LiesOn (fragment : Fragment) (register : Address) (i : Nat) : Prop :=
  fragment.register = register ∧ fragment.bits.Covers i

instance (fragment : Fragment) (register : Address) (i : Nat) :
    Decidable (fragment.LiesOn register i) :=
  inferInstanceAs (Decidable (_ ∧ _))

/-- Whether two fragments have no register bit in common. -/
def Apart (a b : Fragment) : Prop :=
  a.register = b.register → a.bits.high < b.bits.low ∨ b.bits.high < a.bits.low

instance (a b : Fragment) : Decidable (a.Apart b) :=
  inferInstanceAs (Decidable (_ → _))

/-- The bit of its register that gives a bit of the field. -/
def registerBit (fragment : Fragment) (j : Nat) : Nat :=
  fragment.bits.low + (j - fragment.offset)

/-- The bit of the field that a bit of its register gives. -/
def fieldBit (fragment : Fragment) (i : Nat) : Nat :=
  fragment.offset + (i - fragment.bits.low)

theorem Apart.not_liesOn (h : a.Apart b) {register : Address} {i : Nat}
    (ha : a.LiesOn register i) : ¬b.LiesOn register i := by
  intro hb
  have hlow := ha.2.1
  have hhigh := ha.2.2
  have hlow' := hb.2.1
  have hhigh' := hb.2.2
  rcases h (ha.1.trans hb.1.symm) with hbelow | habove
  · omega
  · omega

/-- Fragments that are not apart share the bit where the higher one starts. -/
theorem exists_liesOn_of_not_apart {width : Width} (ha : a.bits.Within width)
    (hb : b.bits.Within width) (h : ¬a.Apart b) :
    ∃ register i, a.LiesOn register i ∧ b.LiesOn register i := by
  unfold Apart at h
  push Not at h
  obtain ⟨hregister, hbelow, habove⟩ := h
  have horder := ha.1
  have horder' := hb.1
  refine ⟨a.register, max a.bits.low b.bits.low, ⟨rfl, ?_, ?_⟩, hregister.symm, ?_, ?_⟩
  all_goals omega

theorem liesOn_registerBit {width : Width} (hwithin : fragment.bits.Within width) {j : Nat}
    (hgives : fragment.Gives j) : fragment.LiesOn fragment.register (fragment.registerBit j) := by
  have hlength := hwithin.low_add_length
  have hstart := hgives.1
  have hend : j < fragment.offset + fragment.bits.length := hgives.2
  refine ⟨rfl, ?_, ?_⟩
  all_goals
    unfold registerBit
    omega

theorem gives_fieldBit {width : Width} (hwithin : fragment.bits.Within width)
    {register : Address} {i : Nat} (h : fragment.LiesOn register i) :
    fragment.Gives (fragment.fieldBit i) := by
  have hlength := hwithin.low_add_length
  have hlow := h.2.1
  have hhigh := h.2.2
  unfold Gives fieldBit length
  omega

theorem registerBit_fieldBit {register : Address} {i : Nat} (h : fragment.LiesOn register i) :
    fragment.registerBit (fragment.fieldBit i) = i := by
  have hlow := h.2.1
  unfold registerBit fieldBit
  omega

theorem fieldBit_registerBit {j : Nat} (h : fragment.Gives j) :
    fragment.fieldBit (fragment.registerBit j) = j := by
  have hstart := h.1
  unfold registerBit fieldBit
  omega

/-- The bits of a field that a fragment gives, at their places in the raw value. -/
def part (file : RegisterFile) (fragment : Fragment) : Word :=
  fragment.bits.slice file.width (file.get fragment.register) <<< fragment.offset

theorem getLsbD_part (hwithin : fragment.bits.Within file.width) {j : Nat} (hj : j < 64) :
    (fragment.part file).getLsbD j =
      (decide (fragment.Gives j) &&
        (file.get fragment.register).getLsbD (fragment.registerBit j)) := by
  rw [part, BitVec.getLsbD_shiftLeft, BitRange.getLsbD_slice hwithin]
  by_cases hstart : fragment.offset ≤ j
  · have hgives : fragment.Gives j ↔ j - fragment.offset < fragment.bits.length := by
      unfold Gives length
      omega
    simp [hj, hgives, registerBit, show ¬j < fragment.offset by omega]
  · have hgives : ¬fragment.Gives j := fun h ↦ hstart h.1
    simp [hgives, show j < fragment.offset by omega]

end Fragment

namespace Field

variable {field : Field} {file after : RegisterFile} {fragments : List Fragment}
  {fragment : Fragment} {raw : Word}

def gathered (file : RegisterFile) (fragments : List Fragment) : Word :=
  fragments.foldl (fun raw fragment ↦ raw ||| fragment.part file) 0

@[simp]
theorem gather_eq_ok_iff {result : Word} :
    gather file raw fragment = .ok result ↔
      fragment.bits.Within file.width ∧ result = raw ||| fragment.part file := by
  simp [gather, Fragment.part]

theorem readRaw_eq_ok_iff :
    field.readRaw file = .ok raw ↔
      (∀ fragment ∈ field.fragments, fragment.bits.Within file.width) ∧
        raw = gathered file field.fragments := by
  apply Fallible.foldlM_eq_ok_iff (fun _ ↦ True)
  · intro _ _ fragment _ _
    exact gather_eq_ok_iff
  · intro _ _ _ _
    trivial
  · trivial

theorem getLsbD_gathered (hwithin : ∀ fragment ∈ fragments, fragment.bits.Within file.width)
    {j : Nat} (hj : j < 64) :
    (gathered file fragments).getLsbD j = true ↔
      ∃ fragment ∈ fragments, fragment.Gives j ∧
        (file.get fragment.register).getLsbD (fragment.registerBit j) = true := by
  have hfold (raw : Word) :
      (fragments.foldl (fun raw fragment ↦ raw ||| fragment.part file) raw).getLsbD j = true ↔
        raw.getLsbD j = true ∨ ∃ fragment ∈ fragments, fragment.Gives j ∧
          (file.get fragment.register).getLsbD (fragment.registerBit j) = true := by
    induction fragments generalizing raw with
    | nil => simp
    | cons head rest ih =>
      obtain ⟨hhead, hrest⟩ := List.forall_mem_cons.1 hwithin
      rw [List.foldl_cons, ih hrest, BitVec.getLsbD_or, Fragment.getLsbD_part hhead hj,
        Bool.or_eq_true, Bool.and_eq_true, decide_eq_true_eq, List.exists_mem_cons_iff, or_assoc]
  rw [gathered, hfold]
  simp

/-- The bit that a fragment gives is the bit of its register, if no other fragment gives it. -/
theorem getLsbD_gathered_of_gives
    (hdisjoint : fragments.Pairwise fun a b ↦ ∀ j, a.Gives j → ¬b.Gives j)
    (hwithin : ∀ fragment ∈ fragments, fragment.bits.Within file.width)
    (hmem : fragment ∈ fragments) {j : Nat} (hgives : fragment.Gives j) (hj : j < 64) :
    (gathered file fragments).getLsbD j =
      (file.get fragment.register).getLsbD (fragment.registerBit j) := by
  rw [Bool.eq_iff_iff, getLsbD_gathered hwithin hj]
  constructor
  · intro h
    obtain ⟨other, hother, hgivesOther, hbit⟩ := h
    rwa [Fragment.eq_of_gives hdisjoint hmem hother hgives hgivesOther]
  · intro hbit
    exact ⟨fragment, hmem, hgives, hbit⟩

/-- Fragments that tile a field give no bit above it. -/
theorem getLsbD_gathered_of_ge (htiles : Fragment.Tiles fragments)
    (hwithin : ∀ fragment ∈ fragments, fragment.bits.Within file.width) {j : Nat}
    (hj : Fragment.totalLength fragments ≤ j) : (gathered file fragments).getLsbD j = false := by
  by_cases hlarge : j < 64
  · rw [← Bool.not_eq_true, getLsbD_gathered hwithin hlarge]
    rintro ⟨fragment, hmem, hgives, -⟩
    exact Nat.not_lt.2 hj ((htiles.gives_iff j).1 ⟨fragment, hmem, hgives⟩)
  · exact BitVec.getLsbD_of_ge _ _ (Nat.not_lt.1 hlarge)

/-! ## Writing a chunk -/

@[simp]
theorem getLsbD_chunk (raw : Word) (fragment : Fragment) (i : Nat) :
    (chunk raw fragment).getLsbD i =
      (decide (i < fragment.length) && raw.getLsbD (fragment.offset + i)) := by
  rw [chunk, BitVec.getLsbD_and, BitVec.getLsbD_ushiftRight, Word.getLsbD_lowMask]
  by_cases hi : i < 64
  · simp [hi, Bool.and_comm]
  · simp [BitVec.getLsbD_of_ge raw (fragment.offset + i) (by omega)]

theorem getLsbD_chunk_of_ge (raw : Word) (fragment : Fragment) (i : Nat)
    (hi : fragment.length ≤ i) : (chunk raw fragment).getLsbD i = false := by
  rw [getLsbD_chunk]
  simp [show ¬i < fragment.length by omega]

/-- A chunk is never too long for its fragment. -/
@[simp]
theorem insert_chunk_eq_ok_iff {width : Width} {word result : Word} :
    fragment.bits.insert width word (chunk raw fragment) = .ok result ↔
      fragment.bits.Within width ∧
        result = fragment.bits.splice width word (chunk raw fragment) := by
  rw [BitRange.insert_eq_ok_iff]
  exact and_congr_right fun _ ↦ and_iff_right (getLsbD_chunk_of_ge raw fragment)

/-- The file with the chunk of a fragment put into its register. -/
def deposit (raw : Word) (file : RegisterFile) (fragment : Fragment) : RegisterFile :=
  { file with
    words := file.words.insert fragment.register
      (fragment.bits.splice file.width (file.get fragment.register) (chunk raw fragment)) }

theorem getLsbD_get_deposit (hwithin : fragment.bits.Within file.width) (register : Address)
    {i : Nat} (hi : i < file.width.bits) :
    ((deposit raw file fragment).get register).getLsbD i =
      if fragment.LiesOn register i then raw.getLsbD (fragment.fieldBit i)
      else (file.get register).getLsbD i := by
  rw [deposit, RegisterFile.get_insert]
  split
  · next hregister =>
    subst hregister
    rw [BitRange.getLsbD_splice hwithin (getLsbD_chunk_of_ge raw fragment) _ hi]
    by_cases hcovers : fragment.bits.Covers i
    · have hlies : fragment.LiesOn fragment.register i := ⟨rfl, hcovers⟩
      have hlength : i - fragment.bits.low < fragment.length := by
        have hend := hwithin.low_add_length
        obtain ⟨hlow, hhigh⟩ := hcovers
        unfold Fragment.length
        omega
      rw [if_pos hcovers, if_pos hlies, getLsbD_chunk, Fragment.fieldBit]
      simp [hlength]
    · have hlies : ¬fragment.LiesOn fragment.register i := fun h ↦ hcovers h.2
      rw [if_neg hcovers, if_neg hlies]
  · next hregister =>
    have hlies : ¬fragment.LiesOn register i := fun h ↦ hregister h.1.symm
    rw [if_neg hlies]

def depositAll (raw : Word) (file : RegisterFile) (fragments : List Fragment) : RegisterFile :=
  fragments.foldl (deposit raw) file

@[simp]
theorem width_depositAll (raw : Word) (file : RegisterFile) (fragments : List Fragment) :
    (depositAll raw file fragments).width = file.width := by
  unfold depositAll
  induction fragments generalizing file with
  | nil => rfl
  | cons head rest ih => exact ih (deposit raw file head)

/-- A register bit stays what it is if all fragments that lie on it give it just that. -/
theorem getLsbD_get_depositAll_of_eq
    (hwithin : ∀ fragment ∈ fragments, fragment.bits.Within file.width) {register : Address}
    {i : Nat} (hi : i < file.width.bits)
    (h : ∀ fragment ∈ fragments, fragment.LiesOn register i →
      raw.getLsbD (fragment.fieldBit i) = (file.get register).getLsbD i) :
    ((depositAll raw file fragments).get register).getLsbD i =
      (file.get register).getLsbD i := by
  unfold depositAll
  induction fragments generalizing file with
  | nil => rfl
  | cons head rest ih =>
    obtain ⟨hhead, hrest⟩ := List.forall_mem_cons.1 hwithin
    obtain ⟨hsame, hsameRest⟩ := List.forall_mem_cons.1 h
    have hafter : ∀ fragment ∈ rest, fragment.bits.Within (deposit raw file head).width := hrest
    have hbit : ((deposit raw file head).get register).getLsbD i =
        (file.get register).getLsbD i := by
      rw [getLsbD_get_deposit hhead register hi]
      split
      · next hlies => exact hsame hlies
      · rfl
    rw [List.foldl_cons, ih hafter hi (by rwa [hbit]), hbit]

theorem getLsbD_get_depositAll_of_not_liesOn
    (hwithin : ∀ fragment ∈ fragments, fragment.bits.Within file.width) {register : Address}
    {i : Nat} (hi : i < file.width.bits)
    (h : ∀ fragment ∈ fragments, ¬fragment.LiesOn register i) :
    ((depositAll raw file fragments).get register).getLsbD i =
      (file.get register).getLsbD i :=
  getLsbD_get_depositAll_of_eq hwithin hi fun fragment hfragment hlies ↦
    absurd hlies (h fragment hfragment)

/-- A register bit holds the bit of the field that lies on it, if only one does. -/
theorem getLsbD_get_depositAll_of_liesOn
    (hwithin : ∀ fragment ∈ fragments, fragment.bits.Within file.width)
    (hapart : fragments.Pairwise Fragment.Apart) (hmem : fragment ∈ fragments)
    {register : Address} {i : Nat} (hi : i < file.width.bits)
    (hlies : fragment.LiesOn register i) :
    ((depositAll raw file fragments).get register).getLsbD i =
      raw.getLsbD (fragment.fieldBit i) := by
  induction fragments generalizing file with
  | nil => cases hmem
  | cons head rest ih =>
    obtain ⟨hhead, hrest⟩ := List.forall_mem_cons.1 hwithin
    obtain ⟨haway, hapartRest⟩ := List.pairwise_cons.1 hapart
    have hafter : ∀ fragment ∈ rest, fragment.bits.Within (deposit raw file head).width := hrest
    change ((depositAll raw (deposit raw file head) rest).get register).getLsbD i = _
    rcases List.mem_cons.1 hmem with rfl | hmem
    · have hfree : ∀ other ∈ rest, ¬other.LiesOn register i :=
        fun other hother ↦ (haway other hother).not_liesOn hlies
      rw [getLsbD_get_depositAll_of_not_liesOn hafter hi hfree,
        getLsbD_get_deposit hhead register hi, if_pos hlies]
    · exact ih hafter hapartRest hmem hi

/-- Registers without a fragment keep their entries. -/
theorem get?_depositAll_of_not_mem {register : Address}
    (h : register ∉ fragments.map Fragment.register) :
    (depositAll raw file fragments).words.get? register = file.words.get? register := by
  unfold depositAll
  induction fragments generalizing file with
  | nil => rfl
  | cons head rest ih =>
    rw [List.map_cons, List.mem_cons, not_or] at h
    rw [List.foldl_cons, ih h.2]
    exact SortedMap.get?_insert_of_ne file.words h.1 _

/-- A file with the words that wait to be written put in, the last one of the list first. -/
def written (file : RegisterFile) (pending : List (Address × Word)) : RegisterFile :=
  pending.foldr (fun entry file ↦ { file with words := file.words.insert entry.1 entry.2 }) file

@[simp]
theorem width_written (file : RegisterFile) (pending : List (Address × Word)) :
    (written file pending).width = file.width := by
  induction pending with
  | nil => rfl
  | cons entry pending ih => exact ih

/-- What a register is going to hold is what it holds when all words have been put in. -/
theorem pendingWord_eq_get_written (file : RegisterFile) (pending : List (Address × Word))
    (register : Address) :
    pendingWord file pending register = (written file pending).get register := by
  induction pending with
  | nil => rfl
  | cons entry pending ih =>
    rw [written, List.foldr_cons, RegisterFile.get_insert, pendingWord, List.find?_cons]
    by_cases hregister : entry.1 = register
    · simp [hregister]
    · have hne : register ≠ entry.1 := fun h ↦ hregister h.symm
      rw [if_neg hne, ← written, ← ih, pendingWord]
      simp [hregister]

def staged (file : RegisterFile) (raw : Word) (pending : List (Address × Word))
    (fragment : Fragment) : List (Address × Word) :=
  (fragment.register, fragment.bits.splice file.width
    (pendingWord file pending fragment.register) (chunk raw fragment)) :: pending

@[simp]
theorem stage_eq_ok_iff {pending result : List (Address × Word)} :
    stage file raw pending fragment = .ok result ↔
      fragment.bits.Within file.width ∧ result = staged file raw pending fragment := by
  simp [stage, staged]

theorem foldlM_stage_eq_ok_iff {pending : List (Address × Word)} :
    fragments.foldlM (stage file raw) [] = .ok pending ↔
      (∀ fragment ∈ fragments, fragment.bits.Within file.width) ∧
        pending = fragments.foldl (staged file raw) [] := by
  apply Fallible.foldlM_eq_ok_iff (fun _ ↦ True)
  · intro _ _ fragment _ _
    exact stage_eq_ok_iff
  · intro _ _ _ _
    trivial
  · trivial

@[simp]
theorem written_foldl_staged (file : RegisterFile) (raw : Word) (pending : List (Address × Word))
    (fragments : List Fragment) :
    written file (fragments.foldl (staged file raw) pending) =
      depositAll raw (written file pending) fragments := by
  unfold depositAll
  induction fragments generalizing pending with
  | nil => rfl
  | cons head rest ih =>
    have hstep : written file (staged file raw pending head) =
        deposit raw (written file pending) head := by
      rw [staged, pendingWord_eq_get_written, ← width_written file pending]
      rfl
    rw [List.foldl_cons, List.foldl_cons, ih, hstep]

/-- Every word that waits to be written fits its register. -/
theorem fits_of_mem_foldl_staged {pending : List (Address × Word)}
    (h : ∀ entry ∈ pending, file.width.Fits entry.2) :
    ∀ entry ∈ fragments.foldl (staged file raw) pending, file.width.Fits entry.2 := by
  induction fragments generalizing pending with
  | nil => exact h
  | cons head rest ih =>
    apply ih
    rw [staged, List.forall_mem_cons]
    exact ⟨BitRange.fits_splice _ _ _ _, h⟩

/-- Putting in the words that wait cannot fail. -/
theorem foldlM_set_staged (file : RegisterFile) (raw : Word) (fragments : List Fragment) :
    (fragments.foldl (staged file raw) []).reverse.foldlM
        (fun file entry ↦ file.set entry.1 entry.2) file =
      .ok (depositAll raw file fragments) := by
  have hfits : ∀ entry ∈ (fragments.foldl (staged file raw) []).reverse,
      file.width.Fits entry.2 := by
    intro entry hentry
    exact fits_of_mem_foldl_staged (by simp) entry (List.mem_reverse.1 hentry)
  have hall : (fragments.foldl (staged file raw) []).reverse.foldl
      (fun file entry ↦ { file with words := file.words.insert entry.1 entry.2 }) file =
      depositAll raw file fragments := by
    rw [List.foldl_reverse]
    exact written_foldl_staged file raw [] fragments
  apply (Fallible.foldlM_eq_ok_iff (fun other ↦ other.width = file.width) ?_ ?_ rfl).2
    ⟨hfits, hall.symm⟩
  · intro other hwidth entry _ result
    rw [RegisterFile.set_eq_ok_iff, hwidth]
  · intro other hwidth entry _
    exact hwidth

theorem scatter_eq_ok_iff :
    field.scatter file raw = .ok after ↔
      (∀ fragment ∈ field.fragments, fragment.bits.Within file.width) ∧
        after = depositAll raw file field.fragments := by
  unfold scatter
  rw [Fallible.bind_eq_ok_iff_of_iff fun _ ↦ foldlM_stage_eq_ok_iff, foldlM_set_staged,
    Fallible.ok_eq_ok_iff]

/-- Raw bits are written if the field may be written and they fit it. -/
theorem writeRaw_eq_ok_iff :
    field.writeRaw file raw = .ok after ↔
      field.mode.isWritable = true ∧ (∀ j, field.totalBits ≤ j → raw.getLsbD j = false) ∧
        (∀ fragment ∈ field.fragments, fragment.bits.Within file.width) ∧
        after = depositAll raw file field.fragments := by
  rw [← Word.and_complement_lowMask_eq_zero_iff, ← scatter_eq_ok_iff, writeRaw]
  cases hmode : field.mode.isWritable with
  | false => simp
  | true =>
    simp only [Bool.not_true, Bool.false_eq_true, if_false, ne_eq, ite_not, true_and]
    split
    · next hraw =>
      rw [and_iff_right hraw]
      cases field.scatter file raw <;> simp
    · next hraw => simp only [hraw, false_and, reduceCtorEq]

/-! ## Reading what was written -/

/-- Whether a field of registers of a width always reads back the raw bits that are written to
it. -/
def RoundTrips (field : Field) (width : Width) : Prop :=
  ∀ file : RegisterFile, file.width = width →
    ∀ raw : Word, (∀ j, field.totalBits ≤ j → raw.getLsbD j = false) →
      ∃ after, field.writeRaw file raw = .ok after ∧ field.readRaw after = .ok raw

variable {width : Width} (htiles : Fragment.Tiles field.fragments)
  (hwithin : ∀ fragment ∈ field.fragments, fragment.bits.Within width)

include htiles hwithin

theorem gathered_depositAll (hapart : field.fragments.Pairwise Fragment.Apart)
    (hwidth : file.width = width) (hraw : ∀ j, field.totalBits ≤ j → raw.getLsbD j = false) :
    gathered (depositAll raw file field.fragments) field.fragments = raw := by
  subst hwidth
  have hwithinAfter : ∀ fragment ∈ field.fragments,
      fragment.bits.Within (depositAll raw file field.fragments).width := by
    rwa [width_depositAll]
  apply BitVec.eq_of_getLsbD_eq
  intro j hj
  by_cases hshort : j < field.totalBits
  · obtain ⟨fragment, hmem, hgives⟩ := (htiles.gives_iff j).2 hshort
    have hlies := Fragment.liesOn_registerBit (hwithin fragment hmem) hgives
    have hi : fragment.registerBit j < file.width.bits :=
      hlies.2.2.trans_lt (hwithin fragment hmem).2
    calc (gathered (depositAll raw file field.fragments) field.fragments).getLsbD j
        = ((depositAll raw file field.fragments).get fragment.register).getLsbD
            (fragment.registerBit j) :=
          getLsbD_gathered_of_gives htiles.disjoint hwithinAfter hmem hgives hj
      _ = raw.getLsbD (fragment.fieldBit (fragment.registerBit j)) :=
          getLsbD_get_depositAll_of_liesOn hwithin hapart hmem hi hlies
      _ = raw.getLsbD j := by rw [Fragment.fieldBit_registerBit hgives]
  · have habove : field.totalBits ≤ j := Nat.not_lt.1 hshort
    rw [hraw j habove, getLsbD_gathered_of_ge htiles hwithinAfter habove]

omit hwithin in
/-- A field reads the register bits that its fragments lie on. -/
theorem getLsbD_of_readRaw (hbits : field.totalBits ≤ 64) (hread : field.readRaw file = .ok raw)
    (hmem : fragment ∈ field.fragments) {register : Address} {i : Nat}
    (hlies : fragment.LiesOn register i) :
    raw.getLsbD (fragment.fieldBit i) = (file.get register).getLsbD i := by
  obtain ⟨hwithin, rfl⟩ := readRaw_eq_ok_iff.1 hread
  have hgives := Fragment.gives_fieldBit (hwithin fragment hmem) hlies
  have hlt : fragment.fieldBit i < field.totalBits :=
    (htiles.gives_iff _).1 ⟨fragment, hmem, hgives⟩
  rw [getLsbD_gathered_of_gives htiles.disjoint hwithin hmem hgives (by omega),
    Fragment.registerBit_fieldBit hlies, hlies.1]

/-- Two fragments on one register bit give the same bit twice, which a raw value need not have. -/
theorem pairwise_apart_of_roundTrips (hbits : field.totalBits ≤ 64)
    (h : ∀ raw : Word, (∀ j, field.totalBits ≤ j → raw.getLsbD j = false) →
      ∃ after, field.writeRaw (.empty width) raw = .ok after ∧ field.readRaw after = .ok raw) :
    field.fragments.Pairwise Fragment.Apart := by
  refine htiles.disjoint.imp_of_mem ?_
  intro a b ha hb hab
  by_contra hnot
  obtain ⟨register, i, hliesA, hliesB⟩ :=
    Fragment.exists_liesOn_of_not_apart (hwithin a ha) (hwithin b hb) hnot
  have hgivesA := Fragment.gives_fieldBit (hwithin a ha) hliesA
  have hgivesB := Fragment.gives_fieldBit (hwithin b hb) hliesB
  have hlt : a.fieldBit i < field.totalBits := (htiles.gives_iff _).1 ⟨a, ha, hgivesA⟩
  have hne : a.fieldBit i ≠ b.fieldBit i := fun heq ↦ hab _ hgivesA (heq ▸ hgivesB)
  -- Only the bit of the first fragment is set in the raw value.
  let raw : Word := BitVec.twoPow 64 (a.fieldBit i)
  have hraw : ∀ j, field.totalBits ≤ j → raw.getLsbD j = false := by
    intro j hj
    simp [raw, BitVec.getLsbD_twoPow, show ¬a.fieldBit i = j by omega]
  obtain ⟨after, -, hread⟩ := h raw hraw
  have hsame : raw.getLsbD (a.fieldBit i) = raw.getLsbD (b.fieldBit i) := by
    calc raw.getLsbD (a.fieldBit i)
        = (after.get register).getLsbD i := getLsbD_of_readRaw htiles hbits hread ha hliesA
      _ = raw.getLsbD (b.fieldBit i) := (getLsbD_of_readRaw htiles hbits hread hb hliesB).symm
  simp only [raw, BitVec.getLsbD_twoPow, hne, decide_true, decide_false, Bool.and_true,
    Bool.and_false, decide_eq_false_iff_not] at hsame
  omega

theorem roundTrips_iff_of_tiles (hbits : field.totalBits ≤ 64)
    (hwritable : field.mode.isWritable = true) :
    field.RoundTrips width ↔ field.fragments.Pairwise Fragment.Apart := by
  constructor
  · intro h
    exact pairwise_apart_of_roundTrips htiles hwithin hbits (h (.empty width) rfl)
  · intro hapart file hwidth raw hraw
    refine ⟨_, writeRaw_eq_ok_iff.2 ⟨hwritable, hraw, hwidth ▸ hwithin, rfl⟩, ?_⟩
    apply readRaw_eq_ok_iff.2
    rw [width_depositAll, hwidth]
    exact ⟨hwithin, (gathered_depositAll htiles hwithin hapart hwidth hraw).symm⟩

omit htiles hwithin in
theorem roundTrips_iff (htiles : Fragment.TilesFrom 0 field.fragments)
    (hwithin : ∀ fragment ∈ field.fragments, fragment.bits.Within width)
    (hbits : field.totalBits ≤ 64) (hwritable : field.mode.isWritable = true) :
    field.RoundTrips width ↔ field.fragments.Pairwise Fragment.Apart :=
  roundTrips_iff_of_tiles htiles.tiles hwithin hbits hwritable

end Field

end ChipConfig
