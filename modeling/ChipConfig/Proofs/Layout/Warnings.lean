import ChipConfig.Proofs.Layout.Encode
import ChipConfig.Proofs.RegisterMap.Access

/-!
# What a warning says

Warnings come from a pass over the placements of a bit map, and there is one for each register bit
whose register is not writable.  Whether a register is writable is asked a second time when the
registers are picked that may be written at all, and both answers are the same.  So if there are no
warnings, the registers that must not be written are shown nowhere, and leaving them out changes
neither the image nor the reason why there is none.
-/

namespace ChipConfig

/-- Warnings are listed from the lowest address up, and in a word from the top bit down. -/
def LayoutWarning.Before (a b : LayoutWarning) : Prop :=
  a.address < b.address ∨ a.address = b.address ∧ b.bitIndex < a.bitIndex

namespace Layout

variable {policy : MissingPolicy} {map : RegisterMap} {bitMap : BitMap} {file : RegisterFile}

inductive Suspicion (map : RegisterMap) (register : Address) : WarningKind → Prop
  | undeclared (hmode : map.mode? register = none) : Suspicion map register .undeclared
  | notWritable {mode : AccessMode} (hmode : map.mode? register = some mode)
      (hwritable : mode.isWritable = false) : Suspicion map register (.notWritable mode)

theorem warningKind?_eq_some_iff {register : Address} {kind : WarningKind} :
    warningKind? map register = some kind ↔ Suspicion map register kind := by
  constructor
  · intro h
    rw [warningKind?] at h
    split at h
    · next mode hmode =>
      split at h
      · cases h
      · next hlocked =>
        obtain rfl := Option.some.inj h
        exact .notWritable hmode (Bool.eq_false_iff.2 hlocked)
    · next hmode =>
      obtain rfl := Option.some.inj h
      exact .undeclared hmode
  · intro h
    cases h with
    | undeclared hmode => rw [warningKind?, hmode]
    | notWritable hmode hlocked => simp [warningKind?, hmode, hlocked]

/-- Nothing is suspicious about the registers that may be written, and about all others something
is. -/
@[simp]
theorem warningKind?_eq_none_iff {register : Address} :
    warningKind? map register = none ↔ map.isWritable register = true := by
  rw [warningKind?, RegisterMap.isWritable]
  cases map.mode? register with
  | none => simp
  | some mode => simp

def warningAt (map : RegisterMap) (bitMap : BitMap) (placement : BitMap.Placement) :
    Option LayoutWarning :=
  placement.source.registerBit.bind fun place ↦
    (warningKind? map place.register).map fun kind ↦
      ⟨placement.address, bitMap.wordBit placement.position, place.register, kind⟩

theorem warnings_eq_filterMap (map : RegisterMap) (bitMap : BitMap) :
    warnings map bitMap = bitMap.placements.filterMap (warningAt map bitMap) := by
  rw [warnings, BitMap.placements, List.filterMap_flatMap]
  refine List.flatMap_congr fun entry _ ↦ ?_
  rw [wordWarnings, BitMap.wordPlacements, List.filterMap_map]
  rfl

theorem warningAt_eq_some_iff {placement : BitMap.Placement} {warning : LayoutWarning} :
    warningAt map bitMap placement = some warning ↔
      ∃ place, placement.source = .register place ∧ warning.address = placement.address ∧
        warning.bitIndex = bitMap.wordBit placement.position ∧
        warning.register = place.register ∧ Suspicion map place.register warning.kind := by
  obtain ⟨address, bitIndex, register, kind⟩ := warning
  simp only [warningAt, Option.bind_eq_some_iff, BitMap.registerBit_eq_some_iff,
    Option.map_eq_some_iff, warningKind?_eq_some_iff, LayoutWarning.mk.injEq]
  grind

@[simp]
theorem mem_warnings_iff {warning : LayoutWarning} :
    warning ∈ warnings map bitMap ↔
      ∃ position place,
        bitMap.sourceAt? warning.address position = some (.register place) ∧
        warning.bitIndex = bitMap.wordBit position ∧ warning.register = place.register ∧
        Suspicion map place.register warning.kind := by
  simp only [warnings_eq_filterMap, BitMap.mem_filterMap_placements, warningAt_eq_some_iff]
  constructor
  · rintro ⟨address, position, source, hsource, place, rfl, rfl, hrest⟩
    exact ⟨position, place, hsource, hrest⟩
  · rintro ⟨position, place, hsource, hrest⟩
    exact ⟨warning.address, position, _, hsource, place, rfl, rfl, hrest⟩

theorem pairwise_warnings (hmap : bitMap.WellFormed) (map : RegisterMap) :
    (warnings map bitMap).Pairwise LayoutWarning.Before := by
  rw [warnings_eq_filterMap]
  apply hmap.pairwise_filterMap_placements
  intro placement warning h
  obtain ⟨-, -, haddress, hindex, -⟩ := warningAt_eq_some_iff.1 h
  exact ⟨haddress, hindex⟩

/-- A position with a register that is not writable has its own warning. -/
theorem existsUnique_warning (hmap : bitMap.WellFormed) {address : Address} {position : Nat}
    {place : RegisterBit} (hsource : bitMap.sourceAt? address position = some (.register place))
    (hlocked : map.isWritable place.register = false) :
    ∃! warning, warning ∈ warnings map bitMap ∧ warning.address = address ∧
      warning.bitIndex = bitMap.wordBit position := by
  obtain ⟨kind, hkind⟩ : ∃ kind, warningKind? map place.register = some kind := by
    rw [← Option.ne_none_iff_exists', ne_eq, warningKind?_eq_none_iff, hlocked]
    exact Bool.false_ne_true
  refine ⟨⟨address, bitMap.wordBit position, place.register, kind⟩, ⟨?_, rfl, rfl⟩, ?_⟩
  · exact mem_warnings_iff.2
      ⟨position, place, hsource, rfl, rfl, warningKind?_eq_some_iff.1 hkind⟩
  · rintro ⟨_, _, register, other⟩ ⟨hmem, rfl, rfl⟩
    obtain ⟨n, shown, hshown, hindex, rfl, hother⟩ := mem_warnings_iff.1 hmem
    obtain rfl : n = position := by
      have hback := bitMap.wordBit_wordBit (hmap.position_lt hshown)
      rw [← hback, ← hindex, bitMap.wordBit_wordBit (hmap.position_lt hsource)]
    obtain rfl : place = shown := by simpa using hsource.symm.trans hshown
    rw [Option.some.inj (hkind.symm.trans (warningKind?_eq_some_iff.2 hother))]

/-- There are no warnings if every register that the bit map shows may be written. -/
theorem warnings_eq_nil_iff :
    warnings map bitMap = [] ↔
      ∀ place ∈ bitMap.registerBits, map.isWritable place.register = true := by
  simp only [warnings_eq_filterMap, BitMap.registerBits_eq_filterMap, List.filterMap_eq_nil_iff,
    List.mem_filterMap, forall_exists_index, and_imp]
  constructor
  · intro h place placement hplacement hplace
    have hnone := h placement hplacement
    rw [warningAt, hplace, Option.bind_some, Option.map_eq_none_iff] at hnone
    exact warningKind?_eq_none_iff.1 hnone
  · intro h placement hplacement
    rw [warningAt, Option.bind_eq_none_iff]
    intro place hplace
    rw [warningKind?_eq_none_iff.2 (h place placement hplacement hplace), Option.map_none]

/-- A source reads the entry of its register and nothing else of a file. -/
theorem sourceBit_congr {a b : RegisterFile} (hwidth : a.width = b.width) (address : Address)
    {source : BitSource}
    (h : ∀ place, source.registerBit = some place →
      a.words.get? place.register = b.words.get? place.register) :
    sourceBit policy a address source = sourceBit policy b address source := by
  cases source with
  | constant value => rfl
  | ignored => rfl
  | register place =>
    have hentry := h place rfl
    have hget : a.get place.register = b.get place.register := by
      rw [RegisterFile.get, RegisterFile.get, hentry]
    have hcontains : a.contains place.register = b.contains place.register := by
      rw [RegisterFile.contains, RegisterFile.contains, SortedMap.contains_eq_isSome,
        SortedMap.contains_eq_isSome, hentry]
    rw [sourceBit, sourceBit, hget, hcontains, hwidth]

/-- An image depends only on the registers that the bit map shows. -/
theorem encodeImage_congr {a b : RegisterFile} (hwidth : a.width = b.width)
    (h : ∀ place ∈ bitMap.registerBits,
      a.words.get? place.register = b.words.get? place.register) :
    encodeImage policy bitMap a = encodeImage policy bitMap b := by
  refine Fallible.foldlM_congr (fun image entry hentry ↦ ?_) _
  have hword : encodeWord policy a entry.1 entry.2 = encodeWord policy b entry.1 entry.2 := by
    have hbits : entry.2.mapM (sourceBit policy a entry.1) =
        entry.2.mapM (sourceBit policy b entry.1) := by
      refine Fallible.mapM_congr fun source hsource ↦ sourceBit_congr hwidth _ fun place hplace ↦ ?_
      apply h
      rw [BitMap.registerBits_eq_flatMap]
      exact List.mem_flatMap.2 ⟨entry, hentry, List.mem_filterMap.2 ⟨source, hsource, hplace⟩⟩
    rw [encodeWord, encodeWord, hbits]
  rw [encodeEntry, encodeEntry, hword]

/-- Registers that may be written are all there is to see for a bit map without warnings. -/
theorem encode_writablePart (h : warnings map bitMap = []) (policy : MissingPolicy)
    (file : RegisterFile) :
    encode policy map bitMap (map.writablePart file) = encode policy map bitMap file := by
  have himage : encodeImage policy bitMap (map.writablePart file) =
      encodeImage policy bitMap file := by
    apply encodeImage_congr (RegisterMap.width_writablePart map file)
    intro place hplace
    rw [RegisterMap.get?_writablePart, if_pos (warnings_eq_nil_iff.1 h place hplace)]
  rw [encode, encode, himage]

/-- One warning is listed for every register bit of the bit map whose register is not known or must
not be written.  If there is none, such registers make no difference to the image. -/
theorem warnings_complete (hmap : bitMap.Reachable) (map : RegisterMap) :
    (∀ warning, warning ∈ warnings map bitMap ↔
      ∃ position place,
        bitMap.sourceAt? warning.address position = some (.register place) ∧
        warning.bitIndex = bitMap.wordBit position ∧ warning.register = place.register ∧
        Suspicion map place.register warning.kind) ∧
    (∀ address position place, bitMap.sourceAt? address position = some (.register place) →
      map.isWritable place.register = false →
        ∃! warning, warning ∈ warnings map bitMap ∧ warning.address = address ∧
          warning.bitIndex = bitMap.wordBit position) ∧
    (warnings map bitMap).Pairwise LayoutWarning.Before ∧
    (∀ policy file encoded, encode policy map bitMap file = .ok encoded →
      encoded.warnings = warnings map bitMap) ∧
    (warnings map bitMap = [] → ∀ policy file,
      encode policy map bitMap file = encode policy map bitMap (map.writablePart file)) := by
  refine ⟨fun warning ↦ mem_warnings_iff, ?_, pairwise_warnings hmap.wellFormed map, ?_, ?_⟩
  · intro address position place hsource hlocked
    exact existsUnique_warning hmap.wellFormed hsource hlocked
  · intro policy file encoded hencoded
    obtain ⟨-, rfl⟩ := (encode_eq_ok_iff hmap.wellFormed).1 hencoded
    rfl
  · exact fun h policy file ↦ (encode_writablePart h policy file).symm

/-- The two registers that the sample bit map shows, one of them of a given mode, and a third one
that must not be written. -/
def guardedMap (mode : AccessMode) : RegisterMap where
  width := .w16
  registers := SortedMap.ofList
    [(0, ⟨0, .writeOnly, []⟩), (3, ⟨3, mode, []⟩), (5, ⟨5, .readOnly, []⟩)]
  fields := ∅

def guardedFile : RegisterFile :=
  ⟨.w16, SortedMap.ofList [(0, 0x0010), (3, 0x0400), (5, 0xffff)]⟩

theorem warnings_complete_sample :
    BitMap.sample.Reachable ∧
      (∃! warning, warning ∈ warnings (guardedMap .readOnly) BitMap.sample ∧
        warning.address = 0 ∧ warning.bitIndex = 1) ∧
      ⟨0, 0, 3, .notWritable .readOnly⟩ ∈ warnings (guardedMap .readOnly) BitMap.sample ∧
      warnings (guardedMap .readWrite) BitMap.sample = [] ∧
      (guardedMap .readWrite).rejected guardedFile = [5] ∧
      encode .reject (guardedMap .readWrite) BitMap.sample guardedFile =
        encode .reject (guardedMap .readWrite) BitMap.sample
          ((guardedMap .readWrite).writablePart guardedFile) := by
  obtain ⟨hmem, hunique, -, -, -⟩ :=
    warnings_complete BitMap.reachable_sample (guardedMap .readOnly)
  obtain ⟨-, -, -, -, hleftOut⟩ :=
    warnings_complete BitMap.reachable_sample (guardedMap .readWrite)
  have hnone : warnings (guardedMap .readWrite) BitMap.sample = [] := by decide +kernel
  refine ⟨BitMap.reachable_sample, ?_, ?_, hnone, by decide +kernel,
    hleftOut hnone .reject guardedFile⟩
  · have hfirst : BitMap.sample.sourceAt? 0 2 = some (.register ⟨3, 9⟩) := by decide +kernel
    exact hunique 0 2 ⟨3, 9⟩ hfirst (by decide +kernel)
  · have hlast : BitMap.sample.sourceAt? 0 3 = some (.register ⟨3, 10⟩) := by decide +kernel
    exact (hmem _).2 ⟨3, ⟨3, 10⟩, hlast, rfl, rfl, .notWritable (by decide +kernel) rfl⟩

end Layout

end ChipConfig
