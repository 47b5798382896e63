import ChipConfig.BitMap
import ChipConfig.Proofs.SortedMap

/-!
# Placements

A bit map can be read as one list of placements: a position of a word and the source of the bit
there, word by word and each word from its top bit down.  The register bits that the map shows are
those of the placements in the same order, and a position of a word occurs once in the list.
-/

namespace ChipConfig

namespace RegisterBit

/-- The place of a bit of a register, found by its number. -/
theorem exists_of_lt (register : Address) {i : Nat} (hi : i < 64) :
    ∃ place : RegisterBit, place.register = register ∧ place.bit.toNat = i :=
  ⟨⟨register, UInt32.ofNat i⟩, rfl, UInt32.toNat_ofNat_of_lt' (hi.trans (by decide))⟩

theorem eq_iff {a b : RegisterBit} :
    a = b ↔ a.register = b.register ∧ a.bit.toNat = b.bit.toNat := by
  obtain ⟨register, bit⟩ := a
  obtain ⟨register', bit'⟩ := b
  rw [mk.injEq, UInt32.toNat_inj]

end RegisterBit

namespace BitMap

/-- The source of the bit at a position of the word at an address. -/
def sourceAt? (map : BitMap) (address : Address) (position : Nat) : Option BitSource :=
  (map.get? address).bind fun sources ↦ sources[position]?

/-- A position of a word, and the source of the bit there. -/
structure Placement where
  address : Address
  position : Nat
  source : BitSource

def wordPlacements (entry : Address × List BitSource) : List Placement :=
  entry.2.zipIdx.map fun (source, position) ↦ ⟨entry.1, position, source⟩

def placements (map : BitMap) : List Placement :=
  map.toList.flatMap wordPlacements

def placesOf (sources : List BitSource) : List RegisterBit :=
  sources.filterMap BitSource.registerBit

@[simp]
theorem mem_wordPlacements_iff {entry : Address × List BitSource} {placement : Placement} :
    placement ∈ wordPlacements entry ↔
      placement.address = entry.1 ∧ entry.2[placement.position]? = some placement.source := by
  obtain ⟨address, position, source⟩ := placement
  simp only [wordPlacements, List.mem_map, Prod.exists, List.mk_mem_zipIdx_iff_getElem?,
    Placement.mk.injEq]
  constructor
  · intro h
    obtain ⟨s, p, hsource, rfl, rfl, rfl⟩ := h
    exact ⟨rfl, hsource⟩
  · intro h
    exact ⟨source, position, h.2, h.1.symm, rfl, rfl⟩

@[simp]
theorem mem_toList_iff {map : BitMap} {address : Address} {sources : List BitSource} :
    (address, sources) ∈ map.toList ↔ map.get? address = some sources :=
  SortedMap.mem_toList_iff

theorem contains_of_sourceAt? {map : BitMap} {address : Address} {position : Nat}
    {source : BitSource} (h : map.sourceAt? address position = some source) :
    map.words.contains address = true := by
  obtain ⟨sources, hsources, -⟩ := Option.bind_eq_some_iff.1 h
  rw [SortedMap.contains_eq_isSome, Option.isSome_iff_exists]
  exact ⟨sources, hsources⟩

/-- The list of placements is the function from positions to sources. -/
@[simp]
theorem mem_placements_iff {map : BitMap} {placement : Placement} :
    placement ∈ map.placements ↔
      map.sourceAt? placement.address placement.position = some placement.source := by
  simp only [placements, List.mem_flatMap, mem_wordPlacements_iff, Prod.exists, mem_toList_iff,
    sourceAt?, Option.bind_eq_some_iff]
  constructor
  · intro h
    obtain ⟨address, sources, hsources, rfl, hsource⟩ := h
    exact ⟨sources, hsources, hsource⟩
  · intro h
    obtain ⟨sources, hsources, hsource⟩ := h
    exact ⟨_, sources, hsources, rfl, hsource⟩

theorem mem_filterMap_placements {α : Type} {map : BitMap} {f : Placement → Option α} {a : α} :
    a ∈ map.placements.filterMap f ↔ ∃ address position source,
      map.sourceAt? address position = some source ∧ f ⟨address, position, source⟩ = some a := by
  rw [List.mem_filterMap]
  constructor
  · rintro ⟨⟨address, position, source⟩, hplacement, ha⟩
    exact ⟨address, position, source, mem_placements_iff.1 hplacement, ha⟩
  · rintro ⟨address, position, source, hsource, ha⟩
    exact ⟨⟨address, position, source⟩, mem_placements_iff.2 hsource, ha⟩

/-- Placements come in ascending order of addresses, and inside a word of positions. -/
def Placement.Before (a b : Placement) : Prop :=
  a.address < b.address ∨ a.address = b.address ∧ a.position < b.position

/-- No two placements come before each other. -/
instance Placement.asymm_before : Std.Asymm Placement.Before where
  asymm a b h hback := by
    rcases h with h | ⟨haddress, hposition⟩
    · rcases hback with hback | ⟨haddress, -⟩
      · exact UInt32.lt_asymm h hback
      · exact UInt32.ne_of_lt h haddress.symm
    · rcases hback with hback | ⟨-, hback⟩
      · exact UInt32.ne_of_lt hback haddress.symm
      · exact Nat.lt_asymm hposition hback

theorem pairwise_wordPlacements (entry : Address × List BitSource) :
    (wordPlacements entry).Pairwise Placement.Before := by
  have hpositions : (entry.2.zipIdx.map Prod.snd).Pairwise (· < ·) := by
    rw [List.zipIdx_map_snd]
    exact List.pairwise_lt_range'
  refine List.pairwise_map.2 ((List.pairwise_map.1 hpositions).imp ?_)
  intro a b h
  exact .inr ⟨rfl, h⟩

theorem pairwise_placements (map : BitMap) : map.placements.Pairwise Placement.Before := by
  refine List.pairwise_flatMap.2 ⟨fun entry _ ↦ pairwise_wordPlacements entry, ?_⟩
  refine map.words.sorted.imp ?_
  intro a b h x hx y hy
  rw [(mem_wordPlacements_iff.1 hx).1.symm, (mem_wordPlacements_iff.1 hy).1.symm] at h
  exact .inl (Std.compare_eq_lt.1 h)

theorem nodup_placements (map : BitMap) : map.placements.Nodup := by
  apply map.pairwise_placements.imp
  intro a b h heq
  rw [heq] at h
  exact Std.Asymm.asymm b b h h

@[simp]
theorem filterMap_wordPlacements (entry : Address × List BitSource) :
    (wordPlacements entry).filterMap (fun placement ↦ placement.source.registerBit) =
      placesOf entry.2 := by
  rw [wordPlacements, List.filterMap_map]
  conv_rhs => rw [placesOf, ← List.zipIdx_map_fst 0 entry.2, List.filterMap_map]
  rfl

theorem registerBits_eq_flatMap (map : BitMap) :
    map.registerBits = map.toList.flatMap fun entry ↦ placesOf entry.2 := by
  rw [registerBits, SortedMap.values, List.flatMap_map]
  rfl

theorem registerBits_eq_filterMap (map : BitMap) :
    map.registerBits =
      map.placements.filterMap fun placement ↦ placement.source.registerBit := by
  rw [registerBits_eq_flatMap, placements, List.filterMap_flatMap]
  simp only [filterMap_wordPlacements]

@[simp]
theorem registerBit_eq_some_iff {source : BitSource} {place : RegisterBit} :
    source.registerBit = some place ↔ source = .register place := by
  cases source <;> simp [BitSource.registerBit]

theorem mem_registerBits_iff {map : BitMap} {place : RegisterBit} :
    place ∈ map.registerBits ↔
      ∃ address position, map.sourceAt? address position = some (.register place) := by
  rw [registerBits_eq_filterMap, mem_filterMap_placements]
  simp

@[simp]
theorem mem_referencedRegisters_iff {map : BitMap} {register : Address} :
    register ∈ map.referencedRegisters ↔ ∃ place ∈ map.registerBits, place.register = register := by
  rw [referencedRegisters, SortedMap.mem_keys_iff, SortedMap.contains_ofList, List.map_map]
  exact List.mem_map

/-- A bit is projected if some word shows it. -/
theorem getLsbD_projectedBits (map : BitMap) {place : RegisterBit} (h : place.bit.toNat < 64) :
    (map.projectedBits place.register).getLsbD place.bit.toNat =
      decide (place ∈ map.registerBits) := by
  have hfold (places : List RegisterBit) (mask : Word) :
      (places.foldl (fun mask other ↦
        if other.register = place.register ∧ other.bit.toNat < 64 then
          mask ||| BitVec.twoPow 64 other.bit.toNat
        else
          mask) mask).getLsbD place.bit.toNat =
        (mask.getLsbD place.bit.toNat || decide (place ∈ places)) := by
    induction places generalizing mask with
    | nil => simp
    | cons other places ih =>
      rw [List.foldl_cons, ih]
      by_cases hother : other.register = place.register ∧ other.bit.toNat < 64
      · have hplace : other.bit.toNat = place.bit.toNat ↔ place = other := by
          rw [RegisterBit.eq_iff, eq_comm (a := place.register)]
          simp [hother.1, eq_comm]
        rw [if_pos hother, BitVec.getLsbD_or, BitVec.getLsbD_twoPow]
        simp only [List.mem_cons, hplace, hother.2, decide_true, Bool.true_and, Bool.decide_or,
          Bool.or_assoc]
      · have hne : place ≠ other := fun heq ↦ hother (heq ▸ ⟨rfl, h⟩)
        rw [if_neg hother]
        simp [hne]
  rw [projectedBits, hfold]
  simp

end BitMap

end ChipConfig
