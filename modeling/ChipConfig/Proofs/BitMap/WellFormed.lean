import ChipConfig.Document.BitMap
import ChipConfig.Proofs.BitMap.Placement
import ChipConfig.Proofs.Fallible

/-!
# Well-formed bit maps

Describing a word checks its length, its address and its register bits against a set of the register
bits shown so far.  The invariant behind these checks is that the set holds exactly the register
bits of the words and that none of them is shown twice.  Every bit map that the library hands out
keeps it, so a register bit stands at one position of one word.
-/

namespace ChipConfig.BitMap

/-- A set of register bits with further ones added. -/
def addReferences (references : SortedMap RegisterBit Unit) (places : List RegisterBit) :
    SortedMap RegisterBit Unit :=
  places.foldl (fun references place ↦ references.insert place ()) references

@[simp]
theorem contains_addReferences (references : SortedMap RegisterBit Unit)
    (places : List RegisterBit) (place : RegisterBit) :
    (addReferences references places).contains place = true ↔
      place ∈ places ∨ references.contains place = true := by
  unfold addReferences
  induction places generalizing references with
  | nil => simp
  | cons head places ih =>
    rw [List.foldl_cons, ih, SortedMap.contains_insert, List.mem_cons]
    tauto

/-- Register bits are taken on if all of them are new and no two of them are the same. -/
@[simp]
theorem reserve_eq_ok_iff {address : Address} {position : Nat}
    {references result : SortedMap RegisterBit Unit} {sources : List BitSource} :
    reserve address position references sources = .ok result ↔
      (placesOf sources).Nodup ∧
        (∀ place ∈ placesOf sources, ¬references.contains place = true) ∧
        result = addReferences references (placesOf sources) := by
  induction sources generalizing position references with
  | nil =>
    rw [reserve, Except.ok.injEq, eq_comm]
    simp [placesOf, addReferences]
  | cons source sources ih =>
    cases source with
    | constant value => exact ih
    | ignored => exact ih
    | register place =>
      have hplaces : placesOf (.register place :: sources) = place :: placesOf sources := rfl
      rw [reserve, hplaces, List.nodup_cons, List.forall_mem_cons]
      split
      · next hseen => simp [hseen]
      · next hfresh =>
        rw [ih]
        have hdisjoint : (∀ other ∈ placesOf sources,
            ¬(references.insert place ()).contains other = true) ↔
            place ∉ placesOf sources ∧
              ∀ other ∈ placesOf sources, ¬references.contains other = true := by
          simp only [SortedMap.contains_insert]
          constructor
          · intro h
            exact ⟨fun hmem ↦ h place hmem (.inl rfl), fun other hother hseen ↦
              h other hother (.inr hseen)⟩
          · intro h other hother hseen
            rcases hseen with rfl | hseen
            · exact h.1 hother
            · exact h.2 other hother hseen
        rw [hdisjoint]
        simp only [hfresh, addReferences, List.foldl_cons]
        tauto

/-- A word is taken on if its length is the width, its address is new and so are its register
bits. -/
@[simp]
theorem insert_eq_ok_iff {map result : BitMap} {address : Address} {sources : List BitSource} :
    map.insert address sources = .ok result ↔
      sources.length = map.width.bits ∧ ¬map.words.contains address = true ∧
        (placesOf sources).Nodup ∧
        (∀ place ∈ placesOf sources, ¬map.references.contains place = true) ∧
        result = { map with
          words := map.words.insert address sources
          references := addReferences map.references (placesOf sources) } := by
  simp [insert, and_assoc]

theorem insert_of_insertTokens {map result : BitMap} {address : Address} {tokens : List String}
    (h : map.insertTokens address tokens = .ok result) :
    ∃ sources, map.insert address sources = .ok result := by
  rw [insertTokens, Fallible.bind_eq_ok_iff] at h
  obtain ⟨sources, -, hinsert⟩ := h
  exact ⟨sources, hinsert⟩

theorem insert_of_insertRow {map result : BitMap} {row : Text.Row}
    (h : map.insertRow row = .ok result) :
    ∃ address sources, map.insert address sources = .ok result := by
  rw [insertRow] at h
  split at h
  · cases h
  · split at h
    · cases h
    · exact ⟨_, insert_of_insertTokens h⟩

/-- Every word has as many sources as bits, and the references are the register bits of the words,
each of which is shown once. -/
structure WellFormed (map : BitMap) : Prop where
  length_eq : ∀ entry ∈ map.toList, entry.2.length = map.width.bits
  contains_references : ∀ place, map.references.contains place = true ↔ place ∈ map.registerBits
  nodup_registerBits : map.registerBits.Nodup

theorem wellFormed_empty (width : Width) : (empty width).WellFormed where
  length_eq entry hentry := by cases hentry
  contains_references place := by
    change false = true ↔ place ∈ []
    simp
  nodup_registerBits := .nil

/-- A new word adds its register bits to those shown so far. -/
theorem registerBits_insert_perm {map : BitMap} {address : Address}
    (h : ¬map.words.contains address = true) (sources : List BitSource)
    (references : SortedMap RegisterBit Unit) :
    (registerBits { map with words := map.words.insert address sources, references }).Perm
      (placesOf sources ++ map.registerBits) := by
  have hnone : map.words.get? address = none := by
    simpa [SortedMap.contains_eq_isSome] using h
  rw [registerBits_eq_flatMap, registerBits_eq_flatMap]
  exact (SortedMap.toList_insert_perm hnone sources).flatMap_right _

theorem WellFormed.insert {map result : BitMap} (hmap : map.WellFormed) {address : Address}
    {sources : List BitSource} (h : map.insert address sources = .ok result) :
    result.WellFormed := by
  obtain ⟨hlength, haddress, hnodup, hfresh, rfl⟩ := insert_eq_ok_iff.1 h
  have hperm := registerBits_insert_perm haddress sources
    (addReferences map.references (placesOf sources))
  refine ⟨?_, ?_, ?_⟩
  · intro entry hentry
    rcases SortedMap.mem_insertEntry hentry with rfl | hentry
    · exact hlength
    · exact hmap.length_eq entry hentry
  · intro place
    rw [hperm.mem_iff, List.mem_append, ← hmap.contains_references place]
    exact contains_addReferences map.references (placesOf sources) place
  · rw [hperm.nodup_iff, List.nodup_append]
    refine ⟨hnodup, hmap.nodup_registerBits, ?_⟩
    intro place hplace other hother heq
    exact hfresh place hplace ((hmap.contains_references place).2 (heq ▸ hother))

/-- The bit maps that the library hands out: an empty one, one with a further word, and those that
are read from a table or a document. -/
inductive Reachable : BitMap → Prop
  | empty (width : Width) : Reachable (empty width)
  | insert {map result : BitMap} {address : Address} {sources : List BitSource} :
    Reachable map → map.insert address sources = .ok result → Reachable result
  | insertTokens {map result : BitMap} {address : Address} {tokens : List String} :
    Reachable map → map.insertTokens address tokens = .ok result → Reachable result
  | table {text : String} {width : Width} {map : BitMap} :
    parse text width = .ok map → Reachable map
  | document {text : String} {map : BitMap} : parseDocument text = .ok map → Reachable map

theorem WellFormed.insertTokens {map result : BitMap} (hmap : map.WellFormed) {address : Address}
    {tokens : List String} (h : map.insertTokens address tokens = .ok result) :
    result.WellFormed := by
  obtain ⟨sources, hinsert⟩ := insert_of_insertTokens h
  exact hmap.insert hinsert

theorem wellFormed_of_parse {text : String} {width : Width} {map : BitMap}
    (h : parse text width = .ok map) : map.WellFormed := by
  refine Fallible.foldlM_keeps ?_ (wellFormed_empty width) h
  intro map row result hmap hrow
  obtain ⟨address, sources, hinsert⟩ := insert_of_insertRow hrow
  exact hmap.insert hinsert

theorem wellFormed_of_parseDocument {text : String} {map : BitMap}
    (h : parseDocument text = .ok map) : map.WellFormed := by
  rw [parseDocument] at h
  split at h
  · cases h
  · rw [BitMapDoc.toBitMap] at h
    split at h
    · cases h
    · refine Fallible.foldlM_keeps ?_ (wellFormed_empty _) h
      intro map word result hmap hword
      exact hmap.insertTokens hword

theorem Reachable.wellFormed {map : BitMap} (h : map.Reachable) : map.WellFormed := by
  induction h with
  | empty width => exact wellFormed_empty width
  | insert _ hinsert ih => exact ih.insert hinsert
  | insertTokens _ hinsert ih => exact ih.insertTokens hinsert
  | table hparse => exact wellFormed_of_parse hparse
  | document hparse => exact wellFormed_of_parseDocument hparse

/-- A map of two words of four bits, with every kind of source. -/
def sample : BitMap where
  width := ⟨4, by decide, by decide⟩
  words := SortedMap.ofList
    [(0, [.constant true, .constant false, .register ⟨3, 9⟩, .register ⟨3, 10⟩]),
      (1, [.ignored, .register ⟨0, 4⟩, .constant false, .constant true])]
  references := SortedMap.ofList [(⟨3, 9⟩, ()), (⟨3, 10⟩, ()), (⟨0, 4⟩, ())]

theorem reachable_sample : sample.Reachable := by
  have hparse : parse "0 1 0 R3[9] R3[10]\n1 X R0[4] 0 1\n" sample.width = .ok sample := by
    decide +kernel
  exact .table hparse

theorem lt_of_mem_registerBits_sample :
    ∀ place ∈ sample.registerBits, place.bit.toNat < Width.w16.bits := by
  decide +kernel

theorem wordBit_wordBit (map : BitMap) {index : Nat} (h : index < map.width.bits) :
    map.wordBit (map.wordBit index) = index := by
  unfold wordBit
  omega

theorem wordBit_lt (map : BitMap) {index : Nat} (h : index < map.width.bits) :
    map.wordBit index < map.width.bits := by
  unfold wordBit
  omega

namespace WellFormed

variable {map : BitMap} (hmap : map.WellFormed)

include hmap

theorem position_lt {address : Address} {position : Nat} {source : BitSource}
    (h : map.sourceAt? address position = some source) : position < map.width.bits := by
  obtain ⟨sources, hsources, hsource⟩ := Option.bind_eq_some_iff.1 h
  have hlength : sources.length = map.width.bits :=
    hmap.length_eq (address, sources) (mem_toList_iff.2 hsources)
  obtain ⟨hposition, -⟩ := List.getElem?_eq_some_iff.1 hsource
  omega

/-- Every bit of a word that is described has a source. -/
theorem exists_sourceAt? {address : Address} (haddress : map.words.contains address = true)
    {index : Nat} (hindex : index < map.width.bits) :
    ∃ source, map.sourceAt? address (map.wordBit index) = some source := by
  rw [SortedMap.contains_eq_isSome, Option.isSome_iff_exists] at haddress
  obtain ⟨sources, hsources⟩ := haddress
  have hlength : sources.length = map.width.bits :=
    hmap.length_eq (address, sources) (mem_toList_iff.2 hsources)
  have hposition : map.wordBit index < sources.length := hlength ▸ map.wordBit_lt hindex
  have hget : map.get? address = some sources := hsources
  refine ⟨sources[map.wordBit index], ?_⟩
  rw [sourceAt?, hget, Option.bind_some, List.getElem?_eq_getElem hposition]

/-- What comes later in a word stands at a lower bit of it. -/
theorem wordBit_lt_of_before {a b : Placement} (hb : b ∈ map.placements) (h : a.Before b) :
    a.address < b.address ∨
      a.address = b.address ∧ map.wordBit b.position < map.wordBit a.position := by
  have hposition := hmap.position_lt (mem_placements_iff.1 hb)
  refine h.imp_right fun h ↦ ⟨h.1, ?_⟩
  have hbefore := h.2
  unfold wordBit
  omega

/-- What placements are listed as comes in their order, lower bits of a word later. -/
theorem pairwise_filterMap_placements {α : Type} {f : Placement → Option α} {address : α → Address}
    {index : α → Nat} (hf : ∀ placement a, f placement = some a →
      address a = placement.address ∧ index a = map.wordBit placement.position) :
    (map.placements.filterMap f).Pairwise fun a b ↦
      address a < address b ∨ address a = address b ∧ index b < index a := by
  rw [List.pairwise_filterMap]
  refine map.pairwise_placements.imp_of_mem ?_
  intro placement other _ hother hbefore a ha b hb
  obtain ⟨haddress, hindex⟩ := hf placement a ha
  obtain ⟨haddress', hindex'⟩ := hf other b hb
  rw [haddress, haddress', hindex, hindex']
  exact hmap.wordBit_lt_of_before hother hbefore

/-- A register bit stands at one position of one word. -/
theorem placement_unique {a b : Placement} (ha : a ∈ map.placements) (hb : b ∈ map.placements)
    {place : RegisterBit} (hplace : a.source = .register place)
    (hother : b.source = .register place) : a = b := by
  have hpairwise : map.placements.Pairwise fun a b ↦
      ∀ place, a.source = .register place → b.source = .register place → a = b := by
    have hnodup := hmap.nodup_registerBits
    rw [registerBits_eq_filterMap, List.Nodup, List.pairwise_filterMap] at hnodup
    refine hnodup.imp ?_
    intro a b h place ha hb
    exact absurd rfl (h place (registerBit_eq_some_iff.2 ha) place (registerBit_eq_some_iff.2 hb))
  have hsymm : Std.Symm fun a b : Placement ↦
      ∀ place, a.source = .register place → b.source = .register place → a = b :=
    ⟨fun a b h place hb ha ↦ (h place ha hb).symm⟩
  exact hpairwise.forall_of_forall (fun _ _ _ _ _ ↦ rfl) ha hb place hplace hother

theorem position_unique {place : RegisterBit} {address other : Address} {position n : Nat}
    (h : map.sourceAt? address position = some (.register place))
    (hother : map.sourceAt? other n = some (.register place)) :
    address = other ∧ position = n := by
  have heq := hmap.placement_unique (a := ⟨address, position, .register place⟩)
    (b := ⟨other, n, .register place⟩) (mem_placements_iff.2 h) (mem_placements_iff.2 hother)
    rfl rfl
  rw [Placement.mk.injEq] at heq
  exact ⟨heq.1, heq.2.1⟩

end WellFormed

theorem existsUnique_position {map : BitMap} (hmap : map.WellFormed) {place : RegisterBit}
    (h : place ∈ map.registerBits) :
    ∃! slot : Address × Nat, map.sourceAt? slot.1 slot.2 = some (.register place) := by
  obtain ⟨address, position, hsource⟩ := mem_registerBits_iff.1 h
  refine ⟨(address, position), hsource, ?_⟩
  intro slot hslot
  obtain ⟨haddress, hposition⟩ := hmap.position_unique hslot hsource
  exact Prod.ext haddress hposition

end ChipConfig.BitMap
