import ChipConfig.Proofs.BitMap.Representation

/-!
# Words of a bit map in any order

Words are described one after the other, and each is checked against those that came before it.
Whether all of them are taken on does not depend on the order: they must have the width of the map,
no address may occur twice, and no register bit may be shown twice, be it by one word or by two.
The map that they make up does not depend on the order either.
-/

namespace ChipConfig.BitMap

/-- Describes words one after the other, up to the first one that is refused. -/
def insertAll (map : BitMap) (entries : List (Address × List BitSource)) :
    Except BitMapError BitMap :=
  entries.foldlM (fun map entry ↦ map.insert entry.1 entry.2) map

def placesOfAll (entries : List (Address × List BitSource)) : List RegisterBit :=
  entries.flatMap fun entry ↦ placesOf entry.2

def withWords (map : BitMap) (entries : List (Address × List BitSource)) : BitMap :=
  { map with
    words := entries.foldl (fun words entry ↦ words.insert entry.1 entry.2) map.words
    references := addReferences map.references (placesOfAll entries) }

/-- What words have to be to make up a map together. -/
structure Describable (width : Width) (entries : List (Address × List BitSource)) : Prop where
  length_eq : ∀ entry ∈ entries, entry.2.length = width.bits
  nodup_addresses : (entries.map Prod.fst).Nodup
  nodup_places : (placesOfAll entries).Nodup

variable {width : Width} {map result : BitMap} {entries others : List (Address × List BitSource)}

theorem describable_cons_iff {entry : Address × List BitSource} :
    Describable width (entry :: entries) ↔
      entry.2.length = width.bits ∧ (∀ other ∈ entries, other.1 ≠ entry.1) ∧
      (placesOf entry.2).Nodup ∧ (∀ place ∈ placesOfAll entries, place ∉ placesOf entry.2) ∧
      Describable width entries := by
  have haddress : entry.1 ∉ entries.map Prod.fst ↔ ∀ other ∈ entries, other.1 ≠ entry.1 := by
    simp only [List.mem_map, not_exists, not_and, ne_eq]
  have hplaces : (placesOfAll (entry :: entries)).Nodup ↔
      (placesOf entry.2).Nodup ∧ (∀ place ∈ placesOfAll entries, place ∉ placesOf entry.2) ∧
        (placesOfAll entries).Nodup := by
    have happend : placesOfAll (entry :: entries) = placesOf entry.2 ++ placesOfAll entries := rfl
    rw [happend, List.nodup_append', List.disjoint_comm]
    tauto
  constructor
  · intro h
    have hlength := List.forall_mem_cons.1 h.length_eq
    have hnodup := List.nodup_cons.1 h.nodup_addresses
    have hshown := hplaces.1 h.nodup_places
    exact ⟨hlength.1, haddress.1 hnodup.1, hshown.1, hshown.2.1, hlength.2, hnodup.2, hshown.2.2⟩
  · rintro ⟨hlength, hnew, hnodup, hdisjoint, hrest⟩
    exact ⟨List.forall_mem_cons.2 ⟨hlength, hrest.length_eq⟩,
      List.nodup_cons.2 ⟨haddress.2 hnew, hrest.nodup_addresses⟩,
      hplaces.2 ⟨hnodup, hdisjoint, hrest.nodup_places⟩⟩

/-- Words are taken on if they have the width, their addresses are new and distinct, and so are
their register bits. -/
theorem insertAll_eq_ok_iff :
    map.insertAll entries = .ok result ↔
      Describable map.width entries ∧
      (∀ entry ∈ entries, ¬map.words.contains entry.1 = true) ∧
      (∀ place ∈ placesOfAll entries, ¬map.references.contains place = true) ∧
      result = map.withWords entries := by
  induction entries generalizing map with
  | nil =>
    have hnil : Describable map.width [] := ⟨fun _ h ↦ (nomatch h), .nil, .nil⟩
    simp [insertAll, hnil, placesOfAll, withWords, addReferences]
  | cons entry rest ih =>
    -- The rest is checked against a map that has the first word already.
    let next : BitMap := { map with
      words := map.words.insert entry.1 entry.2
      references := addReferences map.references (placesOf entry.2) }
    have hwords : (∀ other ∈ rest, ¬next.words.contains other.1 = true) ↔
        (∀ other ∈ rest, other.1 ≠ entry.1) ∧
          ∀ other ∈ rest, ¬map.words.contains other.1 = true := by
      simp only [next, SortedMap.contains_insert, not_or, forall_and]
    have hreferences : (∀ place ∈ placesOfAll rest, ¬next.references.contains place = true) ↔
        (∀ place ∈ placesOfAll rest, place ∉ placesOf entry.2) ∧
          ∀ place ∈ placesOfAll rest, ¬map.references.contains place = true := by
      simp only [next, contains_addReferences, not_or, forall_and]
    have hplaces : placesOfAll (entry :: rest) = placesOf entry.2 ++ placesOfAll rest := rfl
    have hwith : map.withWords (entry :: rest) = next.withWords rest := by
      rw [withWords, withWords, hplaces, addReferences, addReferences, List.foldl_append]
      rfl
    have hstep : map.insertAll (entry :: rest) = .ok result ↔
        entry.2.length = map.width.bits ∧ ¬map.words.contains entry.1 = true ∧
          (placesOf entry.2).Nodup ∧
          (∀ place ∈ placesOf entry.2, ¬map.references.contains place = true) ∧
          next.insertAll rest = .ok result := by
      rw [insertAll, List.foldlM_cons, Fallible.bind_eq_ok_iff]
      simp only [insert_eq_ok_iff, and_assoc, exists_and_left, exists_eq_left]
      rfl
    rw [hstep, ih, hwords, hreferences, hwith, describable_cons_iff, hplaces, List.forall_mem_cons,
      List.forall_mem_append]
    tauto

theorem insertAll_empty_eq_ok_iff :
    (empty width).insertAll entries = .ok result ↔
      Describable width entries ∧ result = (empty width).withWords entries := by
  rw [insertAll_eq_ok_iff]
  constructor
  · intro h
    exact ⟨h.1, h.2.2.2⟩
  · intro h
    exact ⟨h.1, fun _ _ ↦ Bool.false_ne_true, fun _ _ ↦ Bool.false_ne_true, h.2⟩

theorem Describable.of_perm (h : Describable width entries) (hperm : entries.Perm others) :
    Describable width others where
  length_eq entry hentry := h.length_eq entry (hperm.mem_iff.2 hentry)
  nodup_addresses := (hperm.map Prod.fst).nodup_iff.1 h.nodup_addresses
  nodup_places := (hperm.flatMap_right _).nodup_iff.1 h.nodup_places

theorem withWords_empty_eq_of_perm (h : Describable width entries) (hperm : entries.Perm others) :
    (empty width).withWords entries = (empty width).withWords others := by
  have hwords : SortedMap.ofList entries = SortedMap.ofList others :=
    SortedMap.ofList_eq_of_perm h.nodup_addresses hperm
  have hreferences : addReferences ∅ (placesOfAll entries) =
      addReferences ∅ (placesOfAll others) := by
    apply SortedMap.eq_of_contains_iff
    intro place
    have hplaces : (placesOfAll entries).Perm (placesOfAll others) := hperm.flatMap_right _
    rw [contains_addReferences, contains_addReferences, hplaces.mem_iff]
  exact congrArg₂ (BitMap.mk width) hwords hreferences

/-- The words of a well-formed map make it up. -/
theorem WellFormed.insertAll_toList (hmap : map.WellFormed) :
    (empty map.width).insertAll map.toList = .ok map := by
  have hplaces : placesOfAll map.toList = map.registerBits := map.registerBits_eq_flatMap.symm
  have hwords : SortedMap.ofList map.toList = map.words := map.words.ofList_toList
  have hreferences : addReferences ∅ (placesOfAll map.toList) = map.references := by
    apply SortedMap.eq_of_contains_iff
    intro place
    rw [contains_addReferences, hplaces, hmap.contains_references]
    exact or_iff_left Bool.false_ne_true
  refine insertAll_empty_eq_ok_iff.2 ⟨⟨hmap.length_eq, map.words.nodup_keys, ?_⟩, ?_⟩
  · rw [hplaces]
    exact hmap.nodup_registerBits
  · exact (congrArg₂ (BitMap.mk map.width) hwords hreferences).symm

/-- Whether all calls succeed that are made one after the other. -/
def AllSucceed : List Call → BitMap → Prop
  | [], _ => True
  | call :: calls, map =>
    (call.perform.runFrom map).1 = .ok () ∧ AllSucceed calls (call.perform.runFrom map).2

def insertions (entries : List (Address × List BitSource)) : List Call :=
  entries.map fun entry ↦ .insert entry.1 entry.2

/-- Calls that all succeed do what describing the words up to the first refusal does. -/
theorem insertAll_eq_ok_iff_allSucceed :
    map.insertAll entries = .ok result ↔
      AllSucceed (insertions entries) map ∧ result = afterCalls (insertions entries) map := by
  induction entries generalizing map with
  | nil => simp [insertAll, insertions, AllSucceed, afterCalls]
  | cons entry rest ih =>
    have hrun : (Call.perform (.insert entry.1 entry.2)).runFrom map = _ :=
      runFrom_insertInPlace entry.1 entry.2 map
    rw [insertAll, List.foldlM_cons, insertions, List.map_cons, AllSucceed, afterCalls,
      List.foldl_cons, hrun]
    cases map.insert entry.1 entry.2 with
    | error cause => simp
    | ok after =>
      have hrest : after.insertAll rest = .ok result ↔
          AllSucceed (insertions rest) after ∧ result = afterCalls (insertions rest) after := ih
      rw [and_iff_right (show Except.ok () = Except.ok () from rfl)]
      exact hrest

/-- The order in which words are described does not matter, neither to their success nor to the map.
-/
theorem allSucceed_order_free (width : Width) (entries : List (Address × List BitSource)) :
    (AllSucceed (insertions entries) (empty width) ↔ Describable width entries) ∧
    (AllSucceed (insertions entries) (empty width) →
      (afterCalls (insertions entries) (empty width)).toList.Perm entries) ∧
    ∀ others, entries.Perm others →
      (AllSucceed (insertions others) (empty width) ↔
        AllSucceed (insertions entries) (empty width)) ∧
      (AllSucceed (insertions entries) (empty width) →
        afterCalls (insertions others) (empty width) =
          afterCalls (insertions entries) (empty width)) := by
  have hiff (entries : List (Address × List BitSource)) :
      AllSucceed (insertions entries) (empty width) ↔ Describable width entries := by
    have hexists : (∃ result, (empty width).insertAll entries = .ok result) ↔ _ :=
      exists_congr fun result ↦ insertAll_eq_ok_iff_allSucceed
    simpa only [insertAll_empty_eq_ok_iff, exists_and_left, exists_eq, and_true]
      using hexists.symm
  have hafter (entries : List (Address × List BitSource)) (h : Describable width entries) :
      afterCalls (insertions entries) (empty width) = (empty width).withWords entries := by
    have hrun := insertAll_empty_eq_ok_iff.2 ⟨h, rfl⟩
    exact (insertAll_eq_ok_iff_allSucceed.1 hrun).2.symm
  refine ⟨hiff entries, fun h ↦ ?_, fun others hperm ↦ ⟨?_, fun h ↦ ?_⟩⟩
  · have hentries := (hiff entries).1 h
    rw [hafter entries hentries]
    exact SortedMap.toList_ofList_perm hentries.nodup_addresses
  · rw [hiff, hiff]
    exact ⟨fun h ↦ h.of_perm hperm.symm, fun h ↦ h.of_perm hperm⟩
  · have hentries := (hiff entries).1 h
    rw [hafter entries hentries, hafter others (hentries.of_perm hperm)]
    exact (withWords_empty_eq_of_perm hentries hperm).symm

def sampleWords : List (Address × List BitSource) :=
  [(0, [.register ⟨3, 9⟩, .ignored]), (4, [.register ⟨3, 10⟩, .constant true])]

theorem allSucceed_order_free_sampleWords :
    AllSucceed (insertions sampleWords) (empty twoBits) ∧
      (afterCalls (insertions sampleWords) (empty twoBits)).toList.Perm sampleWords ∧
      AllSucceed (insertions sampleWords.reverse) (empty twoBits) ∧
      afterCalls (insertions sampleWords.reverse) (empty twoBits) =
        afterCalls (insertions sampleWords) (empty twoBits) ∧
      ¬AllSucceed (insertions (sampleWords ++ [(2, [.register ⟨3, 9⟩, .ignored])]))
        (empty twoBits) := by
  obtain ⟨hdescribable, hwords, horder⟩ := allSucceed_order_free twoBits sampleWords
  obtain ⟨hrepeated, -⟩ :=
    allSucceed_order_free twoBits (sampleWords ++ [(2, [.register ⟨3, 9⟩, .ignored])])
  have hall := hdescribable.2 ⟨by decide, by decide, by decide⟩
  obtain ⟨hreverse, hsame⟩ := horder sampleWords.reverse (List.reverse_perm _).symm
  exact ⟨hall, hwords hall, hreverse.2 hall, hsame hall,
    fun h ↦ absurd (hrepeated.1 h).nodup_places (by decide)⟩

end ChipConfig.BitMap
