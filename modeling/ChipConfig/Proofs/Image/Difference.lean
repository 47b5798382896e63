import ChipConfig.Proofs.Image

/-!
# Where images differ

Comparing two images lists the addresses at which they do not have the same word, each of them once
and in ascending order, together with what either image has there.  Seen from the other image the
list is the same with both words exchanged, and it says how the words of the one image turn into
those of the other.
-/

namespace ChipConfig

/-- The difference as it is seen from the other image. -/
def WordDiff.swap (entry : WordDiff) : WordDiff :=
  ⟨entry.address, entry.actual, entry.expected⟩

namespace Image

variable {expected actual : Image}

@[simp]
theorem mem_addresses_iff {address : Address} :
    address ∈ addresses expected actual ↔
      expected.contains address = true ∨ actual.contains address = true := by
  have hkeys : ((expected.words.keys ++ actual.words.keys).map fun address ↦ (address, ())).map
      Prod.fst = expected.words.keys ++ actual.words.keys := by
    rw [List.map_map]
    exact List.map_id _
  rw [addresses, SortedMap.mem_keys_iff, SortedMap.contains_ofList, hkeys, List.mem_append,
    SortedMap.mem_keys_iff, SortedMap.mem_keys_iff]
  rfl

@[simp]
theorem mem_diff_iff {entry : WordDiff} :
    entry ∈ expected.diff actual ↔
      entry.expected = expected.get? entry.address ∧ entry.actual = actual.get? entry.address ∧
        entry.expected ≠ entry.actual := by
  rw [diff, List.mem_filterMap]
  constructor
  · intro h
    obtain ⟨address, -, hentry⟩ := h
    split at hentry
    · cases hentry
    · next hne =>
      cases hentry
      exact ⟨rfl, rfl, hne⟩
  · intro h
    obtain ⟨hexpected, hactual, hne⟩ := h
    rw [hexpected, hactual] at hne
    refine ⟨entry.address, ?_, ?_⟩
    · -- At an address that neither image has there would be no difference.
      by_contra hnot
      rw [mem_addresses_iff, not_or] at hnot
      apply hne
      exact (SortedMap.not_contains_iff.1 hnot.1).trans (SortedMap.not_contains_iff.1 hnot.2).symm
    · rw [if_neg hne, ← hexpected, ← hactual]

theorem pairwise_diff (expected actual : Image) :
    (expected.diff actual).Pairwise fun a b ↦ a.address < b.address := by
  rw [diff, List.pairwise_filterMap]
  refine (SortedMap.pairwise_keys _).imp ?_
  intro a b hlt x hx y hy
  split at hx
  · cases hx
  · split at hy
    · cases hy
    · cases hx
      cases hy
      exact Std.compare_eq_lt.1 hlt

theorem mem_map_address_diff_iff {address : Address} :
    address ∈ (expected.diff actual).map WordDiff.address ↔
      expected.get? address ≠ actual.get? address := by
  rw [List.mem_map]
  constructor
  · rintro ⟨entry, hentry, rfl⟩
    obtain ⟨hexpected, hactual, hne⟩ := mem_diff_iff.1 hentry
    rwa [hexpected, hactual] at hne
  · intro hne
    exact ⟨⟨address, _, _⟩, mem_diff_iff.2 ⟨rfl, rfl, hne⟩, rfl⟩

/-- Images without a difference have the same words. -/
theorem diff_eq_nil_iff : expected.diff actual = [] ↔ expected.words = actual.words := by
  constructor
  · intro h
    apply SortedMap.ext_get?
    intro address
    by_contra hne
    have hmem := mem_map_address_diff_iff.2 hne
    rw [h] at hmem
    cases hmem
  · intro h
    rw [List.eq_nil_iff_forall_not_mem]
    intro entry hentry
    obtain ⟨hexpected, hactual, hne⟩ := mem_diff_iff.1 hentry
    rw [hexpected, hactual, get?, get?, h] at hne
    exact hne rfl

theorem addresses_comm (expected actual : Image) :
    addresses actual expected = addresses expected actual := by
  apply SortedMap.keys_eq_of_contains_iff
  intro address
  rw [← SortedMap.mem_keys_iff, ← SortedMap.mem_keys_iff]
  change address ∈ addresses actual expected ↔ address ∈ addresses expected actual
  rw [mem_addresses_iff, mem_addresses_iff, or_comm]

theorem diff_swap (expected actual : Image) :
    actual.diff expected = (expected.diff actual).map WordDiff.swap := by
  rw [diff, diff, addresses_comm, List.map_filterMap]
  refine List.filterMap_congr fun address _ ↦ ?_
  by_cases heq : expected.get? address = actual.get? address
  · rw [if_pos heq, if_pos heq.symm, Option.map_none]
  · rw [if_neg heq, if_neg (Ne.symm heq), Option.map_some, WordDiff.swap]

/-- Puts the actual word of a difference into its place, or takes the word there away if there is no
actual one. -/
def amend (words : SortedMap Address Word) (entry : WordDiff) : SortedMap Address Word :=
  match entry.actual with
  | some word => words.insert entry.address word
  | none => words.erase entry.address

@[simp]
theorem get?_amend (words : SortedMap Address Word) (entry : WordDiff) (address : Address) :
    (amend words entry).get? address =
      if address = entry.address then entry.actual else words.get? address := by
  unfold amend
  split
  · next word h => rw [SortedMap.get?_insert, h]
  · next h => rw [SortedMap.get?_erase, h]

/-- Changes that all lead to one image lead there wherever one of them is made. -/
theorem get?_foldl_amend {entries : List WordDiff}
    (h : ∀ entry ∈ entries, entry.actual = actual.get? entry.address)
    (words : SortedMap Address Word) (address : Address) :
    (entries.foldl amend words).get? address =
      if address ∈ entries.map WordDiff.address then actual.get? address
      else words.get? address := by
  induction entries generalizing words with
  | nil => rfl
  | cons entry entries ih =>
    obtain ⟨hentry, hrest⟩ := List.forall_mem_cons.1 h
    rw [List.foldl_cons, ih hrest, get?_amend, hentry]
    by_cases haddress : address = entry.address
    · simp [haddress]
    · simp [haddress]

/-- The differences turn the words of the one image into those of the other. -/
@[simp]
theorem foldl_amend_diff (expected actual : Image) :
    (expected.diff actual).foldl amend expected.words = actual.words := by
  have hactual : ∀ entry ∈ expected.diff actual, entry.actual = actual.get? entry.address :=
    fun entry hentry ↦ (mem_diff_iff.1 hentry).2.1
  apply SortedMap.ext_get?
  intro address
  rw [get?_foldl_amend hactual]
  split
  · rfl
  · next hsame =>
    rw [mem_map_address_diff_iff, not_not] at hsame
    exact hsame

end Image

end ChipConfig
