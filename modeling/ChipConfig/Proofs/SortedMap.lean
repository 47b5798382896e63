import ChipConfig.SortedMap
import Mathlib

/-!
# Looking up what a sorted map holds

A sorted map is described by what it answers for every key: inserting, erasing and building from a
list are all stated through `get?`, and two maps with the same answers are equal.  The entries, the
keys and the number of entries are tied to the same answers.
-/

namespace ChipConfig.SortedMap

universe u v

variable {κ : Type u} {α : Type v} [Ord κ]

@[simp]
theorem get?_empty (key : κ) : (∅ : SortedMap κ α).get? key = none := rfl

theorem contains_eq_isSome (map : SortedMap κ α) (key : κ) :
    map.contains key = (map.get? key).isSome := rfl

theorem not_contains_iff {map : SortedMap κ α} {key : κ} :
    ¬map.contains key = true ↔ map.get? key = none := by
  rw [contains_eq_isSome, Option.not_isSome_iff_eq_none]

theorem pairwise_keys (map : SortedMap κ α) :
    map.keys.Pairwise fun a b ↦ compare a b = .lt :=
  List.pairwise_map.2 map.sorted

variable [Std.LawfulEqOrd κ]

theorem lookup_eq_some_iff {entries : List (κ × α)}
    (h : entries.Pairwise fun a b ↦ compare a.1 b.1 = .lt) {key : κ} {value : α} :
    lookup key entries = some value ↔ (key, value) ∈ entries := by
  induction entries with
  | nil => simp [lookup]
  | cons head rest ih =>
    obtain ⟨k, a⟩ := head
    obtain ⟨hhead, hrest⟩ := List.pairwise_cons.1 h
    rw [lookup]
    split
    · next heq =>
      obtain rfl := Std.LawfulEqOrd.eq_of_compare heq
      have hfresh : (key, value) ∉ rest := by
        intro hmem
        have hlt := hhead _ hmem
        rw [heq] at hlt
        cases hlt
      simp [hfresh, eq_comm]
    · next hne =>
      have hkey : key ≠ k := fun heq ↦ hne (heq ▸ Std.ReflOrd.compare_self)
      simp [ih hrest, hkey]

@[simp]
theorem lookup_insertEntry_self (key : κ) (value : α) (entries : List (κ × α)) :
    lookup key (insertEntry key value entries) = some value := by
  induction entries with
  | nil => simp [insertEntry, lookup]
  | cons head rest ih =>
    obtain ⟨k, a⟩ := head
    rw [insertEntry]
    split
    · simp [lookup]
    · simp [lookup]
    · next hgt => simp [lookup, hgt, ih]

theorem lookup_insertEntry_of_ne {key k : κ} (h : k ≠ key) (value : α)
    (entries : List (κ × α)) :
    lookup k (insertEntry key value entries) = lookup k entries := by
  have hcompare : compare k key ≠ .eq := fun heq ↦ h (Std.LawfulEqOrd.eq_of_compare heq)
  induction entries with
  | nil => simp [insertEntry, lookup, hcompare]
  | cons head rest ih =>
    obtain ⟨k', a⟩ := head
    rw [insertEntry]
    split
    · simp [lookup, hcompare]
    · next heq =>
      obtain rfl := Std.LawfulEqOrd.eq_of_compare heq
      simp [lookup, hcompare]
    · simp [lookup, ih]

theorem insertEntry_perm {key : κ} {entries : List (κ × α)}
    (h : ∀ entry ∈ entries, entry.1 ≠ key) (value : α) :
    (insertEntry key value entries).Perm ((key, value) :: entries) := by
  induction entries with
  | nil => exact .refl _
  | cons head rest ih =>
    obtain ⟨k, a⟩ := head
    rw [insertEntry]
    split
    · exact .refl _
    · next heq => exact absurd (Std.LawfulEqOrd.eq_of_compare heq).symm (h (k, a) (by simp))
    · have hrest := ih fun entry hentry ↦ h entry (List.mem_cons_of_mem _ hentry)
      exact (hrest.cons _).trans (.swap _ _ _)

theorem nodup_toList (map : SortedMap κ α) : map.toList.Nodup := by
  apply map.sorted.imp
  intro a b hlt heq
  rw [heq, Std.ReflOrd.compare_self] at hlt
  cases hlt

theorem nodup_keys (map : SortedMap κ α) : map.keys.Nodup := by
  refine List.pairwise_map.2 (map.sorted.imp ?_)
  intro a b hlt heq
  rw [heq, Std.ReflOrd.compare_self] at hlt
  cases hlt

@[simp]
theorem mem_toList_iff {map : SortedMap κ α} {key : κ} {value : α} :
    (key, value) ∈ map.toList ↔ map.get? key = some value :=
  (lookup_eq_some_iff map.sorted).symm

@[simp]
theorem mem_keys_iff {map : SortedMap κ α} {key : κ} :
    key ∈ map.keys ↔ map.contains key = true := by
  rw [contains_eq_isSome, Option.isSome_iff_exists, keys, List.mem_map]
  constructor
  · intro h
    obtain ⟨⟨k, a⟩, hentry, rfl⟩ := h
    exact ⟨a, mem_toList_iff.1 hentry⟩
  · intro h
    obtain ⟨a, ha⟩ := h
    exact ⟨(key, a), mem_toList_iff.2 ha, rfl⟩

@[simp]
theorem get?_erase [DecidableEq κ] (map : SortedMap κ α) (key k : κ) :
    (map.erase key).get? k = if k = key then none else map.get? k := by
  apply Option.ext
  intro value
  rw [← mem_toList_iff, erase, List.mem_filter, mem_toList_iff, bne_iff_ne, ne_eq,
    Std.LawfulEqCmp.compare_eq_iff_eq]
  split
  · next h => simp [h]
  · next h => simp [Ne.symm h]

theorem get?_of_get?_erase [DecidableEq κ] {map : SortedMap κ α} {key k : κ} {value : α}
    (h : (map.erase key).get? k = some value) : map.get? k = some value := by
  rw [get?_erase] at h
  split at h
  · cases h
  · exact h

/-- An entry and what is left when it is taken out make up the map. -/
theorem toList_perm_cons_erase {map : SortedMap κ α} {key : κ} {value : α}
    (h : map.get? key = some value) :
    map.toList.Perm ((key, value) :: (map.erase key).toList) := by
  classical
  have hfresh : (key, value) ∉ (map.erase key).toList := by
    rw [mem_toList_iff, get?_erase, if_pos rfl]
    simp
  apply (List.perm_ext_iff_of_nodup map.nodup_toList
    (List.nodup_cons.2 ⟨hfresh, nodup_toList _⟩)).2
  intro entry
  obtain ⟨k, a⟩ := entry
  rw [List.mem_cons, Prod.mk.injEq, mem_toList_iff, mem_toList_iff, get?_erase]
  by_cases hk : k = key
  · simp [hk, h, eq_comm]
  · simp [hk]

theorem get?_filter (map : SortedMap κ α) (p : κ × α → Bool) (key : κ) :
    (⟨map.toList.filter p, map.sorted.filter p⟩ : SortedMap κ α).get? key =
      (map.get? key).filter fun value ↦ p (key, value) := by
  apply Option.ext
  intro value
  rw [← mem_toList_iff, List.mem_filter, mem_toList_iff, Option.filter_eq_some_iff]

/-! ## Inserting -/

variable [Std.TransOrd κ]

@[simp]
theorem get?_insert_self (map : SortedMap κ α) (key : κ) (value : α) :
    (map.insert key value).get? key = some value :=
  lookup_insertEntry_self key value map.toList

theorem get?_insert_of_ne (map : SortedMap κ α) {key k : κ} (h : k ≠ key) (value : α) :
    (map.insert key value).get? k = map.get? k :=
  lookup_insertEntry_of_ne h value map.toList

theorem get?_insert [DecidableEq κ] (map : SortedMap κ α) (key k : κ) (value : α) :
    (map.insert key value).get? k = if k = key then some value else map.get? k := by
  split
  · next h => rw [h, get?_insert_self]
  · next h => exact get?_insert_of_ne map h value

/-- What holds of all values of a map and of a new one holds of all values with the new one. -/
theorem forall_get?_insert [DecidableEq κ] {p : α → Prop} {map : SortedMap κ α}
    (hmap : ∀ k a, map.get? k = some a → p a) {value : α} (hvalue : p value) (key : κ) :
    ∀ k a, (map.insert key value).get? k = some a → p a := by
  intro k a h
  rw [get?_insert] at h
  split at h
  · rwa [← Option.some.inj h]
  · exact hmap k a h

@[simp]
theorem contains_insert [DecidableEq κ] (map : SortedMap κ α) (key k : κ) (value : α) :
    (map.insert key value).contains k = true ↔ k = key ∨ map.contains k = true := by
  rw [contains_eq_isSome, contains_eq_isSome, get?_insert]
  split <;> simp_all

/-- A new key only adds its entry to those that are there. -/
theorem toList_insert_perm {map : SortedMap κ α} {key : κ} (h : map.get? key = none) (value : α) :
    (map.insert key value).toList.Perm ((key, value) :: map.toList) := by
  apply insertEntry_perm
  intro entry hentry heq
  have hget : map.get? entry.1 = some entry.2 := mem_toList_iff.1 hentry
  rw [heq, h] at hget
  cases hget

/-- A sorted list is determined by its members. -/
theorem eq_of_mem_toList_iff {a b : SortedMap κ α}
    (h : ∀ entry, entry ∈ a.toList ↔ entry ∈ b.toList) : a = b := by
  have hperm := (List.perm_ext_iff_of_nodup a.nodup_toList b.nodup_toList).2 h
  have hlist : a.toList = b.toList := by
    refine hperm.eq_of_pairwise (fun x y _ _ hxy hyx ↦ ?_) a.sorted b.sorted
    rw [Std.OrientedOrd.eq_swap, hyx] at hxy
    cases hxy
  cases a
  cases b
  simp_all

theorem keys_eq_of_contains_iff {β : Type v} {a : SortedMap κ α} {b : SortedMap κ β}
    (h : ∀ key, a.contains key = true ↔ b.contains key = true) : a.keys = b.keys := by
  have hperm := (List.perm_ext_iff_of_nodup a.nodup_keys b.nodup_keys).2 fun key ↦ by
    rw [mem_keys_iff, mem_keys_iff, h]
  refine hperm.eq_of_pairwise (fun x y _ _ hxy hyx ↦ ?_) a.pairwise_keys b.pairwise_keys
  rw [Std.OrientedOrd.eq_swap, hyx] at hxy
  cases hxy

/-- A map is what it answers for every key. -/
theorem ext_get? {a b : SortedMap κ α} (h : ∀ key, a.get? key = b.get? key) : a = b := by
  apply eq_of_mem_toList_iff
  intro entry
  change (entry.1, entry.2) ∈ a.toList ↔ (entry.1, entry.2) ∈ b.toList
  rw [mem_toList_iff, mem_toList_iff, h]

/-- A set is known by its members. -/
theorem eq_of_contains_iff {a b : SortedMap κ Unit}
    (h : ∀ key, a.contains key = true ↔ b.contains key = true) : a = b := by
  apply ext_get?
  intro key
  have hkey := h key
  simp only [contains_eq_isSome] at hkey
  cases ha : a.get? key <;> cases hb : b.get? key <;> simp_all

theorem erase_of_get?_eq_none {map : SortedMap κ α} {key : κ} (h : map.get? key = none) :
    map.erase key = map := by
  classical
  apply ext_get?
  intro k
  rw [get?_erase]
  split
  · next hk => rw [hk, h]
  · rfl

@[simp]
theorem erase_insert_self (map : SortedMap κ α) (key : κ) (value : α) :
    (map.insert key value).erase key = map.erase key := by
  classical
  apply ext_get?
  intro k
  rw [get?_erase, get?_erase, get?_insert]
  split <;> rfl

theorem toList_insert_perm_cons_erase (map : SortedMap κ α) (key : κ) (value : α) :
    (map.insert key value).toList.Perm ((key, value) :: (map.erase key).toList) := by
  rw [← erase_insert_self map key value]
  exact toList_perm_cons_erase (get?_insert_self map key value)

/-- Searching a map finds the least key whose entry passes. -/
theorem find?_toList_eq_some_iff {map : SortedMap κ α} {p : κ × α → Bool} {entry : κ × α} :
    map.toList.find? p = some entry ↔
      entry ∈ map.toList ∧ p entry = true ∧
        ∀ other ∈ map.toList, p other = true → compare other.1 entry.1 ≠ .lt := by
  obtain ⟨entries, hsorted⟩ := map
  change entries.find? p = some entry ↔ entry ∈ entries ∧ p entry = true ∧
    ∀ other ∈ entries, p other = true → compare other.1 entry.1 ≠ .lt
  induction entries with
  | nil => simp
  | cons head rest ih =>
    obtain ⟨hhead, hrest⟩ := List.pairwise_cons.1 hsorted
    rw [List.find?_cons]
    cases hp : p head with
    | true =>
      constructor
      · rintro ⟨⟩
        refine ⟨List.mem_cons_self, hp, List.forall_mem_cons.2 ⟨?_, ?_⟩⟩
        · simp [Std.ReflOrd.compare_self]
        · intro other hother _
          rw [Std.OrientedOrd.eq_swap, hhead other hother]
          simp
      · rintro ⟨hmem, -, hleast⟩
        rcases List.mem_cons.1 hmem with rfl | hmem
        · rfl
        · exact absurd (hhead entry hmem) (hleast head List.mem_cons_self hp)
    | false =>
      have hne : p entry = true → entry ≠ head := fun h heq ↦ by simp [← heq, h] at hp
      change rest.find? p = some entry ↔ _
      rw [ih hrest, List.mem_cons, List.forall_mem_cons]
      constructor
      · rintro ⟨hmem, hentry, hleast⟩
        exact ⟨.inr hmem, hentry, fun h ↦ absurd h (by simp [hp]), hleast⟩
      · rintro ⟨hmem, hentry, -, hleast⟩
        exact ⟨hmem.resolve_left (hne hentry), hentry, hleast⟩

theorem get?_foldl_insert (entries : List (κ × α)) (map : SortedMap κ α)
    (h : (entries.map Prod.fst).Nodup) {key : κ} {value : α} :
    (entries.foldl (fun map entry ↦ map.insert entry.1 entry.2) map).get? key = some value ↔
      (key, value) ∈ entries ∨ key ∉ entries.map Prod.fst ∧ map.get? key = some value := by
  induction entries generalizing map with
  | nil => simp
  | cons head rest ih =>
    obtain ⟨k, a⟩ := head
    rw [List.map_cons, List.nodup_cons] at h
    rw [List.foldl_cons, ih _ h.2]
    by_cases hkey : key = k
    · subst hkey
      have hfresh : (key, value) ∉ rest := fun hmem ↦ h.1 (List.mem_map.2 ⟨_, hmem, rfl⟩)
      have hkeys : key ∉ rest.map Prod.fst := h.1
      simp [hfresh, hkeys, eq_comm]
    · rw [get?_insert_of_ne _ hkey]
      simp [hkey]

theorem get?_foldl_insert_of_mem {entries : List (κ × α)} (h : (entries.map Prod.fst).Nodup)
    (map : SortedMap κ α) {key : κ} {value : α} (hmem : (key, value) ∈ entries) :
    (entries.foldl (fun map entry ↦ map.insert entry.1 entry.2) map).get? key = some value :=
  (get?_foldl_insert entries map h).2 (.inl hmem)

/-- Keys that are not listed keep their values. -/
theorem get?_foldl_insert_of_not_mem (entries : List (κ × α)) (map : SortedMap κ α) {key : κ}
    (hkey : key ∉ entries.map Prod.fst) :
    (entries.foldl (fun map entry ↦ map.insert entry.1 entry.2) map).get? key = map.get? key := by
  induction entries generalizing map with
  | nil => rfl
  | cons head rest ih =>
    rw [List.map_cons, List.mem_cons, not_or] at hkey
    rw [List.foldl_cons, ih _ hkey.2, get?_insert_of_ne _ hkey.1]

theorem get?_ofList {entries : List (κ × α)} (h : (entries.map Prod.fst).Nodup) {key : κ}
    {value : α} : (ofList entries).get? key = some value ↔ (key, value) ∈ entries := by
  rw [ofList, get?_foldl_insert entries ∅ h]
  simp

/-- What holds of the values of a list holds of those that a map of the list keeps. -/
theorem forall_get?_ofList [DecidableEq κ] {p : α → Prop} {entries : List (κ × α)}
    (h : ∀ entry ∈ entries, p entry.2) : ∀ k a, (ofList entries).get? k = some a → p a := by
  refine List.foldlRecOn entries _
    (motive := fun map : SortedMap κ α ↦ ∀ k a, map.get? k = some a → p a) (by simp) ?_
  intro map hmap entry hentry
  exact forall_get?_insert hmap (h entry hentry) entry.1

/-- A map of a list without repeated keys has its members as entries. -/
theorem toList_ofList_perm {entries : List (κ × α)} (h : (entries.map Prod.fst).Nodup) :
    (ofList entries).toList.Perm entries := by
  apply (List.perm_ext_iff_of_nodup (nodup_toList _) (List.Nodup.of_map _ h)).2
  intro entry
  exact mem_toList_iff.trans (get?_ofList h)

/-- Without repeated keys the order of a list does not matter. -/
theorem ofList_eq_of_perm {a b : List (κ × α)} (h : (a.map Prod.fst).Nodup) (hperm : a.Perm b) :
    ofList a = ofList b := by
  have hb : (b.map Prod.fst).Nodup := (hperm.map Prod.fst).nodup_iff.1 h
  apply ext_get?
  intro key
  apply Option.ext
  intro value
  rw [get?_ofList h, get?_ofList hb, hperm.mem_iff]

/-- A map is made of its entries. -/
@[simp]
theorem ofList_toList (map : SortedMap κ α) : ofList map.toList = map := by
  apply ext_get?
  intro key
  apply Option.ext
  intro value
  rw [get?_ofList map.nodup_keys, mem_toList_iff]

theorem contains_foldl_insert [DecidableEq κ] (entries : List (κ × α)) (map : SortedMap κ α)
    (key : κ) :
    (entries.foldl (fun map entry ↦ map.insert entry.1 entry.2) map).contains key = true ↔
      key ∈ entries.map Prod.fst ∨ map.contains key = true := by
  induction entries generalizing map with
  | nil => simp
  | cons head rest ih =>
    rw [List.foldl_cons, ih, contains_insert, List.map_cons, List.mem_cons]
    tauto

@[simp]
theorem contains_ofList [DecidableEq κ] (entries : List (κ × α)) (key : κ) :
    (ofList entries).contains key = true ↔ key ∈ entries.map Prod.fst := by
  rw [ofList, contains_foldl_insert]
  simp [contains_eq_isSome]

/-! ## Runs that change one entry at a time -/

section Runs

variable {ε : Type u} {ξ : Type v} [DecidableEq κ]

/-- Changes the entry that belongs to a member of a list. -/
def update (key : ξ → κ) (step : Option α → ξ → Except ε α) (map : SortedMap κ α) (x : ξ) :
    Except ε (SortedMap κ α) :=
  (step (map.get? (key x)) x).map fun value ↦ map.insert (key x) value

/-- Changes an entry by the members of a list that belong to it. -/
def updateEntry (step : Option α → ξ → Except ε α) (xs : List ξ) (known : Option α) :
    Except ε (Option α) :=
  xs.foldlM (fun known x ↦ (step known x).map some) known

omit [Std.LawfulEqOrd κ] [DecidableEq κ] in
theorem update_eq_ok_iff {key : ξ → κ} {step : Option α → ξ → Except ε α}
    {map result : SortedMap κ α} {x : ξ} :
    update key step map x = .ok result ↔
      ∃ value, step (map.get? (key x)) x = .ok value ∧ result = map.insert (key x) value := by
  rw [update]
  cases step (map.get? (key x)) x with
  | error cause => simp [Except.map]
  | ok value => simp [Except.map, eq_comm]

theorem updateEntry_concat_eq_ok_iff {step : Option α → ξ → Except ε α} {xs : List ξ} {x : ξ}
    {known result : Option α} :
    updateEntry step (xs ++ [x]) known = .ok result ↔
      ∃ before value, updateEntry step xs known = .ok before ∧ step before x = .ok value ∧
        result = some value := by
  have hrun : updateEntry step (xs ++ [x]) known =
      updateEntry step xs known >>= fun before ↦ (step before x).map some := by
    rw [updateEntry, List.foldlM_append]
    refine bind_congr fun before ↦ ?_
    cases hstep : step before x <;> simp only [List.foldlM, hstep] <;> rfl
  rw [hrun]
  cases updateEntry step xs known with
  | error cause => simp [bind, Except.bind]
  | ok before =>
    change (step before x).map some = .ok result ↔ _
    cases hstep : step before x with
    | error cause => simp [Except.map, hstep]
    | ok value => simp [Except.map, hstep, eq_comm]

omit [Std.LawfulEqOrd κ] [Std.TransOrd κ] in
/-- What the entry of a key goes through in the first step of a run. -/
theorem updateEntry_filter_cons (key : ξ → κ) (step : Option α → ξ → Except ε α) (x : ξ)
    (xs : List ξ) (map : SortedMap κ α) (k : κ) :
    updateEntry step ((x :: xs).filter fun x ↦ key x = k) (map.get? k) =
      (if key x = k then (step (map.get? (key x)) x).map some else .ok (map.get? k)) >>=
        updateEntry step (xs.filter fun x ↦ key x = k) := by
  split
  · next hk =>
    rw [List.filter_cons_of_pos (by simpa using hk), updateEntry, List.foldlM_cons, hk]
    rfl
  · next hk =>
    rw [List.filter_cons_of_neg (by simpa using hk)]
    rfl

/-- A run that changes one entry at a time does to each entry what the members of the list that
belong to its key do. -/
theorem updateEntry_of_foldlM_update {key : ξ → κ} {step : Option α → ξ → Except ε α}
    {xs : List ξ} {map result : SortedMap κ α}
    (h : xs.foldlM (update key step) map = .ok result) (k : κ) :
    updateEntry step (xs.filter fun x ↦ key x = k) (map.get? k) = .ok (result.get? k) := by
  induction xs generalizing map with
  | nil =>
    cases h
    rfl
  | cons x xs ih =>
    rw [updateEntry_filter_cons]
    rw [List.foldlM_cons, update] at h
    cases hstep : step (map.get? (key x)) x with
    | error cause =>
      rw [hstep] at h
      cases h
    | ok value =>
      rw [hstep] at h
      rw [← ih h, get?_insert]
      by_cases hk : key x = k
      · rw [if_pos hk, if_pos hk.symm]
        rfl
      · rw [if_neg hk, if_neg (Ne.symm hk)]
        rfl

/-- A run that changes one entry at a time fails at a member of the list that belongs to some
key. -/
theorem exists_updateEntry_eq_error {key : ξ → κ} {step : Option α → ξ → Except ε α}
    {xs : List ξ} {map : SortedMap κ α} {cause : ε}
    (h : xs.foldlM (update key step) map = .error cause) :
    ∃ k, updateEntry step (xs.filter fun x ↦ key x = k) (map.get? k) = .error cause := by
  induction xs generalizing map with
  | nil => cases h
  | cons x xs ih =>
    rw [List.foldlM_cons, update] at h
    cases hstep : step (map.get? (key x)) x with
    | error other =>
      rw [hstep] at h
      cases h
      refine ⟨key x, ?_⟩
      rw [updateEntry_filter_cons, if_pos rfl, hstep]
      rfl
    | ok value =>
      rw [hstep] at h
      obtain ⟨k, hk⟩ := ih h
      refine ⟨k, ?_⟩
      rw [updateEntry_filter_cons, ← hk, get?_insert]
      by_cases hkey : key x = k
      · rw [if_pos hkey, if_pos hkey.symm, hstep]
        rfl
      · rw [if_neg hkey, if_neg (Ne.symm hkey)]
        rfl

/-- Whether a run that changes one entry at a time ends well can be told for every key by itself,
from the members of the list that belong to the key. -/
theorem exists_foldlM_update_iff {key : ξ → κ} {step : Option α → ξ → Except ε α} {xs : List ξ}
    {map : SortedMap κ α} (p : κ → Option α → Prop) :
    (∃ result, xs.foldlM (update key step) map = .ok result ∧ ∀ k, p k (result.get? k)) ↔
      ∀ k, ∃ known, updateEntry step (xs.filter fun x ↦ key x = k) (map.get? k) = .ok known ∧
        p k known := by
  constructor
  · intro h k
    obtain ⟨result, hrun, hresult⟩ := h
    exact ⟨result.get? k, updateEntry_of_foldlM_update hrun k, hresult k⟩
  · intro h
    cases hrun : xs.foldlM (update key step) map with
    | error cause =>
      obtain ⟨k, hk⟩ := exists_updateEntry_eq_error hrun
      obtain ⟨known, hknown, -⟩ := h k
      rw [hk] at hknown
      cases hknown
    | ok result =>
      refine ⟨result, rfl, fun k ↦ ?_⟩
      obtain ⟨known, hknown, hp⟩ := h k
      rw [updateEntry_of_foldlM_update hrun k] at hknown
      rwa [Except.ok.inj hknown]

end Runs

end ChipConfig.SortedMap
