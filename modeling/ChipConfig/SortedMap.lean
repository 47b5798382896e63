/-!
# Sorted maps

A `SortedMap` holds at most one value for each key and lists its entries in ascending order of the
keys.  The order is kept in the type, so a map has exactly one representation: two maps that give
the same answer for every key are equal.
-/

namespace ChipConfig

universe u v w

/-- A finite map whose entries stand in strictly ascending order of their keys. -/
structure SortedMap (κ : Type u) (α : Type v) [Ord κ] where
  toList : List (κ × α)
  sorted : toList.Pairwise fun a b ↦ compare a.1 b.1 = .lt

namespace SortedMap

variable {κ : Type u} {α : Type v} [Ord κ]

def lookup (key : κ) : List (κ × α) → Option α
  | [] => none
  | (k, a) :: rest => if compare key k = .eq then some a else lookup key rest

/-- Puts an entry in its place, in exchange for one of the same key. -/
def insertEntry (key : κ) (value : α) : List (κ × α) → List (κ × α)
  | [] => [(key, value)]
  | (k, a) :: rest =>
    match compare key k with
    | .lt => (key, value) :: (k, a) :: rest
    | .eq => (key, value) :: rest
    | .gt => (k, a) :: insertEntry key value rest

theorem mem_insertEntry {key : κ} {value : α} {entry : κ × α} {entries : List (κ × α)}
    (h : entry ∈ insertEntry key value entries) : entry = (key, value) ∨ entry ∈ entries := by
  induction entries with
  | nil => simpa [insertEntry] using h
  | cons head rest ih =>
    obtain ⟨k, a⟩ := head
    simp only [insertEntry] at h
    split at h <;> grind

theorem pairwise_insertEntry [Std.TransOrd κ] {key : κ} {value : α} {entries : List (κ × α)}
    (h : entries.Pairwise fun a b ↦ compare a.1 b.1 = .lt) :
    (insertEntry key value entries).Pairwise fun a b ↦ compare a.1 b.1 = .lt := by
  induction entries with
  | nil => simp [insertEntry]
  | cons head rest ih =>
    obtain ⟨k, a⟩ := head
    obtain ⟨hhead, hrest⟩ := List.pairwise_cons.1 h
    simp only [insertEntry]
    split
    · next hlt =>
      refine List.pairwise_cons.2 ⟨fun entry hentry ↦ ?_, h⟩
      rcases List.mem_cons.1 hentry with rfl | hentry
      · exact hlt
      · exact Std.TransCmp.lt_trans hlt (hhead entry hentry)
    · next heq =>
      exact List.pairwise_cons.2
        ⟨fun entry hentry ↦ Std.TransCmp.lt_of_eq_of_lt heq (hhead entry hentry), hrest⟩
    · next hgt =>
      refine List.pairwise_cons.2 ⟨fun entry hentry ↦ ?_, ih hrest⟩
      rcases mem_insertEntry hentry with rfl | hentry
      · exact Std.OrientedCmp.lt_of_gt hgt
      · exact hhead entry hentry

def empty : SortedMap κ α :=
  ⟨[], .nil⟩

instance : EmptyCollection (SortedMap κ α) := ⟨empty⟩

instance : Inhabited (SortedMap κ α) := ⟨empty⟩

instance [DecidableEq κ] [DecidableEq α] : DecidableEq (SortedMap κ α) := fun a b ↦
  if h : a.toList = b.toList then
    .isTrue (by cases a; cases b; simp_all)
  else
    .isFalse fun hab ↦ h (hab ▸ rfl)

instance [BEq κ] [BEq α] : BEq (SortedMap κ α) := ⟨fun a b ↦ a.toList == b.toList⟩

def get? (map : SortedMap κ α) (key : κ) : Option α :=
  lookup key map.toList

def contains (map : SortedMap κ α) (key : κ) : Bool :=
  (map.get? key).isSome

/-- Gives a key a value, in exchange for the one it had. -/
def insert [Std.TransOrd κ] (map : SortedMap κ α) (key : κ) (value : α) : SortedMap κ α :=
  ⟨insertEntry key value map.toList, pairwise_insertEntry map.sorted⟩

def erase (map : SortedMap κ α) (key : κ) : SortedMap κ α :=
  ⟨map.toList.filter fun entry ↦ compare key entry.1 != .eq, map.sorted.filter _⟩

/-- Gives the entries of a list to the empty map one after the other: of several entries for a key
the last one stays. -/
def ofList [Std.TransOrd κ] (entries : List (κ × α)) : SortedMap κ α :=
  entries.foldl (fun map entry ↦ map.insert entry.1 entry.2) ∅

def size (map : SortedMap κ α) : Nat :=
  map.toList.length

def isEmpty (map : SortedMap κ α) : Bool :=
  map.toList.isEmpty

def keys (map : SortedMap κ α) : List κ :=
  map.toList.map Prod.fst

def values (map : SortedMap κ α) : List α :=
  map.toList.map Prod.snd

end SortedMap

end ChipConfig
