import ChipConfig.Proofs.BitMap.WellFormed
import ChipConfig.Proofs.Device.Session

/-!
# Bit maps under any calls

A bit map holds the register bits of its words a second time, as a set, so that a new word is
checked without going through the others.  Here words are described in a map that changes step by
step, the set before the words.  The register bits of a word wait in a set of their own until all of
them have been checked, so a word that is refused leaves nothing behind, and whatever calls have
been made, the set of the map holds the register bits of its words and nothing else.
-/

namespace ChipConfig.BitMap

/-- Collects the register bits among the sources from a position on, unless one of them is shown
already or has been collected before. -/
def stage (address : Address) (shown : SortedMap RegisterBit Unit) (position : Nat)
    (staged : SortedMap RegisterBit Unit) :
    List BitSource → Except BitMapError (SortedMap RegisterBit Unit)
  | [] => .ok staged
  | .register place :: rest =>
    if shown.contains place || staged.contains place then
      .error (.duplicateReference address position place)
    else
      stage address shown (position + 1) (staged.insert place ()) rest
  | _ :: rest => stage address shown (position + 1) staged rest

/-- Checks a word and collects its register bits. -/
def stageWord (map : BitMap) (address : Address) (sources : List BitSource) :
    Except BitMapError (SortedMap RegisterBit Unit) := do
  if sources.length ≠ map.width.bits then
    throw (.wrongLength address map.width.bits sources.length)
  if map.words.contains address then
    throw (.duplicateAddress address)
  stage address map.references 0 ∅ sources

/-- Describes a word in a map that changes step by step: first its references, then its words. -/
def insertInPlace (address : Address) (sources : List BitSource) :
    Session BitMap BitMapError Unit := do
  let map ← get
  let staged ← Session.ofExcept (map.stageWord address sources)
  modify fun map ↦ { map with references := addReferences map.references staged.keys }
  modify fun map ↦ { map with words := map.words.insert address sources }

def insertTokensInPlace (address : Address) (tokens : List String) :
    Session BitMap BitMapError Unit := do
  insertInPlace address (← Session.ofExcept (sourcesOf address 0 tokens))

/-- Collecting register bits apart from those shown so far finds the same repetitions as adding them
one after the other. -/
theorem reserve_eq_stage (address : Address) (position : Nat)
    (shown staged : SortedMap RegisterBit Unit) (sources : List BitSource) :
    reserve address position (addReferences shown staged.keys) sources =
      (stage address shown position staged sources).map fun staged ↦
        addReferences shown staged.keys := by
  induction sources generalizing position staged with
  | nil => rfl
  | cons source sources ih =>
    cases source with
    | constant value => exact ih _ _
    | ignored => exact ih _ _
    | register place =>
      have hseen : (addReferences shown staged.keys).contains place =
          (shown.contains place || staged.contains place) := by
        rw [Bool.eq_iff_iff, contains_addReferences, SortedMap.mem_keys_iff, Bool.or_eq_true,
          or_comm]
      have hinsert : (addReferences shown staged.keys).insert place () =
          addReferences shown (staged.insert place ()).keys := by
        apply SortedMap.eq_of_contains_iff
        intro other
        rw [SortedMap.contains_insert, contains_addReferences, contains_addReferences,
          SortedMap.mem_keys_iff, SortedMap.mem_keys_iff, SortedMap.contains_insert, or_assoc]
      rw [reserve, stage, hseen]
      split
      · rfl
      · rw [hinsert, ih]

theorem insert_eq_stageWord (map : BitMap) (address : Address) (sources : List BitSource) :
    map.insert address sources = (map.stageWord address sources).map fun staged ↦
      { map with
        words := map.words.insert address sources
        references := addReferences map.references staged.keys } := by
  have hreserve : reserve address 0 map.references sources =
      (stage address map.references 0 ∅ sources).map fun staged ↦
        addReferences map.references staged.keys :=
    reserve_eq_stage address 0 map.references ∅ sources
  unfold insert stageWord
  by_cases hlength : sources.length ≠ map.width.bits
  · simp only [if_pos hlength]
    rfl
  by_cases hcontains : map.words.contains address = true
  · simp only [if_neg hlength, if_pos hcontains]
    rfl
  simp only [if_neg hlength, if_neg hcontains, hreserve]
  cases stage address map.references 0 ∅ sources <;> rfl

/-- Every check comes before the first change, so a word that is refused leaves the map as it
was. -/
theorem runFrom_insertInPlace (address : Address) (sources : List BitSource) (map : BitMap) :
    (insertInPlace address sources).runFrom map =
      match map.insert address sources with
      | .ok after => (.ok (), after)
      | .error cause => (.error cause, map) := by
  let add (staged : SortedMap RegisterBit Unit) : Session BitMap BitMapError Unit := do
    modify fun map ↦ { map with references := addReferences map.references staged.keys }
    modify fun map ↦ { map with words := map.words.insert address sources }
  have hstart : (insertInPlace address sources).runFrom map =
      (Session.ofExcept (map.stageWord address sources) >>= add).runFrom map := rfl
  rw [hstart, insert_eq_stageWord]
  cases map.stageWord address sources <;> rfl

theorem runFrom_insertTokensInPlace (address : Address) (tokens : List String) (map : BitMap) :
    (insertTokensInPlace address tokens).runFrom map =
      match map.insertTokens address tokens with
      | .ok after => (.ok (), after)
      | .error cause => (.error cause, map) := by
  have hstart : (insertTokensInPlace address tokens).runFrom map =
      (Session.ofExcept (sourcesOf address 0 tokens) >>= insertInPlace address).runFrom map := rfl
  rw [hstart, insertTokens]
  cases sourcesOf address 0 tokens with
  | error cause => rfl
  | ok sources => exact runFrom_insertInPlace address sources map

inductive Call where
  | insert (address : Address) (sources : List BitSource)
  | insertTokens (address : Address) (tokens : List String)

def Call.perform : Call → Session BitMap BitMapError Unit
  | insert address sources => insertInPlace address sources
  | insertTokens address tokens => insertTokensInPlace address tokens

/-- The map after one call after the other, whether they succeed or not. -/
def afterCalls (calls : List Call) (map : BitMap) : BitMap :=
  calls.foldl (fun map call ↦ (call.perform.runFrom map).2) map

/-- A call describes one word as a whole, or it fails and changes nothing. -/
theorem Call.runFrom_perform (call : Call) (map : BitMap) :
    (∃ address sources after, map.insert address sources = .ok after ∧
      call.perform.runFrom map = (.ok (), after)) ∨
    ∃ cause, call.perform.runFrom map = (.error cause, map) := by
  cases call with
  | insert address sources =>
    rw [perform, runFrom_insertInPlace]
    cases hinsert : map.insert address sources with
    | error cause => exact .inr ⟨cause, rfl⟩
    | ok after => exact .inl ⟨address, sources, after, hinsert, rfl⟩
  | insertTokens address tokens =>
    rw [perform, runFrom_insertTokensInPlace]
    cases htokens : map.insertTokens address tokens with
    | error cause => exact .inr ⟨cause, rfl⟩
    | ok after =>
      obtain ⟨sources, hinsert⟩ := insert_of_insertTokens htokens
      exact .inl ⟨address, sources, after, hinsert, rfl⟩

section Keeps

variable (inv : BitMap → Prop)
  (hinsert : ∀ map address sources after, inv map → map.insert address sources = .ok after →
    inv after)

include hinsert

/-- What describing a word keeps, a call keeps. -/
theorem Call.perform_keeps (call : Call) {map : BitMap} (hmap : inv map) :
    inv (call.perform.runFrom map).2 := by
  rcases call.runFrom_perform map with ⟨address, sources, after, hafter, hrun⟩ | ⟨cause, hrun⟩
  · rw [hrun]
    exact hinsert map address sources after hmap hafter
  · rw [hrun]
    exact hmap

theorem afterCalls_keeps (calls : List Call) {map : BitMap} (hmap : inv map) :
    inv (afterCalls calls map) := by
  unfold afterCalls
  induction calls generalizing map with
  | nil => exact hmap
  | cons call calls ih => exact ih (call.perform_keeps inv hinsert hmap)

end Keeps

/-- Whether some position of some word shows a register bit. -/
def Shows (map : BitMap) (place : RegisterBit) : Prop :=
  ∃ address position, map.sourceAt? address position = some (.register place)

/-- Whether the words of a map have its width, a register bit stands at one position of them, and
everything else that the map tells about register bits is told by the words. -/
structure Consistent (width : Width) (map : BitMap) : Prop where
  width_eq : map.width = width
  length_eq : ∀ address sources, map.get? address = some sources → sources.length = width.bits
  contains_references_iff : ∀ place, map.references.contains place = true ↔ map.Shows place
  existsUnique_slot : ∀ place, map.Shows place →
    ∃! slot : Address × Nat, map.sourceAt? slot.1 slot.2 = some (.register place)
  mem_referencedRegisters_iff : ∀ register,
    register ∈ map.referencedRegisters ↔ ∃ bit, map.Shows ⟨register, bit⟩
  pairwise_referencedRegisters : map.referencedRegisters.Pairwise (· < ·)
  getLsbD_projectedBits_iff : ∀ register index,
    (map.projectedBits register).getLsbD index = true ↔
      index < 64 ∧ ∃ bit : UInt32, bit.toNat = index ∧ map.Shows ⟨register, bit⟩

theorem WellFormed.consistent {map : BitMap} (hmap : map.WellFormed) :
    map.Consistent map.width where
  width_eq := rfl
  length_eq address sources h := hmap.length_eq (address, sources) (mem_toList_iff.2 h)
  contains_references_iff place := (hmap.contains_references place).trans mem_registerBits_iff
  existsUnique_slot place h := existsUnique_position hmap (mem_registerBits_iff.2 h)
  mem_referencedRegisters_iff register := by
    rw [BitMap.mem_referencedRegisters_iff]
    constructor
    · rintro ⟨place, hplace, rfl⟩
      exact ⟨place.bit, mem_registerBits_iff.1 hplace⟩
    · rintro ⟨bit, hshows⟩
      exact ⟨⟨register, bit⟩, mem_registerBits_iff.2 hshows, rfl⟩
  pairwise_referencedRegisters := (SortedMap.pairwise_keys _).imp Std.compare_eq_lt.1
  getLsbD_projectedBits_iff register index := by
    by_cases hindex : index < 64
    · obtain ⟨place, rfl, rfl⟩ := RegisterBit.exists_of_lt register hindex
      rw [getLsbD_projectedBits map hindex, decide_eq_true_iff, mem_registerBits_iff]
      constructor
      · intro hshows
        exact ⟨hindex, place.bit, rfl, hshows⟩
      · rintro ⟨-, bit, hbit, hshows⟩
        rwa [UInt32.toNat_inj.1 hbit] at hshows
    · rw [BitVec.getLsbD_of_ge _ _ (by omega)]
      exact ⟨fun h ↦ (nomatch h), fun h ↦ absurd h.1 hindex⟩

/-- Whether a word may be described in a map: it has the width, its address is new, and no register
bit of it is shown twice or by another word. -/
def MayDescribe (map : BitMap) (address : Address) (sources : List BitSource) : Prop :=
  sources.length = map.width.bits ∧ map.get? address = none ∧ (placesOf sources).Nodup ∧
    ∀ place ∈ placesOf sources, ¬map.Shows place

theorem WellFormed.insert_eq_ok_iff_mayDescribe {map after : BitMap} (hmap : map.WellFormed)
    {address : Address} {sources : List BitSource} :
    map.insert address sources = .ok after ↔ map.MayDescribe address sources ∧
      after = { map with
        words := map.words.insert address sources
        references := addReferences map.references (placesOf sources) } := by
  have hshown (place : RegisterBit) : ¬map.references.contains place = true ↔ ¬map.Shows place :=
    not_congr (hmap.consistent.contains_references_iff place)
  rw [insert_eq_ok_iff, MayDescribe, SortedMap.not_contains_iff]
  simp only [hshown, and_assoc]
  rfl

/-- Whatever words have been described, with success or not, all that a bit map tells about register
bits is told by its words. -/
theorem consistent_afterCalls (width : Width) (calls : List Call) :
    let map := afterCalls calls (empty width)
    map.Consistent width ∧
    (∀ (call : Call) (before after : BitMap) (cause : BitMapError),
      call.perform.runFrom before = (.error cause, after) → after = before) ∧
    ∀ address sources,
      (map.MayDescribe address sources →
        ∃ after, (insertInPlace address sources).runFrom map = (.ok (), after) ∧
          after.words = map.words.insert address sources) ∧
      (¬map.MayDescribe address sources →
        ∃ cause, (insertInPlace address sources).runFrom map = (.error cause, map)) := by
  intro map
  have hmap : map.WellFormed ∧ map.width = width := by
    refine afterCalls_keeps (fun map ↦ map.WellFormed ∧ map.width = width) ?_ calls
      ⟨wellFormed_empty width, rfl⟩
    rintro before address sources after ⟨hbefore, hwidth⟩ hinsert
    refine ⟨hbefore.insert hinsert, ?_⟩
    obtain ⟨-, rfl⟩ := hbefore.insert_eq_ok_iff_mayDescribe.1 hinsert
    exact hwidth
  obtain ⟨hwellFormed, hwidth⟩ := hmap
  refine ⟨hwidth ▸ hwellFormed.consistent, ?_, fun address sources ↦ ⟨?_, ?_⟩⟩
  · intro call before after cause hrun
    rcases call.runFrom_perform before with ⟨_, _, _, -, hok⟩ | ⟨_, herror⟩
    · rw [hok] at hrun
      cases hrun
    · rw [herror] at hrun
      cases hrun
      rfl
  · intro hmay
    rw [runFrom_insertInPlace, hwellFormed.insert_eq_ok_iff_mayDescribe.2 ⟨hmay, rfl⟩]
    exact ⟨_, rfl, rfl⟩
  · intro hmay
    rw [runFrom_insertInPlace]
    cases hinsert : map.insert address sources with
    | error cause => exact ⟨cause, rfl⟩
    | ok after => exact absurd (hwellFormed.insert_eq_ok_iff_mayDescribe.1 hinsert).1 hmay

/-- A word that shows a register bit twice is refused and does not stand in the way of the next
word, which shows this bit once. -/
def repeatedBitCalls : List Call :=
  [.insert 0 [.register ⟨3, 9⟩, .register ⟨3, 9⟩], .insertTokens 0 ["R3[9]", "X"]]

def twoBits : Width :=
  ⟨2, by decide, by decide⟩

theorem consistent_afterCalls_repeatedBitCalls :
    let map := afterCalls repeatedBitCalls (empty twoBits)
    map.Consistent twoBits ∧ map.toList = [(0, [.register ⟨3, 9⟩, .ignored])] ∧
      (∃ cause after, (insertInPlace 0 [.register ⟨3, 9⟩, .register ⟨3, 9⟩]).runFrom
        (empty twoBits) = (.error cause, after) ∧ after = empty twoBits) ∧
      (∃ after, (insertInPlace 1 [.ignored, .constant true]).runFrom map = (.ok (), after) ∧
        after.words = map.words.insert 1 [.ignored, .constant true]) ∧
      ∃ cause, (insertInPlace 0 [.ignored, .constant true]).runFrom map = (.error cause, map) := by
  intro map
  obtain ⟨hconsistent, hkeeps, hdescribe⟩ := consistent_afterCalls twoBits repeatedBitCalls
  have hrun : (Call.perform (.insert 0 [.register ⟨3, 9⟩, .register ⟨3, 9⟩])).runFrom
      (empty twoBits) = (.error (.duplicateReference 0 1 ⟨3, 9⟩), empty twoBits) := by
    decide +kernel
  have hmay : map.MayDescribe 1 [.ignored, .constant true] :=
    ⟨by decide +kernel, by decide +kernel, .nil, List.forall_mem_nil _⟩
  have hnot : ¬map.MayDescribe 0 [.ignored, .constant true] := by
    intro h
    exact absurd h.2.1 (by decide +kernel)
  exact ⟨hconsistent, by decide +kernel, ⟨_, _, hrun, hkeeps _ _ _ _ hrun⟩,
    (hdescribe 1 _).1 hmay, (hdescribe 0 _).2 hnot⟩

end ChipConfig.BitMap
