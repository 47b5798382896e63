import ChipConfig.Document.Record
import ChipConfig.Proofs.Json.Value

/-!
# Documents are read as they are written

Texts and numbers of documents can always be written, and so can records of them.  The members of a
record are found under the names that they were written with.
-/

namespace ChipConfig.Document

open Json (Writable)

theorem writable_ofText (text : String) : (ofText text).Writable :=
  .text (Json.Written.writable_ofText text)

theorem writable_ofNat (n : Nat) : (ofNat n).Writable :=
  .number (Json.Number.writable_ofNat n)

theorem writable_ofRecord {members : List (String × Json)}
    (h : ∀ member ∈ members, member.2.Writable) : (ofRecord members).Writable :=
  .object (List.forall_mem_map.2 fun member _ ↦ Json.Written.writable_ofText member.1)
    (List.forall_mem_map.2 h)

@[simp]
theorem text?_ofText (text : String) : text? (ofText text) = some text :=
  Json.Written.text?_ofText text

@[simp]
theorem natural?_ofNat {n bound : Nat} (h : n < bound) : natural? bound (ofNat n) = some n :=
  Numeral.bounded?_zeros_append_toDigits (by decide) (by decide) 0 h

/-- A list is read if every member is. -/
theorem mapM_eq_some {α β : Type} {f : α → Option β} {g : α → β} {xs : List α}
    (h : ∀ x ∈ xs, f x = some (g x)) : xs.mapM f = some (xs.map g) := by
  induction xs with
  | nil => rfl
  | cons x xs ih =>
    obtain ⟨hx, hxs⟩ := List.forall_mem_cons.1 h
    rw [List.mapM_cons, hx, ih hxs]
    rfl

/-- The items of a list are read back one by one. -/
theorem mapM_map_eq_some {α β : Type} {read : β → Option α} {write : α → β} {items : List α}
    (h : ∀ item ∈ items, read (write item) = some item) :
    (items.map write).mapM read = some items := by
  have hread : items.mapM (read ∘ write) = some (items.map id) := mapM_eq_some h
  rw [List.mapM_map, hread, List.map_id]

@[simp]
theorem keyed?_ofText (members : List (String × Json)) :
    keyed? (members.map fun member ↦ (Json.Written.ofText member.1, member.2)) = some members := by
  refine mapM_map_eq_some fun member _ ↦ ?_
  rw [Json.Written.text?_ofText]
  rfl

/-- A member is found under its name if no other one has it. -/
theorem member?_of_mem {members : List (String × Json)} (h : (members.map Prod.fst).Nodup)
    {member : String × Json} (hmember : member ∈ members) :
    member? members member.1 = some (some member.2) := by
  have honly : (members.filter fun other ↦ other.1 = member.1) = [member] := by
    induction members with
    | nil => cases hmember
    | cons head rest ih =>
      obtain ⟨hhead, hrest⟩ := List.nodup_cons.1 h
      rcases List.mem_cons.1 hmember with rfl | hmem
      · have hnone : (rest.filter fun other ↦ other.1 = member.1) = [] := by
          rw [List.filter_eq_nil_iff]
          intro other hother hname
          exact hhead (List.mem_map.2 ⟨other, hother, of_decide_eq_true hname⟩)
        rw [List.filter_cons_of_pos (by simp), hnone]
      · have hne : head.1 ≠ member.1 := fun hname ↦
          hhead (List.mem_map.2 ⟨member, hmem, hname.symm⟩)
        rw [List.filter_cons_of_neg (by simpa using hne)]
        exact ih hrest hmem
  rw [member?, honly]

/-- The members of a record are found under the names that they were written with. -/
theorem record?_ofRecord {members : List (String × Json)} (h : (members.map Prod.fst).Nodup) :
    record? (members.map Prod.fst) (ofRecord members) =
      some (members.map fun member ↦ some member.2) := by
  rw [ofRecord, record?, keyed?_ofText]
  change (members.map Prod.fst).mapM (member? members) = _
  rw [List.mapM_map]
  exact mapM_eq_some fun member hmember ↦ member?_of_mem h hmember

end ChipConfig.Document
