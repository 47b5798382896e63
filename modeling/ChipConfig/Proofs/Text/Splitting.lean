import ChipConfig.Text.Blank
import Mathlib

/-!
# Where a text is split

A text is split at a character in one place only: at its first occurrence, at its last one, or at
its end.  A text occurs in another one if the latter can be cut before and behind it.
-/

namespace ChipConfig.Text

variable {cs before after part : List Char}

theorem splitFirst?_append {separator : Char} {cs : List Char} (h : ∀ c ∈ cs, c ≠ separator)
    (rest : List Char) : splitFirst? separator (cs ++ separator :: rest) = some (cs, rest) := by
  induction cs with
  | nil => simp [splitFirst?]
  | cons c cs ih =>
    obtain ⟨hc, hcs⟩ := List.forall_mem_cons.1 h
    rw [List.cons_append, splitFirst?, if_neg hc, ih hcs]
    rfl

theorem eq_append_of_splitFirst? {separator : Char}
    (h : splitFirst? separator cs = some (before, after)) :
    cs = before ++ separator :: after ∧ ∀ c ∈ before, c ≠ separator := by
  induction cs generalizing before with
  | nil => cases h
  | cons c cs ih =>
    rw [splitFirst?] at h
    split at h
    · next hc =>
      obtain ⟨rfl, rfl⟩ := Prod.mk.inj (Option.some.inj h)
      exact ⟨congrArg (· :: cs) hc, List.forall_mem_nil _⟩
    · next hc =>
      obtain ⟨parts, hparts, hcons⟩ := Option.map_eq_some_iff.1 h
      obtain ⟨rfl, rfl⟩ := Prod.mk.inj hcons
      obtain ⟨rfl, hbefore⟩ := ih hparts
      exact ⟨rfl, List.forall_mem_cons.2 ⟨hc, hbefore⟩⟩

/-- A text is split before its first separator. -/
theorem splitFirst?_eq_some_iff {separator : Char} :
    splitFirst? separator cs = some (before, after) ↔
      cs = before ++ separator :: after ∧ ∀ c ∈ before, c ≠ separator := by
  constructor
  · exact eq_append_of_splitFirst?
  · rintro ⟨rfl, h⟩
    exact splitFirst?_append h after

theorem forall_ne_of_splitFirst?_eq_none {separator : Char}
    (h : splitFirst? separator cs = none) : ∀ c ∈ cs, c ≠ separator := by
  induction cs with
  | nil => exact List.forall_mem_nil _
  | cons c cs ih =>
    rw [splitFirst?] at h
    split at h
    · cases h
    · next hc => exact List.forall_mem_cons.2 ⟨hc, ih (Option.map_eq_none_iff.1 h)⟩

theorem splitLast?_of_forall {separator : Char} (h : ∀ c ∈ cs, c ≠ separator) :
    splitLast? separator cs = none := by
  induction cs with
  | nil => rfl
  | cons c cs ih =>
    obtain ⟨hc, hcs⟩ := List.forall_mem_cons.1 h
    rw [splitLast?, ih hcs]
    exact if_neg hc

theorem splitLast?_append {separator : Char} (before : List Char)
    (h : ∀ c ∈ after, c ≠ separator) :
    splitLast? separator (before ++ separator :: after) = some (before, after) := by
  induction before with
  | nil =>
    rw [List.nil_append, splitLast?, splitLast?_of_forall h]
    exact if_pos rfl
  | cons c before ih => rw [List.cons_append, splitLast?, ih]

theorem forall_ne_of_splitLast?_eq_none {separator : Char}
    (h : splitLast? separator cs = none) : ∀ c ∈ cs, c ≠ separator := by
  induction cs with
  | nil => exact List.forall_mem_nil _
  | cons c cs ih =>
    rw [splitLast?] at h
    split at h
    · cases h
    · next hcs =>
      split at h
      · cases h
      · next hc => exact List.forall_mem_cons.2 ⟨hc, ih hcs⟩

/-- A text is split at its last separator. -/
theorem splitLast?_eq_some_iff {separator : Char} :
    splitLast? separator cs = some (before, after) ↔
      cs = before ++ separator :: after ∧ ∀ c ∈ after, c ≠ separator := by
  constructor
  · intro h
    induction cs generalizing before with
    | nil => cases h
    | cons c cs ih =>
      rw [splitLast?] at h
      split at h
      · next first last hcs =>
        obtain ⟨rfl, rfl⟩ := Prod.mk.inj (Option.some.inj h)
        obtain ⟨rfl, hlast⟩ := ih hcs
        exact ⟨rfl, hlast⟩
      · next hcs =>
        split at h
        · next hc =>
          obtain ⟨rfl, rfl⟩ := Prod.mk.inj (Option.some.inj h)
          exact ⟨congrArg (· :: cs) hc, forall_ne_of_splitLast?_eq_none hcs⟩
        · cases h
  · rintro ⟨rfl, h⟩
    exact splitLast?_append before h

@[simp]
theorem stripLast?_append (cs : List Char) (last : Char) :
    stripLast? last (cs ++ [last]) = some cs := by
  induction cs with
  | nil => simp [stripLast?]
  | cons c cs ih =>
    rw [List.cons_append, stripLast?, ih]
    · rfl
    · exact fun h ↦ List.cons_ne_nil _ _ (List.append_eq_nil_iff.1 h).2

theorem stripLast?_eq_some_iff {last : Char} :
    stripLast? last cs = some before ↔ cs = before ++ [last] := by
  constructor
  · intro h
    induction cs generalizing before with
    | nil => cases h
    | cons c cs ih =>
      cases cs with
      | nil =>
        rw [stripLast?] at h
        split at h
        · next hc =>
          obtain rfl := Option.some.inj h
          rw [hc, List.nil_append]
        · cases h
      | cons next later =>
        obtain ⟨kept, hkept, rfl⟩ := Option.map_eq_some_iff.1 h
        rw [ih hkept, List.cons_append]
  · rintro rfl
    exact stripLast?_append before last

theorem stripLast?_eq_none_iff {last : Char} :
    stripLast? last cs = none ↔ ∀ before, cs ≠ before ++ [last] := by
  simp only [Option.eq_none_iff_forall_ne_some, ne_eq, stripLast?_eq_some_iff]

/-- A text occurs in another one if and only if something can be put before and behind it that
makes up the other one. -/
theorem occursIn_eq_true_iff :
    occursIn part cs = true ↔ ∃ before after, cs = before ++ (part ++ after) := by
  induction cs with
  | nil =>
    rw [occursIn, List.isEmpty_iff]
    constructor
    · rintro rfl
      exact ⟨[], [], rfl⟩
    · rintro ⟨before, after, h⟩
      exact (List.append_eq_nil_iff.1 (List.append_eq_nil_iff.1 h.symm).2).1
  | cons c cs ih =>
    rw [occursIn, Bool.or_eq_true, List.isPrefixOf_iff_prefix, ih]
    constructor
    · rintro (⟨after, h⟩ | ⟨before, after, rfl⟩)
      · exact ⟨[], after, h.symm⟩
      · exact ⟨c :: before, after, rfl⟩
    · rintro ⟨before, after, h⟩
      cases before with
      | nil => exact .inl ⟨after, h.symm⟩
      | cons first before => exact .inr ⟨before, after, (List.cons.inj h).2⟩

end ChipConfig.Text
