import ChipConfig.Text.Blank
import Mathlib

/-!
# Blanks around a text

Blanks may stand around a text.  Trimming takes them off and nothing else: what is left neither
starts nor ends with a blank.
-/

namespace ChipConfig.Text

/-- Whether a text is another one with blanks around it. -/
def Padded (inner cs : List Char) : Prop :=
  ∃ before after, (∀ c ∈ before, isBlank c = true) ∧ (∀ c ∈ after, isBlank c = true) ∧
    cs = before ++ inner ++ after

/-- Whether a text does not end with a blank. -/
def EndsSolid (cs : List Char) : Prop :=
  ∀ c ∈ cs.getLast?, isBlank c = false

/-- Whether a text neither starts nor ends with a blank. -/
structure Trimmed (cs : List Char) : Prop where
  head : ∀ c ∈ cs.head?, isBlank c = false
  last : EndsSolid cs

variable {inner cs rest after : List Char} {c : Char}

theorem padded_refl (inner : List Char) : Padded inner inner :=
  ⟨[], [], List.forall_mem_nil _, List.forall_mem_nil _, (List.append_nil inner).symm⟩

theorem trimmed_of_forall (h : ∀ c ∈ cs, isBlank c = false) : Trimmed cs where
  head c hc := h c (List.mem_of_mem_head? hc)
  last c hc := h c (List.mem_of_mem_getLast? hc)

theorem endsSolid_append (cs : List Char) (hne : rest ≠ []) (hrest : EndsSolid rest) :
    EndsSolid (cs ++ rest) := by
  intro c hc
  rw [List.getLast?_append_of_ne_nil cs hne] at hc
  exact hrest c hc

theorem endsSolid_concat (hc : isBlank c = false) (cs : List Char) : EndsSolid (cs ++ [c]) :=
  endsSolid_append cs (List.cons_ne_nil _ _) fun _ hd ↦ Option.some.inj hd ▸ hc

theorem trimEnd_append_blank (hc : isBlank c = true) (cs : List Char) :
    trimEnd (cs ++ [c]) = trimEnd cs := by
  induction cs with
  | nil => simp [trimEnd, hc]
  | cons first cs ih => rw [List.cons_append, trimEnd, trimEnd, ih]

theorem trimEnd_append_blanks (hafter : ∀ c ∈ after, isBlank c = true) (cs : List Char) :
    trimEnd (cs ++ after) = trimEnd cs := by
  induction after generalizing cs with
  | nil => rw [List.append_nil]
  | cons c after ih =>
    obtain ⟨hc, hlater⟩ := List.forall_mem_cons.1 hafter
    calc trimEnd (cs ++ c :: after)
      _ = trimEnd ((cs ++ [c]) ++ after) := by rw [List.append_assoc, List.singleton_append]
      _ = trimEnd (cs ++ [c]) := ih hlater _
      _ = trimEnd cs := trimEnd_append_blank hc cs

theorem EndsSolid.trimEnd_eq (h : EndsSolid cs) : trimEnd cs = cs := by
  induction cs with
  | nil => rfl
  | cons c cs ih =>
    cases cs with
    | nil =>
      have hc : isBlank c = false := h c rfl
      simp [trimEnd, hc]
    | cons next later =>
      have hlater : EndsSolid (next :: later) := fun d hd ↦ h d (by rwa [List.getLast?_cons_cons])
      rw [trimEnd, ih hlater]

/-- The end of a text is trimmed by the blanks there, and by nothing else. -/
theorem trimEnd_eq_iff :
    trimEnd cs = inner ↔
      EndsSolid inner ∧ ∃ after, (∀ c ∈ after, isBlank c = true) ∧ cs = inner ++ after := by
  constructor
  · rintro rfl
    -- What counts is at the end, so the text is taken apart from there.
    induction cs using List.reverseRecOn with
    | nil => exact ⟨fun _ h ↦ (nomatch h), [], List.forall_mem_nil _, rfl⟩
    | append_singleton cs c ih =>
      by_cases hc : isBlank c = true
      · obtain ⟨hsolid, after, hafter, hcs⟩ := ih
        rw [trimEnd_append_blank hc]
        refine ⟨hsolid, after ++ [c], ?_, ?_⟩
        · exact List.forall_mem_append.2 ⟨hafter, List.forall_mem_singleton.2 hc⟩
        · rw [← List.append_assoc, ← hcs]
      · have hsolid : EndsSolid (cs ++ [c]) := endsSolid_concat (by simpa using hc) cs
        rw [hsolid.trimEnd_eq]
        exact ⟨hsolid, [], List.forall_mem_nil _, (List.append_nil _).symm⟩
  · rintro ⟨hsolid, after, hafter, rfl⟩
    rw [trimEnd_append_blanks hafter, hsolid.trimEnd_eq]

theorem trimStart_of_head (h : ∀ c ∈ cs.head?, isBlank c = false) : trimStart cs = cs := by
  cases cs with
  | nil => rfl
  | cons c cs => exact List.dropWhile_cons_of_neg (by simp [h c rfl])

/-- Blanks around a text do not matter when it is trimmed. -/
theorem Padded.trim_eq (h : Padded inner cs) : trim cs = trim inner := by
  obtain ⟨before, after, hbefore, hafter, rfl⟩ := h
  have hstart : trimStart (before ++ inner ++ after) = trimStart (inner ++ after) := by
    rw [trimStart, List.append_assoc, List.dropWhile_append_of_pos hbefore]
    rfl
  rw [trim, hstart, trim, trimStart, List.dropWhile_append]
  split
  · next hempty =>
    have hinner : trimStart inner = [] := List.isEmpty_iff.1 hempty
    have hnothing : after.dropWhile isBlank = [] := List.dropWhile_eq_nil_iff.2 hafter
    rw [hinner, hnothing]
  · exact trimEnd_append_blanks hafter _

/-- A text is trimmed to what neither starts nor ends with a blank and has only blanks around it. -/
theorem trim_eq_iff : trim cs = inner ↔ Trimmed inner ∧ Padded inner cs := by
  constructor
  · intro h
    obtain ⟨hlast, after, hafter, hstart⟩ := trimEnd_eq_iff.1 h
    refine ⟨⟨fun c hc ↦ ?_, hlast⟩, cs.takeWhile isBlank, after, ?_, hafter, ?_⟩
    · have hhead : (cs.dropWhile isBlank).head? = some c := by
        rw [show cs.dropWhile isBlank = inner ++ after from hstart, List.head?_append,
          Option.mem_def.1 hc, Option.some_or]
      have hnot := List.head?_dropWhile_not isBlank cs
      rw [hhead] at hnot
      exact hnot
    · exact fun c hc ↦ List.mem_takeWhile_imp hc
    · rw [List.append_assoc, ← hstart, trimStart, List.takeWhile_append_dropWhile]
  · rintro ⟨htrimmed, hpadded⟩
    rw [hpadded.trim_eq, trim, trimStart_of_head htrimmed.head, htrimmed.last.trimEnd_eq]

end ChipConfig.Text
