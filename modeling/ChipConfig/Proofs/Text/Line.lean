import ChipConfig.Proofs.Text.Padding
import ChipConfig.Text.Line
import Mathlib

/-!
# Tables are read as they are printed

A printed table has its words on lines, with one space between the words of a line.  If no word has
a blank or a `#` in it, reading the table gives the words of every line back, each line with its
number.
-/

namespace ChipConfig.Text

/-- Whether a text can stand as a word of a table: it is not empty, and has no blanks and no `#`. -/
def IsWord (cs : List Char) : Prop :=
  cs ≠ [] ∧ ∀ c ∈ cs, isBlank c = false ∧ c ≠ '#'

/-- Words on a line, with one space between them. -/
def joined : List (List Char) → List Char
  | [] => []
  | word :: rest => word ++ rest.flatMap (' ' :: ·)

/-- The lines of a table, each with its end. -/
def printed (table : List (List (List Char))) : List Char :=
  table.flatMap fun row ↦ joined row ++ ['\n']

variable {cs rest : List Char} {row : List (List Char)}

theorem eq_space_or_mem_of_mem_joined {c : Char} (h : c ∈ joined row) :
    c = ' ' ∨ ∃ word ∈ row, c ∈ word := by
  cases row with
  | nil => exact nomatch h
  | cons word later =>
    rcases List.mem_append.1 h with hfirst | hrest
    · exact .inr ⟨word, List.mem_cons_self, hfirst⟩
    · obtain ⟨other, hother, hmem⟩ := List.mem_flatMap.1 hrest
      rcases List.mem_cons.1 hmem with rfl | hmem
      · exact .inl rfl
      · exact .inr ⟨other, List.mem_cons_of_mem _ hother, hmem⟩

theorem pieces_of_forall (h : ∀ c ∈ cs, isBlank c = false) : pieces isBlank cs = [cs] := by
  induction cs with
  | nil => rfl
  | cons c cs ih =>
    obtain ⟨hc, hcs⟩ := List.forall_mem_cons.1 h
    simp [pieces, hc, ih hcs]

theorem pieces_append (h : ∀ c ∈ cs, isBlank c = false) (rest : List Char) :
    pieces isBlank (cs ++ ' ' :: rest) = cs :: pieces isBlank rest := by
  have hspace : isBlank ' ' = true := rfl
  induction cs with
  | nil => simp [pieces, hspace]
  | cons c cs ih =>
    obtain ⟨hc, hcs⟩ := List.forall_mem_cons.1 h
    simp [pieces, hc, ih hcs]

/-- The words of a printed line are the words that were put on it. -/
theorem words_joined (hrow : ∀ word ∈ row, IsWord word) : words (joined row) = row := by
  have hpieces (word : List Char) (later : List (List Char))
      (h : ∀ w ∈ word :: later, IsWord w) :
      pieces isBlank (joined (word :: later)) = word :: later := by
    induction later generalizing word with
    | nil =>
      have hword := h word List.mem_cons_self
      simpa [joined] using pieces_of_forall fun c hc ↦ (hword.2 c hc).1
    | cons next later ih =>
      obtain ⟨hword, hlater⟩ := List.forall_mem_cons.1 h
      have hjoined : joined (word :: next :: later) = word ++ ' ' :: joined (next :: later) := rfl
      rw [hjoined, pieces_append (fun c hc ↦ (hword.2 c hc).1), ih next hlater]
  have hkept : row.filter (!·.isEmpty) = row := by
    rw [List.filter_eq_self]
    intro word hword
    simp [(hrow word hword).1]
  cases row with
  | nil => rfl
  | cons word later => rw [words, hpieces word later hrow, hkept]

theorem joined_ne_nil (hne : row ≠ []) (hrow : ∀ word ∈ row, IsWord word) : joined row ≠ [] := by
  cases row with
  | nil => exact absurd rfl hne
  | cons word later =>
    exact List.append_ne_nil_of_left_ne_nil (hrow word List.mem_cons_self).1 _

/-- A printed line starts and ends with a word. -/
theorem trimmed_joined (hrow : ∀ word ∈ row, IsWord word) : Trimmed (joined row) := by
  cases row with
  | nil => exact trimmed_of_forall (List.forall_mem_nil _)
  | cons word later =>
    constructor
    · obtain ⟨hne, hword⟩ := hrow word List.mem_cons_self
      rw [joined, List.head?_append_of_ne_nil word hne]
      exact (trimmed_of_forall fun c hc ↦ (hword c hc).1).head
    · induction later generalizing word with
      | nil =>
        have hword := (hrow word List.mem_cons_self).2
        simpa [joined] using (trimmed_of_forall fun c hc ↦ (hword c hc).1).last
      | cons next later ih =>
        have hlater := (List.forall_mem_cons.1 hrow).2
        have hjoined : joined (word :: next :: later) =
            (word ++ [' ']) ++ joined (next :: later) := by
          simp [joined]
        rw [hjoined]
        exact endsSolid_append _ (joined_ne_nil (List.cons_ne_nil _ _) hlater) (ih next hlater)

theorem not_comment_of_mem_joined (hrow : ∀ word ∈ row, IsWord word) {c : Char}
    (hc : c ∈ joined row) : c ≠ '#' := by
  rcases eq_space_or_mem_of_mem_joined hc with rfl | ⟨word, hword, hmem⟩
  · decide
  · exact ((hrow word hword).2 c hmem).2

/-- A printed line is all content: it has no comment, and blanks around it do not count. -/
theorem content_of_padded {line : List Char} (hrow : ∀ word ∈ row, IsWord word)
    (h : Padded (joined row) line) : content line = joined row := by
  have hnone : ∀ c ∈ line, c ≠ '#' := by
    obtain ⟨before, after, hbefore, hafter, rfl⟩ := h
    have hblank {c : Char} (hc : isBlank c = true) : c ≠ '#' := by
      rintro rfl
      cases hc
    simp only [List.forall_mem_append]
    exact ⟨⟨fun c hc ↦ hblank (hbefore c hc), fun c ↦ not_comment_of_mem_joined hrow⟩,
      fun c hc ↦ hblank (hafter c hc)⟩
  have hwhole : line.takeWhile (· ≠ '#') = line :=
    List.takeWhile_eq_self_iff.2 fun c hc ↦ by simpa using hnone c hc
  rw [content, hwhole]
  exact trim_eq_iff.2 ⟨trimmed_joined hrow, h⟩

theorem content_joined (hrow : ∀ word ∈ row, IsWord word) : content (joined row) = joined row :=
  content_of_padded hrow (padded_refl _)

theorem exists_piece_of_not_blank {c : Char} (hc : c ∈ cs) (hblank : isBlank c = false) :
    ∃ piece ∈ pieces isBlank cs, c ∈ piece := by
  induction cs with
  | nil => cases hc
  | cons first cs ih =>
    rw [pieces]
    by_cases hfirst : isBlank first = true
    · have hne : c ≠ first := fun h ↦ by simp [← h, hblank] at hfirst
      obtain ⟨piece, hpiece, hmem⟩ := ih ((List.mem_cons.1 hc).resolve_left hne)
      rw [if_pos hfirst]
      exact ⟨piece, List.mem_cons_of_mem _ hpiece, hmem⟩
    · rw [if_neg hfirst]
      cases hpieces : pieces isBlank cs with
      | nil =>
        rw [hpieces] at ih
        have hlast : c = first := by
          rcases List.mem_cons.1 hc with heq | hmem
          · exact heq
          · obtain ⟨piece, hpiece, -⟩ := ih hmem
            cases hpiece
        exact ⟨[first], List.mem_cons_self, List.mem_singleton.2 hlast⟩
      | cons piece later =>
        rw [hpieces] at ih
        rcases List.mem_cons.1 hc with rfl | hmem
        · exact ⟨c :: piece, List.mem_cons_self, List.mem_cons_self⟩
        · obtain ⟨other, hother, hfound⟩ := ih hmem
          rcases List.mem_cons.1 hother with rfl | hlater
          · exact ⟨first :: other, List.mem_cons_self, List.mem_cons_of_mem _ hfound⟩
          · exact ⟨other, List.mem_cons_of_mem _ hlater, hfound⟩

/-- A line with content has a word. -/
theorem words_content_ne_nil {line : List Char} (h : content line ≠ []) :
    words (content line) ≠ [] := by
  have hlast : isBlank ((content line).getLast h) = false :=
    (trim_eq_iff.1 rfl).1.last _ (List.getLast?_eq_some_getLast h)
  obtain ⟨piece, hpiece, hmem⟩ := exists_piece_of_not_blank (List.getLast_mem h) hlast
  have hne : piece ≠ [] := List.ne_nil_of_mem hmem
  have hword : piece ∈ words (content line) := List.mem_filter.2 ⟨hpiece, by simpa using hne⟩
  exact List.ne_nil_of_mem hword

theorem rowsFrom_cons_of_blank {line : List Char} (h : content line = []) (number : Nat)
    (later : List (List Char)) : rowsFrom number (line :: later) = rowsFrom (number + 1) later := by
  rw [rowsFrom, h]
  rfl

theorem rowsFrom_cons_of_content {line : List Char} (h : content line ≠ []) (number : Nat)
    (later : List (List Char)) :
    rowsFrom number (line :: later) =
      ⟨number, String.ofList line, words (content line)⟩ :: rowsFrom (number + 1) later := by
  have hcontent : (content line).isEmpty = false := by simpa using h
  rw [rowsFrom, hcontent]
  rfl

theorem lines_append (h : ∀ c ∈ cs, c ≠ '\n' ∧ c ≠ '\r') (rest : List Char) :
    lines (cs ++ '\n' :: rest) = cs :: lines rest := by
  induction cs with
  | nil => rfl
  | cons c cs ih =>
    obtain ⟨⟨hfeed, hreturn⟩, hcs⟩ := List.forall_mem_cons.1 h
    rw [List.cons_append, lines, ih hcs]
    · simpa using hfeed
    · intro later hc
      exact absurd hc hreturn

theorem not_lineEnd_of_mem_joined (hrow : ∀ word ∈ row, IsWord word) {c : Char}
    (hc : c ∈ joined row) : c ≠ '\n' ∧ c ≠ '\r' := by
  rcases eq_space_or_mem_of_mem_joined hc with rfl | ⟨word, hword, hmem⟩
  · decide
  · -- The ends of lines are blanks.
    have hblank := ((hrow word hword).2 c hmem).1
    constructor <;>
    · rintro rfl
      cases hblank

theorem lines_flatMap {table : List (List Char)}
    (h : ∀ line ∈ table, ∀ c ∈ line, c ≠ '\n' ∧ c ≠ '\r') :
    lines (table.flatMap (· ++ ['\n'])) = table := by
  induction table with
  | nil => rfl
  | cons line later ih =>
    obtain ⟨hline, hlater⟩ := List.forall_mem_cons.1 h
    rw [List.flatMap_cons, List.append_assoc]
    exact (lines_append hline _).trans (congrArg _ (ih hlater))

/-- The rows of a table of lines that all have content are these lines, numbered from 1 on. -/
theorem rows_flatMap {table : List (List Char)}
    (h : ∀ line ∈ table, content line ≠ [] ∧ ∀ c ∈ line, c ≠ '\n' ∧ c ≠ '\r') :
    rows (String.ofList (table.flatMap (· ++ ['\n']))) =
      (table.zipIdx 1).map fun entry ↦
        ⟨entry.2, String.ofList entry.1, words (content entry.1)⟩ := by
  have hrows (number : Nat) : rowsFrom number table =
      (table.zipIdx number).map fun entry ↦
        ⟨entry.2, String.ofList entry.1, words (content entry.1)⟩ := by
    induction table generalizing number with
    | nil => rfl
    | cons line later ih =>
      obtain ⟨hline, hlater⟩ := List.forall_mem_cons.1 h
      rw [rowsFrom_cons_of_content hline.1, ih hlater]
      rfl
  rw [rows, String.toList_ofList, lines_flatMap fun line hline ↦ (h line hline).2, hrows]

/-- The rows of a printed table are the lines that were printed, numbered from 1 on. -/
theorem rows_printed {table : List (List (List Char))}
    (htable : ∀ row ∈ table, row ≠ [] ∧ ∀ word ∈ row, IsWord word) :
    rows (String.ofList (printed table)) =
      (table.zipIdx 1).map fun entry ↦ ⟨entry.2, String.ofList (joined entry.1), entry.1⟩ := by
  have hlines : ∀ line ∈ table.map joined, content line ≠ [] ∧ ∀ c ∈ line, c ≠ '\n' ∧ c ≠ '\r' := by
    refine List.forall_mem_map.2 fun row hrow ↦ ?_
    obtain ⟨hne, hwords⟩ := htable row hrow
    rw [content_joined hwords]
    exact ⟨joined_ne_nil hne hwords, fun c hc ↦ not_lineEnd_of_mem_joined hwords hc⟩
  have hprinted : printed table = (table.map joined).flatMap (· ++ ['\n']) := by
    rw [printed, List.flatMap_map]
  rw [hprinted, rows_flatMap hlines, List.zipIdx_map, List.map_map]
  refine List.map_congr_left fun entry hentry ↦ ?_
  have hwords := (htable entry.1 (List.fst_mem_of_mem_zipIdx hentry)).2
  change (⟨entry.2, String.ofList (joined entry.1), words (content (joined entry.1))⟩ : Row) = _
  rw [content_joined hwords, words_joined hwords]

/-- A row has a word: an empty line is no row. -/
theorem words_ne_nil_of_mem_rows {text : String} {row : Row} (h : row ∈ rows text) :
    row.words ≠ [] := by
  have hrows (number : Nat) (table : List (List Char)) :
      ∀ row ∈ rowsFrom number table, row.words ≠ [] := by
    induction table generalizing number with
    | nil => exact fun _ h ↦ nomatch h
    | cons line later ih =>
      by_cases hcontent : content line = []
      · rw [rowsFrom_cons_of_blank hcontent]
        exact ih (number + 1)
      · rw [rowsFrom_cons_of_content hcontent]
        exact List.forall_mem_cons.2 ⟨words_content_ne_nil hcontent, ih (number + 1)⟩
  exact hrows 1 _ row h

end ChipConfig.Text
