import ChipConfig.Proofs.BitMap.Order
import ChipConfig.Proofs.BitSource
import ChipConfig.Proofs.Document.BitMap

/-!
# Tables and documents of bit maps

A bit map can be read from a table, where a word is a line of text, and from a document, where it is
an address with a list of tokens.  However different the two readers are, both describe the same
words one after the other by the same tokens, so they give the same map or fail for the same reason.
A map that is printed as a table is read back from it.
-/

namespace ChipConfig

open Fallible (FailsOnly)

/-- Whether an error says that a row has not even an address. -/
def BitMapError.isMalformed : BitMapError → Bool
  | malformed _ _ => true
  | _ => false

/-- Whether an error is about something that a row or a list of tokens says. -/
def BitMapError.BlamesWord (cause : BitMapError) : Prop :=
  cause.isMalformed = false

namespace BitMap

theorem failsOnly_reserve (address : Address) (position : Nat)
    (references : SortedMap RegisterBit Unit) (sources : List BitSource) :
    FailsOnly BitMapError.BlamesWord (reserve address position references sources) := by
  induction sources generalizing position references with
  | nil => exact .ok _
  | cons source sources ih =>
    cases source with
    | constant value => exact ih _ _
    | ignored => exact ih _ _
    | register place =>
      rw [reserve]
      split
      · exact .error rfl
      · exact ih _ _

theorem failsOnly_insert (map : BitMap) (address : Address) (sources : List BitSource) :
    FailsOnly BitMapError.BlamesWord (map.insert address sources) := by
  unfold insert
  refine .guard rfl ?_
  refine .guard rfl ?_
  exact .bind (failsOnly_reserve _ _ _ _) fun _ ↦ .ok _

theorem failsOnly_sourcesOf (address : Address) (position : Nat) (tokens : List String) :
    FailsOnly BitMapError.BlamesWord (sourcesOf address position tokens) := by
  induction tokens generalizing position with
  | nil => exact .ok _
  | cons token tokens ih =>
    rw [sourcesOf]
    split
    · exact .error rfl
    · exact .bind (ih _) fun _ ↦ .ok _

theorem failsOnly_insertRow (map : BitMap) {row : Text.Row} (h : row.words ≠ []) :
    FailsOnly BitMapError.BlamesWord (map.insertRow row) := by
  unfold insertRow
  split
  · next hnil => exact absurd hnil h
  · split
    · exact .error rfl
    · exact .bind (failsOnly_sourcesOf _ _ _) fun _ ↦ failsOnly_insert _ _ _

/-- Every row of a table has an address: a line without words is no row. -/
theorem parse_ne_malformed (text : String) (width : Width) (line : Nat) (row : String) :
    parse text width ≠ .error (.malformed line row) := by
  intro h
  have hblames : (BitMapError.malformed line row).BlamesWord :=
    FailsOnly.foldlM (fun map _ hrow ↦ failsOnly_insertRow map (Text.words_ne_nil_of_mem_rows hrow))
      (empty width) _ h
  cases hblames

variable {width : Width} {entries : List (Address × List String)}

/-- Describes words by their tokens, one after the other, up to the first one that is refused. -/
def insertAllTokens (map : BitMap) (entries : List (Address × List String)) :
    Except BitMapError BitMap :=
  entries.foldlM (fun map entry ↦ map.insertTokens entry.1 entry.2) map

/-- A line of a table: the address in decimal, and the tokens with one space between them. -/
def lineChars (entry : Address × List String) : List Char :=
  Numeral.decimalChars entry.1.toNat ++ ' ' :: Text.joined (entry.2.map String.toList)

def table (entries : List (Address × List String)) : String :=
  String.ofList ((entries.map lineChars).flatMap (· ++ ['\n']))

def lineWords (entry : Address × List String) : List (List Char) :=
  Numeral.decimalChars entry.1.toNat :: entry.2.map String.toList

/-- Whether the tokens of all words can stand in a table. -/
def Tabular (entries : List (Address × List String)) : Prop :=
  ∀ entry ∈ entries, ∀ token ∈ entry.2, Text.IsWord token.toList

theorem isWord_of_mem_lineWords {entry : Address × List String}
    (h : ∀ token ∈ entry.2, Text.IsWord token.toList) :
    ∀ word ∈ lineWords entry, Text.IsWord word :=
  List.forall_mem_cons.2 ⟨Listing.isWord_decimalChars _, List.forall_mem_map.2 h⟩

/-- A line has a space behind the address even if there are no tokens. -/
theorem lineChars_eq (entry : Address × List String) :
    lineChars entry = Text.joined (lineWords entry) ∨
      lineChars entry = Text.joined (lineWords entry) ++ [' '] := by
  obtain ⟨address, tokens⟩ := entry
  cases tokens with
  | nil => exact .inr (by simp [lineChars, lineWords, Text.joined])
  | cons token tokens => exact .inl (by simp [lineChars, lineWords, Text.joined])

theorem content_lineChars {entry : Address × List String}
    (h : ∀ token ∈ entry.2, Text.IsWord token.toList) :
    Text.content (lineChars entry) = Text.joined (lineWords entry) := by
  refine Text.content_of_padded (isWord_of_mem_lineWords h) ?_
  rcases lineChars_eq entry with hline | hline
  · rw [hline]
    exact Text.padded_refl _
  · rw [hline]
    exact ⟨[], [' '], List.forall_mem_nil _, List.forall_mem_singleton.2 rfl, rfl⟩

theorem not_lineEnd_of_mem_lineChars {entry : Address × List String}
    (h : ∀ token ∈ entry.2, Text.IsWord token.toList) {c : Char} (hc : c ∈ lineChars entry) :
    c ≠ '\n' ∧ c ≠ '\r' := by
  have hwords := isWord_of_mem_lineWords h
  rcases lineChars_eq entry with hline | hline
  · rw [hline] at hc
    exact Text.not_lineEnd_of_mem_joined hwords hc
  · rw [hline] at hc
    rcases List.mem_append.1 hc with hmem | hspace
    · exact Text.not_lineEnd_of_mem_joined hwords hmem
    · rw [List.mem_singleton.1 hspace]
      decide

/-- A row with the words of a line describes the word of that line. -/
@[simp]
theorem insertRow_lineWords (map : BitMap) (number : Nat) (text : String)
    (entry : Address × List String) :
    map.insertRow ⟨number, text, lineWords entry⟩ = map.insertTokens entry.1 entry.2 := by
  have haddress : address? (Numeral.decimalChars entry.1.toNat) = some entry.1 :=
    Listing.address?_of_word? (Numeral.word?_decimalChars (entry.1.toNat_lt_size.trans (by decide)))
  have htokens : (entry.2.map String.toList).map String.ofList = entry.2 := by
    simp
  rw [insertRow, lineWords]
  simp only [haddress, htokens]

/-- Reading a table describes its words by their tokens. -/
theorem parse_table (h : Tabular entries) :
    parse (table entries) width = (empty width).insertAllTokens entries := by
  have hlines : ∀ line ∈ entries.map lineChars,
      Text.content line ≠ [] ∧ ∀ c ∈ line, c ≠ '\n' ∧ c ≠ '\r' := by
    refine List.forall_mem_map.2 fun entry hentry ↦ ⟨?_, fun c hc ↦ ?_⟩
    · rw [content_lineChars (h entry hentry)]
      exact Text.joined_ne_nil (List.cons_ne_nil _ _) (isWord_of_mem_lineWords (h entry hentry))
    · exact not_lineEnd_of_mem_lineChars (h entry hentry) hc
  have hrun (number : Nat) (map : BitMap) :
      (((entries.map lineChars).zipIdx number).map fun line ↦ (⟨line.2, String.ofList line.1,
        Text.words (Text.content line.1)⟩ : Text.Row)).foldlM insertRow map =
          map.insertAllTokens entries := by
    clear hlines
    induction entries generalizing number map with
    | nil => rfl
    | cons entry rest ih =>
      obtain ⟨hentry, hrest⟩ := List.forall_mem_cons.1 h
      have hwords : Text.words (Text.content (lineChars entry)) = lineWords entry := by
        rw [content_lineChars hentry, Text.words_joined (isWord_of_mem_lineWords hentry)]
      rw [List.map_cons, List.zipIdx_cons, List.map_cons, List.foldlM_cons, hwords,
        insertRow_lineWords, insertAllTokens, List.foldlM_cons]
      exact bind_congr fun next ↦ ih hrest (number + 1) next
  rw [parse, table, Text.rows_flatMap hlines, hrun]

/-! ## Documents -/

def document (width : Width) (entries : List (Address × List String)) : BitMapDoc :=
  ⟨UInt32.ofNat width.bits, entries.map fun entry ↦ ⟨entry.1, entry.2⟩⟩

@[simp]
theorem ofBits_bits (width : Width) : Width.ofBits width.bits = .ok width :=
  dif_pos ⟨width.one_le, width.le_max⟩

/-- Reading a document describes its words by their tokens. -/
theorem parseDocument_of_parse? {text : String}
    (h : BitMapDoc.parse? text = some (document width entries)) :
    parseDocument text = (empty width).insertAllTokens entries := by
  have hwidth : (document width entries).width.toNat = width.bits := by
    have hsize : 64 < UInt32.size := by decide
    exact UInt32.toNat_ofNat_of_lt' (width.le_max.trans_lt hsize)
  rw [parseDocument, h]
  change BitMapDoc.toBitMap (document width entries) = _
  rw [BitMapDoc.toBitMap, hwidth, ofBits_bits]
  exact List.foldlM_map

def tokensOf (entries : List (Address × List BitSource)) : List (Address × List String) :=
  entries.map fun entry ↦ (entry.1, entry.2.map BitSource.token)

@[simp]
theorem sourcesOf_map_token (address : Address) (position : Nat) (sources : List BitSource) :
    sourcesOf address position (sources.map BitSource.token) = .ok sources := by
  induction sources generalizing position with
  | nil => rfl
  | cons source sources ih =>
    rw [List.map_cons, sourcesOf]
    simp only [BitSource.ofToken?_token, ih]
    rfl

/-- Describing words by the tokens of their sources describes them by their sources. -/
@[simp]
theorem insertAllTokens_tokensOf (map : BitMap) (entries : List (Address × List BitSource)) :
    map.insertAllTokens (tokensOf entries) = map.insertAll entries := by
  have hstep (map : BitMap) (entry : Address × List BitSource) :
      map.insertTokens entry.1 (entry.2.map BitSource.token) = map.insert entry.1 entry.2 := by
    rw [insertTokens, sourcesOf_map_token]
    rfl
  rw [insertAllTokens, tokensOf, List.foldlM_map]
  simp only [hstep]
  rfl

theorem tabular_tokensOf (entries : List (Address × List BitSource)) :
    Tabular (tokensOf entries) := by
  refine List.forall_mem_map.2 fun entry _ ↦ List.forall_mem_map.2 fun source _ ↦ ?_
  rw [BitSource.token, String.toList_ofList]
  exact source.isWord_tokenChars

/-- A well-formed map is printed as the table of its words. -/
theorem WellFormed.text_eq_table {map : BitMap} (hmap : map.WellFormed) :
    map.text = table (tokensOf map.toList) := by
  have hrow : ∀ entry ∈ map.toList, rowChars entry =
      lineChars (entry.1, entry.2.map BitSource.token) ++ ['\n'] := by
    intro entry hentry
    have hlength := hmap.length_eq entry hentry
    have hpos := map.width.one_le
    obtain ⟨address, sources⟩ := entry
    cases sources with
    | nil =>
      rw [← hlength] at hpos
      cases hpos
    | cons source sources =>
      simp [rowChars, lineChars, Text.joined, BitSource.token, List.flatMap_map]
  rw [text, table, tokensOf, List.map_map, List.flatMap_map]
  exact congrArg String.ofList (List.flatMap_congr hrow)

/-- A map that the library hands out is read back from the table that it is printed as. -/
theorem Reachable.parse_text {map : BitMap} (h : map.Reachable) :
    parse map.text map.width = .ok map := by
  rw [h.wellFormed.text_eq_table, parse_table (tabular_tokensOf _), insertAllTokens_tokensOf]
  exact h.wellFormed.insertAll_toList

/-- Tables and documents are two ways to write the same map, and a map is read back from its own
table. -/
theorem loaders_agree :
    (∀ width entries, Tabular entries →
      BitMapDoc.parse? (document width entries).render = some (document width entries) ∧
      ∀ text, BitMapDoc.parse? text = some (document width entries) →
        parse (table entries) width = parseDocument text) ∧
    (∀ map : BitMap, map.Reachable → parse map.text map.width = .ok map) ∧
    ∀ text width line row, parse text width ≠ .error (.malformed line row) := by
  refine ⟨fun width entries htabular ↦ ⟨?_, fun text htext ↦ ?_⟩, fun map h ↦ h.parse_text,
    parse_ne_malformed⟩
  · exact (document width entries).parse?_render
  · rw [parse_table htabular, parseDocument_of_parse? htext]

def sampleLines : List (Address × List String) :=
  [(0, ["1", "0", "R3[9]", "R3[10]"]), (1, ["X", "R0[4]", "0", "1"])]

/-- The last word shows a register bit that the first one shows already. -/
def repeatedLines : List (Address × List String) :=
  sampleLines ++ [(2, ["R3[9]", "X", "X", "X"])]

theorem loaders_agree_sample :
    parse (table sampleLines) sample.width = .ok sample ∧
      parseDocument (document sample.width sampleLines).render = .ok sample ∧
      parse sample.text sample.width = .ok sample ∧
      ∃ cause, parse (table repeatedLines) sample.width = .error cause ∧
        parseDocument (document sample.width repeatedLines).render = .error cause := by
  obtain ⟨hloaders, htext, -⟩ := loaders_agree
  have hrepeated : Tabular repeatedLines := by
    simp [Tabular, repeatedLines, sampleLines, Text.IsWord, Text.isBlank]
  have hsample : Tabular sampleLines :=
    fun entry hentry ↦ hrepeated entry (List.mem_append_left _ hentry)
  obtain ⟨hread, hsame⟩ := hloaders sample.width sampleLines hsample
  obtain ⟨hreadRepeated, hsameRepeated⟩ := hloaders sample.width repeatedLines hrepeated
  have hok : parse (table sampleLines) sample.width = .ok sample := by decide +kernel
  have herror : parse (table repeatedLines) sample.width =
      .error (.duplicateReference 2 0 ⟨3, 9⟩) := by decide +kernel
  exact ⟨hok, (hsame _ hread).symm.trans hok, htext sample reachable_sample, _, herror,
    (hsameRepeated _ hreadRepeated).symm.trans herror⟩

end BitMap

end ChipConfig
