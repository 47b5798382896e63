import ChipConfig.Proofs.Listing.Lines

/-!
# What a listing is read as

A line that can be read is still unfit if its word is too wide or, under the policy that refuses
repetition, if its address has been named before.  A listing is read if no line is misread and none
is unfit, and an address then has the word of the last line that names it.  A listing that is not
read is refused for its first misread line, wherever that stands, and for its first unfit line only
if there is none.
-/

namespace ChipConfig.Listing

open Fallible

variable {addressRadix wordRadix : Radix} {width : Width} {policy : DuplicatePolicy} {number : Nat}
  {line : List Char} {lines : List (List Char)} {entries : List Entry}
  {words result : SortedMap Address Word} {error : ListingError} {address : Address} {word : Word}

/-- Whether a line gives an address a word that it must not give, with the error that says why.  A
word that is too wide comes before an address that is taken. -/
inductive Unfit (addressRadix wordRadix : Radix) (width : Width) (policy : DuplicatePolicy)
    (taken : Address → Prop) (number : Nat) (line : List Char) : ListingError → Prop
  | tooWide {address : Address} {word : Word}
      (hgives : Gives addressRadix wordRadix line address word) (hwide : ¬width.Fits word) :
      Unfit addressRadix wordRadix width policy taken number line
        (.bit number (.valueTooWide word width.bits))
  | repeated {address : Address} {word : Word} (hpolicy : policy = .reject)
      (hgives : Gives addressRadix wordRadix line address word) (hfits : width.Fits word)
      (htaken : taken address) :
      Unfit addressRadix wordRadix width policy taken number line (.duplicate number address)

/-- Whether some line gives an address a word. -/
def NamedIn (addressRadix wordRadix : Radix) (lines : List (List Char)) (address : Address) :
    Prop :=
  ∃ line ∈ lines, Names addressRadix wordRadix line address

@[simp]
theorem namedIn_cons :
    NamedIn addressRadix wordRadix (line :: lines) address ↔
      Names addressRadix wordRadix line address ∨ NamedIn addressRadix wordRadix lines address :=
  List.exists_mem_cons_iff _ _ _

@[simp]
theorem not_namedIn_nil : ¬NamedIn addressRadix wordRadix [] address :=
  fun ⟨_, h, _⟩ ↦ nomatch h

theorem not_unfit_of_blank {taken : Address → Prop} (h : Text.content line = []) :
    ¬Unfit addressRadix wordRadix width policy taken number line error := by
  intro hunfit
  cases hunfit with
  | tooWide hgives _ => exact not_gives_of_blank h hgives
  | repeated _ hgives _ _ => exact not_gives_of_blank h hgives

theorem exists_unfit_iff {taken : Address → Prop} :
    (∃ error, Unfit addressRadix wordRadix width policy taken number line error) ↔
      ∃ address word, Gives addressRadix wordRadix line address word ∧
        (¬width.Fits word ∨ policy = .reject ∧ taken address) := by
  constructor
  · rintro ⟨error, hunfit⟩
    cases hunfit with
    | tooWide hgives hwide => exact ⟨_, _, hgives, .inl hwide⟩
    | repeated hpolicy hgives _ htaken => exact ⟨_, _, hgives, .inr ⟨hpolicy, htaken⟩⟩
  · rintro ⟨address, word, hgives, hfault⟩
    by_cases hfits : width.Fits word
    · obtain ⟨hpolicy, htaken⟩ := hfault.resolve_left (not_not.2 hfits)
      exact ⟨_, .repeated hpolicy hgives hfits htaken⟩
    · exact ⟨_, .tooWide hgives hfits⟩

theorem add_eq_error_iff (h : Gives addressRadix wordRadix line address word) :
    add width policy words ⟨number, address, word⟩ = .error error ↔
      Unfit addressRadix wordRadix width policy (words.contains · = true) number line error := by
  constructor
  · intro hadd
    unfold add at hadd
    by_cases hfits : width.Fits word
    · rw [Width.check_eq_ok_iff.2 ⟨hfits, rfl⟩] at hadd
      simp only at hadd
      split at hadd
      · next htaken =>
        obtain rfl := Except.error.inj hadd
        exact .repeated htaken.1 h hfits htaken.2
      · cases hadd
    · rw [Width.check_eq_error_iff.2 ⟨hfits, rfl⟩] at hadd
      obtain rfl := Except.error.inj hadd
      exact .tooWide h hfits
  · intro hunfit
    cases hunfit with
    | tooWide hgives hwide =>
      obtain ⟨rfl, rfl⟩ := hgives.unique h
      simp only [add, Width.check_eq_error_iff.2 ⟨hwide, rfl⟩]
    | repeated hpolicy hgives hfits htaken =>
      obtain ⟨rfl, rfl⟩ := hgives.unique h
      simp only [add, Width.check_eq_ok_iff.2 ⟨hfits, rfl⟩, if_pos (And.intro hpolicy htaken)]

/-- Adding the words of lines that have been read fails for the first of them that is unfit.  An
address is taken from the start or by a line before. -/
theorem foldlM_add_eq_error_iff (h : Reads addressRadix wordRadix number lines entries) :
    entries.foldlM (add width policy) words = .error error ↔
      FirstFault (fun earlier ↦ Unfit addressRadix wordRadix width policy
        (fun a ↦ words.contains a = true ∨ NamedIn addressRadix wordRadix earlier a)
        (earlier.length + number)) lines error := by
  induction h generalizing words with
  | nil => exact iff_of_false (fun h ↦ nomatch h) not_firstFault_nil
  | @blank number line lines entries hline hrest ih =>
    rw [firstFault_cons_of_not fun _ ↦ not_unfit_of_blank hline]
    simp only [ih, number_cons, namedIn_cons, not_names_of_blank hline, false_or]
  | @entry number line lines entries address word hline hrest ih =>
    rw [List.foldlM_cons, firstFault_cons]
    refine bind_eq_error_iff_of_iff (fun cause ↦ ?_) fun after hadd ↦ ?_
    · simp [add_eq_error_iff hline]
    · -- The address of the line is taken from now on, whether by its word or by its name.
      obtain ⟨-, -, rfl⟩ := add_eq_ok_iff.1 hadd
      simp only [ih, number_cons, namedIn_cons, hline.names_iff, SortedMap.contains_insert,
        or_assoc, or_left_comm]

/-- Whether the last line that names an address gives it a word. -/
def LastGives (addressRadix wordRadix : Radix) (lines : List (List Char)) (address : Address)
    (word : Word) : Prop :=
  ∃ earlier line later, lines = earlier ++ line :: later ∧
    Gives addressRadix wordRadix line address word ∧
      ¬NamedIn addressRadix wordRadix later address

@[simp]
theorem not_lastGives_nil : ¬LastGives addressRadix wordRadix [] address word := by
  rintro ⟨earlier, line, later, h, -⟩
  exact List.append_ne_nil_of_right_ne_nil earlier (List.cons_ne_nil line later) h.symm

@[simp]
theorem lastGives_cons :
    LastGives addressRadix wordRadix (line :: lines) address word ↔
      LastGives addressRadix wordRadix lines address word ∨
        Gives addressRadix wordRadix line address word ∧
          ¬NamedIn addressRadix wordRadix lines address := by
  constructor
  · rintro ⟨earlier, other, later, hsplit, hgives, hlast⟩
    cases earlier with
    | nil =>
      obtain ⟨rfl, rfl⟩ := List.cons.inj hsplit
      exact .inr ⟨hgives, hlast⟩
    | cons head earlier =>
      exact .inl ⟨earlier, other, later, (List.cons.inj hsplit).2, hgives, hlast⟩
  · rintro (⟨earlier, other, later, rfl, hgives, hlast⟩ | ⟨hgives, hlast⟩)
    · exact ⟨line :: earlier, other, later, rfl, hgives, hlast⟩
    · exact ⟨[], line, lines, rfl, hgives, hlast⟩

/-- If an address is named at all, some line names it last. -/
theorem exists_lastGives_iff :
    (∃ word, LastGives addressRadix wordRadix lines address word) ↔
      NamedIn addressRadix wordRadix lines address := by
  induction lines with
  | nil => exact iff_of_false (fun ⟨_, h⟩ ↦ not_lastGives_nil h) not_namedIn_nil
  | cons line lines ih =>
    rw [namedIn_cons, ← ih]
    simp only [lastGives_cons, exists_or, exists_and_right, ih]
    by_cases hrest : NamedIn addressRadix wordRadix lines address
    · simp only [hrest, true_or, or_true]
    · simp only [hrest, not_false_eq_true, and_true, false_or, or_false]
      rfl

/-- The words of lines that have been read replace each other and those that were there. -/
theorem get?_foldlM_add (h : Reads addressRadix wordRadix number lines entries)
    (hrun : entries.foldlM (add width policy) words = .ok result) (address : Address)
    (word : Word) :
    result.get? address = some word ↔
      LastGives addressRadix wordRadix lines address word ∨
        ¬NamedIn addressRadix wordRadix lines address ∧ words.get? address = some word := by
  induction h generalizing words with
  | nil =>
    obtain rfl := pure_eq_ok_iff.1 hrun
    simp
  | blank hline hrest ih =>
    simp only [ih hrun, lastGives_cons, namedIn_cons, not_gives_of_blank hline,
      not_names_of_blank hline, false_and, or_false, false_or]
  | @entry number line lines entries register value hline hrest ih =>
    rw [List.foldlM_cons] at hrun
    obtain ⟨after, hadd, hrun⟩ := bind_eq_ok_iff.1 hrun
    obtain ⟨-, -, rfl⟩ := add_eq_ok_iff.1 hadd
    have hgives : Gives addressRadix wordRadix line address word ↔
        address = register ∧ word = value := by
      constructor
      · intro hother
        exact hother.unique hline
      · rintro ⟨rfl, rfl⟩
        exact hline
    rw [ih hrun, lastGives_cons, namedIn_cons, hline.names_iff, SortedMap.get?_insert, hgives]
    by_cases hregister : address = register
    · simp only [hregister, if_true, Option.some.injEq, true_and, true_or, not_true_eq_false,
        false_and, or_false, and_comm, eq_comm]
    · simp only [hregister, if_false, false_and, or_false, false_or]

/-! ## Loading a listing -/

/-- Whether no two lines name one address. -/
def NamedOnce (addressRadix wordRadix : Radix) (lines : List (List Char)) : Prop :=
  lines.Pairwise fun a b ↦ ∀ address, Names addressRadix wordRadix a address →
    ¬Names addressRadix wordRadix b address

theorem namedOnce_iff :
    NamedOnce addressRadix wordRadix lines ↔
      ∀ earlier line later, lines = earlier ++ line :: later → ∀ address,
        Names addressRadix wordRadix line address →
          ¬NamedIn addressRadix wordRadix earlier address := by
  constructor
  · rintro h earlier line later rfl address hline ⟨other, hother, hnames⟩
    exact (List.pairwise_append.1 h).2.2 other hother line List.mem_cons_self address hnames hline
  · intro h
    induction lines with
    | nil => exact .nil
    | cons line lines ih =>
      refine List.pairwise_cons.2 ⟨fun other hother address hline hnames ↦ ?_, ih ?_⟩
      · obtain ⟨earlier, later, rfl⟩ := List.append_of_mem hother
        exact h (line :: earlier) other later rfl address hnames (namedIn_cons.2 (.inl hline))
      · rintro earlier other later rfl address hnames hnamed
        exact h (line :: earlier) other later rfl address hnames (namedIn_cons.2 (.inr hnamed))

theorem not_firstFault_unfit_iff :
    (∀ error, ¬FirstFault (fun earlier ↦ Unfit addressRadix wordRadix width policy
        (NamedIn addressRadix wordRadix earlier) (earlier.length + number)) lines error) ↔
      (∀ line ∈ lines, ∀ address word, Gives addressRadix wordRadix line address word →
        width.Fits word) ∧
      (policy = .reject → NamedOnce addressRadix wordRadix lines) := by
  rw [← not_exists, exists_firstFault_iff, namedOnce_iff]
  simp only [exists_unfit_iff]
  constructor
  · refine fun h ↦ ⟨fun line hline address word hgives ↦ ?_, ?_⟩
    · obtain ⟨earlier, later, hsplit⟩ := List.append_of_mem hline
      by_contra hwide
      exact h ⟨earlier, line, later, hsplit, address, word, hgives, .inl hwide⟩
    · rintro hpolicy earlier line later hsplit address ⟨word, hgives⟩ hnamed
      exact h ⟨earlier, line, later, hsplit, address, word, hgives, .inr ⟨hpolicy, hnamed⟩⟩
  · rintro ⟨hfits, honce⟩ ⟨earlier, line, later, hsplit, address, word, hgives, hfault⟩
    have hline : line ∈ lines := by simp [hsplit]
    rcases hfault with hwide | ⟨hpolicy, hnamed⟩
    · exact hwide (hfits line hline address word hgives)
    · exact honce hpolicy earlier line later hsplit address ⟨word, hgives⟩ hnamed

section Load

variable {text : String}

/-- A listing that has been loaded was read line by line. -/
theorem exists_reads_of_load (h : load addressRadix wordRadix width policy text = .ok words) :
    ∃ entries, Reads addressRadix wordRadix 1 (Text.lines text.toList) entries ∧
      entries.foldlM (add width policy) ∅ = .ok words := by
  obtain ⟨entries, hentries, hrun⟩ := bind_eq_ok_iff.1 h
  exact ⟨entries, reads_of_mapM hentries, hrun⟩

theorem foldlM_add_empty_eq_error_iff
    (h : Reads addressRadix wordRadix number lines entries) :
    entries.foldlM (add width policy) ∅ = .error error ↔
      FirstFault (fun earlier ↦ Unfit addressRadix wordRadix width policy
        (NamedIn addressRadix wordRadix earlier) (earlier.length + number)) lines error := by
  have hempty (a : Address) : ¬(∅ : SortedMap Address Word).contains a = true :=
    SortedMap.not_contains_iff.2 rfl
  simp only [foldlM_add_eq_error_iff h, hempty, Bool.false_eq_true, false_or]

/-- A listing is refused for its first line that is misread, and if there is none, for its first
line that is unfit. -/
theorem load_eq_error_iff :
    load addressRadix wordRadix width policy text = .error error ↔
      FirstFault (fun earlier ↦ Misread addressRadix wordRadix (earlier.length + 1))
          (Text.lines text.toList) error ∨
        Readable addressRadix wordRadix (Text.lines text.toList) ∧
          FirstFault (fun earlier ↦ Unfit addressRadix wordRadix width policy
            (NamedIn addressRadix wordRadix earlier) (earlier.length + 1))
            (Text.lines text.toList) error := by
  have hreadable : Readable addressRadix wordRadix (Text.lines text.toList) ↔
      ∃ entries, parse addressRadix wordRadix text = .ok entries :=
    exists_mapM_rowsFrom_iff.symm
  rw [load, bind_eq_error_iff, hreadable, ← exists_and_right]
  refine or_congr mapM_rowsFrom_eq_error_iff <| exists_congr fun entries ↦
    and_congr_right fun hentries ↦ ?_
  exact foldlM_add_empty_eq_error_iff (reads_of_mapM hentries)

theorem load_ne_error_iff :
    (∀ error, load addressRadix wordRadix width policy text ≠ .error error) ↔
      Readable addressRadix wordRadix (Text.lines text.toList) ∧
        ∀ error, ¬FirstFault (fun earlier ↦ Unfit addressRadix wordRadix width policy
          (NamedIn addressRadix wordRadix earlier) (earlier.length + 1))
          (Text.lines text.toList) error := by
  constructor
  · intro h
    have hreadable : Readable addressRadix wordRadix (Text.lines text.toList) :=
      not_firstFault_misread_iff.1 fun error hfault ↦ h error (load_eq_error_iff.2 (.inl hfault))
    exact ⟨hreadable, fun error hfault ↦ h error (load_eq_error_iff.2 (.inr ⟨hreadable, hfault⟩))⟩
  · rintro ⟨hreadable, hfit⟩ error herror
    rcases load_eq_error_iff.1 herror with hfault | ⟨-, hfault⟩
    · exact not_firstFault_misread_iff.2 hreadable error hfault
    · exact hfit error hfault

/-- A listing is read if every line with content gives an address a word that fits, and no address
is repeated where that is refused. -/
theorem exists_load_iff :
    (∃ words, load addressRadix wordRadix width policy text = .ok words) ↔
      (∀ line ∈ Text.lines text.toList, Text.content line ≠ [] →
        ∃ address word, Gives addressRadix wordRadix line address word ∧ width.Fits word) ∧
      (policy = .reject → NamedOnce addressRadix wordRadix (Text.lines text.toList)) := by
  rw [exists_ok_iff, load_ne_error_iff, not_firstFault_unfit_iff, ← and_assoc]
  refine and_congr_left fun _ ↦ ?_
  constructor
  · rintro ⟨hreadable, hfits⟩ line hline hcontent
    obtain ⟨address, word, hgives⟩ := hreadable line hline hcontent
    exact ⟨address, word, hgives, hfits line hline address word hgives⟩
  · refine fun h ↦ ⟨fun line hline hcontent ↦ ?_, fun line hline address word hgives ↦ ?_⟩
    · obtain ⟨address, word, hgives, -⟩ := h line hline hcontent
      exact ⟨address, word, hgives⟩
    · obtain ⟨_, _, hother, hfits⟩ := h line hline fun hblank ↦ not_gives_of_blank hblank hgives
      rwa [(hgives.unique hother).2]

/-- What a listing gives an address is what the last line gives that names it. -/
theorem get?_of_load (h : load addressRadix wordRadix width policy text = .ok words)
    (address : Address) (word : Word) :
    words.get? address = some word ↔
      LastGives addressRadix wordRadix (Text.lines text.toList) address word := by
  obtain ⟨entries, hreads, hrun⟩ := exists_reads_of_load h
  simp [get?_foldlM_add hreads hrun]

theorem contains_of_load (h : load addressRadix wordRadix width policy text = .ok words)
    (address : Address) :
    words.contains address = true ↔
      NamedIn addressRadix wordRadix (Text.lines text.toList) address := by
  simp only [SortedMap.contains_eq_isSome, Option.isSome_iff_exists, get?_of_load h,
    exists_lastGives_iff]

/-- The policy decides whether a listing is read, not what it is read as. -/
theorem load_congr {a b : DuplicatePolicy} {wordsA wordsB : SortedMap Address Word}
    (ha : load addressRadix wordRadix width a text = .ok wordsA)
    (hb : load addressRadix wordRadix width b text = .ok wordsB) : wordsA = wordsB := by
  apply SortedMap.ext_get?
  intro address
  apply Option.ext
  intro word
  rw [get?_of_load ha, get?_of_load hb]

end Load

end ChipConfig.Listing
