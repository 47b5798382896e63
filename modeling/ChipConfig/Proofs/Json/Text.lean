import ChipConfig.Json.Value
import ChipConfig.Proofs.Text.Numeral

/-!
# Texts between quotes are read as they are written

Writing a text turns every character into a piece, and a piece into the character itself or into an
escape.  Reading what stands between the quotes gives the pieces back, and the pieces give the text
back.
-/

namespace ChipConfig.Json

namespace Written

theorem chars?_unit_of_lt {value : Nat} (h : value < 0xd800) (rest : Written) :
    chars? (.unit value :: rest) = (chars? rest).map (Char.ofNat value :: ·) := by
  have hunit : value < 0xd800 ∨ 0xdfff < value := .inl h
  cases rest with
  | nil => simp [chars?, hunit]
  | cons piece later =>
    cases piece with
    | char c => simp [chars?, hunit]
    | unit low => simp [chars?, hunit]

@[simp]
theorem chars?_map_pieceOf (cs : List Char) : chars? (cs.map pieceOf) = some cs := by
  induction cs with
  | nil => rfl
  | cons c cs ih =>
    rw [List.map_cons, pieceOf]
    split
    · next h =>
      have hlt : c.toNat < 0xd800 := by
        have hspace : c.toNat < ' '.toNat := h.1
        exact hspace.trans (by decide)
      rw [chars?_unit_of_lt hlt, ih, Char.ofNat_toNat]
      rfl
    · rw [chars?, ih]
      rfl

/-- The pieces that a text is written as are those of that text. -/
@[simp]
theorem text?_ofText (text : String) : (ofText text).text? = some text := by
  rw [text?, ofText, chars?_map_pieceOf, Option.map_some, String.ofList_toList]

end Written

/-- Whether a piece can be written: a character that is no control without a short escape, or a unit
of four hexadecimal digits. -/
def Piece.Writable : Piece → Prop
  | char c => ' ' ≤ c ∨ ∃ letter, Written.escapeLetter? c = some letter
  | unit value => value < 16 ^ 4

theorem Written.writable_pieceOf (c : Char) : (pieceOf c).Writable := by
  unfold pieceOf
  split
  · next h =>
    have hlt : c.toNat < ' '.toNat := h.1
    exact hlt.trans (by decide)
  · next h =>
    by_cases hspace : ' ' ≤ c
    · exact .inl hspace
    · have hescaped : c = '\x08' ∨ c = '\x0c' ∨ c = '\n' ∨ c = '\r' ∨ c = '\t' := by
        by_contra hnone
        simp only [not_or] at hnone
        exact h ⟨Char.not_le.1 hspace, hnone⟩
      rcases hescaped with rfl | rfl | rfl | rfl | rfl <;> exact .inr ⟨_, rfl⟩

def Written.Writable (written : Written) : Prop :=
  ∀ piece ∈ written, piece.Writable

theorem Written.writable_ofText (text : String) : (ofText text).Writable :=
  List.forall_mem_map.2 fun c _ ↦ writable_pieceOf c

/-- A short escape stands for its character, and its letter is not the one of a unit. -/
theorem Written.escaped?_of_escapeLetter? {c letter : Char}
    (h : escapeLetter? c = some letter) : escaped? letter = some c ∧ letter ≠ 'u' := by
  unfold escapeLetter? at h
  split at h <;> cases h <;> decide

theorem Written.ne_of_escapeLetter?_eq_none {c : Char} (h : escapeLetter? c = none) :
    c ≠ '"' ∧ c ≠ '\\' := by
  constructor
  · rintro rfl
    cases h
  · rintro rfl
    cases h

theorem length_unitChars {value : Nat} (h : value < 16 ^ 4) : (unitChars value).length = 4 := by
  have hle : (Nat.toDigits 16 value).length ≤ 4 :=
    (Nat.length_toDigits_le_iff (by decide) (by decide)).2 h
  rw [unitChars, List.length_append, List.length_replicate]
  exact Nat.sub_add_cancel hle

namespace Token

@[simp]
theorem unit?_unitChars (value : Nat) : unit? (unitChars value) = some value := by
  have hne : unitChars value ≠ [] :=
    List.append_ne_nil_of_right_ne_nil _ Nat.toDigits_ne_nil
  have hdigits : unit? (unitChars value) = Numeral.valueFrom? 16 0 (unitChars value) := by
    unfold unit? Numeral.digits?
    split
    · next h => exact absurd h hne
    · rfl
  rw [hdigits, unitChars, Numeral.valueFrom?_zeros (by decide),
    Numeral.valueFrom?_toDigits (by decide) (by decide)]

variable {written : Written} {rest : List Char}

theorem scanText?_char {c : Char} (hc : ' ' ≤ c) (hquote : c ≠ '"') (hescape : c ≠ '\\')
    (rest : List Char) :
    scanText? (c :: rest) = (scanText? rest).map fun read ↦ (.char c :: read.1, read.2) := by
  have hplain : ¬(c < ' ' ∨ c = '\\') := not_or.2 ⟨Char.not_lt.2 hc, hescape⟩
  rw [scanText?, if_neg hplain]
  · cases scanText? rest <;> rfl
  · exact hquote
  · exact fun _ _ _ _ _ h ↦ absurd h hescape
  · exact fun _ _ h ↦ absurd h hescape

/-- A piece is read in front of what follows it. -/
theorem scanText?_piece {piece : Piece} (h : piece.Writable) (rest : List Char) :
    scanText? (piece.chars ++ rest) =
      (scanText? rest).map fun read ↦ (piece :: read.1, read.2) := by
  cases piece with
  | unit value =>
    obtain ⟨a, b, c, d, hdigits⟩ : ∃ a b c d, unitChars value = [a, b, c, d] := by
      have hlength := length_unitChars h
      exact List.length_eq_four.1 hlength
    have hunit := unit?_unitChars value
    rw [hdigits] at hunit
    rw [Piece.chars, hdigits]
    change scanText? ('\\' :: 'u' :: a :: b :: c :: d :: rest) = _
    rw [scanText?, hunit]
    cases scanText? rest <;> rfl
  | char c =>
    rw [Piece.chars]
    cases hescape : Written.escapeLetter? c with
    | some letter =>
      obtain ⟨hescaped, hne⟩ := Written.escaped?_of_escapeLetter? hescape
      change scanText? ('\\' :: letter :: rest) = _
      rw [scanText?, hescaped]
      · cases scanText? rest <;> rfl
      · exact fun _ _ _ _ _ h ↦ absurd h hne
    | none =>
      obtain ⟨hquote, hslash⟩ := Written.ne_of_escapeLetter?_eq_none hescape
      have hc : ' ' ≤ c := h.resolve_right fun hletter ↦ by simp [hescape] at hletter
      exact scanText?_char hc hquote hslash rest

/-- A text is read up to its closing quote. -/
theorem scanText?_written (h : written.Writable) (rest : List Char) :
    scanText? (written.flatMap Piece.chars ++ '"' :: rest) = some (written, rest) := by
  induction written with
  | nil => rfl
  | cons piece later ih =>
    obtain ⟨hpiece, hlater⟩ := List.forall_mem_cons.1 h
    rw [List.flatMap_cons, List.append_assoc, scanText?_piece hpiece, ih hlater]
    rfl

end Token

end ChipConfig.Json
