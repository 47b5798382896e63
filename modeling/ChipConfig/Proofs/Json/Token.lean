import ChipConfig.Proofs.Json.Text

/-!
# Tokens are cut as they are written

A token is read up to its end wherever it stands.  Only a number needs to know what follows it: a
further digit, a point or an exponent would belong to it.  Neither punctuation nor the end of a text
does.
-/

namespace ChipConfig.Json

/-- Whether a text is made of decimal digits, at least one. -/
def IsDigits (digits : List Char) : Prop :=
  digits ≠ [] ∧ ∀ c ∈ digits, Token.isDigit c = true

/-- Whether a number can be written: it has digits wherever there have to be some, and starts with a
zero only if this is its only digit before the point. -/
structure Number.Writable (number : Number) : Prop where
  whole : IsDigits number.whole
  zero : ∀ rest, number.whole = '0' :: rest → rest = []
  fraction : ∀ digits, number.fraction = some digits → IsDigits digits
  exponent : ∀ exponent, number.exponent = some exponent → IsDigits exponent.digits

/-- Whether a number ends where this text begins. -/
def EndsNumber (rest : List Char) : Prop :=
  ∀ c, rest.head? = some c → Token.isDigit c = false ∧ c ≠ '.' ∧ c ≠ 'e' ∧ c ≠ 'E'

theorem endsNumber_nil : EndsNumber [] :=
  fun _ h ↦ nomatch h

/-- A number ends before punctuation. -/
theorem endsNumber_cons {c : Char} (hc : c ∈ [',', ':', ']', '\x7d']) (rest : List Char) :
    EndsNumber (c :: rest) := by
  intro first hfirst
  obtain rfl := Option.some.inj hfirst
  fin_cases hc <;> decide

namespace Number

def fractionChars : Option (List Char) → List Char
  | none => []
  | some digits => '.' :: digits

def exponentChars : Option Exponent → List Char
  | none => []
  | some exponent => 'e' :: (if exponent.negative then '-' else '+') :: exponent.digits

theorem head?_fractionChars_append {fraction : Option (List Char)} {rest : List Char} {c : Char}
    (h : (fractionChars fraction ++ rest).head? = some c) : c = '.' ∨ rest.head? = some c := by
  cases fraction with
  | none => exact .inr h
  | some digits => exact .inl (Option.some.inj h).symm

theorem head?_exponentChars_append {exponent : Option Exponent} {rest : List Char} {c : Char}
    (h : (exponentChars exponent ++ rest).head? = some c) : c = 'e' ∨ rest.head? = some c := by
  cases exponent with
  | none => exact .inr h
  | some exponent => exact .inl (Option.some.inj h).symm

theorem chars_eq (number : Number) :
    number.chars = (if number.negative then ['-'] else []) ++
      (number.whole ++ (fractionChars number.fraction ++ exponentChars number.exponent)) := by
  simp only [← List.append_assoc]
  rfl

theorem Writable.chars_ne_nil {number : Number} (h : number.Writable) : number.chars ≠ [] := by
  rw [chars_eq]
  exact List.append_ne_nil_of_right_ne_nil _ (List.append_ne_nil_of_left_ne_nil h.whole.1 _)

theorem writable_ofNat (n : Nat) : (ofNat n).Writable where
  whole := by
    refine ⟨Nat.toDigits_ne_nil, fun c hc ↦ ?_⟩
    obtain ⟨d, hd, rfl⟩ := Numeral.exists_digitChar_of_mem_toDigits (by decide) hc
    interval_cases d <;> rfl
  zero rest h := by
    by_cases hn : n = 0
    · subst hn
      exact (List.cons.inj h).2.symm
    · exact absurd h (Numeral.toDigits_ne_zero_cons (by decide) (by decide) hn rest)
  fraction _ h := nomatch h
  exponent _ h := nomatch h

end Number

namespace Token

variable {digits rest : List Char}

theorem scanDigits_append (h : ∀ c ∈ digits, isDigit c = true)
    (hrest : ∀ c, rest.head? = some c → isDigit c = false) :
    scanDigits (digits ++ rest) = (digits, rest) := by
  have hstop : rest.takeWhile isDigit = [] ∧ rest.dropWhile isDigit = rest := by
    cases rest with
    | nil => exact ⟨rfl, rfl⟩
    | cons c later => simp [hrest c rfl]
  rw [scanDigits, List.span_eq_takeWhile_dropWhile, List.takeWhile_append_of_pos h,
    List.dropWhile_append_of_pos h, hstop.1, hstop.2, List.append_nil]

theorem scanWhole?_append (h : IsDigits digits)
    (hzero : ∀ later, digits = '0' :: later → later = [])
    (hrest : ∀ c, rest.head? = some c → isDigit c = false) :
    scanWhole? (digits ++ rest) = some (digits, rest) := by
  rw [scanWhole?, scanDigits_append h.2 hrest]
  split
  · next hcut => exact absurd (congrArg Prod.fst hcut) h.1
  · next hcut =>
    obtain ⟨rfl, rfl⟩ := Prod.mk.inj hcut
    rfl
  · next hcut => exact absurd (hzero _ (congrArg Prod.fst hcut)) (List.cons_ne_nil _ _)
  · next hcut =>
    obtain ⟨rfl, rfl⟩ := Prod.mk.inj hcut
    rfl

theorem scanFraction?_append {fraction : Option (List Char)}
    (h : ∀ digits, fraction = some digits → IsDigits digits)
    (hrest : ∀ c, rest.head? = some c → isDigit c = false ∧ c ≠ '.') :
    scanFraction? (Number.fractionChars fraction ++ rest) = some (fraction, rest) := by
  cases fraction with
  | none =>
    change scanFraction? rest = _
    unfold scanFraction?
    split
    · exact absurd rfl (hrest _ rfl).2
    · rfl
  | some digits =>
    have hcut := scanDigits_append (h digits rfl).2 fun c hc ↦ (hrest c hc).1
    change scanFraction? ('.' :: (digits ++ rest)) = _
    rw [scanFraction?, hcut]
    split
    · next hnil => exact absurd (congrArg Prod.fst hnil) (h digits rfl).1
    · next hsome =>
      obtain ⟨rfl, rfl⟩ := Prod.mk.inj hsome
      rfl

theorem scanExponent?_append {exponent : Option Exponent}
    (h : ∀ e, exponent = some e → IsDigits e.digits) (hrest : EndsNumber rest) :
    scanExponent? (Number.exponentChars exponent ++ rest) = some (exponent, rest) := by
  cases exponent with
  | none =>
    change scanExponent? rest = _
    cases rest with
    | nil => rfl
    | cons c later =>
      obtain ⟨-, -, hlower, hupper⟩ := hrest c rfl
      exact if_neg (not_or.2 ⟨hlower, hupper⟩)
  | some exponent =>
    obtain ⟨negative, digits⟩ := exponent
    obtain ⟨hne, hdigits⟩ := h _ rfl
    have hcut : scanDigits (digits ++ rest) = (digits, rest) :=
      scanDigits_append hdigits fun c hc ↦ (hrest c hc).1
    obtain ⟨digit, later, rfl⟩ := List.exists_cons_of_ne_nil hne
    rw [List.cons_append] at hcut
    cases negative <;> simp [scanExponent?, Number.exponentChars, hcut]

theorem scanNumber?_append {number : Number} (h : number.Writable) (hrest : EndsNumber rest) :
    scanNumber? number.negative (number.whole ++
        (Number.fractionChars number.fraction ++ (Number.exponentChars number.exponent ++ rest))) =
      some (number, rest) := by
  have hexponent : ∀ c, (Number.exponentChars number.exponent ++ rest).head? = some c →
      isDigit c = false ∧ c ≠ '.' := by
    intro c hc
    rcases Number.head?_exponentChars_append hc with rfl | hfollows
    · decide
    · exact ⟨(hrest c hfollows).1, (hrest c hfollows).2.1⟩
  have hfraction : ∀ c, (Number.fractionChars number.fraction ++
      (Number.exponentChars number.exponent ++ rest)).head? = some c → isDigit c = false := by
    intro c hc
    rcases Number.head?_fractionChars_append hc with rfl | hfollows
    · decide
    · exact (hexponent c hfollows).1
  simp [scanNumber?, scanWhole?_append h.whole h.zero hfraction,
    scanFraction?_append h.fraction hexponent, scanExponent?_append h.exponent hrest]

theorem next?_of_isDigit {c : Char} (hc : isDigit c = true) (cs : List Char) :
    next? (c :: cs) = (scanNumber? false (c :: cs)).map fun read ↦ (number read.1, read.2) := by
  unfold next?
  -- a text that begins with a digit begins like no other token
  split <;> first | rfl | (next heq => cases heq; exact absurd hc (by decide))

theorem next?_number {number : Number} (h : number.Writable) (hrest : EndsNumber rest) :
    next? (number.chars ++ rest) = some (.number number, rest) := by
  have hscan := scanNumber?_append h hrest
  rw [Number.chars_eq, List.append_assoc, List.append_assoc, List.append_assoc]
  cases hnegative : number.negative with
  | true =>
    rw [hnegative] at hscan
    change (scanNumber? true (number.whole ++ (Number.fractionChars number.fraction ++
      (Number.exponentChars number.exponent ++ rest)))).map _ = _
    rw [hscan]
    rfl
  | false =>
    rw [hnegative] at hscan
    obtain ⟨hne, hdigits⟩ := h.whole
    obtain ⟨c, later, hwhole⟩ := List.exists_cons_of_ne_nil hne
    rw [hwhole] at hscan hdigits ⊢
    change next? (c :: (later ++ (Number.fractionChars number.fraction ++
      (Number.exponentChars number.exponent ++ rest)))) = _
    rw [next?_of_isDigit (hdigits c List.mem_cons_self)]
    exact congrArg _ hscan

theorem next?_text {written : Written} (h : written.Writable) (rest : List Char) :
    next? (written.chars ++ rest) = some (.text written, rest) := by
  have hchars : written.chars ++ rest = '"' :: (written.flatMap Piece.chars ++ '"' :: rest) := by
    simp [Written.chars]
  have hnext (cs : List Char) :
      next? ('"' :: cs) = (scanText? cs).map fun read ↦ (.text read.1, read.2) := rfl
  rw [hchars, hnext, scanText?_written h]
  rfl

/-- A token that a text begins with is the first of its tokens: no token begins with a blank. -/
theorem scanWithin_of_next? {cs : List Char} {token : Token} (h : next? cs = some (token, rest))
    (room : Nat) : scanWithin (room + 1) cs = (scanWithin room rest).map (token :: ·) := by
  cases cs with
  | nil => cases h
  | cons c later =>
    have hspace : isSpace c = false := by
      by_contra hspace
      simp only [isSpace, Bool.not_eq_false, Bool.or_eq_true, decide_eq_true_eq] at hspace
      rcases hspace with ((rfl | rfl) | rfl) | rfl <;> cases h
    rw [scanWithin, hspace, h]
    cases hrest : scanWithin room rest <;> simp [hrest]

/-- Whether a text is cut into tokens in front of everything that ends a number. -/
structure Scans (cs : List Char) (tokens : List Token) : Prop where
  length_le : tokens.length ≤ cs.length
  scanWithin_append : ∀ rest room, EndsNumber rest →
    scanWithin (tokens.length + room) (cs ++ rest) = (scanWithin room rest).map (tokens ++ ·)

theorem Scans.append {cs ds : List Char} {tokens others : List Token} (hcs : Scans cs tokens)
    (hds : Scans ds others) (hends : ∀ rest, EndsNumber rest → EndsNumber (ds ++ rest)) :
    Scans (cs ++ ds) (tokens ++ others) where
  length_le := by
    rw [List.length_append, List.length_append]
    exact Nat.add_le_add hcs.length_le hds.length_le
  scanWithin_append rest room hrest := by
    rw [List.length_append, List.append_assoc, Nat.add_assoc,
      hcs.scanWithin_append _ _ (hends rest hrest), hds.scanWithin_append _ _ hrest,
      Option.map_map]
    simp only [Function.comp_def, List.append_assoc]

theorem Scans.cons {c : Char} {token : Token} {cs : List Char} {tokens : List Token}
    (hcs : Scans cs tokens) (hnext : ∀ rest, next? (c :: rest) = some (token, rest)) :
    Scans (c :: cs) (token :: tokens) where
  length_le := Nat.succ_le_succ hcs.length_le
  scanWithin_append rest room hrest := by
    have hroom : (token :: tokens).length + room = tokens.length + room + 1 := by
      rw [List.length_cons]
      omega
    rw [hroom, List.cons_append, scanWithin_of_next? (hnext _), hcs.scanWithin_append _ _ hrest,
      Option.map_map]
    rfl

theorem scans_of_next? {cs : List Char} {token : Token} (hne : cs ≠ [])
    (h : ∀ rest, EndsNumber rest → next? (cs ++ rest) = some (token, rest)) :
    Scans cs [token] where
  length_le := List.length_pos_iff.2 hne
  scanWithin_append rest room hrest := by
    rw [List.length_singleton, Nat.add_comm, scanWithin_of_next? (h rest hrest)]
    rfl

/-- A text that is cut into tokens has these tokens. -/
theorem Scans.scan_eq {cs : List Char} {tokens : List Token} (h : Scans cs tokens) :
    scan cs = some tokens := by
  obtain ⟨room, hroom⟩ := Nat.exists_eq_add_of_le h.length_le
  have hscan := h.scanWithin_append [] room endsNumber_nil
  rw [List.append_nil, ← hroom] at hscan
  rw [scan, hscan]
  cases room <;> simp [scanWithin]

end Token

end ChipConfig.Json
