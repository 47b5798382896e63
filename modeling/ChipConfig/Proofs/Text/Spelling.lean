import ChipConfig.Proofs.Text.Numeral

/-!
# How a number is spelled

A number has many spellings: zeros may stand in front of its digits, its letters may be small or
capital, and a plus sign may come before all of it.  A numeral is read as a number if and only if it
is one of the spellings of this number.
-/

namespace ChipConfig

namespace Text

/-- Whether two texts differ at most in the case of their letters `A` to `Z`. -/
def SameLetters (cs ds : List Char) : Prop :=
  cs.map Char.toLower = ds.map Char.toLower

theorem sameLetters_refl (cs : List Char) : SameLetters cs cs :=
  rfl

theorem SameLetters.ne_nil {cs ds : List Char} (h : SameLetters cs ds) (hds : ds ≠ []) :
    cs ≠ [] := by
  rintro rfl
  exact hds (List.map_eq_nil_iff.1 h.symm)

theorem toNat_toLower (c : Char) :
    c.toLower.toNat =
      if 'A'.toNat ≤ c.toNat ∧ c.toNat ≤ 'Z'.toNat then c.toNat + 32 else c.toNat := by
  unfold Char.toLower
  split
  · next h =>
    have hlower : 65 ≤ c.toNat := h.1
    have hupper : c.toNat ≤ 90 := h.2
    rw [if_pos ⟨hlower, hupper⟩]
    change (c.val + 32).toNat = c.toNat + 32
    rw [UInt32.toNat_add]
    change (c.toNat + 32) % _ = c.toNat + 32
    omega
  · next h => exact (if_neg h).symm

@[simp]
theorem isBlank_toLower (c : Char) : isBlank c.toLower = isBlank c := by
  simp only [isBlank, toNat_toLower]
  grind

end Text

namespace Numeral

variable {base n : Nat} {cs : List Char}

theorem toNat_digitChar {d : Nat} (hd : d < 16) :
    (Nat.digitChar d).toNat = if d < 10 then 48 + d else 87 + d := by
  interval_cases d <;> rfl

theorem toLower_digitChar {d : Nat} (hd : d < 16) :
    (Nat.digitChar d).toLower = Nat.digitChar d := by
  interval_cases d <;> rfl

@[simp]
theorem digitValue?_toLower (c : Char) : digitValue? c.toLower = digitValue? c := by
  have hle (a b : Char) : a ≤ b ↔ a.toNat ≤ b.toNat := Iff.rfl
  simp only [digitValue?, hle, Text.toNat_toLower]
  grind

theorem toLower_eq_of_digitValue? {c : Char} {d : Nat} (h : digitValue? c = some d)
    (hd : d < 16) : c.toLower = Nat.digitChar d := by
  have hle (a b : Char) : a ≤ b ↔ a.toNat ≤ b.toNat := Iff.rfl
  apply Char.toNat_inj.1
  rw [Text.toNat_toLower, toNat_digitChar hd]
  simp only [digitValue?, hle] at h
  grind

/-- A digit of a radix is a digit that is written in it, or the capital of one. -/
theorem digit?_eq_some_iff (hbase : base ≤ 16) {c : Char} {d : Nat} :
    digit? base c = some d ↔ d < base ∧ c.toLower = Nat.digitChar d := by
  rw [digit?, Option.filter_eq_some_iff, decide_eq_true_eq, and_comm]
  refine and_congr_right fun hd ↦ ⟨fun h ↦ toLower_eq_of_digitValue? h (hd.trans_le hbase), ?_⟩
  intro h
  rw [← digitValue?_toLower, h]
  exact digitValue?_digitChar (hd.trans_le hbase)

@[simp]
theorem valueFrom?_map_toLower (start : Nat) (cs : List Char) :
    valueFrom? base start (cs.map Char.toLower) = valueFrom? base start cs := by
  induction cs generalizing start with
  | nil => rfl
  | cons c cs ih =>
    rw [List.map_cons, valueFrom?, valueFrom?, digit?, digitValue?_toLower]
    exact bind_congr fun d ↦ ih _

/-- Whether digits spell a number: zeros, and then its own digits with letters of either case. -/
def Spells (base n : Nat) (digits : List Char) : Prop :=
  ∃ zeros, Text.SameLetters digits (List.replicate zeros '0' ++ Nat.toDigits base n)

/-- Whether a text is a numeral of a number: digits that spell it, perhaps after a plus sign. -/
def IsNumeral (base n : Nat) (cs : List Char) : Prop :=
  ∃ digits, Spells base n digits ∧ (cs = digits ∨ cs = '+' :: digits)

theorem spells_toDigits (base n : Nat) : Spells base n (Nat.toDigits base n) :=
  ⟨0, Text.sameLetters_refl _⟩

theorem isNumeral_toDigits (base n : Nat) : IsNumeral base n (Nat.toDigits base n) :=
  ⟨_, spells_toDigits base n, .inl rfl⟩

theorem map_toLower_zeros_append_toDigits (hone : 1 < base) (hbase : base ≤ 16) (zeros n : Nat) :
    (List.replicate zeros '0' ++ Nat.toDigits base n).map Char.toLower =
      List.replicate zeros '0' ++ Nat.toDigits base n := by
  refine (List.map_congr_left fun c hc ↦ ?_).trans (List.map_id _)
  obtain ⟨d, hd, rfl⟩ := isHex_zeros_append zeros (isHex_toDigits hone hbase n) c hc
  exact toLower_digitChar hd

theorem spells_iff (hone : 1 < base) (hbase : base ≤ 16) :
    Spells base n cs ↔
      ∃ zeros, cs.map Char.toLower = List.replicate zeros '0' ++ Nat.toDigits base n := by
  simp only [Spells, Text.SameLetters, map_toLower_zeros_append_toDigits hone hbase]

/-- Digits that go on with a number that is not zero are the further digits of the result. -/
theorem toDigits_append_of_valueFrom? (hone : 1 < base) (hbase : base ≤ 16) {start : Nat}
    (hstart : 0 < start) (h : valueFrom? base start cs = some n) :
    Nat.toDigits base start ++ cs.map Char.toLower = Nat.toDigits base n := by
  induction cs generalizing start with
  | nil =>
    obtain rfl := Option.some.inj h
    exact List.append_nil _
  | cons c cs ih =>
    obtain ⟨d, hdigit, hrest⟩ := Option.bind_eq_some_iff.1 h
    obtain ⟨hd, hc⟩ := (digit?_eq_some_iff hbase).1 hdigit
    have hnext : 0 < start * base + d := by positivity
    have hstep : Nat.toDigits base start ++ [c.toLower] = Nat.toDigits base (start * base + d) := by
      rw [hc, ← Nat.toDigits_of_lt_base hd, Nat.toDigits_append_toDigits hone hstart hd,
        Nat.mul_comm]
    calc Nat.toDigits base start ++ (c :: cs).map Char.toLower
        = (Nat.toDigits base start ++ [c.toLower]) ++ cs.map Char.toLower := by simp
      _ = Nat.toDigits base (start * base + d) ++ cs.map Char.toLower := by rw [hstep]
      _ = Nat.toDigits base n := ih hnext hrest

theorem spells_of_valueFrom? (hone : 1 < base) (hbase : base ≤ 16) (hne : cs ≠ [])
    (h : valueFrom? base 0 cs = some n) : Spells base n cs := by
  rw [spells_iff hone hbase]
  induction cs with
  | nil => exact absurd rfl hne
  | cons c cs ih =>
    obtain ⟨d, hdigit, hrest⟩ := Option.bind_eq_some_iff.1 h
    obtain ⟨hd, hc⟩ := (digit?_eq_some_iff hbase).1 hdigit
    rw [Nat.zero_mul, Nat.zero_add] at hrest
    have hfirst : [c.toLower] = Nat.toDigits base d := by
      rw [hc, Nat.toDigits_of_lt_base hd]
    rcases Nat.eq_zero_or_pos d with rfl | hpos
    · cases cs with
      | nil =>
        obtain rfl := Option.some.inj hrest
        exact ⟨0, hfirst⟩
      | cons next later =>
        -- a zero in front of further digits is one zero more
        obtain ⟨zeros, hzeros⟩ := ih (List.cons_ne_nil _ _) hrest
        refine ⟨zeros + 1, ?_⟩
        rw [List.map_cons, hzeros, hc]
        rfl
    · refine ⟨0, ?_⟩
      calc (c :: cs).map Char.toLower
          = Nat.toDigits base d ++ cs.map Char.toLower := by rw [← hfirst]; rfl
        _ = Nat.toDigits base n := toDigits_append_of_valueFrom? hone hbase hpos hrest

/-- Digits have the value that they spell. -/
theorem digits?_eq_some_iff (hone : 1 < base) (hbase : base ≤ 16) :
    digits? base cs = some n ↔ Spells base n cs := by
  have hdigits (hne : cs ≠ []) : digits? base cs = valueFrom? base 0 cs := by
    cases cs with
    | nil => exact absurd rfl hne
    | cons c cs => rfl
  constructor
  · intro h
    have hne : cs ≠ [] := by
      rintro rfl
      cases h
    exact spells_of_valueFrom? hone hbase hne ((hdigits hne).symm.trans h)
  · intro h
    have hne : cs ≠ [] := by
      obtain ⟨zeros, hzeros⟩ := h
      exact hzeros.ne_nil (List.append_ne_nil_of_right_ne_nil _ Nat.toDigits_ne_nil)
    obtain ⟨zeros, hzeros⟩ := (spells_iff hone hbase).1 h
    rw [hdigits hne, ← valueFrom?_map_toLower, hzeros, valueFrom?_zeros (by omega)]
    exact valueFrom?_toDigits hone hbase n

theorem natural?_eq_some_iff (hone : 1 < base) (hbase : base ≤ 16) :
    natural? base cs = some n ↔ IsNumeral base n cs := by
  have hsign (digits : List Char) : ¬Spells base n ('+' :: digits) := by
    rw [← digits?_eq_some_iff hone hbase]
    exact fun h ↦ nomatch h
  unfold natural?
  split
  · next digits =>
    rw [digits?_eq_some_iff hone hbase]
    constructor
    · exact fun h ↦ ⟨digits, h, .inr rfl⟩
    · rintro ⟨spelled, h, rfl | hcons⟩
      · exact absurd h (hsign digits)
      · rwa [(List.cons.inj hcons).2]
  · next hplain =>
    rw [digits?_eq_some_iff hone hbase]
    constructor
    · exact fun h ↦ ⟨cs, h, .inl rfl⟩
    · rintro ⟨spelled, h, rfl | hcons⟩
      · exact h
      · exact absurd hcons (hplain spelled)

/-- Nothing wraps around: a number that reaches the bound is not read from any of its numerals. -/
theorem bounded?_eq_some_iff (hone : 1 < base) (hbase : base ≤ 16) {bound : Nat} :
    bounded? base bound cs = some n ↔ n < bound ∧ IsNumeral base n cs := by
  rw [bounded?, Option.filter_eq_some_iff, natural?_eq_some_iff hone hbase, decide_eq_true_eq,
    and_comm]

theorem bounded?_of_isNumeral (hone : 1 < base) (hbase : base ≤ 16) (h : IsNumeral base n cs)
    (bound : Nat) : bounded? base bound cs = if n < bound then some n else none := by
  rw [bounded?, (natural?_eq_some_iff hone hbase).2 h, Option.filter_some]
  simp

/-- A numeral is made of digits and perhaps a plus sign. -/
theorem IsNumeral.mem (hone : 1 < base) (hbase : base ≤ 16) (h : IsNumeral base n cs) {c : Char}
    (hc : c ∈ cs) : c = '+' ∨ ∃ d < base, c.toLower = Nat.digitChar d := by
  obtain ⟨digits, hspells, hcs⟩ := h
  have hdigit (hmem : c ∈ digits) : ∃ d < base, c.toLower = Nat.digitChar d := by
    obtain ⟨zeros, hzeros⟩ := (spells_iff hone hbase).1 hspells
    have hlower : c.toLower ∈ List.replicate zeros '0' ++ Nat.toDigits base n := by
      rw [← hzeros]
      exact List.mem_map_of_mem hmem
    rcases List.mem_append.1 hlower with hzero | hown
    · exact ⟨0, by omega, List.eq_of_mem_replicate hzero⟩
    · exact exists_digitChar_of_mem_toDigits hone hown
  rcases hcs with rfl | rfl
  · exact .inr (hdigit hc)
  · exact (List.mem_cons.1 hc).imp_right hdigit

theorem IsNumeral.not_blank (hone : 1 < base) (hbase : base ≤ 16) (h : IsNumeral base n cs)
    {c : Char} (hc : c ∈ cs) : Text.isBlank c = false := by
  rcases h.mem hone hbase hc with rfl | ⟨d, hd, hlower⟩
  · decide
  · have hdigit : ∀ d < 16, Text.isBlank (Nat.digitChar d) = false := by decide
    rw [← Text.isBlank_toLower, hlower]
    exact hdigit d (hd.trans_le hbase)

/-- No numeral starts with a `0x` mark. -/
theorem IsNumeral.stripHexMark? (hone : 1 < base) (hbase : base ≤ 16) (h : IsNumeral base n cs) :
    stripHexMark? cs = none := by
  have hletter {c : Char} (hc : c ∈ cs) : c ≠ 'x' ∧ c ≠ 'X' := by
    rcases h.mem hone hbase hc with rfl | ⟨d, hd, hlower⟩
    · decide
    · have hdigit : Nat.digitChar d ≠ 'x' := by
        have hall : ∀ d < 16, Nat.digitChar d ≠ 'x' := by decide
        exact hall d (hd.trans_le hbase)
      constructor <;>
      · rintro rfl
        exact hdigit hlower.symm
  unfold Numeral.stripHexMark?
  split
  · next rest => exact absurd rfl (hletter (List.mem_cons_of_mem _ List.mem_cons_self)).1
  · next rest => exact absurd rfl (hletter (List.mem_cons_of_mem _ List.mem_cons_self)).2
  · rfl

end Numeral

end ChipConfig
