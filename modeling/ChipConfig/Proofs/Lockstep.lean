import ChipConfig.Proofs.Fallible
import ChipConfig.Proofs.SortedMap

/-!
# Runs in lockstep

Two programs that keep the same things in different forms are compared step by step.  They stay in
lockstep if every step succeeds on both sides, with results that still correspond, or fails on both
sides for the same reason.  Two maps correspond if they have the same keys with values that do.
-/

namespace ChipConfig

namespace Fallible

variable {ε α β γ δ ξ : Type}

/-- Whether two results correspond: both are there and are related, or both are missing for the same
reason. -/
inductive Lockstep (r : α → β → Prop) : Except ε α → Except ε β → Prop
  | ok {a : α} {b : β} (h : r a b) : Lockstep r (.ok a) (.ok b)
  | error (cause : ε) : Lockstep r (.error cause) (.error cause)

variable {r : α → β → Prop} {s : γ → δ → Prop}

theorem Lockstep.bind {x : Except ε α} {y : Except ε β} {f : α → Except ε γ} {g : β → Except ε δ}
    (h : Lockstep r x y) (hnext : ∀ a b, r a b → Lockstep s (f a) (g b)) :
    Lockstep s (x >>= f) (y >>= g) := by
  cases h with
  | ok hab => exact hnext _ _ hab
  | error cause => exact .error cause

/-- What is made of results that correspond corresponds, too. -/
theorem Lockstep.map {x : Except ε α} {y : Except ε β} (h : Lockstep r x y) {f : α → γ} {g : β → δ}
    (hfg : ∀ a b, r a b → s (f a) (g b)) : Lockstep s (x.map f) (y.map g) := by
  cases h with
  | ok hab => exact .ok (hfg _ _ hab)
  | error cause => exact .error cause

theorem Lockstep.toOption {x : Except ε α} {y : Except ε β} (h : Lockstep r x y) :
    Option.Rel r x.toOption y.toOption := by
  cases h with
  | ok hab => exact .some hab
  | error cause => exact .none

/-- A step that both sides share keeps them in lockstep. -/
theorem Lockstep.bind_same {ω : Type} (x : Except ε ω) {f : ω → Except ε α} {g : ω → Except ε β}
    (hnext : ∀ a, x = .ok a → Lockstep r (f a) (g a)) : Lockstep r (x >>= f) (x >>= g) := by
  cases x with
  | ok a => exact hnext a rfl
  | error cause => exact .error cause

/-- A check that comes out the same on both sides keeps them in lockstep. -/
theorem Lockstep.guard {p q : Prop} [Decidable p] [Decidable q] (hpq : p ↔ q) (cause : ε)
    {f : PUnit → Except ε α} {g : PUnit → Except ε β} (hnext : Lockstep r (f ⟨⟩) (g ⟨⟩)) :
    Lockstep r (if p then (throw cause : Except ε PUnit) >>= f else f ⟨⟩)
      (if q then (throw cause : Except ε PUnit) >>= g else g ⟨⟩) := by
  by_cases hp : p
  · rw [if_pos hp, if_pos (hpq.1 hp)]
    exact .error cause
  · rw [if_neg hp, if_neg fun hq ↦ hp (hpq.2 hq)]
    exact hnext

theorem Lockstep.foldlM {f : α → ξ → Except ε α} {g : β → ξ → Except ε β}
    (hstep : ∀ a b x, r a b → Lockstep r (f a x) (g b x)) (xs : List ξ) {a : α} {b : β}
    (hab : r a b) : Lockstep r (xs.foldlM f a) (xs.foldlM g b) := by
  induction xs generalizing a b with
  | nil => exact .ok hab
  | cons x xs ih =>
    rw [List.foldlM_cons, List.foldlM_cons]
    exact (hstep a b x hab).bind fun _ _ h ↦ ih h

/-- Two lists whose members do the same, one by one, do the same as a whole. -/
theorem foldlM_eq_of_forall₂ {σ : Type} {f : σ → α → Except ε σ} {g : σ → β → Except ε σ}
    {xs : List α} {ys : List β} (h : List.Forall₂ r xs ys)
    (hstep : ∀ x, ∀ y ∈ ys, r x y → ∀ s, f s x = g s y) (s : σ) :
    xs.foldlM f s = ys.foldlM g s := by
  induction h generalizing s with
  | nil => rfl
  | cons hhead _ ih =>
    obtain ⟨hfirst, hlater⟩ := List.forall_mem_cons.1 fun y hy x ↦ hstep x y hy
    rw [List.foldlM_cons, List.foldlM_cons, hfirst _ hhead]
    exact bind_congr fun t ↦ ih (fun x y hy ↦ hlater y hy x) t

/-- Where one side succeeds, the other one does so with a result that corresponds. -/
theorem Lockstep.exists_ok {x : Except ε α} {y : Except ε β} (h : Lockstep r x y) {a : α}
    (ha : x = .ok a) : ∃ b, y = .ok b ∧ r a b := by
  cases h with
  | ok hab =>
    obtain rfl := Except.ok.inj ha
    exact ⟨_, rfl, hab⟩
  | error cause => cases ha

end Fallible

namespace SortedMap

variable {κ α β : Type} [Ord κ]

/-- Whether two maps have the same keys with related values. -/
def Related (r : α → β → Prop) (a : SortedMap κ α) (b : SortedMap κ β) : Prop :=
  List.Forall₂ (fun x y ↦ x.1 = y.1 ∧ r x.2 y.2) a.toList b.toList

variable {r : α → β → Prop} {a : SortedMap κ α} {b : SortedMap κ β}

theorem related_empty : Related r (∅ : SortedMap κ α) (∅ : SortedMap κ β) :=
  .nil

theorem Related.get? (h : Related r a b) (key : κ) :
    Option.Rel r (a.get? key) (b.get? key) := by
  have hlookup {xs : List (κ × α)} {ys : List (κ × β)}
      (hxs : List.Forall₂ (fun x y ↦ x.1 = y.1 ∧ r x.2 y.2) xs ys) :
      Option.Rel r (lookup key xs) (lookup key ys) := by
    induction hxs with
    | nil => exact .none
    | cons hhead _ ih =>
      rw [lookup, lookup, hhead.1]
      split
      · exact .some hhead.2
      · exact ih
  exact hlookup h

theorem Related.contains_eq (h : Related r a b) (key : κ) : a.contains key = b.contains key := by
  have hkey := h.get? key
  rw [contains_eq_isSome, contains_eq_isSome]
  generalize a.get? key = x, b.get? key = y at hkey
  cases hkey <;> rfl

theorem Related.insert [Std.TransOrd κ] (h : Related r a b) (key : κ) {x : α} {y : β}
    (hxy : r x y) : Related r (a.insert key x) (b.insert key y) := by
  have hinsert {xs : List (κ × α)} {ys : List (κ × β)}
      (hxs : List.Forall₂ (fun x y ↦ x.1 = y.1 ∧ r x.2 y.2) xs ys) :
      List.Forall₂ (fun x y ↦ x.1 = y.1 ∧ r x.2 y.2) (insertEntry key x xs)
        (insertEntry key y ys) := by
    induction hxs with
    | nil => exact .cons ⟨rfl, hxy⟩ .nil
    | cons hhead hrest ih =>
      rw [insertEntry, insertEntry, hhead.1]
      split
      · exact .cons ⟨rfl, hxy⟩ (.cons ⟨rfl, hhead.2⟩ hrest)
      · exact .cons ⟨rfl, hxy⟩ hrest
      · exact .cons ⟨rfl, hhead.2⟩ ih
  exact hinsert h

end SortedMap

end ChipConfig
