import ChipConfig.Proofs.Fallible

/-!
# Lists that correspond item by item

Two lists correspond if they are equally long and each item of one is related to the item in its
place.  A list that is worked through item by item corresponds to its results.  What corresponds to
a list can be carried over to a list that corresponds to it in another way.
-/

namespace ChipConfig.Paired

variable {ε α β γ δ : Type} {r : α → β → Prop} {s : β → γ → Prop} {xs : List α} {ys : List β}

theorem mapM_eq_some_iff {f : α → Option β} :
    xs.mapM f = some ys ↔ List.Forall₂ (fun x y ↦ f x = some y) xs ys := by
  induction xs generalizing ys with
  | nil => simp [eq_comm]
  | cons x xs ih =>
    rw [List.mapM_cons]
    constructor
    · intro h
      obtain ⟨y, hy, hrest⟩ := Option.bind_eq_some_iff.1 h
      obtain ⟨zs, hzs, hcons⟩ := Option.bind_eq_some_iff.1 hrest
      obtain rfl := Option.some.inj hcons
      exact .cons hy (ih.1 hzs)
    · intro h
      cases h with
      | cons hy hys =>
        rw [hy, ih.2 hys]
        rfl

theorem mapM_eq_ok_iff {f : α → Except ε β} :
    xs.mapM f = .ok ys ↔ List.Forall₂ (fun x y ↦ f x = .ok y) xs ys := by
  induction xs generalizing ys with
  | nil => simp
  | cons x xs ih => simp [List.forall₂_cons_left_iff, ih]

theorem exists_of_getElem? (h : List.Forall₂ r xs ys) {index : Nat} {x : α}
    (hx : xs[index]? = some x) : ∃ y, ys[index]? = some y ∧ r x y := by
  induction h generalizing index with
  | nil => cases hx
  | cons hhead _ ih =>
    cases index with
    | zero => exact ⟨_, rfl, Option.some.inj hx ▸ hhead⟩
    | succ index => exact ih hx

theorem exists_of_mem (h : List.Forall₂ r xs ys) {x : α} (hx : x ∈ xs) : ∃ y ∈ ys, r x y := by
  obtain ⟨index, hindex⟩ := List.getElem?_of_mem hx
  obtain ⟨y, hy, hxy⟩ := exists_of_getElem? h hindex
  exact ⟨y, List.mem_of_getElem? hy, hxy⟩

theorem and_right (h : List.Forall₂ r xs ys) {p : β → Prop} (hp : ∀ y ∈ ys, p y) :
    List.Forall₂ (fun x y ↦ r x y ∧ p y) xs ys := by
  induction h with
  | nil => exact .nil
  | cons hhead _ ih =>
    obtain ⟨hfirst, hlater⟩ := List.forall_mem_cons.1 hp
    exact .cons ⟨hhead, hfirst⟩ (ih hlater)

theorem exists_both_iff {zs : List γ} :
    (∃ ys, List.Forall₂ r xs ys ∧ List.Forall₂ s ys zs) ↔
      List.Forall₂ (fun x z ↦ ∃ y, r x y ∧ s y z) xs zs := by
  constructor
  · rintro ⟨ys, hr, hs⟩
    induction hr generalizing zs with
    | nil =>
      cases hs
      exact .nil
    | cons hxy _ ih =>
      cases hs with
      | cons hyz hlater => exact .cons ⟨_, hxy, hyz⟩ (ih hlater)
  · intro h
    induction h with
    | nil => exact ⟨[], .nil, .nil⟩
    | cons hxz _ ih =>
      obtain ⟨y, hxy, hyz⟩ := hxz
      obtain ⟨ys, hr, hs⟩ := ih
      exact ⟨y :: ys, .cons hxy hr, .cons hyz hs⟩

/-- What corresponds to a list is carried over item by item to another list that corresponds to
it. -/
theorem exists_carried {like : α → γ → Prop} {r' : γ → δ → Prop} {like' : β → δ → Prop}
    (h : ∀ x y z, like x z → r x y → ∃ w, r' z w ∧ like' y w) {zs : List γ}
    (hlike : List.Forall₂ like xs zs) (hr : List.Forall₂ r xs ys) :
    ∃ ws, List.Forall₂ r' zs ws ∧ List.Forall₂ like' ys ws := by
  induction hlike generalizing ys with
  | nil =>
    cases hr
    exact ⟨[], .nil, .nil⟩
  | cons hfirst _ ih =>
    cases hr with
    | cons hxy hlater =>
      obtain ⟨w, hzw, hyw⟩ := h _ _ _ hfirst hxy
      obtain ⟨ws, hzws, hyws⟩ := ih hlater
      exact ⟨w :: ws, .cons hzw hzws, .cons hyw hyws⟩

end ChipConfig.Paired
