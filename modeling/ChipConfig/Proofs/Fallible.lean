import Mathlib

/-!
# Runs of steps that may fail

A run of fallible steps succeeds exactly when every step does.  When success of a step depends only
on its input and its result is a function of what it gets, the run as a whole is the plain run of
these functions, guarded by one condition for each step.
-/

namespace ChipConfig.Fallible

variable {ε α β σ : Type}

@[simp]
theorem ok_bind (a : α) (f : α → Except ε β) : (.ok a : Except ε α) >>= f = f a := rfl

@[simp]
theorem error_bind (cause : ε) (f : α → Except ε β) :
    (.error cause : Except ε α) >>= f = .error cause := rfl

@[simp]
theorem throw_eq_error (cause : ε) : (throw cause : Except ε α) = .error cause := rfl

@[simp]
theorem bind_eq_ok_iff {x : Except ε α} {f : α → Except ε β} {b : β} :
    x >>= f = .ok b ↔ ∃ a, x = .ok a ∧ f a = .ok b := by
  cases x <;> simp

/-- Of two steps the second one can only fail where the first one succeeds. -/
theorem bind_eq_error_iff {x : Except ε α} {f : α → Except ε β} {cause : ε} :
    x >>= f = .error cause ↔ x = .error cause ∨ ∃ a, x = .ok a ∧ f a = .error cause := by
  cases x <;> simp

/-- The first of two steps fails for its own causes, and leaves to the second one those that it
has in whatever it gets. -/
theorem bind_eq_error_iff_of_iff {x : Except ε α} {f : α → Except ε β} {fault : ε → Prop}
    {later : Prop} {cause : ε} (hx : ∀ c, x = .error c ↔ fault c)
    (hf : ∀ a, x = .ok a → (f a = .error cause ↔ later)) :
    x >>= f = .error cause ↔ fault cause ∨ (∀ c, ¬fault c) ∧ later := by
  simp only [← hx]
  cases x with
  | error other => simp
  | ok a => simpa using hf a rfl

/-- A step that gives one result, and that under a condition only, turns into the condition. -/
theorem bind_eq_ok_iff_of_iff {x : Except ε α} {p : Prop} {a : α}
    (h : ∀ result, x = .ok result ↔ p ∧ result = a) {f : α → Except ε β} {b : β} :
    x >>= f = .ok b ↔ p ∧ f a = .ok b := by
  simp [h, and_assoc]

theorem ok_eq_ok_iff {a b : α} : (.ok a : Except ε α) = .ok b ↔ b = a := by
  rw [Except.ok.injEq, eq_comm]

@[simp]
theorem pure_eq_ok_iff {a b : α} : (pure a : Except ε α) = .ok b ↔ b = a :=
  ok_eq_ok_iff

@[simp]
theorem pure_ne_error (a : α) (cause : ε) : (pure a : Except ε α) ≠ .error cause :=
  nofun

@[simp]
theorem map_eq_ok_iff {x : Except ε α} {f : α → β} {b : β} :
    f <$> x = .ok b ↔ ∃ a, x = .ok a ∧ b = f a := by
  cases x with
  | error cause => simp
  | ok a => simp [eq_comm]

/-- Wrapping up a result does not change why there is none. -/
@[simp]
theorem map_eq_error_iff {x : Except ε α} {f : α → β} {cause : ε} :
    f <$> x = .error cause ↔ x = .error cause := by
  cases x <;> simp

theorem bind_pure_eq_error_iff {x : Except ε α} {f : α → β} {cause : ε} :
    (do return f (← x)) = (.error cause : Except ε β) ↔ x = .error cause := by
  rw [bind_pure_comp, map_eq_error_iff]

theorem exists_bind_pure_iff {x : Except ε α} {f : α → β} :
    (∃ b, (do return f (← x)) = (.ok b : Except ε β)) ↔ ∃ a, x = .ok a := by
  cases x <;> simp

/-- A check at the front of a run. -/
@[simp]
theorem guard_eq_ok_iff {c : Prop} [Decidable c] {cause : ε} {x : Except ε α} {a : α} :
    (if c then .error cause else x) = .ok a ↔ ¬c ∧ x = .ok a := by
  split
  · next hc => simp [hc]
  · next hc => simp [hc]

/-- A check whose condition has to hold. -/
@[simp]
theorem guard_not_eq_ok_iff {c : Prop} [Decidable c] {cause : ε} {x : Except ε α} {a : α} :
    (if c then x else .error cause) = .ok a ↔ c ∧ x = .ok a := by
  split
  · next hc => simp [hc]
  · next hc => simp [hc]

/-- A list is worked through if every member passes, and then each gives its own result. -/
theorem mapM_eq_ok_iff {f : α → Except ε β} {p : α → Prop} {g : α → β} {xs : List α}
    (h : ∀ x ∈ xs, ∀ y, f x = .ok y ↔ p x ∧ y = g x) {ys : List β} :
    xs.mapM f = .ok ys ↔ (∀ x ∈ xs, p x) ∧ ys = xs.map g := by
  induction xs generalizing ys with
  | nil => simp
  | cons x xs ih =>
    have hhead := h x (by simp)
    have htail (zs : List β) : xs.mapM f = .ok zs ↔ (∀ z ∈ xs, p z) ∧ zs = xs.map g :=
      ih fun z hz ↦ h z (List.mem_cons_of_mem _ hz)
    rw [List.mapM_cons, bind_eq_ok_iff_of_iff hhead, bind_eq_ok_iff_of_iff htail, pure_eq_ok_iff,
      List.forall_mem_cons, List.map_cons, and_assoc]

/-- Going through a list gives every member together with its own result. -/
theorem mapM_pair_eq_ok_iff {f : α → Except ε β} {xs : List α} {ys : List (α × β)} :
    (xs.mapM fun x ↦ do return (x, ← f x)) = .ok ys ↔
      ys.map Prod.fst = xs ∧ ∀ y ∈ ys, f y.1 = .ok y.2 := by
  induction xs generalizing ys with
  | nil =>
    rw [List.mapM_nil, pure_eq_ok_iff, List.map_eq_nil_iff]
    constructor
    · rintro rfl
      exact ⟨rfl, List.forall_mem_nil _⟩
    · exact And.left
  | cons x xs ih =>
    simp only [List.mapM_cons, bind_eq_ok_iff, pure_eq_ok_iff, ih]
    constructor
    · rintro ⟨_, ⟨b, hb, rfl⟩, rest, ⟨rfl, hrest⟩, rfl⟩
      exact ⟨rfl, List.forall_mem_cons.2 ⟨hb, hrest⟩⟩
    · rintro ⟨hkeys, hys⟩
      cases ys with
      | nil => cases hkeys
      | cons y ys =>
        obtain ⟨rfl, rfl⟩ := List.cons.inj hkeys
        obtain ⟨hb, hrest⟩ := List.forall_mem_cons.1 hys
        exact ⟨y, ⟨y.2, hb, rfl⟩, ys, ⟨rfl, hrest⟩, rfl⟩

/-- A list is worked through if every member passes. -/
theorem exists_mapM_iff {f : α → Except ε β} {xs : List α} :
    (∃ ys, xs.mapM f = .ok ys) ↔ ∀ x ∈ xs, ∃ y, f x = .ok y := by
  induction xs with
  | nil => simp
  | cons x xs ih =>
    simp only [List.mapM_cons, bind_eq_ok_iff, pure_eq_ok_iff, List.forall_mem_cons, ← ih]
    constructor
    · rintro ⟨_, b, hb, rest, hrest, -⟩
      exact ⟨⟨b, hb⟩, rest, hrest⟩
    · rintro ⟨⟨b, hb⟩, rest, hrest⟩
      exact ⟨_, b, hb, rest, hrest, rfl⟩

/-- Going through a list in order stops at the first member that does not pass. -/
theorem mapM_eq_error_iff {f : α → Except ε β} {before : α → α → Prop} [Std.Asymm before]
    {xs : List α} (hxs : xs.Pairwise before) {cause : ε} :
    xs.mapM f = .error cause ↔
      ∃ x ∈ xs, f x = .error cause ∧ ∀ y ∈ xs, before y x → ∃ b, f y = .ok b := by
  induction xs with
  | nil => simp
  | cons x xs ih =>
    obtain ⟨hhead, hrest⟩ := List.pairwise_cons.1 hxs
    simp only [List.mapM_cons, bind_eq_error_iff (x := f x), bind_pure_eq_error_iff, ih hrest,
      List.mem_cons]
    constructor
    · rintro (hx | ⟨b, hx, y, hy, hfails, hearlier⟩)
      · refine ⟨x, .inl rfl, hx, ?_⟩
        rintro y (rfl | hy) hbefore
        · exact absurd hbefore (Std.Asymm.asymm _ _ hbefore)
        · exact absurd hbefore (Std.Asymm.asymm _ _ (hhead y hy))
      · refine ⟨y, .inr hy, hfails, ?_⟩
        rintro z (rfl | hz) hbefore
        · exact ⟨b, hx⟩
        · exact hearlier z hz hbefore
    · rintro ⟨y, rfl | hy, hfails, hearlier⟩
      · exact .inl hfails
      · obtain ⟨b, hx⟩ := hearlier x (.inl rfl) (hhead y hy)
        exact .inr ⟨b, hx, y, hy, hfails, fun z hz ↦ hearlier z (.inr hz)⟩

/-- What a run does to a list depends only on what its steps do to the members. -/
theorem mapM_congr {f g : α → Except ε β} {xs : List α} (h : ∀ x ∈ xs, f x = g x) :
    xs.mapM f = xs.mapM g := by
  induction xs with
  | nil => rfl
  | cons x xs ih =>
    obtain ⟨hhead, hrest⟩ := List.forall_mem_cons.1 h
    rw [List.mapM_cons, List.mapM_cons, hhead, ih hrest]

theorem foldlM_congr {f g : σ → α → Except ε σ} {xs : List α} (h : ∀ s, ∀ x ∈ xs, f s x = g s x)
    (s : σ) : xs.foldlM f s = xs.foldlM g s := by
  induction xs generalizing s with
  | nil => rfl
  | cons x xs ih =>
    have hrest (t : σ) : xs.foldlM f t = xs.foldlM g t :=
      ih (fun t y hy ↦ h t y (List.mem_cons_of_mem _ hy)) t
    simp only [List.foldlM_cons, h s x List.mem_cons_self, hrest]

/-- What every step keeps, the whole run keeps. -/
theorem foldlM_keeps {f : σ → α → Except ε σ} {inv : σ → Prop}
    (h : ∀ s x t, inv s → f s x = .ok t → inv t) {xs : List α} {s t : σ} (hs : inv s)
    (hrun : xs.foldlM f s = .ok t) : inv t := by
  induction xs generalizing s with
  | nil => rwa [← pure_eq_ok_iff.1 hrun] at hs
  | cons x xs ih =>
    rw [List.foldlM_cons, bind_eq_ok_iff] at hrun
    obtain ⟨u, hstep, hrest⟩ := hrun
    exact ih (h s x u hs hstep) hrest

/-- A state is led through a list if every member passes.  The steps have to be understood only in
states with an invariant that they keep. -/
theorem foldlM_eq_ok_iff {f : σ → α → Except ε σ} (inv : σ → Prop) {p : α → Prop}
    {g : σ → α → σ} {xs : List α}
    (h : ∀ s, inv s → ∀ x ∈ xs, ∀ t, f s x = .ok t ↔ p x ∧ t = g s x)
    (hinv : ∀ s, inv s → ∀ x ∈ xs, inv (g s x)) {s t : σ} (hs : inv s) :
    xs.foldlM f s = .ok t ↔ (∀ x ∈ xs, p x) ∧ t = xs.foldl g s := by
  induction xs generalizing s with
  | nil => simp
  | cons x xs ih =>
    have hhead := h s hs x (by simp)
    have htail : xs.foldlM f (g s x) = .ok t ↔ (∀ z ∈ xs, p z) ∧ t = xs.foldl g (g s x) := by
      apply ih
      · intro s hs z hz
        exact h s hs z (List.mem_cons_of_mem _ hz)
      · intro s hs z hz
        exact hinv s hs z (List.mem_cons_of_mem _ hz)
      · exact hinv s hs x (by simp)
    rw [List.foldlM_cons, bind_eq_ok_iff_of_iff hhead, htail, List.forall_mem_cons,
      List.foldl_cons, and_assoc]

/-! ## Where a run fails -/

/-- A run fails at the first member that does not pass, in the state to which those before it
lead. -/
theorem foldlM_eq_error_iff {f : σ → α → Except ε σ} {xs : List α} {s : σ} {cause : ε} :
    xs.foldlM f s = .error cause ↔
      ∃ before x after t, xs = before ++ x :: after ∧ before.foldlM f s = .ok t ∧
        f t x = .error cause := by
  constructor
  · intro h
    induction xs generalizing s with
    | nil => cases h
    | cons x xs ih =>
      rw [List.foldlM_cons, bind_eq_error_iff] at h
      rcases h with hx | ⟨u, hx, hrest⟩
      · exact ⟨[], x, xs, s, rfl, rfl, hx⟩
      · obtain ⟨before, y, after, t, rfl, hbefore, hy⟩ := ih hrest
        refine ⟨x :: before, y, after, t, rfl, ?_, hy⟩
        rw [List.foldlM_cons, hx]
        exact hbefore
  · rintro ⟨before, x, after, t, rfl, hbefore, hx⟩
    rw [List.foldlM_append, bind_eq_error_iff]
    refine .inr ⟨t, hbefore, ?_⟩
    rw [List.foldlM_cons, bind_eq_error_iff]
    exact .inl hx

/-- A run that has failed has failed for its cause, whatever follows. -/
theorem foldlM_append_eq_error {f : σ → α → Except ε σ} {xs : List α} {s : σ} {cause : ε}
    (h : xs.foldlM f s = .error cause) (ys : List α) :
    (xs ++ ys).foldlM f s = .error cause := by
  rw [List.foldlM_append, h]
  rfl

/-- Collecting the results of a list fails as the list does. -/
theorem foldlM_bind_pure_eq_error_iff {f : α → Except ε β} {g : σ → α → β → σ} {xs : List α}
    {s : σ} {cause : ε} :
    (xs.foldlM (fun s x ↦ do return g s x (← f x)) s) = .error cause ↔
      xs.mapM f = .error cause := by
  induction xs generalizing s with
  | nil => exact iff_of_false (fun h ↦ nomatch h) fun h ↦ nomatch h
  | cons x xs ih =>
    rw [List.foldlM_cons, List.mapM_cons]
    cases f x with
    | error other =>
      change (.error other : Except ε σ) = .error cause ↔ (.error other : Except ε _) = .error cause
      rw [Except.error.injEq, Except.error.injEq]
    | ok y =>
      change xs.foldlM (fun s x ↦ do return g s x (← f x)) (g s x y) = .error cause ↔
        (do return y :: (← xs.mapM f)) = .error cause
      rw [ih, bind_pure_eq_error_iff]

theorem exists_ok_iff {x : Except ε α} : (∃ a, x = .ok a) ↔ ∀ cause, x ≠ .error cause := by
  cases x <;> simp

section FirstFault

variable {fault : List α → α → ε → Prop} {x : α} {xs : List α} {cause : ε}

/-- Whether something is the fault of a member of a list, and nothing is the fault of a member
before it.  What is a fault of a member depends on those before it. -/
def FirstFault (fault : List α → α → ε → Prop) (xs : List α) (cause : ε) : Prop :=
  ∃ earlier x later, xs = earlier ++ x :: later ∧ fault earlier x cause ∧
    ∀ before other between, earlier = before ++ other :: between → ∀ c, ¬fault before other c

theorem not_firstFault_nil : ¬FirstFault fault [] cause := by
  rintro ⟨earlier, x, later, h, -⟩
  exact List.append_ne_nil_of_right_ne_nil earlier (List.cons_ne_nil x later) h.symm

theorem firstFault_cons :
    FirstFault fault (x :: xs) cause ↔
      fault [] x cause ∨
        (∀ c, ¬fault [] x c) ∧ FirstFault (fun earlier ↦ fault (x :: earlier)) xs cause := by
  constructor
  · rintro ⟨earlier, y, later, hsplit, hfault, hbefore⟩
    cases earlier with
    | nil =>
      obtain ⟨rfl, rfl⟩ := List.cons.inj hsplit
      exact .inl hfault
    | cons head earlier =>
      obtain ⟨rfl, rfl⟩ := List.cons.inj hsplit
      refine .inr ⟨hbefore [] x earlier rfl, earlier, y, later, rfl, hfault, ?_⟩
      intro before other between h
      exact hbefore (x :: before) other between (congrArg (List.cons x) h)
  · rintro (hfault | ⟨hnone, earlier, y, later, rfl, hfault, hbefore⟩)
    · refine ⟨[], x, xs, rfl, hfault, fun before other between h ↦ ?_⟩
      cases before <;> cases h
    · refine ⟨x :: earlier, y, later, rfl, hfault, fun before other between h ↦ ?_⟩
      cases before with
      | nil =>
        obtain ⟨rfl, -⟩ := List.cons.inj h
        exact hnone
      | cons head before =>
        obtain ⟨rfl, hrest⟩ := List.cons.inj h
        exact hbefore before other between hrest

theorem firstFault_cons_of_not (h : ∀ c, ¬fault [] x c) :
    FirstFault fault (x :: xs) cause ↔
      FirstFault (fun earlier ↦ fault (x :: earlier)) xs cause := by
  rw [firstFault_cons, or_iff_right (h cause), and_iff_right h]

/-- If there is a fault at all, there is a first one. -/
theorem exists_firstFault_iff :
    (∃ cause, FirstFault fault xs cause) ↔
      ∃ earlier x later, xs = earlier ++ x :: later ∧ ∃ cause, fault earlier x cause := by
  constructor
  · rintro ⟨cause, earlier, x, later, hsplit, hfault, -⟩
    exact ⟨earlier, x, later, hsplit, cause, hfault⟩
  · rintro ⟨earlier, x, later, rfl, cause, hfault⟩
    induction earlier generalizing fault with
    | nil => exact ⟨cause, firstFault_cons.2 (.inl hfault)⟩
    | cons head earlier ih =>
      by_cases hhead : ∃ c, fault [] head c
      · obtain ⟨c, hc⟩ := hhead
        exact ⟨c, firstFault_cons.2 (.inl hc)⟩
      · have hrest : ∃ c, FirstFault (fun before ↦ fault (head :: before))
            (earlier ++ x :: later) c := ih hfault
        obtain ⟨c, hc⟩ := hrest
        exact ⟨c, firstFault_cons.2 (.inr ⟨not_exists.1 hhead, hc⟩)⟩

end FirstFault

/-- Whether a program fails only for causes of a kind. -/
def FailsOnly (p : ε → Prop) (x : Except ε α) : Prop :=
  ∀ cause, x = .error cause → p cause

namespace FailsOnly

variable {p : ε → Prop}

theorem ok (a : α) : FailsOnly p (.ok a) :=
  fun _ h ↦ nomatch h

theorem error {cause : ε} (h : p cause) : FailsOnly p (.error cause : Except ε α) := by
  intro other hother
  rwa [← Except.error.inj hother]

theorem bind {x : Except ε α} {f : α → Except ε β} (hx : FailsOnly p x)
    (hf : ∀ a, FailsOnly p (f a)) : FailsOnly p (x >>= f) := by
  intro cause h
  rcases bind_eq_error_iff.1 h with hfirst | ⟨a, -, hnext⟩
  · exact hx cause hfirst
  · exact hf a cause hnext

theorem guard {c : Prop} [Decidable c] {cause : ε} {f : PUnit → Except ε β} (hcause : p cause)
    (hf : FailsOnly p (f ⟨⟩)) :
    FailsOnly p (if c then (throw cause : Except ε PUnit) >>= f else f ⟨⟩) := by
  split
  · exact bind (error hcause) fun _ ↦ hf
  · exact hf

theorem foldlM {f : σ → α → Except ε σ} {xs : List α} (hf : ∀ s, ∀ x ∈ xs, FailsOnly p (f s x))
    (s : σ) : FailsOnly p (xs.foldlM f s) := by
  intro cause h
  obtain ⟨before, x, after, t, rfl, -, hx⟩ := foldlM_eq_error_iff.1 h
  exact hf t x (List.mem_append_right _ List.mem_cons_self) cause hx

end FailsOnly

end ChipConfig.Fallible
