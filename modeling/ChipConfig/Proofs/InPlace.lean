import ChipConfig.Proofs.Device.Session
import ChipConfig.Proofs.Fallible

/-!
# Changes made in place

A session can change a value step by step, and an error in the middle leaves the steps that were
taken before it.  If all steps of a run succeed on their own, they succeed in place, and the value
is changed as a whole.
-/

namespace ChipConfig.Session

variable {σ ε α : Type}

/-- Takes a step that may fail.  If it does, the state stays. -/
def change (step : σ → Except ε σ) : Session σ ε Unit := do
  let state ← get
  set (← ofExcept (step state))

/-- Takes one step for each member of a list.  A step that fails ends this, and what the steps
before it did stays done. -/
def changeAll (step : σ → α → Except ε σ) : List α → Session σ ε Unit
  | [] => pure ()
  | x :: xs => do
    change fun state ↦ step state x
    changeAll step xs

theorem runFrom_change (step : σ → Except ε σ) (state : σ) :
    (change step).runFrom state =
      match step state with
      | .ok after => (.ok (), after)
      | .error cause => (.error cause, state) := by
  have hstart : (change step).runFrom state =
      (ofExcept (step state) >>= fun after ↦ (set after : Session σ ε PUnit)).runFrom state := rfl
  rw [hstart]
  cases step state <;> rfl

theorem runFrom_change_of_ok {step : σ → Except ε σ} {state after : σ}
    (h : step state = .ok after) : (change step).runFrom state = (.ok (), after) := by
  rw [runFrom_change, h]

/-- Steps that lead through a list lead through it in place, too. -/
theorem runFrom_changeAll_of_ok {step : σ → α → Except ε σ} {xs : List α} {state after : σ}
    (h : xs.foldlM step state = .ok after) :
    (changeAll step xs).runFrom state = (.ok (), after) := by
  induction xs generalizing state with
  | nil =>
    cases h
    rfl
  | cons x xs ih =>
    rw [List.foldlM_cons, Fallible.bind_eq_ok_iff] at h
    obtain ⟨middle, hstep, hrest⟩ := h
    have hfirst : (change fun state ↦ step state x).runFrom state = (.ok (), middle) :=
      runFrom_change_of_ok hstep
    rw [changeAll, runFrom_bind_of_ok hfirst]
    exact ih hrest

variable {inv : σ → Prop}

theorem keeps_change {step : σ → Except ε σ}
    (h : ∀ state after, inv state → step state = .ok after → inv after) :
    Keeps inv (fun _ ↦ True) (change step) := by
  refine keeps_get_bind fun state hstate ↦ keeps_ofExcept_bind fun after hstep ↦ ?_
  exact keeps_set (h state after hstate hstep)

/-- What every step keeps is kept to the end, and where a step fails, up to there. -/
theorem keeps_changeAll {step : σ → α → Except ε σ}
    (h : ∀ state x after, inv state → step state x = .ok after → inv after) (xs : List α) :
    Keeps inv (fun _ ↦ True) (changeAll step xs) := by
  induction xs with
  | nil => exact keeps_pure trivial
  | cons x xs ih =>
    exact (keeps_change fun state after ↦ h state x after).bind fun _ _ ↦ ih

end ChipConfig.Session
