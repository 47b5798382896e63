import ChipConfig.Device
import Mathlib

/-!
# Runs of sessions

A session is followed from state to state: it ends in the state that its accesses lead to, with a
result or with the first error.
-/

namespace ChipConfig.Session

variable {σ ε ε' α β : Type}

@[simp]
theorem runFrom_ofExcept (result : Except ε α) (state : σ) :
    (ofExcept result).runFrom state = (result, state) := rfl

/-- The second part of a session starts where the first one has ended well. -/
theorem runFrom_bind_of_ok {session : Session σ ε α} {state after : σ} {a : α}
    (h : session.runFrom state = (.ok a, after)) (next : α → Session σ ε β) :
    (session >>= next).runFrom state = (next a).runFrom after := by
  change (ExceptT.bindCont next (session.runFrom state).1).run (session.runFrom state).2 = _
  rw [h]
  rfl

theorem runFrom_bind_of_error {session : Session σ ε α} {state after : σ} {cause : ε}
    (h : session.runFrom state = (.error cause, after)) (next : α → Session σ ε β) :
    (session >>= next).runFrom state = (.error cause, after) := by
  change (ExceptT.bindCont next (session.runFrom state).1).run (session.runFrom state).2 = _
  rw [h]
  rfl

@[simp]
theorem runFrom_mapError (f : ε → ε') (session : Session σ ε α) (state : σ) :
    (session.mapError f).runFrom state =
      ((session.runFrom state).1.mapError f, (session.runFrom state).2) := by
  rfl

/-- Whether a session keeps an invariant of the state, be it that it ends well or not, and has a
result with some property if it ends well. -/
def Keeps (inv : σ → Prop) (post : α → Prop) (session : Session σ ε α) : Prop :=
  ∀ state, inv state →
    inv (session.runFrom state).2 ∧ ∀ a, (session.runFrom state).1 = .ok a → post a

section Keeps

variable {inv : σ → Prop} {post : α → Prop}

theorem keeps_ofExcept {result : Except ε α} (h : ∀ a, result = .ok a → post a) :
    Keeps inv post (ofExcept result) :=
  fun _ hstate ↦ ⟨hstate, h⟩

theorem keeps_pure {a : α} (h : post a) : Keeps inv post (pure a : Session σ ε α) :=
  fun _ hstate ↦ ⟨hstate, fun _ ha ↦ Except.ok.inj ha ▸ h⟩

theorem keeps_throw (cause : ε) : Keeps inv post (throw cause : Session σ ε α) :=
  fun _ hstate ↦ ⟨hstate, fun _ ha ↦ nomatch ha⟩

theorem keeps_set {state : σ} (hstate : inv state) :
    Keeps inv (fun _ ↦ True) (set state : Session σ ε PUnit) :=
  fun _ _ ↦ ⟨hstate, fun _ _ ↦ trivial⟩

theorem Keeps.bind {session : Session σ ε α} {next : α → Session σ ε β} {result : β → Prop}
    (h : Keeps inv post session) (hnext : ∀ a, post a → Keeps inv result (next a)) :
    Keeps inv result (session >>= next) := by
  intro state hstate
  obtain ⟨hafter, hpost⟩ := h state hstate
  cases hrun : session.runFrom state with
  | mk answer after =>
    rw [hrun] at hafter hpost
    cases answer with
    | error cause =>
      rw [runFrom_bind_of_error hrun]
      exact ⟨hafter, fun _ h ↦ nomatch h⟩
    | ok a =>
      rw [runFrom_bind_of_ok hrun]
      exact hnext a (hpost a rfl) after hafter

theorem Keeps.mapError {session : Session σ ε α} (h : Keeps inv post session) (f : ε → ε') :
    Keeps inv post (session.mapError f) := by
  intro state hstate
  obtain ⟨hafter, hpost⟩ := h state hstate
  rw [runFrom_mapError]
  refine ⟨hafter, fun a ha ↦ hpost a ?_⟩
  cases hresult : (session.runFrom state).1 with
  | error cause =>
    rw [hresult] at ha
    cases ha
  | ok b =>
    rw [hresult] at ha
    rw [Except.ok.inj ha]

/-- A session that needs a result first which takes no access. -/
theorem keeps_ofExcept_bind {result : Except ε α} {next : α → Session σ ε β} {post : β → Prop}
    (h : ∀ a, result = .ok a → Keeps inv post (next a)) :
    Keeps inv post (ofExcept result >>= next) := by
  have hresult : Keeps inv (fun a ↦ result = .ok a) (ofExcept result) := keeps_ofExcept fun _ ↦ id
  exact hresult.bind h

/-- A session that looks at the state first. -/
theorem keeps_get_bind {next : σ → Session σ ε α}
    (h : ∀ state, inv state → Keeps inv post (next state)) :
    Keeps inv post ((get : Session σ ε σ) >>= next) := by
  intro state hstate
  have hget : (get : Session σ ε σ).runFrom state = (.ok state, state) := rfl
  rw [runFrom_bind_of_ok hget]
  exact h state hstate state hstate

end Keeps

end ChipConfig.Session
