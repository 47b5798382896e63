import ChipConfig.Proofs.Device.Session

/-!
# The calls that a session makes

A device can be watched: each access to it is listed together with what came of it, be it an answer
or an error.  Watching does not change what the device does.  A session that knows in advance which
accesses it wants to make follows this plan in order; it ends well if all of them have been made and
have succeeded, and otherwise with the error of the first one that failed, which is its last call.
-/

namespace ChipConfig

/-- Accesses that were made, in order, each with the answer of the device or its error. -/
abbrev Calls := List (Access × Except DeviceError Word)

namespace Calls

/-- Whether every call was answered. -/
def Succeeded (calls : Calls) : Prop :=
  ∀ call ∈ calls, ∃ word, call.2 = .ok word

/-- Whether the accesses of a plan were all made and succeeded. -/
def Completes (plan : List Access) (calls : Calls) : Prop :=
  calls.map Prod.fst = plan ∧ Succeeded calls

/-- Whether the accesses of a plan were made up to one that failed, which none came after. -/
def BreaksOff (plan : List Access) (cause : DeviceError) (calls : Calls) : Prop :=
  ∃ earlier access later, calls = earlier ++ [(access, .error cause)] ∧ Succeeded earlier ∧
    plan = earlier.map Prod.fst ++ access :: later

variable {plan rest : List Access} {calls others : Calls} {cause : DeviceError}

@[simp]
theorem succeeded_append : Succeeded (calls ++ others) ↔ Succeeded calls ∧ Succeeded others :=
  List.forall_mem_append

theorem Completes.append (h : Completes plan calls) (hrest : Completes rest others) :
    Completes (plan ++ rest) (calls ++ others) := by
  refine ⟨?_, succeeded_append.2 ⟨h.2, hrest.2⟩⟩
  rw [List.map_append, h.1, hrest.1]

theorem Completes.append_breaksOff (h : Completes plan calls)
    (hrest : BreaksOff rest cause others) : BreaksOff (plan ++ rest) cause (calls ++ others) := by
  obtain ⟨earlier, access, later, rfl, hearlier, rfl⟩ := hrest
  refine ⟨calls ++ earlier, access, later, (List.append_assoc _ _ _).symm,
    succeeded_append.2 ⟨h.2, hearlier⟩, ?_⟩
  rw [List.map_append, h.1, List.append_assoc]

theorem BreaksOff.append_plan (h : BreaksOff plan cause calls) (rest : List Access) :
    BreaksOff (plan ++ rest) cause calls := by
  obtain ⟨earlier, access, later, rfl, hearlier, rfl⟩ := h
  refine ⟨earlier, access, later ++ rest, rfl, hearlier, ?_⟩
  rw [List.append_assoc, List.cons_append]

theorem BreaksOff.isPrefix (h : BreaksOff plan cause calls) : calls.map Prod.fst <+: plan := by
  obtain ⟨earlier, access, later, rfl, -, rfl⟩ := h
  exact ⟨later, by simp⟩

theorem BreaksOff.not_completes (h : BreaksOff plan cause calls) : ¬Completes plan calls := by
  obtain ⟨earlier, access, later, rfl, -, -⟩ := h
  intro hcompletes
  have hlast := (succeeded_append.1 hcompletes.2).2 _ (List.mem_singleton_self _)
  exact nomatch hlast

end Calls

namespace Device

variable {σ : Type}

/-- An access to a device on a state that also lists the calls made so far. -/
def watch (access : Access) (session : Session σ DeviceError Word) :
    Session (σ × Calls) DeviceError Word :=
  ExceptT.mk fun (state, calls) ↦
    let (outcome, after) := session.runFrom state
    (outcome, (after, calls ++ [(access, outcome)]))

/-- The device that lists every access together with what came of it. -/
def watched (device : Device σ) : Device (σ × Calls) where
  write address word := watch (.write address word) (device.write address word)
  read address := watch (.read address) (device.read address)

theorem runFrom_watch (access : Access) (session : Session σ DeviceError Word) (state : σ)
    (calls : Calls) :
    (watch access session).runFrom (state, calls) =
      ((session.runFrom state).1, (session.runFrom state).2,
        calls ++ [(access, (session.runFrom state).1)]) := rfl

end Device

namespace Session

variable {σ ε ε' α β : Type}

/-- Whether a session on a watched device does what another one does on the device itself. -/
def Mirrors (session : Session (σ × Calls) ε α) (plain : Session σ ε α) : Prop :=
  ∀ state calls, (session.runFrom (state, calls)).1 = (plain.runFrom state).1 ∧
    (session.runFrom (state, calls)).2.1 = (plain.runFrom state).2

theorem mirrors_pure (a : α) :
    Mirrors (pure a : Session (σ × Calls) ε α) (pure a : Session σ ε α) :=
  fun _ _ ↦ ⟨rfl, rfl⟩

theorem mirrors_watch (access : Access) (session : Session σ DeviceError Word) :
    Mirrors (Device.watch access session) session :=
  fun _ _ ↦ ⟨rfl, rfl⟩

theorem Mirrors.bind {session : Session (σ × Calls) ε α} {plain : Session σ ε α}
    {next : α → Session (σ × Calls) ε β} {plainNext : α → Session σ ε β}
    (h : Mirrors session plain) (hnext : ∀ a, Mirrors (next a) (plainNext a)) :
    Mirrors (session >>= next) (plain >>= plainNext) := by
  intro state calls
  obtain ⟨hresult, hstate⟩ := h state calls
  cases hrun : session.runFrom (state, calls) with
  | mk result after =>
    cases hplain : plain.runFrom state with
    | mk plainResult plainAfter =>
      rw [hrun, hplain] at hresult hstate
      obtain rfl : result = plainResult := hresult
      obtain rfl : after.1 = plainAfter := hstate
      cases result with
      | error cause =>
        rw [runFrom_bind_of_error hrun, runFrom_bind_of_error hplain]
        exact ⟨rfl, rfl⟩
      | ok a =>
        rw [runFrom_bind_of_ok hrun, runFrom_bind_of_ok hplain]
        exact hnext a after.1 after.2

theorem Mirrors.mapError {session : Session (σ × Calls) ε α} {plain : Session σ ε α}
    (h : Mirrors session plain) (f : ε → ε') : Mirrors (session.mapError f) (plain.mapError f) := by
  intro state calls
  obtain ⟨hresult, hstate⟩ := h state calls
  rw [runFrom_mapError, runFrom_mapError]
  exact ⟨congrArg (Except.mapError f) hresult, hstate⟩

/-- Whether a session on a watched device makes the accesses of a plan, one after the other and up
to the first one that fails, whose error it ends with. -/
def Follows (wrap : DeviceError → ε) (plan : List Access) (session : Session (σ × Calls) ε α) :
    Prop :=
  ∀ state before, ∃ calls, (session.runFrom (state, before)).2.2 = before ++ calls ∧
    ((∃ a, (session.runFrom (state, before)).1 = .ok a) ∧ Calls.Completes plan calls ∨
      ∃ cause, (session.runFrom (state, before)).1 = .error (wrap cause) ∧
        Calls.BreaksOff plan cause calls)

variable {wrap : DeviceError → ε} {plan rest : List Access}

theorem follows_pure (a : α) : Follows wrap [] (pure a : Session (σ × Calls) ε α) :=
  fun _ before ↦ ⟨[], (List.append_nil before).symm, .inl ⟨⟨a, rfl⟩, rfl, fun _ h ↦ nomatch h⟩⟩

theorem follows_watch (access : Access) (session : Session σ DeviceError Word) :
    Follows id [access] (Device.watch access session) := by
  intro state before
  refine ⟨[(access, (session.runFrom state).1)], rfl, ?_⟩
  rw [Device.runFrom_watch]
  cases (session.runFrom state).1 with
  | error cause => exact .inr ⟨cause, rfl, [], access, [], rfl, fun _ h ↦ (nomatch h), rfl⟩
  | ok word =>
    refine .inl ⟨⟨word, rfl⟩, rfl, ?_⟩
    exact List.forall_mem_singleton.2 ⟨word, rfl⟩

/-- A session goes on with its plan where its first part has come to the end of one. -/
theorem Follows.bind {session : Session (σ × Calls) ε α} {next : α → Session (σ × Calls) ε β}
    (h : Follows wrap plan session) (hnext : ∀ a, Follows wrap rest (next a)) :
    Follows wrap (plan ++ rest) (session >>= next) := by
  intro state before
  obtain ⟨calls, hcalls, houtcome⟩ := h state before
  cases hrun : session.runFrom (state, before) with
  | mk result after =>
    rw [hrun] at hcalls houtcome
    rcases houtcome with ⟨⟨a, rfl⟩, hcompletes⟩ | ⟨cause, rfl, hbreaks⟩
    · rw [runFrom_bind_of_ok hrun]
      obtain ⟨others, hothers, hrest⟩ := hnext a after.1 after.2
      refine ⟨calls ++ others, ?_, ?_⟩
      · rw [hothers, hcalls, List.append_assoc]
      · refine hrest.imp (And.imp_right hcompletes.append) ?_
        exact Exists.imp fun _ ↦ And.imp_right hcompletes.append_breaksOff
    · rw [runFrom_bind_of_error hrun]
      exact ⟨calls, hcalls, .inr ⟨cause, rfl, hbreaks.append_plan rest⟩⟩

/-- Reporting an error in another form changes no call. -/
theorem Follows.mapError {session : Session (σ × Calls) ε α} (h : Follows wrap plan session)
    (f : ε → ε') : Follows (f ∘ wrap) plan (session.mapError f) := by
  intro state before
  obtain ⟨calls, hcalls, houtcome⟩ := h state before
  rw [runFrom_mapError]
  refine ⟨calls, hcalls, ?_⟩
  rcases houtcome with ⟨⟨a, ha⟩, hcompletes⟩ | ⟨cause, hcause, hbreaks⟩
  · exact .inl ⟨⟨a, congrArg (Except.mapError f) ha⟩, hcompletes⟩
  · exact .inr ⟨cause, congrArg (Except.mapError f) hcause, hbreaks⟩

section Follows

variable {session : Session (σ × Calls) ε α} (h : Follows wrap plan session) (state : σ)

include h

/-- No access is made that the plan does not have in this place. -/
theorem Follows.isPrefix :
    (session.runFrom (state, [])).2.2.map Prod.fst <+: plan := by
  obtain ⟨calls, hcalls, houtcome⟩ := h state []
  rw [hcalls, List.nil_append]
  rcases houtcome with ⟨-, hcompletes⟩ | ⟨cause, -, hbreaks⟩
  · rw [hcompletes.1]
  · exact hbreaks.isPrefix

theorem Follows.exists_ok_iff :
    (∃ a, (session.runFrom (state, [])).1 = .ok a) ↔
      Calls.Completes plan (session.runFrom (state, [])).2.2 := by
  obtain ⟨calls, hcalls, houtcome⟩ := h state []
  rw [hcalls, List.nil_append]
  rcases houtcome with ⟨hok, hcompletes⟩ | ⟨cause, herror, hbreaks⟩
  · exact iff_of_true hok hcompletes
  · refine iff_of_false (fun hok ↦ ?_) hbreaks.not_completes
    obtain ⟨a, ha⟩ := hok
    exact nomatch herror.symm.trans ha

theorem Follows.breaksOff {error : ε} (herror : (session.runFrom (state, [])).1 = .error error) :
    ∃ cause, error = wrap cause ∧
      Calls.BreaksOff plan cause (session.runFrom (state, [])).2.2 := by
  obtain ⟨calls, hcalls, houtcome⟩ := h state []
  rw [hcalls, List.nil_append]
  rcases houtcome with ⟨⟨a, ha⟩, -⟩ | ⟨cause, hcause, hbreaks⟩
  · exact nomatch ha.symm.trans herror
  · exact ⟨cause, Except.error.inj (herror.symm.trans hcause), hbreaks⟩

end Follows

end Session

end ChipConfig
