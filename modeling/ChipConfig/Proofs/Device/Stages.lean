import ChipConfig.Proofs.Device.Calls

/-!
# Sessions that check before they access

A session may have to check something before an access, and then ends without making it.  Such a
session goes through stages, each an access together with what stands against it, if anything does.
However the device answers, the calls are the accesses of the first stages; they end with the first
one that failed, or before the first stage that something stands against.
-/

namespace ChipConfig

/-- An access to make next, and the error that stands against making it. -/
structure Stage (ε : Type) where
  fault : Option ε
  access : Access

/-- The calls that come of stages, and the error that they end with. -/
inductive Calls.Through {ε : Type} (wrap : DeviceError → ε) :
    List (Stage ε) → Calls → Option ε → Prop
  | finished : Through wrap [] [] none
  | refused {fault : ε} {access : Access} {stages : List (Stage ε)} :
      Through wrap (⟨some fault, access⟩ :: stages) [] (some fault)
  | failed {access : Access} {cause : DeviceError} {stages : List (Stage ε)} :
      Through wrap (⟨none, access⟩ :: stages) [(access, .error cause)] (some (wrap cause))
  | answered {access : Access} {word : Word} {stages : List (Stage ε)} {calls : Calls}
      {fault : Option ε} (rest : Through wrap stages calls fault) :
      Through wrap (⟨none, access⟩ :: stages) ((access, .ok word) :: calls) fault

namespace Calls

theorem succeeded_nil : Succeeded [] :=
  fun _ hcall ↦ nomatch hcall

@[simp]
theorem succeeded_cons_ok {access : Access} {word : Word} {calls : Calls} :
    Succeeded ((access, .ok word) :: calls) ↔ Succeeded calls :=
  List.forall_mem_cons.trans (and_iff_right ⟨word, rfl⟩)

end Calls

namespace Calls.Through

variable {ε : Type} {wrap : DeviceError → ε} {stages rest : List (Stage ε)} {calls others : Calls}
  {fault : Option ε} {error : ε}

theorem append (h : Through wrap stages calls none) (hrest : Through wrap rest others fault) :
    Through wrap (stages ++ rest) (calls ++ others) fault := by
  generalize hnone : (none : Option ε) = ending at h
  induction h with
  | finished => exact hrest
  | refused => exact nomatch hnone
  | failed => exact nomatch hnone
  | answered _ ih => exact .answered (ih hnone)

theorem append_stages (h : Through wrap stages calls (some error)) (rest : List (Stage ε)) :
    Through wrap (stages ++ rest) calls (some error) := by
  generalize hsome : some error = ending at h
  induction h with
  | finished => exact nomatch hsome
  | refused => exact .refused
  | failed => exact .failed
  | answered _ ih => exact .answered (ih hsome)

theorem isPrefix (h : Through wrap stages calls fault) :
    calls.map Prod.fst <+: stages.map Stage.access := by
  induction h with
  | finished => exact List.prefix_rfl
  | refused => exact List.nil_prefix
  | failed => exact (List.prefix_cons_inj _).2 List.nil_prefix
  | answered _ ih => exact (List.prefix_cons_inj _).2 ih

theorem succeeded_dropLast (h : Through wrap stages calls fault) : Succeeded calls.dropLast := by
  induction h with
  | finished => exact succeeded_nil
  | refused => exact succeeded_nil
  | failed => exact succeeded_nil
  | @answered _ _ _ calls _ _ ih =>
    cases calls with
    | nil => exact succeeded_nil
    | cons next calls => exact succeeded_cons_ok.2 ih

/-- Nothing stands against the stages whose accesses have been made. -/
theorem fault_eq_none (h : Through wrap stages calls fault) {count : Nat} {stage : Stage ε}
    (hstage : stages[count]? = some stage) (hcount : count < calls.length) :
    stage.fault = none := by
  induction h generalizing count with
  | finished => exact nomatch hstage
  | refused => exact absurd hcount (Nat.not_lt_zero _)
  | failed =>
    obtain rfl : count = 0 := Nat.lt_one_iff.1 hcount
    exact congrArg Stage.fault (Option.some.inj hstage).symm
  | answered _ ih =>
    cases count with
    | zero => exact congrArg Stage.fault (Option.some.inj hstage).symm
    | succ count => exact ih hstage (Nat.lt_of_succ_lt_succ hcount)

theorem eq_none_iff (h : Through wrap stages calls fault) :
    fault = none ↔ calls.length = stages.length ∧ Succeeded calls := by
  induction h with
  | finished => exact iff_of_true rfl ⟨rfl, succeeded_nil⟩
  | refused => exact iff_of_false (fun hnone ↦ nomatch hnone) fun hall ↦ nomatch hall.1
  | failed =>
    refine iff_of_false (fun hnone ↦ nomatch hnone) fun hall ↦ ?_
    exact nomatch hall.2 _ (List.mem_singleton_self _)
  | @answered access word stages calls fault rest ih =>
    calc fault = none
      _ ↔ calls.length = stages.length ∧ Succeeded calls := ih
      _ ↔ calls.length + 1 = stages.length + 1 ∧ Succeeded ((access, .ok word) :: calls) :=
        and_congr Nat.add_right_cancel_iff.symm succeeded_cons_ok.symm

/-- An error is that of the last call, the only one that failed, or it stands against the stage that
comes after the last call. -/
theorem eq_some (h : Through wrap stages calls fault) (hfault : fault = some error) :
    (∃ earlier access cause, calls = earlier ++ [(access, .error cause)] ∧ Succeeded earlier ∧
      error = wrap cause) ∨
    (Succeeded calls ∧ ∃ stage, stages[calls.length]? = some stage ∧ stage.fault = some error) := by
  induction h with
  | finished => exact nomatch hfault
  | refused => exact .inr ⟨succeeded_nil, _, rfl, hfault⟩
  | @failed access cause stages =>
    exact .inl ⟨[], access, cause, rfl, succeeded_nil, (Option.some.inj hfault).symm⟩
  | @answered access word stages calls fault rest ih =>
    rcases ih hfault with ⟨earlier, last, cause, rfl, hearlier, herror⟩ | ⟨hcalls, hstage⟩
    · exact .inl ⟨(access, .ok word) :: earlier, last, cause, rfl, succeeded_cons_ok.2 hearlier,
        herror⟩
    · exact .inr ⟨succeeded_cons_ok.2 hcalls, hstage⟩

end Calls.Through

namespace Session

variable {σ ε α β : Type} {wrap : DeviceError → ε}

def faultOf : Except ε α → Option ε
  | .ok _ => none
  | .error error => some error

@[simp]
theorem faultOf_eq_none_iff {result : Except ε α} :
    faultOf result = none ↔ ∃ a, result = .ok a := by
  cases result with
  | error error => exact iff_of_false (fun h ↦ nomatch h) fun ⟨_, h⟩ ↦ nomatch h
  | ok a => exact iff_of_true rfl ⟨a, rfl⟩

/-- Whether a session on a watched device goes through stages. -/
def GoesThrough (wrap : DeviceError → ε) (stages : List (Stage ε))
    (session : Session (σ × Calls) ε α) : Prop :=
  ∀ state before, ∃ calls, (session.runFrom (state, before)).2.2 = before ++ calls ∧
    Calls.Through wrap stages calls (faultOf (session.runFrom (state, before)).1)

variable {stages rest : List (Stage ε)}

/-- A single access that nothing stands against. -/
theorem Follows.goesThrough {session : Session (σ × Calls) ε α} {access : Access}
    (h : Follows wrap [access] session) : GoesThrough wrap [⟨none, access⟩] session := by
  intro state before
  obtain ⟨calls, hcalls, houtcome⟩ := h state before
  refine ⟨calls, hcalls, ?_⟩
  rcases houtcome with ⟨⟨a, ha⟩, haccesses, hsucceeded⟩ |
      ⟨cause, hcause, earlier, last, later, rfl, -, hplan⟩
  · obtain ⟨⟨made, outcome⟩, rfl, rfl⟩ := List.map_eq_singleton_iff.1 haccesses
    obtain ⟨word, rfl⟩ := hsucceeded _ (List.mem_singleton_self _)
    rw [ha]
    exact .answered .finished
  · rw [hcause]
    cases earlier with
    | nil =>
      obtain ⟨rfl, -⟩ := List.cons.inj hplan
      exact .failed
    | cons first earlier => simp at hplan

theorem GoesThrough.bind {session : Session (σ × Calls) ε α}
    {next : α → Session (σ × Calls) ε β} (h : GoesThrough wrap stages session)
    (hnext : ∀ a, GoesThrough wrap rest (next a)) :
    GoesThrough wrap (stages ++ rest) (session >>= next) := by
  intro state before
  obtain ⟨calls, hcalls, hthrough⟩ := h state before
  cases hrun : session.runFrom (state, before) with
  | mk result after =>
    rw [hrun] at hcalls hthrough
    cases result with
    | error error =>
      rw [runFrom_bind_of_error hrun]
      exact ⟨calls, hcalls, hthrough.append_stages rest⟩
    | ok a =>
      rw [runFrom_bind_of_ok hrun]
      obtain ⟨others, hothers, hrest⟩ := hnext a after.1 after.2
      refine ⟨calls ++ others, ?_, hthrough.append hrest⟩
      rw [hothers, hcalls, List.append_assoc]

theorem GoesThrough.cons {stage : Stage ε} {session : Session (σ × Calls) ε α}
    {next : α → Session (σ × Calls) ε β} (h : GoesThrough wrap [stage] session)
    (hnext : ∀ a, GoesThrough wrap stages (next a)) :
    GoesThrough wrap (stage :: stages) (session >>= next) :=
  h.bind hnext

/-- What is checked first stands against the first access. -/
theorem goesThrough_check {result : Except ε α} {next : α → Session (σ × Calls) ε β}
    {access : Access}
    (h : ∀ a, result = .ok a → GoesThrough wrap (⟨none, access⟩ :: stages) (next a)) :
    GoesThrough wrap (⟨faultOf result, access⟩ :: stages) (ofExcept result >>= next) := by
  intro state before
  have hrun : (ofExcept result : Session (σ × Calls) ε α).runFrom (state, before) =
      (result, state, before) := rfl
  cases hresult : result with
  | error error =>
    rw [hresult] at hrun
    rw [runFrom_bind_of_error hrun]
    exact ⟨[], (List.append_nil before).symm, .refused⟩
  | ok a =>
    rw [hresult] at hrun
    rw [runFrom_bind_of_ok hrun]
    exact h a hresult state before

end Session

end ChipConfig
