import ChipConfig.Device.Memory
import ChipConfig.Device.Programming
import ChipConfig.Proofs.Device.Calls
import ChipConfig.Proofs.RegisterMap.Access

/-!
# Programming makes the allowed writes and no other call

Programming a register file into a device has a plan: the entries of the registers that the map
allows to write, in ascending order.  However the device answers, the calls made are the first ones
of this plan, and they end with the first one that fails.
-/

namespace ChipConfig

namespace RegisterMap

/-- The entries of a file that may be written, in ascending order of the registers. -/
def allowedWrites (map : RegisterMap) (file : RegisterFile) : List (Address × Word) :=
  file.toList.filter fun entry ↦ map.isWritable entry.1

@[simp]
theorem toList_writablePart (map : RegisterMap) (file : RegisterFile) :
    (map.writablePart file).toList = map.allowedWrites file := by
  let allowed : SortedMap Address Word := ⟨map.allowedWrites file, file.words.sorted.filter _⟩
  have hwords : (map.writablePart file).words = allowed := by
    apply SortedMap.eq_of_mem_toList_iff
    rintro ⟨register, word⟩
    have hallowed : (register, word) ∈ allowed.toList ↔
        file.words.get? register = some word ∧ map.isWritable register = true :=
      List.mem_filter.trans (and_congr_left' SortedMap.mem_toList_iff)
    rw [hallowed, SortedMap.mem_toList_iff, get?_writablePart]
    cases map.isWritable register <;> simp
  exact congrArg SortedMap.toList hwords

theorem pairwise_allowedWrites (map : RegisterMap) (file : RegisterFile) :
    (map.allowedWrites file).Pairwise fun a b ↦ a.1 < b.1 :=
  (file.words.sorted.filter _).imp Std.compare_eq_lt.1

theorem pairwise_rejected (map : RegisterMap) (file : RegisterFile) :
    (map.rejected file).Pairwise (· < ·) :=
  (file.words.pairwise_keys.filter _).imp Std.compare_eq_lt.1

end RegisterMap

namespace Device

variable {σ : Type} (device : Device σ)

def writeAccess (entry : Address × Word) : Access :=
  .write entry.1 entry.2

theorem follows_writeAll (words : List (Address × Word)) :
    Session.Follows id (words.map writeAccess) (device.watched.writeAll words) := by
  induction words with
  | nil => exact Session.follows_pure ()
  | cons entry words ih =>
    have hwrite : Session.Follows id [writeAccess entry]
        (device.watched.write entry.1 entry.2) := Session.follows_watch _ _
    exact hwrite.bind fun _ ↦ ih

theorem mirrors_writeAll (words : List (Address × Word)) :
    Session.Mirrors (device.watched.writeAll words) (device.writeAll words) := by
  induction words with
  | nil => exact Session.mirrors_pure ()
  | cons entry words ih =>
    have hwrite : Session.Mirrors (device.watched.write entry.1 entry.2)
        (device.write entry.1 entry.2) := Session.mirrors_watch _ _
    exact hwrite.bind fun _ ↦ ih

theorem follows_program (map : RegisterMap) (file : RegisterFile) :
    Session.Follows id ((map.allowedWrites file).map writeAccess)
      (device.watched.program map file) := by
  rw [← RegisterMap.toList_writablePart, ← List.append_nil (List.map _ _)]
  exact (device.follows_writeAll _).bind fun _ ↦ Session.follows_pure (map.rejected file)

theorem mirrors_program (map : RegisterMap) (file : RegisterFile) :
    Session.Mirrors (device.watched.program map file) (device.program map file) :=
  (device.mirrors_writeAll _).bind fun _ ↦ Session.mirrors_pure _

/-- Where programming ends well, its result are the registers that were left out. -/
theorem eq_rejected_of_runFrom_program {map : RegisterMap} {file : RegisterFile} {state : σ}
    {skipped : List Address} (h : ((device.program map file).runFrom state).1 = .ok skipped) :
    skipped = map.rejected file := by
  cases hwrites : (device.writeAll (map.writablePart file).toList).runFrom state with
  | mk result after =>
    cases result with
    | error cause =>
      rw [program, Session.runFrom_bind_of_error hwrites] at h
      exact nomatch h
    | ok =>
      rw [program, Session.runFrom_bind_of_ok hwrites] at h
      exact (Except.ok.inj h).symm

/-- Programming makes the writes that the map allows in ascending order, up to the first one that
the device fails. -/
theorem program_issues_allowedWrites (map : RegisterMap) (file : RegisterFile) (state : σ) :
    let run := (device.watched.program map file).runFrom (state, [])
    let plan := (map.allowedWrites file).map writeAccess
    ((run.1, run.2.1) = (device.program map file).runFrom state) ∧
    (map.allowedWrites file).Pairwise (fun a b ↦ a.1 < b.1) ∧
    run.2.2.map Prod.fst <+: plan ∧
    ((∃ skipped, run.1 = .ok skipped) ↔
      run.2.2.map Prod.fst = plan ∧ ∀ call ∈ run.2.2, ∃ word, call.2 = .ok word) ∧
    (∀ skipped, run.1 = .ok skipped → skipped.Pairwise (· < ·) ∧
      ∀ register, register ∈ skipped ↔
        file.contains register = true ∧ map.isWritable register = false) ∧
    ∀ cause, run.1 = .error cause → ∃ earlier access,
      run.2.2 = earlier ++ [(access, .error cause)] ∧
        ∀ call ∈ earlier, ∃ word, call.2 = .ok word := by
  intro run plan
  have hfollows := device.follows_program map file
  obtain ⟨hresult, hstate⟩ := device.mirrors_program map file state []
  refine ⟨Prod.ext hresult hstate, map.pairwise_allowedWrites file, hfollows.isPrefix state,
    hfollows.exists_ok_iff state, fun skipped hskipped ↦ ?_, fun cause hcause ↦ ?_⟩
  · have hrejected := device.eq_rejected_of_runFrom_program (hresult.symm.trans hskipped)
    rw [hrejected]
    exact ⟨map.pairwise_rejected file, fun register ↦ RegisterMap.mem_rejected_iff⟩
  · obtain ⟨_, rfl, earlier, access, -, hcalls, hearlier, -⟩ := hfollows.breaksOff state hcause
    exact ⟨earlier, access, hcalls, hearlier⟩

def statusMap : RegisterMap :=
  ⟨.w16, .ofList [(0, ⟨0, .readWrite, []⟩), (7, ⟨7, .readOnly, []⟩)], ∅⟩

def statusFile : RegisterFile :=
  ⟨.w16, .ofList [(0, 0x1234), (7, 3)]⟩

/-- Of two registers one may be written, and a memory of eight bits does not take its word. -/
theorem program_issues_allowedWrites_statusFile :
    let run (width : Width) :=
      (Memory.device.watched.program statusMap statusFile).runFrom (Memory.empty width, [])
    ((run .w16).1 = .ok [7] ∧ (∀ register, register ∈ [7] ↔
        statusFile.contains register = true ∧ statusMap.isWritable register = false) ∧
      (run .w16).2.2.map Prod.fst = [.write 0 0x1234]) ∧
    ∃ cause earlier access, (run ⟨8, by decide, by decide⟩).1 = .error cause ∧
      (run ⟨8, by decide, by decide⟩).2.2 = earlier ++ [(access, .error cause)] := by
  intro run
  obtain ⟨-, -, -, hok, hskipped, -⟩ :=
    Memory.device.program_issues_allowedWrites statusMap statusFile (Memory.empty .w16)
  obtain ⟨-, -, -, -, -, herror⟩ := Memory.device.program_issues_allowedWrites statusMap statusFile
    (Memory.empty ⟨8, by decide, by decide⟩)
  have hend : (run .w16).1 = .ok [7] := by decide +kernel
  have hplan : (statusMap.allowedWrites statusFile).map writeAccess = [.write 0 0x1234] := by
    decide +kernel
  have hfailed : (run ⟨8, by decide, by decide⟩).1 = .error (.bit (.valueTooWide 0x1234 8)) := by
    decide +kernel
  obtain ⟨earlier, access, hcalls, -⟩ := herror _ hfailed
  exact ⟨⟨hend, (hskipped _ hend).2, (hok.1 ⟨_, hend⟩).1.trans hplan⟩, _, earlier, access, hfailed,
    hcalls⟩

end Device

end ChipConfig
