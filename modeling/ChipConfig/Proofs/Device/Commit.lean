import ChipConfig.Device.Commit
import ChipConfig.Device.Memory
import ChipConfig.Proofs.Device.Stages
import ChipConfig.Proofs.Device.Streaming

/-!
# The commit sequence never runs ahead

Committing registers takes five accesses, three of them with a word made of a bit that may turn out
not to exist.  A bit is looked at only when the access before it has succeeded.  Whatever the device
answers and wherever it fails, the accesses come in this order and none comes after a failure; the
copy is started last, with the page still selected.
-/

namespace ChipConfig.CommitSequence

variable {σ : Type} (interface : EepromInterface) (sequence : CommitSequence) (device : Device σ)

@[simp]
theorem singleBit_eq_ok_iff {bit : Nat} {word : Word} :
    singleBit bit = .ok word ↔ bit < 64 ∧ BitVec.twoPow 64 bit = word := by
  rw [singleBit]
  by_cases hbit : bit < 64
  · rw [if_pos hbit, and_iff_right hbit]
    exact ⟨Except.ok.inj, congrArg Except.ok⟩
  · rw [if_neg hbit]
    exact iff_of_false (fun h ↦ nomatch h) fun h ↦ hbit h.1

@[simp]
theorem faultOf_singleBit_eq_none_iff {bit : Nat} :
    Session.faultOf (singleBit bit) = none ↔ bit < 64 := by
  rw [singleBit]
  split <;> simp_all [Session.faultOf]

theorem faultOf_singleBit_eq_some_iff {bit : Nat} {error : EepromError} :
    Session.faultOf (singleBit bit) = some error ↔
      64 ≤ bit ∧ error = .bit (.indexOutOfRange bit 64) := by
  rw [singleBit]
  split <;> simp_all [Session.faultOf, eq_comm]

/-- The bit that is needed for the next access when that many have succeeded. -/
def bitAfter : Nat → Option Nat
  | 1 => some sequence.calibrationBit
  | 2 => some sequence.pageBit
  | 4 => some sequence.commitBit
  | _ => none

/-- The accesses of a commit, where the calibration register is read as `live`. -/
def plan (live : Word) : List Access :=
  let page := BitVec.twoPow 64 sequence.pageBit
  [.read sequence.calibrationRegister,
    .write sequence.calibrationRegister (live ||| BitVec.twoPow 64 sequence.calibrationBit),
    .write sequence.commitRegister page,
    .write interface.lockRegister interface.unlockWord,
    .write sequence.commitRegister (page ||| BitVec.twoPow 64 sequence.commitBit)]

/-- The accesses with the bits that are needed for them. -/
def stages (live : Word) : List (Stage EepromError) :=
  (plan interface sequence live).mapIdx fun count access ↦
    ⟨(sequence.bitAfter count).bind fun bit ↦ Session.faultOf (singleBit bit), access⟩

def afterRead (live : Word) : Session σ EepromError Unit := do
  let calibration ← Session.ofExcept (singleBit sequence.calibrationBit)
  EepromInterface.writeWord device sequence.calibrationRegister (live ||| calibration)
  let page ← Session.ofExcept (singleBit sequence.pageBit)
  EepromInterface.writeWord device sequence.commitRegister page
  interface.unlock device
  let commit ← Session.ofExcept (singleBit sequence.commitBit)
  EepromInterface.writeWord device sequence.commitRegister (page ||| commit)

theorem goesThrough_afterRead (live : Word) :
    Session.GoesThrough EepromError.device (stages interface sequence live).tail
      (afterRead interface sequence device.watched live) := by
  have hwrite (address : Address) (word : Word) :
      Session.GoesThrough EepromError.device [⟨none, .write address word⟩]
        (EepromInterface.writeWord device.watched address word) :=
    (EepromInterface.follows_writeWord device address word).goesThrough
  -- Every check gives the word of the write after it, so it stands against this write.
  apply Session.goesThrough_check
  intro calibration hcalibration
  obtain ⟨-, rfl⟩ := singleBit_eq_ok_iff.1 hcalibration
  refine (hwrite _ _).cons fun _ ↦ ?_
  apply Session.goesThrough_check
  intro page hpage
  obtain ⟨-, rfl⟩ := singleBit_eq_ok_iff.1 hpage
  refine (hwrite _ _).cons fun _ ↦ ?_
  refine (hwrite _ _).cons fun _ ↦ ?_
  apply Session.goesThrough_check
  intro commit hcommit
  obtain ⟨-, rfl⟩ := singleBit_eq_ok_iff.1 hcommit
  exact hwrite _ _

/-- A commit goes through the stages of the word that it reads first. -/
theorem run_through (state : σ) :
    let run := (sequence.run interface device.watched).runFrom (state, [])
    ∃ live, (∀ access word, run.2.2.head? = some (access, .ok word) → word = live) ∧
      Calls.Through EepromError.device (stages interface sequence live) run.2.2
        (Session.faultOf run.1) := by
  intro run
  have hread : (EepromInterface.readWord device.watched sequence.calibrationRegister).runFrom
        (state, []) =
      (((device.read sequence.calibrationRegister).runFrom state).1.mapError EepromError.device,
        ((device.read sequence.calibrationRegister).runFrom state).2,
        [(.read sequence.calibrationRegister,
          ((device.read sequence.calibrationRegister).runFrom state).1)]) := rfl
  cases hanswer : ((device.read sequence.calibrationRegister).runFrom state).1 with
  | error cause =>
    rw [hanswer] at hread
    have hrun : run = _ := Session.runFrom_bind_of_error hread _
    rw [hrun]
    exact ⟨0, fun _ _ h ↦ (nomatch h), .failed⟩
  | ok live =>
    rw [hanswer] at hread
    have hrun : run = (afterRead interface sequence device.watched live).runFrom _ :=
      Session.runFrom_bind_of_ok hread _
    obtain ⟨calls, hcalls, hthrough⟩ :=
      goesThrough_afterRead interface sequence device live
        ((device.read sequence.calibrationRegister).runFrom state).2
        [(.read sequence.calibrationRegister, .ok live)]
    rw [hrun, hcalls]
    refine ⟨live, fun access word h ↦ ?_, .answered hthrough⟩
    obtain ⟨-, hword⟩ := Prod.ext_iff.1 (Option.some.inj h)
    exact (Except.ok.inj hword).symm

theorem mirrors_run :
    Session.Mirrors (sequence.run interface device.watched) (sequence.run interface device) := by
  have hcheck (bit : Nat) : Session.Mirrors (Session.ofExcept (singleBit bit) :
      Session (σ × Calls) EepromError Word) (Session.ofExcept (singleBit bit)) :=
    fun _ _ ↦ ⟨rfl, rfl⟩
  have hread : Session.Mirrors (device.watched.read sequence.calibrationRegister)
      (device.read sequence.calibrationRegister) := Session.mirrors_watch _ _
  refine (hread.mapError EepromError.device).bind fun live ↦ ?_
  refine (hcheck _).bind fun calibration ↦ ?_
  refine (EepromInterface.mirrors_writeWord device _ _).bind fun _ ↦ ?_
  refine (hcheck _).bind fun page ↦ ?_
  refine (EepromInterface.mirrors_writeWord device _ _).bind fun _ ↦ ?_
  refine (EepromInterface.mirrors_writeWord device _ _).bind fun _ ↦ ?_
  exact (hcheck _).bind fun commit ↦ EepromInterface.mirrors_writeWord device _ _

section Stages

variable {live : Word} {calls : Calls} {fault : Option EepromError}

theorem stages_getElem? (count : Nat) :
    (stages interface sequence live)[count]? = ((plan interface sequence live)[count]?).map
      fun access ↦
        ⟨(sequence.bitAfter count).bind fun bit ↦ Session.faultOf (singleBit bit), access⟩ :=
  List.getElem?_mapIdx

/-- A bit that was needed for an access does exist. -/
theorem lt_of_bitAfter
    (h : Calls.Through EepromError.device (stages interface sequence live) calls fault)
    {count bit : Nat} (hbit : sequence.bitAfter count = some bit) (hcount : count < calls.length) :
    bit < 64 := by
  have hlength : count < (plan interface sequence live).length :=
    calc count
      _ < (calls.map Prod.fst).length := by rwa [List.length_map]
      _ ≤ (plan interface sequence live).length := h.isPrefix.length_le
  have hstage : (stages interface sequence live)[count]? = _ :=
    stages_getElem? interface sequence count
  rw [List.getElem?_eq_getElem hlength, hbit] at hstage
  exact faultOf_singleBit_eq_none_iff.1 (h.fault_eq_none hstage hcount)

/-- What stands against the next access is that the bit needed for it does not exist. -/
theorem bitAfter_of_fault {count : Nat} {stage : Stage EepromError} {error : EepromError}
    (hstage : (stages interface sequence live)[count]? = some stage)
    (hfault : stage.fault = some error) :
    ∃ bit, sequence.bitAfter count = some bit ∧ 64 ≤ bit ∧
      error = .bit (.indexOutOfRange bit 64) := by
  rw [stages_getElem?] at hstage
  obtain ⟨access, -, rfl⟩ := Option.map_eq_some_iff.1 hstage
  obtain ⟨bit, hbit, herror⟩ := Option.bind_eq_some_iff.1 hfault
  exact ⟨bit, hbit, faultOf_singleBit_eq_some_iff.1 herror⟩

end Stages

/-- A commit makes the accesses of its plan in order.  None is made before those ahead of it have
succeeded and the bits for it are known to exist. -/
theorem run_never_runs_ahead (state : σ) :
    let run := (sequence.run interface device.watched).runFrom (state, [])
    let calls := run.2.2
    ((run.1, run.2.1) = (sequence.run interface device).runFrom state) ∧
    (∃ live, (∀ access word, calls.head? = some (access, .ok word) → word = live) ∧
      calls.map Prod.fst <+:
        [.read sequence.calibrationRegister,
          .write sequence.calibrationRegister (live ||| BitVec.twoPow 64 sequence.calibrationBit),
          .write sequence.commitRegister (BitVec.twoPow 64 sequence.pageBit),
          .write interface.lockRegister interface.unlockWord,
          .write sequence.commitRegister
            (BitVec.twoPow 64 sequence.pageBit ||| BitVec.twoPow 64 sequence.commitBit)]) ∧
    (∀ call ∈ calls.dropLast, ∃ word, call.2 = .ok word) ∧
    (∀ count bit, sequence.bitAfter count = some bit → count < calls.length → bit < 64) ∧
    (∀ access outcome, calls[4]? = some (access, outcome) →
      (∀ call ∈ calls.take 4, ∃ word, call.2 = .ok word) ∧
      ∃ word, access = .write sequence.commitRegister word ∧
        word.getLsbD sequence.pageBit = true) ∧
    (run.1 = .ok () ↔
      (calls.length = 5 ∧ ∀ call ∈ calls, ∃ word, call.2 = .ok word) ∧
        sequence.calibrationBit < 64 ∧ sequence.pageBit < 64 ∧ sequence.commitBit < 64) ∧
    ∀ error, run.1 = .error error →
      (∃ earlier access cause, calls = earlier ++ [(access, .error cause)] ∧
        (∀ call ∈ earlier, ∃ word, call.2 = .ok word) ∧ error = .device cause) ∨
      (∀ call ∈ calls, ∃ word, call.2 = .ok word) ∧ ∃ bit,
        sequence.bitAfter calls.length = some bit ∧ 64 ≤ bit ∧
          error = .bit (.indexOutOfRange bit 64) := by
  intro run calls
  obtain ⟨hresult, hstate⟩ := mirrors_run interface sequence device state []
  obtain ⟨live, hlive, hthrough⟩ := run_through interface sequence device state
  have hprefix : calls.map Prod.fst <+: plan interface sequence live := hthrough.isPrefix
  have hlength : calls.length ≤ 5 :=
    calc calls.length
      _ = (calls.map Prod.fst).length := (List.length_map Prod.fst).symm
      _ ≤ 5 := hprefix.length_le
  have hbits (count bit : Nat) : sequence.bitAfter count = some bit → count < calls.length →
      bit < 64 :=
    lt_of_bitAfter interface sequence hthrough
  refine ⟨Prod.ext hresult hstate, ⟨live, hlive, hprefix⟩, hthrough.succeeded_dropLast, hbits,
    fun access outcome hcall ↦ ?_, ?_, fun error herror ↦ ?_⟩
  · obtain ⟨hcount, hfifth⟩ := List.getElem?_eq_some_iff.1 hcall
    have hlast : calls.take 4 = calls.dropLast := by
      rw [List.dropLast_eq_take, show calls.length - 1 = 4 by omega]
    have haccess : (plan interface sequence live)[4]? = some access := by
      rw [List.prefix_iff_getElem?.1 hprefix 4 (by rwa [List.length_map]), List.getElem_map, hfifth]
    refine ⟨hlast ▸ hthrough.succeeded_dropLast, _, (Option.some.inj haccess).symm, ?_⟩
    have hpage : sequence.pageBit < 64 := hbits 2 _ rfl (by omega)
    simp [hpage]
  · have hok : run.1 = .ok () ↔ calls.length = 5 ∧ Calls.Succeeded calls :=
      calc run.1 = .ok ()
        _ ↔ ∃ a, run.1 = .ok a := ⟨fun h ↦ ⟨(), h⟩, fun ⟨_, h⟩ ↦ h⟩
        _ ↔ Session.faultOf run.1 = none := Session.faultOf_eq_none_iff.symm
        _ ↔ calls.length = 5 ∧ Calls.Succeeded calls := hthrough.eq_none_iff
    refine ⟨fun h ↦ ?_, fun h ↦ hok.2 h.1⟩
    obtain ⟨hfive, hcalls⟩ := hok.1 h
    exact ⟨⟨hfive, hcalls⟩, hbits 1 _ rfl (by omega), hbits 2 _ rfl (by omega),
      hbits 4 _ rfl (by omega)⟩
  · have hfault : Session.faultOf run.1 = some error := by rw [herror]; rfl
    rcases hthrough.eq_some hfault with hfailed | ⟨hcalls, stage, hstage, hstageFault⟩
    · exact .inl hfailed
    · exact .inr ⟨hcalls, bitAfter_of_fault interface sequence hstage hstageFault⟩

/-- A sequence that ends at a bit that no register has. -/
def endless : CommitSequence :=
  { cdce6214 with commitBit := 70 }

theorem run_never_runs_ahead_endless :
    let run (sequence : CommitSequence) :=
      (sequence.run .cdce6214 Memory.device.watched).runFrom (Memory.empty .w16, [])
    ((run cdce6214).1 = .ok () ∧ (run cdce6214).2.2.length = 5 ∧
      ∃ word outcome, (run cdce6214).2.2[4]? = some (.write 3 word, outcome) ∧
        word.getLsbD 9 = true) ∧
    (run endless).1 = .error (.bit (.indexOutOfRange 70 64)) ∧
      ∀ call ∈ (run endless).2.2, ∃ word, call.2 = .ok word := by
  intro run
  obtain ⟨-, -, -, -, hfifth, hok, -⟩ :=
    run_never_runs_ahead .cdce6214 cdce6214 Memory.device (Memory.empty .w16)
  obtain ⟨-, -, -, -, -, -, herror⟩ :=
    run_never_runs_ahead .cdce6214 endless Memory.device (Memory.empty .w16)
  have hend : (run cdce6214).1 = .ok () := by decide +kernel
  have hcall : (run cdce6214).2.2[4]? = some (.write 3 0x600, .ok 0x600) := by decide +kernel
  have hfailed : (run endless).1 = .error (.bit (.indexOutOfRange 70 64)) := by decide +kernel
  refine ⟨⟨hend, (hok.1 hend).1.1, ?_⟩, hfailed, ?_⟩
  · obtain ⟨-, word, hword, hpage⟩ := hfifth _ _ hcall
    exact ⟨0x600, _, hcall, (Access.write.inj hword).2 ▸ hpage⟩
  · rcases herror _ hfailed with ⟨_, _, _, -, -, hdevice⟩ | ⟨hcalls, -⟩
    · cases hdevice
    · exact hcalls

end ChipConfig.CommitSequence
