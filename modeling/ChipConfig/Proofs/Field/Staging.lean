import ChipConfig.Proofs.Field.Raw
import ChipConfig.Proofs.InPlace

/-!
# Fields written as a whole

Writing a field collects the new words of all registers before it puts in the first one.  The plain
way is to put every chunk straight into its register, so that each one finds what those before it
have left.  Both ways give the same file and meet the same error; the difference is that the plain
way leaves the registers behind that were reached before the error, and staging leaves none.
-/

namespace ChipConfig.Field

variable {raw : Word} {file : RegisterFile}

def putChunk (raw : Word) (file : RegisterFile) (fragment : Fragment) :
    Except BitError RegisterFile := do
  let word ← fragment.bits.insert file.width (file.get fragment.register) (chunk raw fragment)
  file.set fragment.register word

def putChunks (field : Field) (file : RegisterFile) (raw : Word) :
    Except BitError RegisterFile :=
  field.fragments.foldlM (putChunk raw) file

/-- Staging a chunk is putting it into a file in which all words that wait have been put. -/
theorem putChunk_written (file : RegisterFile) (raw : Word) (pending : List (Address × Word))
    (fragment : Fragment) :
    putChunk raw (written file pending) fragment =
      (stage file raw pending fragment).map (written file) := by
  unfold putChunk stage
  rw [width_written, ← pendingWord_eq_get_written]
  cases hinsert : fragment.bits.insert file.width (pendingWord file pending fragment.register)
      (chunk raw fragment) with
  | error cause => rfl
  | ok word =>
    obtain ⟨-, rfl⟩ := insert_chunk_eq_ok_iff.1 hinsert
    have hfits : (written file pending).width.Fits (fragment.bits.splice file.width
        (pendingWord file pending fragment.register) (chunk raw fragment)) := by
      rw [width_written]
      exact BitRange.fits_splice _ _ _ _
    exact RegisterFile.set_eq_ok_iff.2 ⟨hfits, rfl⟩

theorem foldlM_putChunk_written (file : RegisterFile) (raw : Word)
    (pending : List (Address × Word)) (fragments : List Fragment) :
    fragments.foldlM (putChunk raw) (written file pending) =
      (fragments.foldlM (stage file raw) pending).map (written file) := by
  induction fragments generalizing pending with
  | nil => rfl
  | cons fragment fragments ih =>
    rw [List.foldlM_cons, List.foldlM_cons, putChunk_written]
    cases stage file raw pending fragment with
    | error cause => rfl
    | ok pending => exact ih pending

/-- The words of the whole field put in at the end leave what putting in each chunk at once does. -/
theorem scatter_eq_putChunks (field : Field) (file : RegisterFile) (raw : Word) :
    field.scatter file raw = field.putChunks file raw := by
  have hchunks : field.putChunks file raw =
      (field.fragments.foldlM (stage file raw) []).map (written file) :=
    foldlM_putChunk_written file raw [] field.fragments
  rw [hchunks, scatter]
  cases hstage : field.fragments.foldlM (stage file raw) [] with
  | error cause => rfl
  | ok pending =>
    obtain ⟨-, rfl⟩ := foldlM_stage_eq_ok_iff.1 hstage
    change _ = Except.ok (written file _)
    rw [written_foldl_staged]
    exact foldlM_set_staged file raw field.fragments

/-- Puts the chunks of a raw value into a file that changes with every word. -/
def scatterInPlace (field : Field) (raw : Word) : Session RegisterFile BitError Unit := do
  let file ← get
  let pending ← Session.ofExcept (field.fragments.foldlM (stage file raw) [])
  Session.changeAll (fun file entry ↦ file.set entry.1 entry.2) pending.reverse

def writeRawInPlace (field : Field) (raw : Word) : Session RegisterFile FieldError Unit :=
  if !field.mode.isWritable then
    Session.ofExcept (.error (.notWritable field.name field.mode))
  else if raw &&& ~~~Word.lowMask field.totalBits ≠ 0 then
    Session.ofExcept (.error (.bit (.valueTooWide raw field.totalBits)))
  else
    (field.scatterInPlace raw).mapError .bit

def writeInPlace (field : Field) (value : Value) : Session RegisterFile FieldError Unit :=
  match field.interpretation.toRaw value field.totalBits with
  | .error cause => Session.ofExcept (.error (.invalidValue field.name cause))
  | .ok raw => field.writeRawInPlace raw

section InPlace

variable (field : Field) (raw : Word) (file : RegisterFile)

/-- Once every chunk has found its place no word fails, so an error leaves the file as it was. -/
theorem runFrom_scatterInPlace :
    (field.scatterInPlace raw).runFrom file =
      match field.scatter file raw with
      | .ok after => (.ok (), after)
      | .error cause => (.error cause, file) := by
  let put (pending : List (Address × Word)) : Session RegisterFile BitError Unit :=
    Session.changeAll (fun file entry ↦ file.set entry.1 entry.2) pending.reverse
  have hstart : (field.scatterInPlace raw).runFrom file =
      (Session.ofExcept (field.fragments.foldlM (stage file raw) []) >>= put).runFrom file := rfl
  rw [hstart]
  cases hstage : field.fragments.foldlM (stage file raw) [] with
  | error cause =>
    have hscatter : field.scatter file raw = .error cause := by
      rw [scatter, hstage]
      rfl
    rw [hscatter]
    rfl
  | ok pending =>
    obtain ⟨-, rfl⟩ := foldlM_stage_eq_ok_iff.1 hstage
    have hput := foldlM_set_staged file raw field.fragments
    have hscatter : field.scatter file raw = .ok (depositAll raw file field.fragments) := by
      rw [scatter, hstage]
      exact hput
    rw [hscatter, Session.runFrom_bind_of_ok (Session.runFrom_ofExcept _ _)]
    exact Session.runFrom_changeAll_of_ok hput

theorem runFrom_writeRawInPlace :
    (field.writeRawInPlace raw).runFrom file =
      match field.writeRaw file raw with
      | .ok after => (.ok (), after)
      | .error cause => (.error cause, file) := by
  unfold writeRawInPlace writeRaw
  split
  · rfl
  split
  · rfl
  rw [Session.runFrom_mapError, runFrom_scatterInPlace]
  cases field.scatter file raw <;> rfl

theorem runFrom_writeInPlace (value : Value) :
    (field.writeInPlace value).runFrom file =
      match field.write file value with
      | .ok after => (.ok (), after)
      | .error cause => (.error cause, file) := by
  unfold writeInPlace write
  cases field.interpretation.toRaw value field.totalBits with
  | error cause => rfl
  | ok raw => exact field.runFrom_writeRawInPlace raw file

/-! Whatever the fragments of a field are, a write sets words one by one, and each is checked. -/

theorem keeps_scatterInPlace (width : Width) :
    Session.Keeps (RegisterFile.FitsIn width) (fun _ ↦ True) (field.scatterInPlace raw) := by
  refine Session.keeps_get_bind fun file _ ↦ Session.keeps_ofExcept_bind fun pending _ ↦ ?_
  exact Session.keeps_changeAll (fun _ _ _ hfile hset ↦ hfile.set hset) pending.reverse

theorem keeps_writeRawInPlace (width : Width) :
    Session.Keeps (RegisterFile.FitsIn width) (fun _ ↦ True) (field.writeRawInPlace raw) := by
  unfold writeRawInPlace
  split
  · exact Session.keeps_ofExcept fun _ h ↦ nomatch h
  split
  · exact Session.keeps_ofExcept fun _ h ↦ nomatch h
  exact (field.keeps_scatterInPlace raw width).mapError FieldError.bit

theorem keeps_writeInPlace (value : Value) (width : Width) :
    Session.Keeps (RegisterFile.FitsIn width) (fun _ ↦ True) (field.writeInPlace value) := by
  unfold writeInPlace
  split
  · exact Session.keeps_ofExcept fun _ h ↦ nomatch h
  · next raw _ => exact field.keeps_writeRawInPlace raw width

end InPlace

/-- A chunk is never too long for its fragment, so only the place of the fragment can be wrong. -/
@[simp]
theorem putChunk_eq_error_iff {fragment : Fragment} {cause : BitError} :
    putChunk raw file fragment = .error cause ↔
      fragment.bits.check file.width = .error cause := by
  unfold putChunk
  rw [Fallible.bind_eq_error_iff, BitRange.insert_eq_error_iff (getLsbD_chunk_of_ge raw fragment),
    or_iff_left]
  rintro ⟨word, hinsert, hset⟩
  obtain ⟨-, rfl⟩ := insert_chunk_eq_ok_iff.1 hinsert
  rw [RegisterFile.set_eq_ok_iff.2 ⟨BitRange.fits_splice _ _ _ _, rfl⟩] at hset
  cases hset

@[simp]
theorem putChunk_eq_ok_iff {fragment : Fragment} {after : RegisterFile} :
    putChunk raw file fragment = .ok after ↔
      fragment.bits.Within file.width ∧ after = deposit raw file fragment := by
  simp [putChunk, deposit, BitRange.fits_splice]

/-- The plain way stops at the first fragment that does not lie inside its register. -/
theorem foldlM_putChunk_eq_error_iff {fragments : List Fragment} {cause : BitError} :
    fragments.foldlM (putChunk raw) file = .error cause ↔
      ∃ before fragment after, fragments = before ++ fragment :: after ∧
        (∀ other ∈ before, other.bits.Within file.width) ∧
        fragment.bits.check file.width = .error cause := by
  induction fragments generalizing file with
  | nil => simp
  | cons head rest ih =>
    rw [List.foldlM_cons, Fallible.bind_eq_error_iff, putChunk_eq_error_iff]
    simp only [putChunk_eq_ok_iff, ih]
    constructor
    · rintro (hhead | ⟨_, ⟨hwithin, rfl⟩, before, fragment, after, rfl, hbefore, hfragment⟩)
      · exact ⟨[], head, rest, rfl, List.forall_mem_nil _, hhead⟩
      · exact ⟨head :: before, fragment, after, rfl,
          List.forall_mem_cons.2 ⟨hwithin, hbefore⟩, hfragment⟩
    · rintro ⟨before, fragment, after, hsplit, hbefore, hfragment⟩
      cases before with
      | nil =>
        obtain ⟨rfl, rfl⟩ := List.cons.inj hsplit
        exact .inl hfragment
      | cons first before =>
        obtain ⟨rfl, rfl⟩ := List.cons.inj hsplit
        obtain ⟨hfirst, hbefore⟩ := List.forall_mem_cons.1 hbefore
        exact .inr ⟨_, ⟨hfirst, rfl⟩, before, fragment, after, rfl, hbefore, hfragment⟩

/-- Writing a field puts in its chunks one after the other, but as a whole or not at all. -/
theorem writeRaw_eq_putChunks (field : Field) (file : RegisterFile) (raw : Word) :
    (field.writeRaw file raw =
      if field.mode.isWritable = false then
        .error (.notWritable field.name field.mode)
      else if 2 ^ field.totalBits ≤ raw.toNat then
        .error (.bit (.valueTooWide raw field.totalBits))
      else
        (field.putChunks file raw).mapError FieldError.bit) ∧
    (∀ cause, field.putChunks file raw = .error cause ↔
      ∃ before fragment after, field.fragments = before ++ fragment :: after ∧
        (∀ other ∈ before, other.bits.Within file.width) ∧
        fragment.bits.check file.width = .error cause) ∧
    (field.writeRawInPlace raw).runFrom file =
      match field.writeRaw file raw with
      | .ok after => (.ok (), after)
      | .error cause => (.error cause, file) := by
  refine ⟨?_, fun cause ↦ foldlM_putChunk_eq_error_iff, field.runFrom_writeRawInPlace raw file⟩
  have hwide : raw &&& ~~~Word.lowMask field.totalBits ≠ 0 ↔ 2 ^ field.totalBits ≤ raw.toNat := by
    rw [ne_eq, Word.and_complement_lowMask_eq_zero_iff, ← Word.lt_two_pow_iff, not_lt]
  unfold writeRaw
  rw [scatter_eq_putChunks]
  simp only [hwide, Bool.not_eq_true']
  split
  · rfl
  split
  · rfl
  cases field.putChunks file raw <;> rfl

/-- The second fragment finds in its register what the first one has put there, and a third one that
does not lie inside its register keeps both from being written. -/
example :
    let fragments : List Fragment := [⟨3, ⟨0, 3⟩, 0⟩, ⟨3, ⟨2, 5⟩, 4⟩]
    let field (fragments : List Fragment) : Field :=
      ⟨"F", none, .readWrite, .concatenated fragments, .identity⟩
    (field fragments).writeRaw (.empty .w16) 0xab = .ok ⟨.w16, .ofList [(3, 0x2b)]⟩ ∧
      ((field (fragments ++ [⟨4, ⟨8, 16⟩, 8⟩])).writeRawInPlace 0xab).runFrom (.empty .w16) =
        (.error (.bit (.indexOutOfRange 16 16)), .empty .w16) := by
  decide +kernel

end ChipConfig.Field
