import ChipConfig.Proofs.Fragment

/-!
# What a field draft keeps

However the pieces of a field turn up, a draft has them in the order of their offsets and without
overlap, each inside a register that is known, and it allows what all of these registers allow.  A
draft of which this holds becomes a field whose fragments tile it, or nothing.
-/

namespace ChipConfig

namespace AccessMode

@[simp]
theorem meet_self (mode : AccessMode) : mode.meet mode = mode := by
  cases mode <;> rfl

@[simp]
theorem isReadable_meet (a b : AccessMode) :
    (a.meet b).isReadable = (a.isReadable && b.isReadable) := by
  cases a <;> cases b <;> rfl

@[simp]
theorem isWritable_meet (a b : AccessMode) :
    (a.meet b).isWritable = (a.isWritable && b.isWritable) := by
  cases a <;> cases b <;> rfl

end AccessMode

namespace Fragment

/-- Whether the registers of fragments all allow a kind of access, given the modes of registers. -/
def AllAllow (modes : Address → Option AccessMode) (access : AccessMode → Bool)
    (fragments : List Fragment) : Prop :=
  ∀ fragment ∈ fragments, (modes fragment.register).any access = true

theorem allAllow_nil (modes : Address → Option AccessMode) (access : AccessMode → Bool) :
    AllAllow modes access [] :=
  fun _ h ↦ nomatch h

theorem allAllow_iff_of_perm {modes : Address → Option AccessMode} {mode : AccessMode}
    {fragment : Fragment} {fragments others : List Fragment}
    (hperm : fragments.Perm (fragment :: others)) (hmode : modes fragment.register = some mode)
    (access : AccessMode → Bool) :
    AllAllow modes access fragments ↔ access mode = true ∧ AllAllow modes access others := by
  unfold AllAllow
  simp only [hperm.mem_iff, List.forall_mem_cons, hmode, Option.any_some]

end Fragment

namespace FieldDraft

variable {width : Width} {modes : Address → Option AccessMode} {draft result : FieldDraft}

theorem insertByOffset_perm (fragment : Fragment) (fragments : List Fragment) :
    (insertByOffset fragment fragments).Perm (fragment :: fragments) := by
  induction fragments with
  | nil => exact .refl _
  | cons head rest ih =>
    rw [insertByOffset]
    split
    · exact .refl _
    · exact (ih.cons _).trans (.swap _ _ _)

/-- A fragment that overlaps none of a list finds a place in its order. -/
theorem pairwise_insertByOffset {fragment : Fragment} {fragments : List Fragment}
    (h : fragments.Pairwise Fragment.Before)
    (hfree : ∀ other ∈ fragments, other.Before fragment ∨ fragment.Before other) :
    (insertByOffset fragment fragments).Pairwise Fragment.Before := by
  have hlength := fragment.length_pos
  induction fragments with
  | nil => exact List.pairwise_singleton _ _
  | cons head rest ih =>
    obtain ⟨hhead, hrest⟩ := List.pairwise_cons.1 h
    obtain ⟨hfreeHead, hfreeRest⟩ := List.forall_mem_cons.1 hfree
    have hlengthHead := head.length_pos
    unfold Fragment.Before at hfreeHead hhead
    rw [insertByOffset]
    split
    · next hlt =>
      have hbefore : fragment.Before head := by
        unfold Fragment.Before
        omega
      refine List.pairwise_cons.2 ⟨fun other hother ↦ ?_, h⟩
      rcases List.mem_cons.1 hother with rfl | hother
      · exact hbefore
      · have := hhead other hother
        unfold Fragment.Before at hbefore ⊢
        omega
    · next hge =>
      refine List.pairwise_cons.2 ⟨fun other hother ↦ ?_, ih hrest hfreeRest⟩
      rw [(insertByOffset_perm fragment rest).mem_iff, List.mem_cons] at hother
      unfold Fragment.Before
      rcases hother with rfl | hother
      · omega
      · exact hhead other hother

/-- Where the fragments of a draft are: in order and without overlap inside their field, and each
inside a register that has a mode.  The interpretation, if there is one, makes sense. -/
structure Placed (width : Width) (modes : Address → Option AccessMode) (draft : FieldDraft) :
    Prop where
  before : draft.layout.fragments.Pairwise Fragment.Before
  ends : ∀ fragment ∈ draft.layout.fragments, fragment.offset + fragment.length ≤ 64
  within : ∀ fragment ∈ draft.layout.fragments, fragment.bits.Within width
  known : ∀ fragment ∈ draft.layout.fragments, ∃ mode, modes fragment.register = some mode
  validate : ∀ interpretation, draft.interpretation = some interpretation →
    interpretation.validate = .ok ()

/-- What holds of a draft from its first piece on: its fragments have their places, and it allows
what all of their registers allow. -/
structure Valid (width : Width) (modes : Address → Option AccessMode) (draft : FieldDraft) :
    Prop extends Placed width modes draft where
  ne_nil : draft.layout.fragments ≠ []
  isReadable_iff : draft.mode.isReadable = true ↔
    Fragment.AllAllow modes AccessMode.isReadable draft.layout.fragments
  isWritable_iff : draft.mode.isWritable = true ↔
    Fragment.AllAllow modes AccessMode.isWritable draft.layout.fragments

/-- A draft with its fragments in their places is valid if it allows what the register of one
fragment and those of all others allow. -/
theorem Placed.valid_of_perm {mode : AccessMode} {fragment : Fragment} {others : List Fragment}
    (hplaced : draft.Placed width modes)
    (hperm : draft.layout.fragments.Perm (fragment :: others))
    (hmode : modes fragment.register = some mode)
    (hreadable : draft.mode.isReadable = true ↔
      mode.isReadable = true ∧ Fragment.AllAllow modes AccessMode.isReadable others)
    (hwritable : draft.mode.isWritable = true ↔
      mode.isWritable = true ∧ Fragment.AllAllow modes AccessMode.isWritable others) :
    draft.Valid width modes := by
  refine { hplaced with ne_nil := ?_, isReadable_iff := ?_, isWritable_iff := ?_ }
  · exact fun hnil ↦ List.cons_ne_nil _ _ (List.nil_perm.1 (hnil ▸ hperm))
  · rwa [Fragment.allAllow_iff_of_perm hperm hmode]
  · rwa [Fragment.allAllow_iff_of_perm hperm hmode]

/-- Registers that turn up later do not matter to a draft. -/
theorem Valid.mono {modes' : Address → Option AccessMode} (hdraft : draft.Valid width modes)
    (h : ∀ register mode, modes register = some mode → modes' register = some mode) :
    draft.Valid width modes' := by
  have hallow (access : AccessMode → Bool) :
      Fragment.AllAllow modes access draft.layout.fragments ↔
        Fragment.AllAllow modes' access draft.layout.fragments := by
    refine forall₂_congr fun fragment hfragment ↦ ?_
    obtain ⟨mode, hmode⟩ := hdraft.known fragment hfragment
    rw [hmode, h _ _ hmode]
  refine { hdraft with known := ?_, isReadable_iff := ?_, isWritable_iff := ?_ }
  · intro fragment hfragment
    obtain ⟨mode, hmode⟩ := hdraft.known fragment hfragment
    exact ⟨mode, h _ _ hmode⟩
  · rw [← hallow]
    exact hdraft.isReadable_iff
  · rw [← hallow]
    exact hdraft.isWritable_iff

section Piece

variable {mode : AccessMode} {register : Address} {entry : FieldEntry}
  {interpretation : Option Interpretation}

theorem placed_start (mode : AccessMode) (entry : FieldEntry) :
    (start mode entry).Placed width modes where
  before := .nil
  ends _ h := nomatch h
  within _ h := nomatch h
  known _ h := nomatch h
  validate _ h := nomatch h

/-- Agreement takes the interpretation that was given last. -/
theorem agreeOn_eq_ok_iff {field : String} {known given agreed : Option Interpretation} :
    agreeOn field known given = .ok agreed ↔
      (∀ i, known = some i → ∀ j, given = some j → i.agrees j = true) ∧
        agreed = given.or known := by
  cases known with
  | none => cases given <;> simp only [agreeOn, Fallible.ok_eq_ok_iff] <;> simp
  | some i =>
    cases given with
    | none =>
      simp only [agreeOn, Fallible.ok_eq_ok_iff]
      simp
    | some j =>
      rw [agreeOn]
      split
      · next h =>
        rw [Fallible.ok_eq_ok_iff]
        simp [h]
      · next h => simp [h]

theorem eq_or_eq_of_agreeOn {field : String} {known given agreed : Option Interpretation}
    (h : agreeOn field known given = .ok agreed) : agreed = known ∨ agreed = given := by
  obtain ⟨-, rfl⟩ := agreeOn_eq_ok_iff.1 h
  cases given with
  | none => exact .inl rfl
  | some i => exact .inr rfl

theorem addPiece_eq_ok_iff {field : String} {fieldBits : BitRange} :
    draft.addPiece field mode register entry fieldBits interpretation = .ok result ↔
      ∃ fragments agreed, draft.layout = .concatenated fragments ∧
        occupied fragments &&&
          (Fragment.mk register entry.bits fieldBits.low).fieldMask = 0 ∧
        agreeOn field draft.interpretation interpretation = .ok agreed ∧
        result = {
          mode := draft.mode.meet mode
          description := draft.description
          interpretation := agreed
          layout := .concatenated
            (insertByOffset ⟨register, entry.bits, fieldBits.low⟩ fragments) } := by
  unfold addPiece
  cases draft.layout with
  | single fragment => simp
  | concatenated fragments => simp

variable (hbits : entry.bits.Within width) (hmode : modes register = some mode)
  (hinterpretation : ∀ given, interpretation = some given → given.validate = .ok ())

include hbits hmode hinterpretation

theorem placed_plain : (plain mode register entry interpretation).Placed width modes where
  before := List.pairwise_singleton _ _
  ends fragment hfragment := by
    rw [List.mem_singleton.1 hfragment]
    have hlength := hbits.low_add_length
    have hhigh := hbits.2
    have hmax := width.le_max
    change 0 + entry.bits.length ≤ 64
    omega
  within fragment hfragment := by
    rwa [List.mem_singleton.1 hfragment]
  known fragment hfragment := by
    rw [List.mem_singleton.1 hfragment]
    exact ⟨mode, hmode⟩
  validate := hinterpretation

/-- A draft without annotations has its only piece from bit 0 on. -/
theorem valid_plain : (plain mode register entry interpretation).Valid width modes :=
  (placed_plain hbits hmode hinterpretation).valid_of_perm (.refl _) hmode
    (and_iff_left (Fragment.allAllow_nil _ _)).symm
    (and_iff_left (Fragment.allAllow_nil _ _)).symm

/-- A further piece adds its fragment to those of a draft, and its register to those that have to
allow an access. -/
theorem placed_addPiece (hdraft : draft.Placed width modes) {field : String}
    {fieldBits : BitRange} (hend : fieldBits.low + entry.bits.length ≤ 64)
    (h : draft.addPiece field mode register entry fieldBits interpretation = .ok result) :
    result.Placed width modes ∧
      result.layout.fragments.Perm
        (⟨register, entry.bits, fieldBits.low⟩ :: draft.layout.fragments) ∧
      result.mode = draft.mode.meet mode := by
  obtain ⟨fragments, agreed, hlayout, hfree, hagreed, rfl⟩ := addPiece_eq_ok_iff.1 h
  have hfragments : draft.layout.fragments = fragments := by
    rw [hlayout]
    rfl
  have hperm : (insertByOffset ⟨register, entry.bits, fieldBits.low⟩ fragments).Perm
      (⟨register, entry.bits, fieldBits.low⟩ :: draft.layout.fragments) := by
    rw [hfragments]
    exact insertByOffset_perm _ _
  have hall {p : Fragment → Prop} (hnew : p ⟨register, entry.bits, fieldBits.low⟩)
      (hold : ∀ fragment ∈ draft.layout.fragments, p fragment) :
      ∀ fragment ∈ insertByOffset ⟨register, entry.bits, fieldBits.low⟩ fragments, p fragment := by
    simp only [hperm.mem_iff, List.forall_mem_cons]
    exact ⟨hnew, hold⟩
  refine ⟨⟨?_, hall hend hdraft.ends, hall hbits hdraft.within,
    hall ⟨mode, hmode⟩ hdraft.known, ?_⟩, hperm, rfl⟩
  · have hbefore := hdraft.before
    rw [hfragments] at hbefore
    exact pairwise_insertByOffset hbefore (Fragment.before_or_before_of_occupied hend hfree)
  · intro given hgiven
    change agreed = some given at hgiven
    rcases eq_or_eq_of_agreeOn hagreed with hknown | hnew
    · exact hdraft.validate given (hknown ▸ hgiven)
    · exact hinterpretation given (hnew ▸ hgiven)

/-- A draft is valid after a further piece, be it the first one or not. -/
theorem valid_addPiece {known : Option FieldDraft}
    (hknown : ∀ draft, known = some draft → draft.Valid width modes) {field : String}
    {fieldBits : BitRange} (hend : fieldBits.low + entry.bits.length ≤ 64)
    (h : (known.getD (start mode entry)).addPiece field mode register entry fieldBits
      interpretation = .ok result) :
    result.Valid width modes ∧
      result.layout.fragments.Perm (⟨register, entry.bits, fieldBits.low⟩ ::
        (known.map fun draft ↦ draft.layout.fragments).getD []) := by
  cases known with
  | none =>
    obtain ⟨hplaced, hperm, hmeet⟩ :=
      placed_addPiece hbits hmode hinterpretation (placed_start mode entry) hend h
    have hsame : result.mode = mode := hmeet.trans mode.meet_self
    refine ⟨hplaced.valid_of_perm hperm hmode ?_ ?_, hperm⟩
    · rw [hsame]
      exact (and_iff_left (Fragment.allAllow_nil _ _)).symm
    · rw [hsame]
      exact (and_iff_left (Fragment.allAllow_nil _ _)).symm
  | some draft =>
    have hdraft := hknown draft rfl
    obtain ⟨hplaced, hperm, hmeet⟩ :=
      placed_addPiece hbits hmode hinterpretation hdraft.toPlaced hend h
    refine ⟨hplaced.valid_of_perm hperm hmode ?_ ?_, hperm⟩
    · rw [hmeet, AccessMode.isReadable_meet, Bool.and_eq_true, hdraft.isReadable_iff, and_comm]
    · rw [hmeet, AccessMode.isWritable_meet, Bool.and_eq_true, hdraft.isWritable_iff, and_comm]

end Piece

/-! ## The finished field -/

def toField (draft : FieldDraft) (name : String) : Field where
  name := name
  description := draft.description
  mode := draft.mode
  layout := draft.layout
  interpretation := draft.interpretation.getD .identity

/-- Whether the fragments of a draft give all bits of a field that fits a machine word. -/
def Complete (draft : FieldDraft) : Prop :=
  Fragment.totalLength draft.layout.fragments ≤ 64 ∧
    occupied draft.layout.fragments =
      Word.lowMask (Fragment.totalLength draft.layout.fragments)

@[simp]
theorem finish_eq_ok_iff {name : String} {field : Field} :
    draft.finish name = .ok field ↔ draft.Complete ∧ field = draft.toField name := by
  simp [finish, Complete, toField, and_assoc]

/-- Fragments in order inside a machine word are complete if they give the bits below some number
and no others. -/
theorem complete_iff (hbefore : draft.layout.fragments.Pairwise Fragment.Before)
    (hends : ∀ fragment ∈ draft.layout.fragments, fragment.offset + fragment.length ≤ 64) :
    draft.Complete ↔
      ∃ n, ∀ j, j < n ↔ ∃ fragment ∈ draft.layout.fragments, fragment.Gives j := by
  constructor
  · intro h
    have htiles := Fragment.tilesFrom_of_occupied hbefore h.1 h.2
    exact ⟨_, fun j ↦ htiles.exists_gives_iff.symm⟩
  · intro h
    obtain ⟨n, hn⟩ := h
    have htiles := Fragment.tilesFrom_of_gives_iff hbefore hn
    refine ⟨?_, htiles.occupied_eq⟩
    by_cases hne : draft.layout.fragments = []
    · rw [hne]
      exact Nat.zero_le _
    · obtain ⟨last, hmem, hend⟩ := Fragment.exists_end_ge hne hbefore fun _ _ ↦ Nat.zero_le _
      have := hends last hmem
      omega

theorem Valid.tilesFrom (hdraft : draft.Valid width modes) (h : draft.Complete) :
    Fragment.TilesFrom 0 draft.layout.fragments :=
  Fragment.tilesFrom_of_occupied hdraft.before h.1 h.2

theorem Valid.validate_toField (hdraft : draft.Valid width modes) (name : String) :
    (draft.toField name).interpretation.validate = .ok () := by
  unfold toField
  cases hinterpretation : draft.interpretation with
  | none => rfl
  | some interpretation => exact hdraft.validate interpretation hinterpretation

end FieldDraft

end ChipConfig
