import ChipConfig.Proofs.Interpretation
import ChipConfig.Proofs.RegisterMap.Compile

/-!
# Pieces that make up a field

The pieces of a field turn up in any order, between pieces of other fields.  Whether they fit
together does not depend on the order: either a piece without annotation is the only one of its
name, or all pieces of the name say which bits of the field they give, no bit is given twice, and
the interpretations given with them agree.  A draft that has taken in such pieces holds exactly
their fragments.
-/

namespace ChipConfig

open scoped List

namespace FieldEntry

/-- The name of the field that a piece belongs to, without annotations. -/
def base? (entry : FieldEntry) : Option String :=
  (FieldName.ofText? entry.name).map FieldName.base

/-- The bits of the field that a piece says it gives. -/
def fieldBits? (entry : FieldEntry) : Option BitRange :=
  (FieldName.ofText? entry.name).bind FieldName.fieldBits

/-- Whether a piece says that it gives a bit of its field. -/
def GivesBit (entry : FieldEntry) (j : Nat) : Prop :=
  ∃ range, entry.fieldBits? = some range ∧ range.Covers j

/-- The interpretation that a piece gives its field. -/
def given? (registry : InterpretationRegistry) (entry : FieldEntry) : Option Interpretation :=
  entry.interpretation.bind (InterpretationRef.lookup? registry)

/-- What a piece has to be by itself: it lies in its register, its name can be read and has
brackets as long as the piece, the bits of the field fit a machine word, and the interpretation, if
one is meant, exists and makes sense. -/
structure WellFormed (width : Width) (registry : InterpretationRegistry) (entry : FieldEntry) :
    Prop where
  within : entry.bits.Within width
  name : ∃ name, FieldName.ofText? entry.name = some name ∧
    (∀ range, name.registerBits = some range → range.length = entry.bits.length) ∧
    ∀ range, name.fieldBits = some range → range.length = entry.bits.length ∧ range.high < 64
  interpretation : ∀ ref, entry.interpretation = some ref →
    ∃ interpretation, ref.lookup? registry = some interpretation ∧
      interpretation.validate = .ok ()

variable {width : Width} {registry : InterpretationRegistry} {entry : FieldEntry}

namespace WellFormed

theorem fieldBits (h : entry.WellFormed width registry) {range : BitRange}
    (hrange : entry.fieldBits? = some range) :
    range.low + entry.bits.length = range.high + 1 ∧ range.high < 64 := by
  obtain ⟨name, hname, -, hbits⟩ := h.name
  rw [fieldBits?, hname] at hrange
  obtain ⟨hlength, hhigh⟩ := hbits range hrange
  have hle := FieldName.low_le_high_of_ofText? hname hrange
  rw [← hlength, BitRange.length]
  omega

theorem length_le (h : entry.WellFormed width registry) : entry.bits.length ≤ 64 := by
  have hlength := h.within.low_add_length
  have hhigh := h.within.2
  have hmax := width.le_max
  omega

theorem validate (h : entry.WellFormed width registry) {interpretation : Interpretation}
    (hgiven : entry.given? registry = some interpretation) :
    interpretation.validate = .ok () := by
  obtain ⟨ref, href, hlookup⟩ := Option.bind_eq_some_iff.1 hgiven
  obtain ⟨found, hfound, hvalidate⟩ := h.interpretation ref href
  rwa [← Option.some.inj (hfound.symm.trans hlookup)]

end WellFormed

end FieldEntry

/-- Two pieces of a field that can both be there: they give different bits of the field, and
interpretations that agree. -/
structure FieldEntry.Fits (registry : InterpretationRegistry) (a b : FieldEntry) : Prop where
  disjoint : ∀ j, a.GivesBit j → ¬b.GivesBit j
  agrees : ∀ i j, a.given? registry = some i → b.given? registry = some j → i.agrees j = true

/-- A piece with the register that it lies in. -/
structure PlacedEntry where
  register : Address
  mode : AccessMode
  entry : FieldEntry

namespace PlacedEntry

def base (placed : PlacedEntry) : String :=
  placed.entry.base?.getD ""

def fragment (placed : PlacedEntry) : Fragment :=
  ⟨placed.register, placed.entry.bits, (placed.entry.fieldBits?.map BitRange.low).getD 0⟩

def plain (registry : InterpretationRegistry) (placed : PlacedEntry) : FieldDraft :=
  .plain placed.mode placed.register placed.entry (placed.entry.given? registry)

/-- Adds a piece to what is known of its field. -/
def extend (registry : InterpretationRegistry) (known : Option FieldDraft)
    (placed : PlacedEntry) : Except DescriptionError FieldDraft :=
  match placed.entry.fieldBits? with
  | none =>
    match known with
    | none => .ok (placed.plain registry)
    | some _ => .error (.duplicateField placed.base)
  | some range =>
    (known.getD (.start placed.mode placed.entry)).addPiece placed.base placed.mode
      placed.register placed.entry range (placed.entry.given? registry)

variable {width : Width} {registry : InterpretationRegistry} {placed : PlacedEntry}

/-- A piece without annotation is taken in if nothing is known of its field. -/
theorem extend_plain_eq_ok_iff (hplain : placed.entry.fieldBits? = none)
    {known : Option FieldDraft} {draft : FieldDraft} :
    extend registry known placed = .ok draft ↔ known = none ∧ draft = placed.plain registry := by
  cases known <;> simp [extend, hplain, eq_comm]

theorem gives_fragment_iff (hplaced : placed.entry.WellFormed width registry) {range : BitRange}
    (hrange : placed.entry.fieldBits? = some range) (j : Nat) :
    placed.fragment.Gives j ↔ placed.entry.GivesBit j := by
  have hend := (hplaced.fieldBits hrange).1
  simp only [FieldEntry.GivesBit, hrange, Option.some.injEq, exists_eq_left', Fragment.Gives,
    fragment, Option.map_some, Option.getD_some, Fragment.length, BitRange.Covers]
  omega

theorem end_fragment_le (hplaced : placed.entry.WellFormed width registry) :
    placed.fragment.offset + placed.fragment.length ≤ 64 := by
  change (placed.entry.fieldBits?.map BitRange.low).getD 0 + placed.entry.bits.length ≤ 64
  cases hrange : placed.entry.fieldBits? with
  | none =>
    rw [Option.map_none, Option.getD_none, zero_add]
    exact hplaced.length_le
  | some range =>
    have hend := hplaced.fieldBits hrange
    simp only [Option.map_some, Option.getD_some]
    omega

/-! ## The draft of annotated pieces -/

def knownFragments (known : Option FieldDraft) : List Fragment :=
  (known.map fun draft ↦ draft.layout.fragments).getD []

/-- The draft that a further annotated piece makes of what is known of its field. -/
def joined (registry : InterpretationRegistry) (known : Option FieldDraft)
    (placed : PlacedEntry) : FieldDraft where
  mode := (known.getD (.start placed.mode placed.entry)).mode.meet placed.mode
  description := (known.getD (.start placed.mode placed.entry)).description
  interpretation := (placed.entry.given? registry).or (known.bind FieldDraft.interpretation)
  layout := .concatenated (FieldDraft.insertByOffset placed.fragment (knownFragments known))

/-- What is known of a field after annotated pieces: their fragments in order without overlap, and
an interpretation that was given with one of them and agrees with all that were given. -/
structure Gathers (registry : InterpretationRegistry) (pieces : List PlacedEntry)
    (known : Option FieldDraft) : Prop where
  annotated : ∀ piece ∈ pieces, ∃ range, piece.entry.fieldBits? = some range
  isNone_iff : known = none ↔ pieces = []
  concatenated : ∀ draft, known = some draft →
    draft.layout = .concatenated (knownFragments known)
  perm : knownFragments known ~ pieces.map fragment
  before : (knownFragments known).Pairwise Fragment.Before
  given : ∀ i, known.bind FieldDraft.interpretation = some i →
    ∃ piece ∈ pieces, piece.entry.given? registry = some i
  agrees : ∀ piece ∈ pieces, ∀ i, piece.entry.given? registry = some i →
    ∃ j, known.bind FieldDraft.interpretation = some j ∧ i.agrees j = true

theorem gathers_nil : Gathers registry [] none where
  annotated _ h := nomatch h
  isNone_iff := iff_of_true rfl rfl
  concatenated _ h := nomatch h
  perm := .refl _
  before := .nil
  given _ h := nomatch h
  agrees _ h := nomatch h

namespace Gathers

variable {pieces : List PlacedEntry} {known : Option FieldDraft} {range : BitRange}
  {draft : FieldDraft}

theorem extend_eq_ok_iff (hknown : Gathers registry pieces known)
    (hrange : placed.entry.fieldBits? = some range) :
    extend registry known placed = .ok draft ↔
      FieldDraft.occupied (knownFragments known) &&& placed.fragment.fieldMask = 0 ∧
      (∀ i, known.bind FieldDraft.interpretation = some i →
        ∀ j, placed.entry.given? registry = some j → i.agrees j = true) ∧
      draft = joined registry known placed := by
  have hlayout : (known.getD (.start placed.mode placed.entry)).layout =
      .concatenated (knownFragments known) := by
    cases hdraft : known with
    | none => rfl
    | some draft =>
      have hdraftLayout := hknown.concatenated draft hdraft
      rwa [hdraft] at hdraftLayout
  have hinterpretation : (known.getD (.start placed.mode placed.entry)).interpretation =
      known.bind FieldDraft.interpretation := by
    cases known <;> rfl
  have hfragment : Fragment.mk placed.register placed.entry.bits range.low = placed.fragment := by
    simp [fragment, hrange]
  simp only [extend, hrange, FieldDraft.addPiece_eq_ok_iff, hlayout, hinterpretation, hfragment,
    FieldDraft.agreeOn_eq_ok_iff, FieldLayout.concatenated.injEq, exists_and_left,
    exists_eq_left', and_assoc, exists_eq_left]
  rfl

/-- A further annotated piece is taken in if it fits to each of the others. -/
theorem exists_extend_iff (hknown : Gathers registry pieces known)
    (hpieces : ∀ piece ∈ pieces, piece.entry.WellFormed width registry)
    (hplaced : placed.entry.WellFormed width registry)
    (hrange : placed.entry.fieldBits? = some range) :
    (∃ draft, extend registry known placed = .ok draft) ↔
      ∀ piece ∈ pieces, piece.entry.Fits registry placed.entry := by
  have hgives (piece : PlacedEntry) (hpiece : piece ∈ pieces) (j : Nat) :
      piece.fragment.Gives j ↔ piece.entry.GivesBit j := by
    obtain ⟨range, hrange⟩ := hknown.annotated piece hpiece
    exact gives_fragment_iff (hpieces piece hpiece) hrange j
  have hfree : FieldDraft.occupied (knownFragments known) &&& placed.fragment.fieldMask = 0 ↔
      ∀ piece ∈ pieces, ∀ j, piece.entry.GivesBit j → ¬placed.entry.GivesBit j := by
    rw [Fragment.occupied_and_fieldMask_eq_zero_iff (end_fragment_le hplaced)]
    simp only [hknown.perm.mem_iff, List.forall_mem_map, gives_fragment_iff hplaced hrange]
    refine forall₂_congr fun piece hpiece ↦ ?_
    simp only [hgives piece hpiece]
  simp only [hknown.extend_eq_ok_iff hrange, exists_and_left, exists_eq, and_true, hfree]
  constructor
  · intro h piece hpiece
    refine ⟨h.1 piece hpiece, fun i j hi hj ↦ ?_⟩
    obtain ⟨known, hagreed, hagrees⟩ := hknown.agrees piece hpiece i hi
    exact Interpretation.agrees_trans hagrees (h.2 known hagreed j hj)
  · intro h
    refine ⟨fun piece hpiece ↦ (h piece hpiece).disjoint, fun i hi j hj ↦ ?_⟩
    obtain ⟨piece, hpiece, hgiven⟩ := hknown.given i hi
    exact (h piece hpiece).agrees i j hgiven hj

/-- A piece that is taken in adds its fragment, and its interpretation takes the place of the one
before. -/
theorem extend (hknown : Gathers registry pieces known)
    (hplaced : placed.entry.WellFormed width registry)
    (hrange : placed.entry.fieldBits? = some range)
    (h : extend registry known placed = .ok draft) :
    Gathers registry (pieces ++ [placed]) (some draft) := by
  obtain ⟨hfree, hagree, rfl⟩ := (hknown.extend_eq_ok_iff hrange).1 h
  have hperm := FieldDraft.insertByOffset_perm placed.fragment (knownFragments known)
  have hself (i : Interpretation) (hi : placed.entry.given? registry = some i) :
      i.agrees i = true :=
    Interpretation.agrees_self_of_validate (hplaced.validate hi)
  refine {
    annotated := ?_
    isNone_iff := by simp
    concatenated := ?_
    perm := ?_
    before := FieldDraft.pairwise_insertByOffset hknown.before
      (Fragment.before_or_before_of_occupied (end_fragment_le hplaced) hfree)
    given := ?_
    agrees := ?_ }
  · simp only [List.forall_mem_append, List.forall_mem_singleton]
    exact ⟨hknown.annotated, range, hrange⟩
  · intro draft hdraft
    rw [← Option.some.inj hdraft]
    rfl
  · rw [List.map_append]
    exact hperm.trans ((hknown.perm.cons _).trans (List.perm_append_singleton _ _).symm)
  · intro i hi
    change (placed.entry.given? registry).or (known.bind FieldDraft.interpretation) = some i at hi
    rcases Option.or_eq_some_iff.1 hi with hnew | ⟨-, hold⟩
    · exact ⟨placed, List.mem_concat_self, hnew⟩
    · obtain ⟨piece, hpiece, hgiven⟩ := hknown.given i hold
      exact ⟨piece, List.mem_append_left _ hpiece, hgiven⟩
  · intro piece hpiece i hi
    change ∃ j, (placed.entry.given? registry).or (known.bind FieldDraft.interpretation) = some j ∧
      i.agrees j = true
    rw [List.mem_append, List.mem_singleton] at hpiece
    cases hnew : placed.entry.given? registry with
    | none =>
      rcases hpiece with hpiece | rfl
      · exact hknown.agrees piece hpiece i hi
      · rw [hnew] at hi
        cases hi
    | some j =>
      refine ⟨j, rfl, ?_⟩
      rcases hpiece with hpiece | rfl
      · obtain ⟨k, hk, hagrees⟩ := hknown.agrees piece hpiece i hi
        exact Interpretation.agrees_trans hagrees (hagree k hk j hnew)
      · obtain rfl := Option.some.inj (hnew.symm.trans hi)
        exact hself j hi

end Gathers

section Runs

variable {pieces : List PlacedEntry} {known : Option FieldDraft}

/-- What is known of a field is a draft of one piece without annotation or of annotated pieces that
fit together. -/
theorem gathers_of_updateEntry
    (hpieces : ∀ piece ∈ pieces, piece.entry.WellFormed width registry)
    (h : SortedMap.updateEntry (extend registry) pieces none = .ok known) :
    (∃ placed, pieces = [placed] ∧ placed.entry.fieldBits? = none ∧
        known = some (placed.plain registry)) ∨
      Gathers registry pieces known ∧
        pieces.Pairwise fun a b ↦ a.entry.Fits registry b.entry := by
  -- The pieces are taken in from the front, so the induction splits off the last one.
  induction pieces using List.reverseRecOn generalizing known with
  | nil =>
    obtain rfl := Except.ok.inj h
    exact .inr ⟨gathers_nil, .nil⟩
  | append_singleton pieces placed ih =>
    obtain ⟨before, draft, hbefore, hextend, rfl⟩ := SortedMap.updateEntry_concat_eq_ok_iff.1 h
    simp only [List.forall_mem_append, List.forall_mem_singleton] at hpieces
    obtain ⟨hpieces, hplaced⟩ := hpieces
    cases hrange : placed.entry.fieldBits? with
    | none =>
      obtain ⟨rfl, rfl⟩ := (extend_plain_eq_ok_iff hrange).1 hextend
      rcases ih hpieces hbefore with ⟨first, -, -, hfirst⟩ | ⟨hgathers, -⟩
      · cases hfirst
      · obtain rfl := hgathers.isNone_iff.1 rfl
        exact .inl ⟨placed, rfl, hrange, rfl⟩
    | some range =>
      rcases ih hpieces hbefore with ⟨first, rfl, -, rfl⟩ | ⟨hgathers, hfits⟩
      · simp only [extend, hrange] at hextend
        cases hextend
      · have hnew := (hgathers.exists_extend_iff hpieces hplaced hrange).1 ⟨draft, hextend⟩
        refine .inr ⟨hgathers.extend hplaced hrange hextend, ?_⟩
        rw [List.pairwise_append]
        exact ⟨hfits, List.pairwise_singleton _ _, fun piece hpiece other hother ↦
          List.mem_singleton.1 hother ▸ hnew piece hpiece⟩

/-- Annotated pieces that fit together are all taken in. -/
theorem exists_updateEntry_of_pairwise
    (hpieces : ∀ piece ∈ pieces, piece.entry.WellFormed width registry)
    (hannotated : ∀ piece ∈ pieces, ∃ range, piece.entry.fieldBits? = some range)
    (hfits : pieces.Pairwise fun a b ↦ a.entry.Fits registry b.entry) :
    ∃ known, SortedMap.updateEntry (extend registry) pieces none = .ok known ∧
      Gathers registry pieces known := by
  induction pieces using List.reverseRecOn with
  | nil => exact ⟨none, rfl, gathers_nil⟩
  | append_singleton pieces placed ih =>
    simp only [List.forall_mem_append, List.forall_mem_singleton] at hpieces hannotated
    obtain ⟨hbefore, -, hlast⟩ := List.pairwise_append.1 hfits
    obtain ⟨before, hrun, hgathers⟩ := ih hpieces.1 hannotated.1 hbefore
    obtain ⟨range, hrange⟩ := hannotated.2
    have hnew (piece : PlacedEntry) (hpiece : piece ∈ pieces) :
        piece.entry.Fits registry placed.entry :=
      hlast piece hpiece placed (List.mem_singleton_self _)
    obtain ⟨draft, hextend⟩ := (hgathers.exists_extend_iff hpieces.1 hpieces.2 hrange).2 hnew
    exact ⟨some draft, SortedMap.updateEntry_concat_eq_ok_iff.2 ⟨before, draft, hrun, hextend, rfl⟩,
      hgathers.extend hpieces.2 hrange hextend⟩

end Runs

/-! ## Complete fields -/

section Complete

variable {pieces : List PlacedEntry} {known : Option FieldDraft}

theorem complete_plain (hplaced : placed.entry.WellFormed width registry) :
    (placed.plain registry).Complete := by
  have hend : 0 + placed.entry.bits.length ≤ 64 := by
    rw [zero_add]
    exact hplaced.length_le
  have hfragments : (placed.plain registry).layout.fragments =
      [⟨placed.register, placed.entry.bits, 0⟩] := rfl
  rw [FieldDraft.complete_iff (hfragments ▸ List.pairwise_singleton _ _)]
  · refine ⟨placed.entry.bits.length, fun j ↦ ?_⟩
    simp [hfragments, Fragment.Gives, Fragment.length]
  · simpa [hfragments, Fragment.length] using hend

/-- A draft of annotated pieces is complete if they give the bits below some number. -/
theorem Gathers.complete_iff (hknown : Gathers registry pieces known)
    (hpieces : ∀ piece ∈ pieces, piece.entry.WellFormed width registry) :
    (∀ draft, known = some draft → draft.Complete) ↔
      ∃ n, ∀ j, j < n ↔ ∃ piece ∈ pieces, piece.entry.GivesBit j := by
  cases known with
  | none =>
    obtain rfl := hknown.isNone_iff.1 rfl
    exact iff_of_true (fun _ h ↦ nomatch h) ⟨0, by simp⟩
  | some draft =>
    have hends : ∀ fragment ∈ draft.layout.fragments,
        fragment.offset + fragment.length ≤ 64 := by
      change ∀ fragment ∈ knownFragments (some draft), _
      simp only [hknown.perm.mem_iff, List.forall_mem_map]
      exact fun piece hpiece ↦ end_fragment_le (hpieces piece hpiece)
    have hgives (j : Nat) : (∃ fragment ∈ draft.layout.fragments, fragment.Gives j) ↔
        ∃ piece ∈ pieces, piece.entry.GivesBit j := by
      change (∃ fragment ∈ knownFragments (some draft), _) ↔ _
      simp only [hknown.perm.mem_iff, List.mem_map, exists_exists_and_eq_and]
      refine exists_congr fun piece ↦ and_congr_right fun hpiece ↦ ?_
      obtain ⟨range, hrange⟩ := hknown.annotated piece hpiece
      exact gives_fragment_iff (hpieces piece hpiece) hrange j
    simp only [Option.some.injEq, forall_eq', FieldDraft.complete_iff hknown.before hends, hgives]

end Complete

end PlacedEntry

/-- What the annotated pieces of a field have to be together: each says which bits of the field it
gives, no bit is given twice, the bits below some number are given and no others, and the
interpretations that are given agree. -/
structure FieldEntry.Tile (registry : InterpretationRegistry) (pieces : List FieldEntry) :
    Prop where
  annotated : ∀ piece ∈ pieces, ∃ range, piece.fieldBits? = some range
  disjoint : pieces.Pairwise fun a b ↦ ∀ j, a.GivesBit j → ¬b.GivesBit j
  covers : ∃ n, ∀ j, j < n ↔ ∃ piece ∈ pieces, piece.GivesBit j
  agrees : ∀ a ∈ pieces, ∀ b ∈ pieces, ∀ i j, a.given? registry = some i →
    b.given? registry = some j → i.agrees j = true

/-- Whether the pieces of one name make up a field: there is one piece, which is not annotated, or
the pieces are annotated and belong together. -/
def FieldEntry.MakeUpField (registry : InterpretationRegistry) (pieces : List FieldEntry) : Prop :=
  (∃ piece, pieces = [piece] ∧ piece.fieldBits? = none) ∨ Tile registry pieces

namespace FieldEntry

variable {width : Width} {registry : InterpretationRegistry} {pieces : List FieldEntry}

/-- Interpretations that agree in the order of their pieces agree in every order, and each with
itself. -/
theorem agrees_of_pairwise (hpieces : ∀ piece ∈ pieces, piece.WellFormed width registry)
    (h : pieces.Pairwise (Fits registry)) :
    ∀ a ∈ pieces, ∀ b ∈ pieces, ∀ i j, a.given? registry = some i →
      b.given? registry = some j → i.agrees j = true := by
  have hsymm : Std.Symm fun a b : FieldEntry ↦ ∀ i j, a.given? registry = some i →
      b.given? registry = some j → i.agrees j = true :=
    ⟨fun _ _ hab i j hi hj ↦ Interpretation.agrees_symm (hab j i hj hi)⟩
  have hpairwise : pieces.Pairwise fun a b ↦ ∀ i j, a.given? registry = some i →
      b.given? registry = some j → i.agrees j = true := h.imp Fits.agrees
  intro a ha b hb
  refine hpairwise.forall_of_forall (fun piece hpiece i j hi hj ↦ ?_) ha hb
  obtain rfl := Option.some.inj (hi.symm.trans hj)
  exact Interpretation.agrees_self_of_validate ((hpieces piece hpiece).validate hi)

theorem Tile.pairwise_fits (h : Tile registry pieces) : pieces.Pairwise (Fits registry) :=
  h.disjoint.imp_of_mem fun ha hb hdisjoint ↦ ⟨hdisjoint, h.agrees _ ha _ hb⟩

end FieldEntry

/-- The pieces of one name are taken in and leave a complete draft exactly if they make up a
field. -/
theorem PlacedEntry.exists_updateEntry_complete_iff {width : Width}
    {registry : InterpretationRegistry} {pieces : List PlacedEntry}
    (hpieces : ∀ piece ∈ pieces, piece.entry.WellFormed width registry) :
    (∃ known, SortedMap.updateEntry (extend registry) pieces none = .ok known ∧
        ∀ draft, known = some draft → draft.Complete) ↔
      FieldEntry.MakeUpField registry (pieces.map entry) := by
  have hentries : ∀ piece ∈ pieces.map entry, piece.WellFormed width registry := by
    simpa only [List.forall_mem_map] using hpieces
  constructor
  · intro h
    obtain ⟨known, hrun, hcomplete⟩ := h
    rcases gathers_of_updateEntry hpieces hrun with ⟨placed, rfl, hplain, -⟩ | ⟨hgathers, hfits⟩
    · exact .inl ⟨placed.entry, rfl, hplain⟩
    · have hpairwise : (pieces.map entry).Pairwise (FieldEntry.Fits registry) :=
        List.pairwise_map.2 hfits
      exact .inr {
        annotated := by simpa only [List.forall_mem_map] using hgathers.annotated
        disjoint := hpairwise.imp FieldEntry.Fits.disjoint
        covers := by
          simpa only [List.mem_map, exists_exists_and_eq_and]
            using (hgathers.complete_iff hpieces).1 hcomplete
        agrees := FieldEntry.agrees_of_pairwise hentries hpairwise }
  · rintro (⟨piece, hpiece, hplain⟩ | htile)
    · obtain ⟨placed, rfl, rfl⟩ := List.map_eq_singleton_iff.1 hpiece
      refine ⟨some (placed.plain registry), ?_, ?_⟩
      · rw [← List.nil_append [placed], SortedMap.updateEntry_concat_eq_ok_iff]
        exact ⟨none, _, rfl, (extend_plain_eq_ok_iff hplain).2 ⟨rfl, rfl⟩, rfl⟩
      · rintro _ ⟨⟩
        exact complete_plain (hpieces placed (List.mem_singleton_self _))
    · have hannotated : ∀ piece ∈ pieces, ∃ range, piece.entry.fieldBits? = some range := by
        simpa only [List.forall_mem_map] using htile.annotated
      obtain ⟨known, hrun, hgathers⟩ := exists_updateEntry_of_pairwise hpieces hannotated
        (List.pairwise_map.1 htile.pairwise_fits)
      refine ⟨known, hrun, (hgathers.complete_iff hpieces).2 ?_⟩
      simpa only [List.mem_map, exists_exists_and_eq_and] using htile.covers

end ChipConfig
