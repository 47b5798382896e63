import ChipConfig.Proofs.CommandLine.Report
import ChipConfig.Proofs.Image.Difference

/-!
# What a comparison of images reports

A comparison finds every address at which two images do not have the same word, and finds nothing
else, so it tells how to get from the one image to the other.  The command that compares two files
counts what it finds: it reports no differing word if both files hold the same image.
-/

namespace ChipConfig.CommandLine

variable {read : Reader} {widths : WidthArguments}

/-- What is reported about two images, and the number of differing words with it. -/
def comparison (expected actual : Image) : String × Nat :=
  match expected.diff actual with
  | [] => (s!"Images match ({expected.size} words)\n", 0)
  | diffs => (String.join (diffs.map differenceLine), diffs.length)

@[simp]
theorem comparison_snd (expected actual : Image) :
    (comparison expected actual).2 = (expected.diff actual).length := by
  unfold comparison
  split
  · next h => rw [h, List.length_nil]
  · rfl

theorem diffReport_eq_ok_iff {expected actual : String} {report : String × Nat} :
    diffReport read expected actual widths = .ok report ↔
      ∃ width first second,
        Width.ofBits widths.wordWidth = .ok width ∧
        loadImage read expected width = .ok first ∧
        loadImage read actual width = .ok second ∧
        report = comparison first second := by
  have hrun : diffReport read expected actual widths = do
      let width ← loadWidth "word" widths.wordWidth
      let first ← loadImage read expected width
      let second ← loadImage read actual width
      return comparison first second := by
    refine bind_congr fun width ↦ bind_congr fun first ↦ bind_congr fun second ↦ ?_
    unfold comparison
    cases first.diff second <;> rfl
  simp [hrun]

/-- Images of files that are read with one width have that width. -/
theorem width_of_loadImage {path : String} {width : Width} {image : Image}
    (h : loadImage read path width = .ok image) : image.width = width := by
  obtain ⟨text, -, hparse⟩ := loadImage_eq_ok_iff.1 h
  exact (Image.fitsIn_of_parse hparse).width_eq

/-- No differing word is reported if both files can be read and hold one image. -/
theorem diffReport_eq_zero_iff {expected actual : String} :
    (∃ text, diffReport read expected actual widths = .ok (text, 0)) ↔
      ∃ width image, Width.ofBits widths.wordWidth = .ok width ∧
        loadImage read expected width = .ok image ∧ loadImage read actual width = .ok image := by
  constructor
  · rintro ⟨text, h⟩
    obtain ⟨width, first, second, hwidth, hfirst, hsecond, hreport⟩ := diffReport_eq_ok_iff.1 h
    have hcount : (first.diff second).length = 0 := by
      rw [← comparison_snd, ← hreport]
    have hwords : first.words = second.words :=
      Image.diff_eq_nil_iff.1 (List.length_eq_zero_iff.1 hcount)
    have hsame : first.width = second.width :=
      (width_of_loadImage hfirst).trans (width_of_loadImage hsecond).symm
    obtain rfl : first = second := by
      cases first
      cases second
      rw [Image.mk.injEq]
      exact ⟨hsame, hwords⟩
    exact ⟨width, first, hwidth, hfirst, hsecond⟩
  · rintro ⟨width, image, hwidth, hfirst, hsecond⟩
    have hnone : comparison image image = (s!"Images match ({image.size} words)\n", 0) := by
      unfold comparison
      rw [Image.diff_eq_nil_iff.2 rfl]
    exact ⟨_, diffReport_eq_ok_iff.2 ⟨width, image, image, hwidth, hfirst, hsecond, hnone.symm⟩⟩

/-- The comparison lists the addresses at which two images differ, and making the listed changes in
the one gives the other. -/
theorem diff_exact (a b : Image) (read : Reader) (expected actual : String)
    (widths : WidthArguments) :
    (a.diff b).Pairwise (fun x y ↦ x.address < y.address) ∧
    (∀ address, address ∈ (a.diff b).map WordDiff.address ↔ a.get? address ≠ b.get? address) ∧
    (∀ entry ∈ a.diff b,
      entry.expected = a.get? entry.address ∧ entry.actual = b.get? entry.address) ∧
    (a.diff b = [] ↔ a.words = b.words) ∧
    b.diff a = (a.diff b).map WordDiff.swap ∧
    (a.diff b).foldl Image.amend a.words = b.words ∧
    ((∃ text, diffReport read expected actual widths = .ok (text, 0)) ↔
      ∃ width image first second, Width.ofBits widths.wordWidth = .ok width ∧
        read expected = .ok first ∧ Image.parse first width = .ok image ∧
        read actual = .ok second ∧ Image.parse second width = .ok image) := by
  refine ⟨Image.pairwise_diff a b, fun _ ↦ Image.mem_map_address_diff_iff, fun entry hentry ↦ ?_,
    Image.diff_eq_nil_iff, Image.diff_swap a b, Image.foldl_amend_diff a b, ?_⟩
  · obtain ⟨hexpected, hactual, -⟩ := Image.mem_diff_iff.1 hentry
    exact ⟨hexpected, hactual⟩
  · rw [diffReport_eq_zero_iff]
    simp only [loadImage_eq_ok_iff]
    constructor
    · rintro ⟨width, image, hwidth, ⟨first, hfirst, himage⟩, second, hsecond, hsame⟩
      exact ⟨width, image, first, second, hwidth, hfirst, himage, hsecond, hsame⟩
    · rintro ⟨width, image, first, second, hwidth, hfirst, himage, hsecond, hsame⟩
      exact ⟨width, image, hwidth, ⟨first, hfirst, himage⟩, second, hsecond, hsame⟩

/-- Two images of different widths, one with a word that the other one lacks. -/
example :
    (⟨.w16, .ofList [(0, 1), (1, 2), (7, 3)]⟩ : Image).diff
        ⟨⟨8, by decide, by decide⟩, .ofList [(1, 2), (5, 9), (7, 4)]⟩ =
      [⟨0, some 1, none⟩, ⟨5, none, some 9⟩, ⟨7, some 3, some 4⟩] := by
  decide +kernel

end ChipConfig.CommandLine
