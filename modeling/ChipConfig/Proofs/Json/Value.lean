import ChipConfig.Proofs.Json.Token

/-!
# Values are read as they are written

The characters of a value take the machine that reads tokens from wherever a value may come to the
place behind it, whatever lists and objects it is inside of.  The items of a list and the members of
an object do so one after the other, so this holds of every value that can be written.
-/

namespace ChipConfig

/-- Whether a value can be written: all of its texts and numbers can. -/
inductive Json.Writable : Json → Prop
  | null : Writable .null
  | bool (value : Bool) : Writable (.bool value)
  | number {number : Json.Number} (h : number.Writable) : Writable (.number number)
  | text {written : Json.Written} (h : written.Writable) : Writable (.text written)
  | list {items : List Json} (h : ∀ item ∈ items, Writable item) : Writable (.list items)
  | object {members : List (Json.Written × Json)} (hkeys : ∀ member ∈ members, member.1.Writable)
    (hvalues : ∀ member ∈ members, Writable member.2) : Writable (.object members)

namespace Json

open Token (Scans next?)

/-- Whether the tokens of a text take the machine from one state to another. -/
def Reads (cs : List Char) (before after : Progress) : Prop :=
  ∃ tokens, Scans cs tokens ∧ tokens.foldlM Progress.step? before = some after

/-- Whether a state takes the tokens that a value may begin with, inside of some frames. -/
def Progress.Awaits (progress : Progress) (frames : List Frame) : Prop :=
  ∀ token next, begin? frames token = some next → progress.step? token = some next

variable {cs ds : List Char} {before middle after progress : Progress} {frames : List Frame}

theorem Progress.awaits_value (frames : List Frame) : (value frames).Awaits frames :=
  fun _ _ h ↦ h

theorem Progress.awaits_opened (frames : List Frame) :
    (opened frames).Awaits (.list [] :: frames) := by
  intro token next h
  cases token with
  | closeBracket => cases h
  | _ => exact h

theorem reads_of_next? {token : Token} (hne : cs ≠ [])
    (hnext : ∀ rest, EndsNumber rest → next? (cs ++ rest) = some (token, rest))
    (hstep : before.step? token = some after) : Reads cs before after := by
  refine ⟨[token], Token.scans_of_next? hne hnext, ?_⟩
  rw [List.foldlM_cons, hstep]
  rfl

theorem Reads.append (hcs : Reads cs before middle) (hds : Reads ds middle after)
    (hends : ∀ rest, EndsNumber rest → EndsNumber (ds ++ rest)) :
    Reads (cs ++ ds) before after := by
  obtain ⟨tokens, hscans, hrun⟩ := hcs
  obtain ⟨others, hothers, hrest⟩ := hds
  refine ⟨tokens ++ others, hscans.append hothers hends, ?_⟩
  rw [List.foldlM_append, hrun]
  exact hrest

/-- Punctuation is read whatever follows it. -/
theorem Reads.cons {c : Char} {token : Token} (hds : Reads ds middle after)
    (hnext : ∀ rest, next? (c :: rest) = some (token, rest))
    (hstep : before.step? token = some middle) : Reads (c :: ds) before after := by
  obtain ⟨tokens, hscans, hrun⟩ := hds
  refine ⟨token :: tokens, hscans.cons hnext, ?_⟩
  rw [List.foldlM_cons, hstep]
  exact hrun

theorem reads_text {written : Written} (h : written.Writable)
    (hstep : before.step? (.text written) = some after) : Reads written.chars before after :=
  reads_of_next? (List.cons_ne_nil _ _) (fun rest _ ↦ Token.next?_text h rest) hstep

/-- Whether a value is read wherever a value may come. -/
def IsRead (json : Json) : Prop :=
  ∀ progress frames, Progress.Awaits progress frames →
    Reads json.chars progress (.complete json frames)

theorem endsNumber_itemsChars (items : List Json) (rest : List Char) :
    EndsNumber (itemsChars items ++ [']'] ++ rest) := by
  cases items with
  | nil => exact endsNumber_cons (by simp) rest
  | cons item items =>
    rw [itemsChars]
    exact endsNumber_cons (by simp) _

theorem endsNumber_membersChars (members : List (Written × Json)) (rest : List Char) :
    EndsNumber (membersChars members ++ ['\x7d'] ++ rest) := by
  cases members with
  | nil => exact endsNumber_cons (by simp) rest
  | cons member members =>
    rw [membersChars]
    exact endsNumber_cons (by simp) _

/-- The items of a list after one that has been read, and the end of the list. -/
theorem reads_itemsChars {items : List Json} (h : ∀ item ∈ items, item.IsRead) (last : Json)
    (done : List Json) (frames : List Frame) :
    Reads (itemsChars items ++ [']']) (.complete last (.list done :: frames))
      (.complete (.list ((last :: done).reverse ++ items)) frames) := by
  induction items generalizing last done with
  | nil =>
    rw [List.append_nil, itemsChars]
    exact reads_of_next? (List.cons_ne_nil _ _) (fun _ _ ↦ rfl) rfl
  | cons item items ih =>
    obtain ⟨hitem, hitems⟩ := List.forall_mem_cons.1 h
    have hrest := ih hitems item (last :: done)
    rw [List.reverse_cons, List.append_assoc] at hrest
    rw [itemsChars, List.cons_append, List.cons_append, List.append_assoc]
    have hvalue := (hitem _ _ (Progress.awaits_value (.list (last :: done) :: frames))).append hrest
      fun rest _ ↦ endsNumber_itemsChars items rest
    exact hvalue.cons (fun _ ↦ rfl) rfl

/-- A member of an object from its key on. -/
theorem reads_member {key : Written} {item : Json} (hkey : key.Writable) (hitem : item.IsRead)
    {members : List (Written × Json)}
    (hstep : before.step? (.text key) = some (.colon members key frames)) {ds : List Char}
    (hrest : Reads ds (.complete item (.member members key :: frames)) after)
    (hends : ∀ rest, EndsNumber rest → EndsNumber (ds ++ rest)) :
    Reads (key.chars ++ ':' :: (item.chars ++ ds)) before after := by
  have hvalue := (hitem _ _ (Progress.awaits_value (.member members key :: frames))).append hrest
    hends
  refine (reads_text hkey hstep).append (hvalue.cons (fun _ ↦ rfl) rfl) fun rest _ ↦ ?_
  exact endsNumber_cons (by simp) _

/-- The members of an object after one that has been read, and the end of the object. -/
theorem reads_membersChars {members : List (Written × Json)}
    (hkeys : ∀ member ∈ members, member.1.Writable) (hvalues : ∀ member ∈ members, member.2.IsRead)
    (last : Json) (key : Written) (done : List (Written × Json)) (frames : List Frame) :
    Reads (membersChars members ++ ['\x7d']) (.complete last (.member done key :: frames))
      (.complete (.object (((key, last) :: done).reverse ++ members)) frames) := by
  induction members generalizing last key done with
  | nil =>
    rw [List.append_nil, membersChars]
    exact reads_of_next? (List.cons_ne_nil _ _) (fun _ _ ↦ rfl) rfl
  | cons member members ih =>
    obtain ⟨next, item⟩ := member
    obtain ⟨hnext, hlaterKeys⟩ := List.forall_mem_cons.1 hkeys
    obtain ⟨hitem, hlaterValues⟩ := List.forall_mem_cons.1 hvalues
    have hrest := ih hlaterKeys hlaterValues item next ((key, last) :: done)
    rw [List.reverse_cons, List.append_assoc] at hrest
    have hmember : Reads _ (.key ((key, last) :: done) frames) _ :=
      reads_member hnext hitem rfl hrest fun rest _ ↦ endsNumber_membersChars members rest
    rw [membersChars]
    simp only [List.cons_append, List.append_assoc] at hmember ⊢
    exact hmember.cons (fun _ ↦ rfl) rfl

theorem isRead_list {items : List Json} (h : ∀ item ∈ items, item.IsRead) :
    (list items).IsRead := by
  intro progress frames hawaits
  cases items with
  | nil =>
    have hclose : Reads [']'] (.opened frames) (.complete (.list []) frames) :=
      reads_of_next? (List.cons_ne_nil _ _) (fun _ _ ↦ rfl) rfl
    rw [chars]
    exact hclose.cons (fun _ ↦ rfl) (hawaits _ _ rfl)
  | cons item items =>
    obtain ⟨hitem, hitems⟩ := List.forall_mem_cons.1 h
    have hvalue := (hitem _ _ (Progress.awaits_opened frames)).append
      (reads_itemsChars hitems item [] frames) fun rest _ ↦ endsNumber_itemsChars items rest
    rw [chars, List.cons_append, List.cons_append, List.append_assoc]
    exact hvalue.cons (fun _ ↦ rfl) (hawaits _ _ rfl)

theorem isRead_object {members : List (Written × Json)}
    (hkeys : ∀ member ∈ members, member.1.Writable)
    (hvalues : ∀ member ∈ members, member.2.IsRead) : (object members).IsRead := by
  intro progress frames hawaits
  cases members with
  | nil =>
    have hclose : Reads ['\x7d'] (.openedObject frames) (.complete (.object []) frames) :=
      reads_of_next? (List.cons_ne_nil _ _) (fun _ _ ↦ rfl) rfl
    rw [chars]
    exact hclose.cons (fun _ ↦ rfl) (hawaits _ _ rfl)
  | cons member members =>
    obtain ⟨key, item⟩ := member
    obtain ⟨hkey, hlaterKeys⟩ := List.forall_mem_cons.1 hkeys
    obtain ⟨hitem, hlaterValues⟩ := List.forall_mem_cons.1 hvalues
    have hmember : Reads _ (.openedObject frames) _ :=
      reads_member hkey hitem rfl (reads_membersChars hlaterKeys hlaterValues item key [] frames)
        fun rest _ ↦ endsNumber_membersChars members rest
    rw [chars]
    simp only [List.cons_append, List.append_assoc] at hmember ⊢
    exact hmember.cons (fun _ ↦ rfl) (hawaits _ _ rfl)

/-- What the characters of a value are read as does not depend on where it stands. -/
theorem Writable.isRead {json : Json} (h : json.Writable) : json.IsRead := by
  induction h with
  | null =>
    intro progress frames hawaits
    exact reads_of_next? (List.cons_ne_nil _ _) (fun _ _ ↦ rfl) (hawaits _ _ rfl)
  | bool value =>
    intro progress frames hawaits
    cases value with
    | true => exact reads_of_next? (List.cons_ne_nil _ _) (fun _ _ ↦ rfl) (hawaits _ _ rfl)
    | false => exact reads_of_next? (List.cons_ne_nil _ _) (fun _ _ ↦ rfl) (hawaits _ _ rfl)
  | number hnumber =>
    intro progress frames hawaits
    rw [chars]
    exact reads_of_next? hnumber.chars_ne_nil
      (fun rest hrest ↦ Token.next?_number hnumber hrest) (hawaits _ _ rfl)
  | text htext =>
    intro progress frames hawaits
    rw [chars]
    exact reads_text htext (hawaits _ _ rfl)
  | list _ ih => exact isRead_list ih
  | object hkeys _ ih => exact isRead_object hkeys ih

/-- A value that is written is read back. -/
theorem parse?_render {json : Json} (h : json.Writable) : parse? json.render = some json := by
  obtain ⟨tokens, hscans, hrun⟩ := h.isRead _ _ (Progress.awaits_value [])
  have hscan : Token.scan json.render.toList = some tokens := by
    rw [render, String.toList_ofList]
    exact hscans.scan_eq
  rw [parse?, hscan]
  change ofTokens? tokens = some json
  rw [ofTokens?, hrun]
  rfl

end Json

end ChipConfig
