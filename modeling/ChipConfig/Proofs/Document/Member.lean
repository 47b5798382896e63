import ChipConfig.Proofs.Document.Record
import ChipConfig.Proofs.Paired

/-!
# Records that differ in the values of members

A record is read member by member: a value that stands in it under a name is the one that is found
under this name.  So of two records that are written alike, but for the values of some members, both
are read if one is, and what is found in them differs in these members only.
-/

namespace ChipConfig.Document

variable {names : List String} {name : String} {json other value : Json}

/-- Whether a value stands in a record under a name: as the value of a key, or in the place that the
name has. -/
inductive Member (names : List String) (name : String) : Json → Json → Prop
  | keyed {members : List (Json.Written × Json)} {key : Json.Written} {value : Json}
      (hmember : (key, value) ∈ members) (hkey : key.text? = some name) :
      Member names name (.object members) value
  | placed {items : List Json} {index : Nat} {value : Json} (hname : names[index]? = some name)
      (hitem : items[index]? = some value) : Member names name (.list items) value

theorem member?_of_mem_of_isSome {members : List (String × Json)}
    (hmember : (name, value) ∈ members) {found : Option Json}
    (h : member? members name = some found) : found = some value := by
  have hmem : (name, value) ∈ members.filter fun member ↦ member.1 = name :=
    List.mem_filter.2 ⟨hmember, by simp⟩
  unfold member? at h
  split at h
  · next hnone => simp [hnone] at hmem
  · next member honly =>
    rw [honly, List.mem_singleton] at hmem
    rw [← Option.some.inj h, ← hmem]
  · cases h

/-- A value that stands in a record under a name is found under it. -/
theorem Member.getElem?_eq {values : List (Option Json)} (h : Member names name json value)
    (hnames : names.Nodup) (hrecord : record? names json = some values) {index : Nat}
    (hindex : names[index]? = some name) : values[index]? = some (some value) := by
  cases h with
  | @keyed members key value hmember hkey =>
    obtain ⟨known, hknown, hvalues⟩ := Option.bind_eq_some_iff.1 hrecord
    obtain ⟨member, hmem, hread⟩ := Paired.exists_of_mem (Paired.mapM_eq_some_iff.1 hknown) hmember
    rw [hkey] at hread
    obtain rfl := Option.some.inj hread
    obtain ⟨found, hfound, hmember⟩ :=
      Paired.exists_of_getElem? (Paired.mapM_eq_some_iff.1 hvalues) hindex
    rw [hfound, member?_of_mem_of_isSome hmem hmember]
  | @placed items place value hname hitem =>
    obtain rfl : place = index :=
      (List.getElem?_inj (List.getElem?_eq_some_iff.1 hname).1 hnames).1 (hname.trans hindex.symm)
    simp only [record?] at hrecord
    split at hrecord
    · obtain rfl := Option.some.inj hrecord
      have hlt : place < items.length := (List.getElem?_eq_some_iff.1 hitem).1
      rw [List.getElem?_append_left (by simpa using hlt), List.getElem?_map, hitem]
      rfl
    · cases hrecord

variable {rel : String → Json → Json → Prop}

/-- Whether two values are the same, or those of a name for which they may differ. -/
def Varies (rel : String → Json → Json → Prop) (name? : Option String) (a b : Json) : Prop :=
  a = b ∨ ∃ name, name? = some name ∧ rel name a b

/-- Whether two values are written alike as records, but for the values of members that may
differ. -/
inductive Alike (names : List String) (rel : String → Json → Json → Prop) : Json → Json → Prop
  | same (json : Json) : Alike names rel json json
  | object {members others : List (Json.Written × Json)}
      (h : List.Forall₂ (fun a b ↦ a.1 = b.1 ∧ Varies rel a.1.text? a.2 b.2) members others) :
      Alike names rel (.object members) (.object others)
  | list {items others : List Json} (hlength : items.length = others.length)
      (h : ∀ (index : Nat) a b, items[index]? = some a → others[index]? = some b →
        Varies rel names[index]? a b) :
      Alike names rel (.list items) (.list others)

theorem Varies.symm (hrel : ∀ name a b, rel name a b → rel name b a) {name? : Option String}
    {a b : Json} (h : Varies rel name? a b) : Varies rel name? b a := by
  rcases h with rfl | ⟨name, hname, hab⟩
  · exact .inl rfl
  · exact .inr ⟨name, hname, hrel name a b hab⟩

theorem Alike.symm (hrel : ∀ name a b, rel name a b → rel name b a)
    (h : Alike names rel json other) : Alike names rel other json := by
  cases h with
  | same => exact .same _
  | object h =>
    refine .object (List.Forall₂.flip (h.imp fun a b hab ↦ ?_))
    exact ⟨hab.1.symm, hab.1 ▸ hab.2.symm hrel⟩
  | list hlength h =>
    exact .list hlength.symm fun index a b ha hb ↦ (h index b a hb ha).symm hrel

theorem exists_some_of_varies {a : Json} {b : Option Json}
    (h : Option.Rel (Varies rel (some name)) (some a) b) :
    ∃ twin, b = some twin ∧ Varies rel (some name) a twin := by
  cases h with
  | some hab => exact ⟨_, rfl, hab⟩

/-- The values of a name for which they may not differ are the same. -/
theorem eq_of_varies {a b : Option Json} (hfixed : ∀ x y, ¬rel name x y)
    (h : Option.Rel (Varies rel (some name)) a b) : a = b := by
  cases h with
  | none => rfl
  | some hab =>
    rcases hab with rfl | ⟨_, hname, hrel⟩
    · rfl
    · exact absurd (Option.some.inj hname ▸ hrel) (hfixed _ _)

/-- Whether the members found in two records are alike, name by name. -/
inductive MembersAlike (rel : String → Json → Json → Prop) :
    List String → List (Option Json) → List (Option Json) → Prop
  | nil : MembersAlike rel [] [] []
  | cons {name : String} {names : List String} {a b : Option Json} {as bs : List (Option Json)}
      (hfirst : Option.Rel (Varies rel (some name)) a b) (hlater : MembersAlike rel names as bs) :
      MembersAlike rel (name :: names) (a :: as) (b :: bs)

/-- Members by the texts of their keys that are alike. -/
def KnownAlike (rel : String → Json → Json → Prop) :
    List (String × Json) → List (String × Json) → Prop :=
  List.Forall₂ fun a b ↦ a.1 = b.1 ∧ Varies rel (some a.1) a.2 b.2

/-- Records that are written as objects are alike if their members are. -/
theorem alike_ofRecord {members others : List (String × Json)}
    (h : KnownAlike rel members others) : Alike names rel (ofRecord members) (ofRecord others) := by
  refine .object (List.forall₂_map_left_iff.2 (List.forall₂_map_right_iff.2 (h.imp ?_)))
  rintro a b ⟨hname, hvalue⟩
  refine ⟨congrArg Json.Written.ofText hname, ?_⟩
  rwa [Json.Written.text?_ofText]

theorem keyed?_of_alike {members others : List (Json.Written × Json)}
    (h : List.Forall₂ (fun a b ↦ a.1 = b.1 ∧ Varies rel a.1.text? a.2 b.2) members others)
    {known : List (String × Json)} (hknown : keyed? members = some known) :
    ∃ twins, keyed? others = some twins ∧ KnownAlike rel known twins := by
  induction h generalizing known with
  | nil =>
    obtain rfl := Option.some.inj hknown
    exact ⟨[], rfl, .nil⟩
  | @cons a b members others hab _ ih =>
    obtain ⟨key, value⟩ := a
    obtain ⟨key', twin⟩ := b
    obtain ⟨rfl, hvalue⟩ := hab
    cases Paired.mapM_eq_some_iff.1 hknown with
    | cons hfirst hlater =>
      obtain ⟨name, hname, rfl⟩ := Option.map_eq_some_iff.1 hfirst
      obtain ⟨twins, htwins, halike⟩ := ih (Paired.mapM_eq_some_iff.2 hlater)
      refine ⟨(name, twin) :: twins, ?_, .cons ⟨rfl, hname ▸ hvalue⟩ halike⟩
      exact Paired.mapM_eq_some_iff.2 (.cons (congrArg _ hname) (Paired.mapM_eq_some_iff.1 htwins))

theorem member?_of_alike {known twins : List (String × Json)} (h : KnownAlike rel known twins)
    {found : Option Json} (hfound : member? known name = some found) :
    ∃ twin, member? twins name = some twin ∧ Option.Rel (Varies rel (some name)) found twin := by
  have hfilter : KnownAlike rel (known.filter fun member ↦ member.1 = name)
      (twins.filter fun member ↦ member.1 = name) :=
    List.rel_filter (fun a b hab ↦ by simp [hab.1]) h
  have hnames : ∀ member ∈ known.filter fun member ↦ member.1 = name, member.1 = name :=
    fun member hmember ↦ of_decide_eq_true (List.mem_filter.1 hmember).2
  unfold member? at hfound ⊢
  generalize (known.filter fun member ↦ member.1 = name) = matching,
    (twins.filter fun member ↦ member.1 = name) = others at hfilter hnames hfound
  cases hfilter with
  | nil =>
    obtain rfl := Option.some.inj hfound
    exact ⟨none, rfl, .none⟩
  | cons hhead hlater =>
    cases hlater with
    | nil =>
      obtain rfl := Option.some.inj hfound
      have hname := hnames _ List.mem_cons_self
      exact ⟨_, rfl, .some (hname ▸ hhead.2)⟩
    | cons => cases hfound

theorem mapM_member?_of_alike {known twins : List (String × Json)} (h : KnownAlike rel known twins)
    {values : List (Option Json)} (hvalues : names.mapM (member? known) = some values) :
    ∃ others, names.mapM (member? twins) = some others ∧ MembersAlike rel names values others := by
  have hread := Paired.mapM_eq_some_iff.1 hvalues
  clear hvalues
  induction hread with
  | nil => exact ⟨[], rfl, .nil⟩
  | cons hfirst _ ih =>
    obtain ⟨twin, htwin, hrel⟩ := member?_of_alike h hfirst
    obtain ⟨others, hothers, halike⟩ := ih
    exact ⟨twin :: others,
      Paired.mapM_eq_some_iff.2 (.cons htwin (Paired.mapM_eq_some_iff.1 hothers)),
      .cons hrel halike⟩

theorem membersAlike_of_list {items others : List Json} (hlength : items.length = others.length)
    (h : ∀ (index : Nat) a b, items[index]? = some a → others[index]? = some b →
      Varies rel names[index]? a b) (hle : items.length ≤ names.length) :
    MembersAlike rel names
      (items.map some ++ List.replicate (names.length - items.length) none)
      (others.map some ++ List.replicate (names.length - others.length) none) := by
  induction names generalizing items others with
  | nil =>
    obtain rfl := List.length_eq_zero_iff.1 (Nat.le_zero.1 hle)
    obtain rfl := List.length_eq_zero_iff.1 hlength.symm
    exact .nil
  | cons name names ih =>
    cases items with
    | nil =>
      obtain rfl := List.length_eq_zero_iff.1 hlength.symm
      have hlater := @ih [] [] rfl (fun _ _ _ ha ↦ by simp at ha) (Nat.zero_le _)
      exact .cons .none hlater
    | cons a items =>
      cases others with
      | nil => cases hlength
      | cons b others =>
        have hlater := ih (Nat.succ.inj hlength) (fun index x y hx hy ↦ h (index + 1) x y hx hy)
          (Nat.le_of_succ_le_succ hle)
        simp only [List.length_cons, Nat.add_sub_add_right]
        exact .cons (.some (h 0 a b rfl rfl)) hlater

/-- Records that are alike are both read if one is, and what is found in them is alike. -/
theorem Alike.record? (h : Alike names rel json other) {values : List (Option Json)}
    (hvalues : record? names json = some values) :
    ∃ others, Document.record? names other = some others ∧
      MembersAlike rel names values others := by
  have hobject {members others : List (Json.Written × Json)}
      (h : List.Forall₂ (fun a b ↦ a.1 = b.1 ∧ Varies rel a.1.text? a.2 b.2) members others)
      (hvalues : Document.record? names (.object members) = some values) :
      ∃ found, Document.record? names (.object others) = some found ∧
        MembersAlike rel names values found := by
    obtain ⟨known, hknown, hfound⟩ := Option.bind_eq_some_iff.1 hvalues
    obtain ⟨twins, htwins, halike⟩ := keyed?_of_alike h hknown
    obtain ⟨found, hothers, hmembers⟩ := mapM_member?_of_alike halike hfound
    refine ⟨found, ?_, hmembers⟩
    rw [Document.record?, htwins]
    exact hothers
  have hlist {items others : List Json} (hlength : items.length = others.length)
      (h : ∀ (index : Nat) a b, items[index]? = some a → others[index]? = some b →
        Varies rel names[index]? a b)
      (hvalues : Document.record? names (.list items) = some values) :
      ∃ found, Document.record? names (.list others) = some found ∧
        MembersAlike rel names values found := by
    simp only [Document.record?] at hvalues ⊢
    split at hvalues
    · next hle =>
      obtain rfl := Option.some.inj hvalues
      rw [if_pos (hlength ▸ hle)]
      exact ⟨_, rfl, membersAlike_of_list hlength h hle⟩
    · cases hvalues
  cases h with
  | object h => exact hobject h hvalues
  | list hlength h => exact hlist hlength h hvalues
  | same =>
    cases json with
    | object members =>
      exact hobject (List.forall₂_same.2 fun _ _ ↦ ⟨rfl, .inl rfl⟩) hvalues
    | list items =>
      exact hlist rfl (fun _ _ _ ha hb ↦ .inl (Option.some.inj (ha.symm.trans hb))) hvalues
    | null => cases hvalues
    | bool value => cases hvalues
    | number n => cases hvalues
    | text written => cases hvalues

/-- Whether two values are lists whose items correspond. -/
def ItemsRelated (r : Json → Json → Prop) (a b : Json) : Prop :=
  ∃ items others, items? a = some items ∧ items? b = some others ∧ List.Forall₂ r items others

theorem ItemsRelated.symm {r : Json → Json → Prop} (hr : ∀ a b, r a b → r b a) {a b : Json}
    (h : ItemsRelated r a b) : ItemsRelated r b a := by
  obtain ⟨items, others, hitems, hothers, hrel⟩ := h
  exact ⟨others, items, hothers, hitems, List.Forall₂.flip (hrel.imp hr)⟩

end ChipConfig.Document
