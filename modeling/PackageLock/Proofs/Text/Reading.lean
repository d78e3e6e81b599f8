import Mathlib.Data.List.Perm.Basic
import PackageLock.Proofs.Text.Splitting

/-!
# Readers in steps

A reader that takes several steps succeeds if and only if each of its steps does (`bind_eq_ok_iff`,
`mapM_eq_ok_iff`). A run of characters of one kind is read to its end (`takeWhile_append_of_stops`).
-/

set_option autoImplicit false

namespace PackageLock.Text

section Steps

variable {ε α β : Type}

/-- Work in two parts succeeds if both parts do. -/
theorem bind_eq_ok_iff {first : Except ε α} {next : α → Except ε β} {b : β} :
    (first >>= next) = .ok b ↔ ∃ a, first = .ok a ∧ next a = .ok b := by
  cases first with
  | error e => simp [bind, Except.bind]
  | ok a => simp [bind, Except.bind]

/-- Work on each item of a list succeeds if it does on each, and the results stand side by side. -/
theorem mapM_eq_ok_iff {f : α → Except ε β} {as : List α} {bs : List β} :
    as.mapM f = .ok bs ↔ List.Forall₂ (fun a b => f a = .ok b) as bs := by
  induction as generalizing bs with
  | nil =>
    rw [List.mapM_nil, List.forall₂_nil_left_iff]
    exact ⟨fun h => (Except.ok.inj h).symm, fun h => by rw [h]; rfl⟩
  | cons a as ih =>
    rw [List.mapM_cons, bind_eq_ok_iff, List.forall₂_cons_left_iff]
    constructor
    · rintro ⟨b, hb, h⟩
      obtain ⟨rest, hrest, h⟩ := bind_eq_ok_iff.mp h
      exact ⟨b, rest, hb, ih.mp hrest, (Except.ok.inj h).symm⟩
    · rintro ⟨b, rest, hb, hrest, rfl⟩
      exact ⟨b, hb, bind_eq_ok_iff.mpr ⟨rest, ih.mpr hrest, rfl⟩⟩

/-- What is related to two lists one after the other is in two parts, each related to one of them. -/
theorem forall₂_append_left_iff {related : α → β → Prop} {as as' : List α} {bs : List β} :
    List.Forall₂ related (as ++ as') bs ↔
      ∃ front back, List.Forall₂ related as front ∧ List.Forall₂ related as' back ∧
        bs = front ++ back := by
  constructor
  · intro h
    induction as generalizing bs with
    | nil => exact ⟨[], bs, .nil, h, rfl⟩
    | cons a as ih =>
      obtain ⟨b, bs, hb, hbs, rfl⟩ := List.forall₂_cons_left_iff.mp h
      obtain ⟨front, back, hfront, hback, rfl⟩ := ih hbs
      exact ⟨b :: front, back, .cons hb hfront, hback, rfl⟩
  · rintro ⟨front, back, hfront, hback, rfl⟩
    exact List.rel_append hfront hback

/-- Of two lists that stand side by side, each item of either has its partner in the other. -/
theorem exists_mem_of_forall₂ {related : α → β → Prop} {as : List α} {bs : List β}
    (h : List.Forall₂ related as bs) :
    (∀ a ∈ as, ∃ b ∈ bs, related a b) ∧ ∀ b ∈ bs, ∃ a ∈ as, related a b := by
  induction h with
  | nil => simp
  | @cons a b as bs hab _ ih =>
    rw [List.forall_mem_cons, List.forall_mem_cons]
    refine ⟨⟨⟨b, List.mem_cons_self, hab⟩, fun a' ha' => ?_⟩,
      ⟨a, List.mem_cons_self, hab⟩, fun b' hb' => ?_⟩
    · obtain ⟨b', hb', hrelated⟩ := ih.1 a' ha'
      exact ⟨b', List.mem_cons_of_mem _ hb', hrelated⟩
    · obtain ⟨a', ha', hrelated⟩ := ih.2 b' hb'
      exact ⟨a', List.mem_cons_of_mem _ ha', hrelated⟩

/-- Each item has its result, and each result its item. -/
theorem exists_mem_of_mapM {f : α → Except ε β} {as : List α} {bs : List β} (h : as.mapM f = .ok bs) :
    (∀ a ∈ as, ∃ b ∈ bs, f a = .ok b) ∧ ∀ b ∈ bs, ∃ a ∈ as, f a = .ok b :=
  exists_mem_of_forall₂ (mapM_eq_ok_iff.mp h)

/-- Items in another order are read as the same values in another order. -/
theorem exists_mapM_of_perm {f : α → Except ε β} {as as' : List α} {bs : List β} (perm : as.Perm as')
    (h : as.mapM f = .ok bs) : ∃ bs', as'.mapM f = .ok bs' ∧ bs.Perm bs' := by
  obtain ⟨bs', hbs', hperm⟩ := List.perm_comp_forall₂ perm.symm (mapM_eq_ok_iff.mp h)
  exact ⟨bs', mapM_eq_ok_iff.mpr hbs', hperm.symm⟩

/-- If each item is read in two steps, the second of which cannot fail, then so is a list of items. -/
theorem forall₂_exists_iff {γ : Type} {related : α → β → Prop} {made : β → γ} {as : List α}
    {cs : List γ} : List.Forall₂ (fun a c => ∃ b, related a b ∧ c = made b) as cs ↔
      ∃ bs, List.Forall₂ related as bs ∧ cs = bs.map made := by
  induction as generalizing cs with
  | nil => simp
  | cons a as ih =>
    simp only [List.forall₂_cons_left_iff, ih]
    constructor
    · rintro ⟨c, cs, ⟨b, hb, rfl⟩, ⟨bs, hbs, rfl⟩, rfl⟩
      exact ⟨b :: bs, ⟨b, bs, hb, hbs, rfl⟩, rfl⟩
    · rintro ⟨_, ⟨b, bs, hb, hbs, rfl⟩, rfl⟩
      exact ⟨made b, bs.map made, ⟨b, hb, rfl⟩, ⟨bs, hbs, rfl⟩, rfl⟩

/-- If each item is read as just those values whose written form it is, then so is a list of items. -/
theorem mapM_eq_ok_iff_map {f : α → Except ε β} {proper : β → Prop} {written : β → α} {as : List α}
    {bs : List β} (h : ∀ a ∈ as, ∀ b, f a = .ok b ↔ proper b ∧ a = written b) :
    as.mapM f = .ok bs ↔ (∀ b ∈ bs, proper b) ∧ as = bs.map written := by
  rw [mapM_eq_ok_iff]
  induction as generalizing bs with
  | nil =>
    rw [List.forall₂_nil_left_iff, eq_comm (a := []), List.map_eq_nil_iff]
    constructor
    · rintro rfl
      simp
    · rintro ⟨_, rfl⟩
      rfl
  | cons a as ih =>
    have ih' (rest : List β) := @ih rest fun a ha => h a (List.mem_cons_of_mem _ ha)
    rw [List.forall₂_cons_left_iff]
    constructor
    · rintro ⟨b, rest, hb, hrest, rfl⟩
      obtain ⟨hproper, rfl⟩ := (h a List.mem_cons_self b).mp hb
      obtain ⟨hpropers, rfl⟩ := (ih' rest).mp hrest
      exact ⟨by simpa using ⟨hproper, hpropers⟩, rfl⟩
    · rintro ⟨hproper, heq⟩
      cases bs with
      | nil => cases heq
      | cons b rest =>
        obtain ⟨ha, has⟩ := List.cons.inj heq
        rw [List.forall_mem_cons] at hproper
        exact ⟨b, rest, (h a List.mem_cons_self b).mpr ⟨hproper.1, ha⟩,
          (ih' rest).mpr ⟨hproper.2, has⟩, rfl⟩

end Steps

section Runs

variable {p : Char → Bool} {run rest : List Char}

/-- The text does not go on with a character of the run. -/
def Stops (p : Char → Bool) (rest : List Char) : Prop :=
  ∀ c, rest.head? = some c → p c = false

/-- At the end of a text every run stops. -/
theorem stops_nil : Stops p [] := by
  intro c h
  cases h

/-- A run stops before a character that is none of its own. -/
theorem stops_cons_iff {c : Char} : Stops p (c :: rest) ↔ p c = false := by
  simp [Stops]

/-- What is left after a run begins where the run stops. -/
theorem stops_dropWhile (p : Char → Bool) (s : List Char) : Stops p (s.dropWhile p) := by
  intro c h
  have hnot := List.head?_dropWhile_not p s
  rw [h] at hnot
  simpa using hnot

/-- A run is taken up to where it stops. -/
theorem takeWhile_append_of_stops (hrun : ∀ c ∈ run, p c = true) (hrest : Stops p rest) :
    (run ++ rest).takeWhile p = run := by
  rw [List.takeWhile_append_of_pos hrun]
  cases rest with
  | nil => simp
  | cons c rest => simp [stops_cons_iff.mp hrest]

/-- A run is dropped up to where it stops. -/
theorem dropWhile_append_of_stops (hrun : ∀ c ∈ run, p c = true) (hrest : Stops p rest) :
    (run ++ rest).dropWhile p = rest := by
  rw [List.dropWhile_append_of_pos hrun]
  cases rest with
  | nil => rfl
  | cons c rest => simp [stops_cons_iff.mp hrest]

end Runs

end PackageLock.Text
