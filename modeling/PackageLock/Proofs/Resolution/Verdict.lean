import Mathlib.Data.Finset.Card
import Mathlib.Data.List.Sort
import PackageLock.Proofs.Graph.Queries

/-!
# The verdict on dependencies

What the check of a package has to say, in terms of the lock alone. A package needs what entries declare
on the way from its own entry, and whatever else is asked of it. The verdict counts what is needed and
tells what is missing, or else what is recorded in a version that violates a constraint. Main statement:
on a graph that represents the entries of a lock, the check comes to that verdict (`check_verdict`).
-/

set_option autoImplicit false

open Relation (ReflTransGen TransGen)

namespace PackageLock

/-! ## What is needed and what is violated -/

/-- A package is needed if declarations lead to it from the entry for `source`, or if it is asked for
and not `source` itself. -/
def Lock.Needs (lock : Lock) (source : String) (asked : List Dependency) (id : String) : Prop :=
  TransGen (Declares lock.packages) source id ∨
    id ≠ source ∧ ∃ dependency ∈ asked, dependency.package = id

/-- The version recorded for a dependency does not satisfy the constraint on it. -/
def Lock.Violates (lock : Lock) (dependency : Dependency) : Prop :=
  ∃ constraint package, dependency.constraint = some constraint ∧
    lock.find? dependency.package = some package ∧
    Constraint.isCompatible constraint package.version = false

/-- Whether a dependency is violated is told by the entry that is found for its package. -/
theorem Lock.violates_congr {lock lock' : Lock} {dependency : Dependency}
    (h : lock'.find? dependency.package = lock.find? dependency.package) :
    lock'.Violates dependency ↔ lock.Violates dependency := by
  rw [Violates, Violates, h]

/-- The counts of what is needed, of that part of it which has an entry, and of what is invalid. -/
def Lock.tally (lock : Lock) (needed : Finset String) (invalid : Nat) : Counts :=
  ⟨needed.card, (needed.filter fun id => lock.contains id = true).card, invalid⟩

/-- The outcome that is right for a lock that is asked for some dependencies, where `needed` are the
packages needed. -/
inductive Verdict (lock : Lock) (asked : List Dependency) (needed : Finset String) : Outcome → Prop where
  /-- Something needed has no entry, and all such is listed. -/
  | missing {ids : List String} (nonempty : ids ≠ []) (ascends : ids.Pairwise (· < ·))
      (mem_iff : ∀ id, id ∈ ids ↔ id ∈ needed ∧ lock.contains id = false) :
      Verdict lock asked needed (.error (.missing ids (lock.tally needed 0)))
  /-- All that is needed has an entry, and something asked for has a version that violates a
  constraint. -/
  | incompatible {ids : List String} (complete : ∀ id ∈ needed, lock.contains id = true)
      (nonempty : ids ≠ []) (ascends : ids.Pairwise (· < ·))
      (mem_iff : ∀ id, id ∈ ids ↔
        ∃ dependency ∈ asked, dependency.package = id ∧ lock.Violates dependency) :
      Verdict lock asked needed (.error (.incompatible ids (lock.tally needed ids.length)))
  /-- All that is needed has an entry, and no constraint is violated. -/
  | satisfied (complete : ∀ id ∈ needed, lock.contains id = true)
      (compatible : ∀ dependency ∈ asked, ¬ lock.Violates dependency) :
      Verdict lock asked needed (.ok (lock.tally needed 0))

/-- What an outcome has counted. -/
def Outcome.counts : Outcome → Counts
  | .ok counts => counts
  | .error e => e.counts

/-- Outcomes are told apart by their errors and counts. -/
instance Outcome.decidableEq : DecidableEq Outcome
  | .ok a, .ok b => decidable_of_iff (a = b) (by simp)
  | .error a, .error b => decidable_of_iff (a = b) (by simp)
  | .ok _, .error _ => .isFalse nofun
  | .error _, .ok _ => .isFalse nofun

/-- The outcome is a verdict on dependencies. -/
def Judged : Outcome → Prop
  | .ok _ => True
  | .error (.missing _ _) => True
  | .error (.incompatible _ _) => True
  | .error _ => False

/-- A tally counts no more packages as installed than it counts altogether. -/
theorem Lock.tally_installed_le (lock : Lock) (needed : Finset String) (invalid : Nat) :
    (lock.tally needed invalid).installed ≤ (lock.tally needed invalid).total :=
  Finset.card_filter_le needed _

/-- Where all that is needed has its entry, all of it is counted as installed. -/
theorem Lock.tally_of_complete {lock : Lock} {needed : Finset String}
    (complete : ∀ id ∈ needed, lock.contains id = true) (invalid : Nat) :
    lock.tally needed invalid = ⟨needed.card, needed.card, invalid⟩ := by
  rw [tally, Finset.filter_true_of_mem complete]

namespace Verdict

variable {lock : Lock} {asked : List Dependency} {needed : Finset String} {outcome : Outcome}

/-- A verdict is one on dependencies. -/
theorem judged (h : Verdict lock asked needed outcome) : Judged outcome := by
  cases h <;> trivial

/-- A verdict counts what is needed and what of it is installed. -/
theorem counts_eq_tally (h : Verdict lock asked needed outcome) :
    ∃ invalid, Outcome.counts outcome = lock.tally needed invalid := by
  cases h with
  | missing => exact ⟨0, rfl⟩
  | @incompatible ids => exact ⟨ids.length, rfl⟩
  | satisfied => exact ⟨0, rfl⟩

/-- Nothing is counted as invalid unless something incompatible is reported. -/
theorem counts_eq (h : Verdict lock asked needed outcome)
    (compatible : ∀ ids counts, outcome ≠ .error (.incompatible ids counts)) :
    Outcome.counts outcome = lock.tally needed 0 := by
  cases h with
  | missing => rfl
  | incompatible => exact absurd rfl (compatible _ _)
  | satisfied => rfl

/-- Where something incompatible is reported, all that is needed has an entry. -/
theorem of_incompatible {ids : List String} {counts : Counts}
    (h : Verdict lock asked needed (.error (.incompatible ids counts))) :
    counts = lock.tally needed ids.length ∧ (∀ id ∈ needed, lock.contains id = true) ∧ ids.Nodup ∧
      ∀ id, id ∈ ids ↔ ∃ dependency ∈ asked, dependency.package = id ∧ lock.Violates dependency := by
  cases h with
  | incompatible complete _ ascends mem_iff => exact ⟨rfl, complete, ascends.nodup, mem_iff⟩

/-- Where all that is needed has an entry, the constraints decide. -/
theorem of_complete (h : Verdict lock asked needed outcome)
    (complete : ∀ id ∈ needed, lock.contains id = true) :
    ((∀ dependency ∈ asked, ¬ lock.Violates dependency) →
      outcome = .ok ⟨needed.card, needed.card, 0⟩) ∧
    ((∃ dependency ∈ asked, lock.Violates dependency) → ∃ ids : List String, ids.Pairwise (· < ·) ∧
      (∀ id, id ∈ ids ↔ ∃ dependency ∈ asked, dependency.package = id ∧ lock.Violates dependency) ∧
      outcome = .error (.incompatible ids ⟨needed.card, needed.card, ids.length⟩)) := by
  have htally := Lock.tally_of_complete complete
  cases h with
  | @missing ids nonempty _ mem_iff =>
    obtain ⟨id, hid⟩ := List.exists_mem_of_ne_nil ids nonempty
    obtain ⟨hneeded, absent⟩ := (mem_iff id).mp hid
    rw [complete id hneeded] at absent
    cases absent
  | @incompatible ids _ nonempty ascends mem_iff =>
    rw [htally]
    refine ⟨fun compatible => ?_, fun _ => ⟨ids, ascends, mem_iff, rfl⟩⟩
    obtain ⟨id, hid⟩ := List.exists_mem_of_ne_nil ids nonempty
    obtain ⟨dependency, hdependency, _, hviolates⟩ := (mem_iff id).mp hid
    exact absurd hviolates (compatible dependency hdependency)
  | satisfied _ compatible =>
    rw [htally]
    refine ⟨fun _ => rfl, ?_⟩
    rintro ⟨dependency, hdependency, hviolates⟩
    exact absurd hviolates (compatible dependency hdependency)

/-- What is listed as missing and what is installed are together all that is needed. -/
theorem length_missing_add {ids : List String} {counts : Counts}
    (h : Verdict lock asked needed (.error (.missing ids counts))) :
    ids.length + counts.installed = counts.total := by
  cases h with
  | missing _ ascends mem_iff =>
    have hids : ids.toFinset = needed.filter fun id => ¬ lock.contains id = true := by
      ext id
      rw [List.mem_toFinset, mem_iff, Finset.mem_filter, Bool.not_eq_true]
    have hlength : ids.length = (needed.filter fun id => ¬ lock.contains id = true).card := by
      rw [← hids, List.toFinset_card_of_nodup ascends.nodup]
    have hsplit := Finset.card_filter_add_card_filter_not (s := needed) fun id => lock.contains id = true
    simp only [Lock.tally]
    omega

/-- What is needed and has no entry is listed as missing. -/
theorem missing_of_absent {id : String} (h : Verdict lock asked needed outcome) (hid : id ∈ needed)
    (absent : lock.contains id = false) :
    ∃ ids counts, outcome = .error (.missing ids counts) ∧ id ∈ ids := by
  have incomplete : ¬ ∀ id ∈ needed, lock.contains id = true := by
    intro complete
    rw [complete id hid] at absent
    cases absent
  cases h with
  | missing _ _ mem_iff => exact ⟨_, _, rfl, (mem_iff id).mpr ⟨hid, absent⟩⟩
  | incompatible complete => exact absurd complete incomplete
  | satisfied complete => exact absurd complete incomplete

/-- At most one outcome is right. -/
theorem unique {first second : Outcome} (h : Verdict lock asked needed first)
    (h' : Verdict lock asked needed second) : first = second := by
  have incomplete {ids : List String} (nonempty : ids ≠ [])
      (mem_iff : ∀ id, id ∈ ids ↔ id ∈ needed ∧ lock.contains id = false) :
      ¬ ∀ id ∈ needed, lock.contains id = true := by
    obtain ⟨id, hid⟩ := List.exists_mem_of_ne_nil ids nonempty
    obtain ⟨hneeded, habsent⟩ := (mem_iff id).mp hid
    intro complete
    rw [complete id hneeded] at habsent
    cases habsent
  have incompatible {ids : List String} (nonempty : ids ≠ [])
      (mem_iff : ∀ id, id ∈ ids ↔
        ∃ dependency ∈ asked, dependency.package = id ∧ lock.Violates dependency) :
      ¬ ∀ dependency ∈ asked, ¬ lock.Violates dependency := by
    obtain ⟨id, hid⟩ := List.exists_mem_of_ne_nil ids nonempty
    obtain ⟨dependency, hdependency, _, hviolates⟩ := (mem_iff id).mp hid
    exact fun compatible => compatible dependency hdependency hviolates
  cases h with
  | @missing ids nonempty ascends mem_iff =>
    cases h' with
    | @missing ids' _ ascends' mem_iff' =>
      have hids : ids = ids' :=
        ascends.eq_of_mem_iff ascends' fun id => (mem_iff id).trans (mem_iff' id).symm
      rw [hids]
    | incompatible complete => exact absurd complete (incomplete nonempty mem_iff)
    | satisfied complete => exact absurd complete (incomplete nonempty mem_iff)
  | @incompatible ids complete nonempty ascends mem_iff =>
    cases h' with
    | missing nonempty' _ mem_iff' => exact absurd complete (incomplete nonempty' mem_iff')
    | @incompatible ids' _ _ ascends' mem_iff' =>
      have hids : ids = ids' :=
        ascends.eq_of_mem_iff ascends' fun id => (mem_iff id).trans (mem_iff' id).symm
      rw [hids]
    | satisfied _ compatible => exact absurd compatible (incompatible nonempty mem_iff)
  | satisfied complete compatible =>
    cases h' with
    | missing nonempty' _ mem_iff' => exact absurd complete (incomplete nonempty' mem_iff')
    | incompatible _ nonempty' _ mem_iff' => exact absurd compatible (incompatible nonempty' mem_iff')
    | satisfied => rfl

end Verdict

/-! ## Lists in ascending order -/

/-- A list in ascending order has no text twice. -/
theorem nodup_ascending (l : List String) : (ascending l).Nodup :=
  (pairwise_ascending l).nodup

/-- Sorting a list without repetitions keeps its length. -/
theorem length_ascending {l : List String} (nodup : l.Nodup) : (ascending l).length = l.length := by
  have hmem (x : String) : x ∈ ascending l ↔ x ∈ l := mem_ascending
  exact ((List.perm_ext_iff_of_nodup (nodup_ascending l) nodup).mpr hmem).length_eq

/-- Only the empty list is sorted into the empty one. -/
theorem ascending_eq_nil_iff {l : List String} : ascending l = [] ↔ l = [] := by
  simp only [List.eq_nil_iff_forall_not_mem, mem_ascending]

namespace Plan

variable {g : Graph} {lock : Lock} {package : Package}

/-! ## Looking up what is asked for -/

/-- Not reached are the declared packages that are not among the nodes, the package itself apart. -/
theorem mem_unreached {tree : List Node} {id : String} :
    id ∈ unreached package tree ↔
      (∃ dependency ∈ package.dependencies, dependency.package = id) ∧ id ≠ package.source ∧
        id ∉ tree.map Node.id := by
  simp only [unreached, mem_ascending, List.mem_filter, List.mem_map, Bool.and_eq_true, bne_iff_ne,
    Bool.not_eq_true', List.contains_eq_mem, decide_eq_false_iff_not]

/-- The look-up tells what has an entry from what has none. -/
theorem lookUp_eq (h : g.Represents lock.packages) (ids : List String) :
    lookUp Graph.service g ids =
      .ok (ids.filter lock.contains, ids.filter fun id => !lock.contains id) := by
  induction ids with
  | nil => rfl
  | cons id ids ih =>
    have hnode : Graph.service.node g id = g.node id := rfl
    rw [lookUp, hnode, ih]
    rcases h.node_eq id with ⟨package, hfind, heq⟩ | ⟨hfind, heq | ⟨dependency, heq⟩⟩
    · have hcontains : lock.contains id = true := by rw [Lock.contains, hfind]; rfl
      rw [heq]
      simp [hcontains, Node.isPlaceholder]
    · have hcontains := Lock.contains_eq_false_iff.mpr hfind
      rw [heq]
      simp [hcontains]
    · have hcontains := Lock.contains_eq_false_iff.mpr hfind
      rw [heq]
      simp [hcontains, Node.isPlaceholder]

/-- The survey finds what is needed, each package once, and tells what is installed of it. -/
theorem survey_eq (h : g.Represents lock.packages) (hsource : lock.contains package.source = true) :
    ∃ needed : List String, needed.Nodup ∧
      (∀ id, id ∈ needed ↔ lock.Needs package.source package.dependencies id) ∧
      survey Graph.service g package =
        .ok (needed.filter lock.contains, ascending (needed.filter fun id => !lock.contains id)) := by
  obtain ⟨tree, htrace, hnodup, hmem, hplaceholder⟩ := h.trace_eq hsource
  -- the trace and the look-up share no package, and together they find all that is needed
  refine ⟨tree.map Node.id ++ unreached package tree, ?_, ?_, ?_⟩
  · refine List.nodup_append.mpr ⟨hnodup, nodup_ascending _, ?_⟩
    intro a ha b hb hab
    rw [hab] at ha
    exact (mem_unreached.mp hb).2.2 ha
  · intro id
    rw [List.mem_append, mem_unreached, hmem, Lock.Needs]
    by_cases reached : TransGen (Declares lock.packages) package.source id
    · simp [reached]
    · simp [reached, and_comm]
  · have hpresent : (tree.filter fun node => !node.isPlaceholder).map Node.id =
        (tree.map Node.id).filter lock.contains := by
      rw [List.filter_map]
      refine congrArg (List.map Node.id) (List.filter_congr fun node hnode => ?_)
      rw [hplaceholder node hnode, Bool.not_not, Function.comp_apply]
    have habsent : (tree.filter Node.isPlaceholder).map Node.id =
        (tree.map Node.id).filter fun id => !lock.contains id := by
      rw [List.filter_map]
      refine congrArg (List.map Node.id) (List.filter_congr fun node hnode => ?_)
      rw [hplaceholder node hnode, Function.comp_apply]
    have hservice : Graph.service.trace g package.source = .ok tree := htrace
    unfold survey
    rw [hservice]
    simp only [bind, Except.bind, lookUp_eq h, List.partition_eq_filter_filter, pure, Except.pure]
    rw [List.filter_append, List.filter_append, ← hpresent, ← habsent]
    rfl

/-! ## Checking versions -/

/-- The installed version is the one of the entry. -/
theorem installedVersion_eq (h : g.Represents lock.packages) (id : String) :
    installedVersion Graph.service g id = .ok ((lock.find? id).map (·.version)) := by
  have hnode : Graph.service.node g id = g.node id := rfl
  rw [installedVersion, hnode]
  rcases h.node_eq id with ⟨package, hfind, heq⟩ | ⟨hfind, heq | ⟨dependency, heq⟩⟩
  · rw [heq, hfind]
    rfl
  · rw [heq, hfind]
    rfl
  · rw [heq, hfind]
    rfl

/-- Where all dependencies have entries, those are found that violate a constraint. -/
theorem violated_eq_ok (h : g.Represents lock.packages) (source : String)
    {dependencies : List Dependency}
    (recorded : ∀ dependency ∈ dependencies, lock.contains dependency.package = true) :
    ∃ ids, (violated Graph.service g source dependencies).value = .ok ids ∧
      ∀ id, id ∈ ids ↔
        ∃ dependency ∈ dependencies, dependency.package = id ∧ lock.Violates dependency := by
  induction dependencies with
  | nil => exact ⟨[], rfl, by simp⟩
  | cons dependency rest ih =>
    obtain ⟨ids, hrest, hmem⟩ := ih fun other hother => recorded other (List.mem_cons_of_mem _ hother)
    obtain ⟨package, hfind⟩ := Lock.exists_find? (recorded dependency List.mem_cons_self)
    unfold violated
    cases hconstraint : dependency.constraint with
    | none =>
      have hnot : ¬ lock.Violates dependency := by
        rintro ⟨constraint, _, hsome, _⟩
        rw [hconstraint] at hsome
        cases hsome
      refine ⟨ids, hrest, fun id => ?_⟩
      rw [hmem]
      simp [hnot]
    | some constraint =>
      have hviolates : lock.Violates dependency ↔
          Constraint.isCompatible constraint package.version = false := by
        simp [Lock.Violates, hconstraint, hfind]
      rw [installedVersion_eq h, hfind]
      cases hcompatible : Constraint.isCompatible constraint package.version with
      | true =>
        refine ⟨ids, ?_, fun id => ?_⟩
        · simp [Logged.andThen, Logged.map, Logged.after, judge, hcompatible, hrest]
          rfl
        · rw [hmem]
          simp [hviolates, hcompatible]
      | false =>
        refine ⟨dependency.package :: ids, ?_, fun id => ?_⟩
        · simp [Logged.andThen, Logged.map, Logged.after, judge, hcompatible, hrest]
          rfl
        · rw [List.mem_cons, hmem]
          simp [hviolates, hcompatible, eq_comm]

/-! ## The check -/

/-- What the survey finds is told apart and counted as the verdict has it. -/
theorem survey_eq_ok (h : g.Represents lock.packages)
    (hsource : lock.contains package.source = true) :
    ∃ (needed : Finset String) (installed missing : List String),
      survey Graph.service g package = .ok (installed, missing) ∧
      (∀ id, id ∈ needed ↔ lock.Needs package.source package.dependencies id) ∧
      missing.Pairwise (· < ·) ∧
      (∀ id, id ∈ missing ↔ id ∈ needed ∧ lock.contains id = false) ∧
      ∀ invalid, Counts.mk (installed.length + missing.length) installed.length invalid =
        lock.tally needed invalid := by
  obtain ⟨needed, hnodup, hneeds, hsurvey⟩ := survey_eq h hsource
  refine ⟨needed.toFinset, _, _, hsurvey, ?_, pairwise_ascending _, ?_, ?_⟩
  · intro id
    rw [List.mem_toFinset, hneeds]
  · intro id
    rw [mem_ascending, List.mem_filter, List.mem_toFinset, Bool.not_eq_true']
  · intro invalid
    have hinstalled : (needed.toFinset.filter fun id => lock.contains id = true).card =
        (needed.filter lock.contains).length := by
      rw [← List.toFinset_filter, List.toFinset_card_of_nodup (hnodup.filter _)]
    have hmissing : (ascending (needed.filter fun id => !lock.contains id)).length =
        (needed.filter fun id => !lock.contains id).length := length_ascending (hnodup.filter _)
    have htotal : needed.toFinset.card = (needed.filter lock.contains).length +
        (needed.filter fun id => !lock.contains id).length := by
      rw [List.toFinset_card_of_nodup hnodup, ← List.length_eq_length_filter_add]
    rw [Lock.tally, hinstalled, htotal, hmissing]

/-- On the graph of a lock the check comes to the right verdict. -/
theorem check_verdict (h : g.Represents lock.packages)
    (hsource : lock.contains package.source = true) :
    ∃ needed : Finset String,
      (∀ id, id ∈ needed ↔ lock.Needs package.source package.dependencies id) ∧
      Verdict lock package.dependencies needed (check Graph.service g package).value := by
  obtain ⟨needed, installed, missing, hsurvey, hneeds, hascends, hmissing, htally⟩ :=
    survey_eq_ok h hsource
  refine ⟨needed, hneeds, ?_⟩
  rw [check, hsurvey]
  cases missing with
  | cons id rest =>
    simp only [List.isEmpty_cons, Bool.false_eq_true, if_false, htally]
    exact Verdict.missing (List.cons_ne_nil id rest) hascends hmissing
  | nil =>
    have complete : ∀ id ∈ needed, lock.contains id = true := by
      intro id hid
      have hnot : ¬ (id ∈ needed ∧ lock.contains id = false) := fun hand =>
        List.not_mem_nil ((hmissing id).mpr hand)
      simpa [hid] using hnot
    -- the package itself is not needed, but it has its entry, so all versions are on record
    have recorded : ∀ dependency ∈ package.dependencies,
        lock.contains dependency.package = true := by
      intro dependency hdependency
      by_cases self : dependency.package = package.source
      · rw [self, hsource]
      · exact complete _ ((hneeds _).mpr (Or.inr ⟨self, dependency, hdependency, rfl⟩))
    obtain ⟨ids, hviolated, hmem⟩ := violated_eq_ok h package.source recorded
    simp only [List.isEmpty_nil, if_true, Logged.map, hviolated, htally]
    cases hids : ascending ids with
    | nil =>
      refine Verdict.satisfied complete ?_
      intro dependency hdependency hviolates
      have hid := (hmem _).mpr ⟨dependency, hdependency, rfl, hviolates⟩
      rw [ascending_eq_nil_iff.mp hids] at hid
      cases hid
    | cons id rest =>
      have hlisted (x : String) : x ∈ id :: rest ↔
          ∃ dependency ∈ package.dependencies,
            dependency.package = x ∧ lock.Violates dependency := by
        rw [← hids, mem_ascending, hmem]
      have hsorted : (id :: rest).Pairwise (· < ·) := hids ▸ pairwise_ascending ids
      exact Verdict.incompatible complete (List.cons_ne_nil id rest) hsorted hlisted

end Plan

end PackageLock
