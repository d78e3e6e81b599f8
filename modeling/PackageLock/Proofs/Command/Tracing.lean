import PackageLock.Command.Run
import PackageLock.Proofs.Graph.Drawing
import PackageLock.Proofs.Graph.Rebuilding
import PackageLock.Proofs.Resolution.Repetition

/-!
# What a trace tells of a lock

A trace works on the graph of the lock alone. It answers for every node of the graph, and so for an entry,
but also for a package that entries only declare: of this it tells that all its dependencies are installed
(`showTrace_answers_iff`). For an entry it finds what a resolution finds that asks for the same packages:
as many dependencies, and the same ones missing (`showTrace_agrees`).
-/

set_option autoImplicit false

open Relation (TransGen)

namespace PackageLock

/-! ## What a resolution needs -/

section Needed

variable {lock : Lock} {asked : List Dependency} {needed : Finset String} {outcome : Outcome}
  {tree : List Node}

/-- A resolution of a package that has its entry comes to a verdict as soon as the lock can be read. -/
theorem run_verdict_of_readable {σ : Type} {store : LockStore (StateM σ)} {s : σ} {request : Request}
    {package : Package} (readable : (store.get.run s).1.value = .ok lock) (wellFormed : lock.WellFormed)
    (active : request.revision.desiredState = .active)
    (describes : Describes request.metadata request.revision package)
    (present : lock.contains package.source = true) :
    ∃ needed : Finset String,
      (∀ id, id ∈ needed ↔ lock.Needs package.source package.dependencies id) ∧
        Verdict lock package.dependencies needed ((request.run store).run s).1.value := by
  obtain ⟨known, hknown, _⟩ := describes.dependencies
  obtain ⟨g, represents, plan⟩ := make_of_present wellFormed active hknown describes present
  obtain ⟨hvalue, _⟩ := request.run_of_readable store hknown readable
  have hchecked : ((request.run store).run s).1.value = (Plan.check Graph.service g package).value := by
    rw [hvalue, plan]
    rfl
  rw [hchecked]
  exact Plan.check_verdict represents present

/-- Where no package is asked for that the entry does not declare, all that is needed lies on the way from
the entry. -/
theorem Lock.needs_iff_of_declared {entry : Package} (hentry : entry ∈ lock.packages)
    (declared : ∀ dependency ∈ asked, entry.dependsOn dependency.package = true) (id : String) :
    lock.Needs entry.source asked id ↔ TransGen (Declares lock.packages) entry.source id := by
  constructor
  · rintro (path | ⟨_, dependency, hdependency, rfl⟩)
    · exact path
    · exact TransGen.single ⟨entry, hentry, rfl, declared dependency hdependency⟩
  · exact Or.inl

namespace Verdict

/-- A verdict has counted what a list of all that is needed has on it. -/
theorem length_eq_total (verdict : Verdict lock asked needed outcome)
    (nodup : (tree.map Node.id).Nodup) (mem_iff : ∀ id, id ∈ tree.map Node.id ↔ id ∈ needed) :
    tree.length = (Outcome.counts outcome).total := by
  have hneeded : needed = (tree.map Node.id).toFinset :=
    Finset.ext fun id => by rw [List.mem_toFinset, mem_iff]
  obtain ⟨invalid, hcounts⟩ := verdict.counts_eq_tally
  calc tree.length = (tree.map Node.id).length := (List.length_map _).symm
    _ = needed.card := by rw [hneeded, List.toFinset_card_of_nodup nodup]
    _ = (Outcome.counts outcome).total := by rw [hcounts]; rfl

/-- A verdict lists as missing the placeholders on a list of all that is needed, and only if there are any. -/
theorem placeholders (verdict : Verdict lock asked needed outcome)
    (ascends : (tree.map Node.id).Pairwise (· < ·)) (mem_iff : ∀ id, id ∈ tree.map Node.id ↔ id ∈ needed)
    (recorded : ∀ node ∈ tree, node.isPlaceholder = !lock.contains node.id) :
    (∃ ids counts, outcome = .error (.missing ids counts) ∧ ids ≠ [] ∧
        (tree.filter Node.isPlaceholder).map Node.id = ids) ∨
      (∀ ids counts, outcome ≠ .error (.missing ids counts)) ∧
        (tree.filter Node.isPlaceholder).map Node.id = [] := by
  have hmissing (id : String) : id ∈ (tree.filter Node.isPlaceholder).map Node.id ↔
      id ∈ needed ∧ lock.contains id = false := by
    rw [← mem_iff, List.mem_map, List.mem_map]
    constructor
    · rintro ⟨node, hnode, rfl⟩
      obtain ⟨hmem, hplaceholder⟩ := List.mem_filter.mp hnode
      rw [recorded node hmem, Bool.not_eq_true'] at hplaceholder
      exact ⟨⟨node, hmem, rfl⟩, hplaceholder⟩
    · rintro ⟨⟨node, hmem, rfl⟩, absent⟩
      refine ⟨node, List.mem_filter.mpr ⟨hmem, ?_⟩, rfl⟩
      rw [recorded node hmem, absent, Bool.not_false]
  have none_of_complete (complete : ∀ id ∈ needed, lock.contains id = true) :
      (tree.filter Node.isPlaceholder).map Node.id = [] := by
    refine List.eq_nil_iff_forall_not_mem.mpr fun id hid => ?_
    obtain ⟨hneeded, absent⟩ := (hmissing id).mp hid
    rw [complete id hneeded] at absent
    cases absent
  cases verdict with
  | @missing ids nonempty ids_ascend ids_mem_iff =>
    have filtered : ((tree.filter Node.isPlaceholder).map Node.id).Pairwise (· < ·) :=
      ascends.sublist (List.filter_sublist.map _)
    exact Or.inl ⟨ids, _, rfl, nonempty,
      filtered.eq_of_mem_iff ids_ascend fun id => (hmissing id).trans (ids_mem_iff id).symm⟩
  | incompatible complete => exact Or.inr ⟨nofun, none_of_complete complete⟩
  | satisfied complete => exact Or.inr ⟨nofun, none_of_complete complete⟩

end Verdict

end Needed

namespace Graph.Represents

variable {g : Graph} {lock : Lock} {source : String}

/-! ## Packages that are only declared -/

/-- Arrows start at entries. -/
theorem not_arrow_of_absent (h : g.Represents lock.packages) (absent : lock.contains source = false)
    (child : String) : ¬ g.Arrow source child := by
  intro arrow
  obtain ⟨entry, hentry, hsource, _⟩ := (h.arrow_iff source child).mp arrow
  exact Lock.not_mem_of_absent absent (hsource ▸ List.mem_map_of_mem hentry)

/-- A package that has a node but no entry is labelled as missing. -/
theorem labelOf_of_absent (h : g.Represents lock.packages) (hid : source ∈ g.ids)
    (absent : lock.contains source = false) : g.labelOf source = source ++ " (missing)" := by
  obtain ⟨node, hnode, rfl⟩ := mem_ids.mp hid
  have hplaceholder : node.isPlaceholder = true := by
    rw [h.isPlaceholder_eq hnode, absent, Bool.not_false]
  rw [labelOf_eq (h.wellFormed.indexed.find?_eq_some_iff.mpr ⟨hnode, rfl⟩)]
  cases node with
  | resolved package => cases hplaceholder
  | placeholder dependency => rfl

/-- Nothing is traced from a package without an entry, and nothing is drawn below it. -/
theorem trace_and_lines_of_absent (h : g.Represents lock.packages) (hid : source ∈ g.ids)
    (absent : lock.contains source = false) (depth : Option Nat) :
    g.trace source = .ok [] ∧ (g.tree source depth).lines = [source ++ " (missing)"] := by
  constructor
  · obtain ⟨tree, htrace, _, _, hkeys⟩ := h.wellFormed.trace_eq hid
    have noKeys : tree.map Node.id = [] := by
      refine List.eq_nil_iff_forall_not_mem.mpr fun key hkey => ?_
      obtain ⟨child, arrow, _⟩ := TransGen.head'_iff.mp ((hkeys key).mp hkey)
      exact h.not_arrow_of_absent absent child arrow
    rw [htrace, List.map_eq_nil_iff.mp noKeys]
  · have noChildren : g.children source = [] := List.eq_nil_iff_forall_not_mem.mpr fun child hchild =>
      h.not_arrow_of_absent absent child (mem_children.mp hchild)
    rw [tree, noChildren, h.labelOf_of_absent hid absent]
    rfl

end Graph.Represents

namespace Command

variable {lock : Lock} {g : Graph} {source path : String} {depth : Option Nat} {tree : List Node}

/-! ## What is shown -/

/-- A trace without placeholders says that all dependencies are installed. -/
theorem tracedStatus_of_installed (installed : (tree.filter Node.isPlaceholder).map Node.id = []) :
    tracedStatus tree =
      ⟨.info, "Traced", toString tree.length ++ " dependencies, all installed"⟩ := by
  rw [tracedStatus, installed]
  rfl

/-- A trace with placeholders names them as missing. -/
theorem tracedStatus_of_missing {ids : List String}
    (missing : (tree.filter Node.isPlaceholder).map Node.id = ids) (nonempty : ids ≠ []) :
    tracedStatus tree = ⟨.warning, "Traced", toString tree.length ++ " dependencies, " ++
      toString ids.length ++ " missing: " ++ ", ".intercalate ids⟩ := by
  rw [tracedStatus, missing]
  exact if_neg fun empty => nonempty (List.isEmpty_iff.mp empty)

/-- A node is drawn and traced. -/
theorem showTrace_of_mem (built : Graph.ofPackages lock.packages = .ok g) (node : source ∈ g.ids)
    (htrace : g.trace source = .ok tree) :
    showTrace path lock source depth =
      ⟨(g.tree source depth).lines, [tracedStatus tree], [], .ok ()⟩ := by
  have represents := Graph.ofPackages_represents built
  have present : g.contains source = true := represents.wellFormed.indexed.contains_iff.mpr node
  simp only [showTrace, built, present, htrace, if_true]

/-- A package that has no node in the graph of the lock is not traced. -/
theorem showTrace_of_notMem (built : Graph.ofPackages lock.packages = .ok g) (absent : source ∉ g.ids) :
    showTrace path lock source depth = .failed (.notInLock source path) := by
  have represents := Graph.ofPackages_represents built
  have hcontains : ¬ g.contains source = true := fun present =>
    absent (represents.wellFormed.indexed.contains_iff.mp present)
  simp only [showTrace, built, if_neg hcontains]

/-! ## Sources for which a trace answers -/

/-- A trace answers for the nodes of the graph. -/
theorem showTrace_ok_iff (built : Graph.ofPackages lock.packages = .ok g) :
    (showTrace path lock source depth).result = .ok () ↔ source ∈ g.ids := by
  constructor
  · intro ok
    by_contra absent
    rw [showTrace_of_notMem built absent] at ok
    cases ok
  · intro node
    obtain ⟨tree, htrace, _⟩ := (Graph.ofPackages_represents built).wellFormed.trace_eq node
    rw [showTrace_of_mem built node htrace]

/-- For a package without an entry that entries declare, a trace has nothing to report as missing. -/
theorem showTrace_of_declared (built : Graph.ofPackages lock.packages = .ok g)
    (absent : lock.contains source = false)
    (declared : ∃ package ∈ lock.packages, package.dependsOn source = true) :
    showTrace path lock source depth = ⟨[source ++ " (missing)"],
      [⟨.info, "Traced", "0 dependencies, all installed"⟩], [], .ok ()⟩ := by
  have represents := Graph.ofPackages_represents built
  have node : source ∈ g.ids := (represents.mem_ids_iff source).mpr (Or.inr declared)
  obtain ⟨htrace, hlines⟩ := represents.trace_and_lines_of_absent node absent depth
  rw [showTrace_of_mem built node htrace, hlines]
  rfl

/-- Where the graph of a lock can be built, a trace answers exactly for the packages that have an entry and
for those that an entry declares; for others it fails, and says that they are not in the lock. Of a package
that is only declared it tells that all its dependencies are installed. So it answers for installed packages
alone exactly as long as it is not asked for one that is only declared. -/
theorem showTrace_answers_iff (built : Graph.ofPackages lock.packages = .ok g) (source path : String)
    (depth : Option Nat) :
    let shown := showTrace path lock source depth
    let declared := ∃ package ∈ lock.packages, package.dependsOn source = true
    (shown.result = .ok () ↔ lock.contains source = true ∨ declared) ∧
    (shown.result ≠ .ok () → shown = .failed (.notInLock source path)) ∧
    (lock.contains source = false → declared → shown = ⟨[source ++ " (missing)"],
      [⟨.info, "Traced", "0 dependencies, all installed"⟩], [], .ok ()⟩) ∧
    ((shown.result = .ok () ↔ lock.contains source = true) ∧
        (lock.contains source = false → shown.result = .error (.notInLock source path)) ↔
      lock.contains source = true ∨ ¬ declared) := by
  intro shown declared
  have hids : source ∈ g.ids ↔ lock.contains source = true ∨ declared := by
    rw [(Graph.ofPackages_represents built).mem_ids_iff, Lock.contains_iff]
  have answers : shown.result = .ok () ↔ lock.contains source = true ∨ declared :=
    (showTrace_ok_iff built).trans hids
  have fails (notOk : shown.result ≠ .ok ()) : shown = .failed (.notInLock source path) :=
    showTrace_of_notMem built fun node => notOk ((showTrace_ok_iff built).mpr node)
  refine ⟨answers, fails, showTrace_of_declared built, ?_⟩
  cases recorded : lock.contains source with
  | true =>
    exact iff_of_true ⟨iff_of_true (answers.mpr (Or.inl recorded)) rfl, nofun⟩ (Or.inl rfl)
  | false =>
    rw [recorded] at answers
    by_cases hdeclared : declared
    · -- the trace answers for what has no entry
      have ok := answers.mpr (Or.inr hdeclared)
      refine iff_of_false (fun ⟨alone, _⟩ => ?_) (fun held => ?_)
      · exact absurd (alone.mp ok) Bool.false_ne_true
      · exact held.elim nofun (not_not_intro hdeclared)
    · have notOk : shown.result ≠ .ok () := fun ok =>
        (answers.mp ok).elim nofun hdeclared
      refine iff_of_true ⟨iff_of_false notOk Bool.false_ne_true, fun _ => ?_⟩ (Or.inr hdeclared)
      rw [fails notOk]
      rfl

/-- A package that is neither in the lock nor declared there. -/
theorem showTrace_fails_of_unknown :
    let lock : Lock := ⟨1, [⟨"a", "v1.0.0", [⟨"b", .provider, none⟩]⟩]⟩
    ∃ g, Graph.ofPackages lock.packages = .ok g ∧
      showTrace "Keel.lock" lock "c" none = .failed (.notInLock "c" "Keel.lock") := by
  intro lock
  obtain ⟨g, built⟩ : ∃ g, Graph.ofPackages lock.packages = .ok g := ⟨_, by cbv⟩
  obtain ⟨answers, fails, _⟩ := showTrace_answers_iff built "c" "Keel.lock" none
  refine ⟨g, built, fails fun ok => ?_⟩
  rcases answers.mp ok with recorded | ⟨package, hpackage, declares⟩
  · exact absurd recorded (by decide)
  · rw [List.mem_singleton.mp hpackage] at declares
    exact absurd declares (by decide)

/-- The dependency of the only package in a lock is traced, and nothing is said to be missing. -/
theorem traces_package_not_in_lock :
    let lock : Lock := ⟨1, [⟨"a", "v1.0.0", [⟨"b", .provider, none⟩]⟩]⟩
    lock.contains "b" = false ∧
      showTrace "Keel.lock" lock "b" none = ⟨["b (missing)"],
        [⟨.info, "Traced", "0 dependencies, all installed"⟩], [], .ok ()⟩ := by
  intro lock
  exact ⟨by decide, by cbv⟩

/-! ## Agreement with a resolution -/

/-- The status of a trace that has found all that is needed says what a verdict says. -/
theorem tracedStatus_of_verdict {asked : List Dependency} {needed : Finset String} {outcome : Outcome}
    (verdict : Verdict lock asked needed outcome)
    (ascends : (tree.map Node.id).Pairwise (· < ·)) (mem_iff : ∀ id, id ∈ tree.map Node.id ↔ id ∈ needed)
    (recorded : ∀ node ∈ tree, node.isPlaceholder = !lock.contains node.id) :
    (∀ ids counts, outcome = .error (.missing ids counts) →
      (tree.filter Node.isPlaceholder).map Node.id = ids ∧
      tracedStatus tree = ⟨.warning, "Traced", toString counts.total ++ " dependencies, " ++
        toString ids.length ++ " missing: " ++ ", ".intercalate ids⟩) ∧
    (tracedStatus tree = ⟨.info, "Traced", toString (Outcome.counts outcome).total ++
        " dependencies, all installed"⟩ ↔
      ∀ ids counts, outcome ≠ .error (.missing ids counts)) := by
  have hlength := verdict.length_eq_total ascends.nodup mem_iff
  rcases verdict.placeholders ascends mem_iff recorded with
    ⟨ids, counts, hmissing, nonempty, hids⟩ | ⟨notMissing, hnone⟩
  · have hstatus := tracedStatus_of_missing hids nonempty
    rw [hlength] at hstatus
    rw [hmissing] at hstatus ⊢
    refine ⟨fun other otherCounts same => ?_, fun reported => ?_, fun notMissing => ?_⟩
    · cases same
      exact ⟨hids, hstatus⟩
    · rw [hstatus] at reported
      cases reported
    · exact absurd rfl (notMissing ids counts)
  · have hstatus := tracedStatus_of_installed hnone
    rw [hlength] at hstatus
    exact ⟨fun ids counts hmissing => absurd hmissing (notMissing ids counts), fun _ => notMissing,
      fun _ => hstatus⟩

/-- A trace agrees with a resolution. Where the graph of a lock can be built, let an active revision name an
entry of the lock, and let its metadata ask for no package that the entry does not declare, as when they name
the same ones. Then the resolution comes to a verdict, and the trace reports as many dependencies as the
verdict has counted. If the verdict is that some are missing, the trace lists just these, and otherwise, and
only then, it reports that all are installed. -/
theorem showTrace_agrees {σ : Type} {store : LockStore (StateM σ)} {s : σ} {request : Request}
    {entry package : Package} (readable : (store.get.run s).1.value = .ok lock)
    (built : Graph.ofPackages lock.packages = .ok g) (hentry : entry ∈ lock.packages)
    (active : request.revision.desiredState = .active)
    (describes : Describes request.metadata request.revision package)
    (named : package.source = entry.source)
    (declared : ∀ id, package.dependsOn id = true → entry.dependsOn id = true)
    (path : String) (depth : Option Nat) :
    let outcome := ((request.run store).run s).1.value
    ∃ tree, g.trace entry.source = .ok tree ∧
      showTrace path lock entry.source depth =
        ⟨(g.tree entry.source depth).lines, [tracedStatus tree], [], .ok ()⟩ ∧
      Judged outcome ∧ tree.length = (Outcome.counts outcome).total ∧
      (∀ ids counts, outcome = .error (.missing ids counts) →
        (tree.filter Node.isPlaceholder).map Node.id = ids ∧
        tracedStatus tree = ⟨.warning, "Traced", toString counts.total ++ " dependencies, " ++
          toString ids.length ++ " missing: " ++ ", ".intercalate ids⟩) ∧
      (tracedStatus tree = ⟨.info, "Traced", toString (Outcome.counts outcome).total ++
          " dependencies, all installed"⟩ ↔
        ∀ ids counts, outcome ≠ .error (.missing ids counts)) := by
  intro outcome
  have represents := Graph.ofPackages_represents built
  have present : lock.contains entry.source = true :=
    Lock.contains_iff.mpr (List.mem_map_of_mem hentry)
  have node : entry.source ∈ g.ids :=
    (represents.mem_ids_iff _).mpr (Or.inl (Lock.contains_iff.mp present))
  obtain ⟨needed, hneeds, verdict⟩ : ∃ needed : Finset String,
      (∀ id, id ∈ needed ↔ lock.Needs package.source package.dependencies id) ∧
        Verdict lock package.dependencies needed outcome :=
    run_verdict_of_readable readable represents.wellFormed_lock active describes (named ▸ present)
  obtain ⟨tree, htrace, nodup, hkeys, recorded⟩ := represents.trace_eq present
  -- what the trace follows is all that the resolution needs
  have mem_iff (id : String) : id ∈ tree.map Node.id ↔ id ∈ needed := by
    rw [hneeds, hkeys, named, Lock.needs_iff_of_declared hentry]
    intro dependency hdependency
    exact declared _ (Package.dependsOn_iff.mpr ⟨dependency, hdependency, rfl⟩)
  have ascends := Graph.pairwise_trace represents.wellFormed.indexed htrace
  exact ⟨tree, htrace, showTrace_of_mem built node htrace, verdict.judged,
    verdict.length_eq_total nodup mem_iff, tracedStatus_of_verdict verdict ascends mem_iff recorded⟩

/-- Two of three dependencies are missing. The metadata names those of the entry in another order. -/
theorem showTrace_agrees_of_missing :
    let on (id : String) : Dependency := ⟨id, .provider, none⟩
    let lock : Lock := ⟨2, [⟨"a", "v1.0.0", [on "b", on "c"]⟩, ⟨"b", "v1.0.0", [on "d"]⟩]⟩
    let request : Request := ⟨.known .configuration none
      [Declaration.referringTo .provider "c", Declaration.referringTo .provider "b"], ⟨"a", .active⟩⟩
    ((request.run LockStore.memory).run lock).1.value = .error (.missing ["c", "d"] ⟨3, 1, 0⟩) ∧
      (showTrace "Keel.lock" lock "a" none).statuses =
        [⟨.warning, "Traced", "3 dependencies, 2 missing: c, d"⟩] := by
  intro on lock request
  have missing : ((request.run LockStore.memory).run lock).1.value =
      .error (.missing ["c", "d"] ⟨3, 1, 0⟩) := by cbv
  have readable : (LockStore.memory.get.run lock).1.value = .ok lock := rfl
  obtain ⟨g, built⟩ : ∃ g, Graph.ofPackages lock.packages = .ok g := ⟨_, by cbv⟩
  have describes : Describes request.metadata request.revision ⟨"a", "latest", [on "c", on "b"]⟩ :=
    ⟨⟨⟨"a", none⟩, by cbv, rfl, rfl⟩, _, rfl, rfl⟩
  have declared (id : String) (declares : (Package.mk "a" "latest" [on "c", on "b"]).dependsOn id = true) :
      (Package.mk "a" "v1.0.0" [on "b", on "c"]).dependsOn id = true := by
    obtain ⟨dependency, hdependency, rfl⟩ := Package.dependsOn_iff.mp declares
    exact Package.dependsOn_iff.mpr ⟨dependency, (List.Perm.swap _ _ _).mem_iff.mp hdependency, rfl⟩
  obtain ⟨tree, _, shown, _, _, listed, _⟩ := showTrace_agrees readable built List.mem_cons_self rfl describes
    rfl declared "Keel.lock" none
  obtain ⟨_, status⟩ := listed ["c", "d"] ⟨3, 1, 0⟩ missing
  refine ⟨missing, ?_⟩
  rw [shown, status]
  cbv

end Command

end PackageLock
