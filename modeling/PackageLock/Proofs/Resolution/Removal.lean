import PackageLock.Proofs.Resolution.Answers

/-!
# What the removal of a package changes for others

Taking out an entry takes away the declarations that leave from it and nothing else (`declares_erase_iff`).
A path to the package that is gone needs none of them, so whoever has needed it still does and misses it
now; who has not needed it never passed by it, so that nothing has changed on the way
(`transGen_erase_iff`). Main statement: the removal is seen by exactly those that need the package
(`removal_seen_iff_needed`).
-/

set_option autoImplicit false

open Relation (ReflTransGen TransGen)

namespace PackageLock

/-! ## Declarations that are left -/

section Declarations

variable {lock : Lock} {gone a b : String}

/-- What is left are the declarations of all other entries. -/
theorem declares_erase_iff (nodup : (lock.packages.map (·.source)).Nodup) :
    Declares (lock.erase gone).packages a b ↔ Declares lock.packages a b ∧ a ≠ gone := by
  constructor
  · intro declares
    refine ⟨declares.mono List.eraseP_subset, ?_⟩
    rintro rfl
    obtain ⟨package, hmem, hsource, _⟩ := declares
    have absent : (lock.erase a).contains a = false := Lock.contains_erase nodup
    rw [Lock.contains_iff.mpr (List.mem_map.mpr ⟨package, hmem, hsource⟩)] at absent
    cases absent
  · rintro ⟨⟨package, hmem, rfl, depends⟩, hne⟩
    exact ⟨package, (List.mem_eraseP_of_neg (by simpa using hne)).mpr hmem, rfl, depends⟩

/-- Whoever has been led to the package still is. -/
theorem transGen_erase_self (nodup : (lock.packages.map (·.source)).Nodup) (hne : a ≠ gone)
    (path : TransGen (Declares lock.packages) a gone) :
    TransGen (Declares (lock.erase gone).packages) a gone := by
  have left (y z : String) (declares : Declares lock.packages y z) :
      Declares (lock.erase gone).packages y z ∨ y = gone := by
    by_cases hy : y = gone
    · exact Or.inr hy
    · exact Or.inl ((declares_erase_iff nodup).mpr ⟨declares, hy⟩)
  -- the path can be cut off where it comes to the package for the first time
  have rest := reflTransGen_of_or_eq left path.to_reflTransGen
  exact (Relation.reflTransGen_iff_eq_or_transGen.mp rest).resolve_left hne.symm

/-- Who has not been led to the package is led where it was before. -/
theorem transGen_erase_iff (nodup : (lock.packages.map (·.source)).Nodup) (hne : a ≠ gone)
    (beside : ¬ TransGen (Declares lock.packages) a gone) :
    TransGen (Declares (lock.erase gone).packages) a b ↔ TransGen (Declares lock.packages) a b := by
  constructor
  · exact TransGen.mono (fun y z declares => ((declares_erase_iff nodup).mp declares).1) a b
  · intro path
    induction path with
    | single step => exact TransGen.single ((declares_erase_iff nodup).mpr ⟨step, hne⟩)
    | @tail y z before step ih =>
      have hy : y ≠ gone := by
        rintro rfl
        exact beside before
      exact ih.tail ((declares_erase_iff nodup).mpr ⟨step, hy⟩)

/-- What a package needs is the same without an entry to which nothing leads from it. -/
theorem needs_erase_iff {asked : List Dependency} (nodup : (lock.packages.map (·.source)).Nodup)
    (hne : a ≠ gone) (beside : ¬ TransGen (Declares lock.packages) a gone) :
    (lock.erase gone).Needs a asked b ↔ lock.Needs a asked b :=
  or_congr_left (transGen_erase_iff nodup hne beside)

/-- A verdict that has not looked at the package is right without it. -/
theorem Verdict.erase {asked : List Dependency} {needed : Finset String} {outcome : Outcome}
    (h : Verdict lock asked needed outcome) (unneeded : gone ∉ needed)
    (unasked : ∀ dependency ∈ asked, dependency.package ≠ gone) :
    Verdict (lock.erase gone).next asked needed outcome := by
  refine h.congr (fun id hid => ?_) fun dependency hdependency => ?_
  · rw [Lock.contains_next]
    exact Lock.contains_erase_of_ne (ne_of_mem_of_not_mem hid unneeded)
  · exact Lock.violates_congr (Lock.find?_erase_of_ne (unasked dependency hdependency))

end Declarations

/-! ## Resolutions after a removal -/

section Removal

variable {σ : Type} {store : LockStore (StateM σ)} {stored : σ → Lock} {s : σ}

/-- Success with an inactive revision that had an entry has taken it out. -/
theorem Ended.eq_erase_of_ok {G : Type} {service : GraphService G} {metadata : Metadata}
    {revision : Revision} {outcome : Outcome} {after : Lock} {reference : Reference} {counts : Counts}
    (h : Ended service store stored metadata revision s outcome after)
    (inactive : revision.desiredState = .inactive) (named : revision.reference = .ok reference)
    (present : (stored s).contains reference.source = true) (ok : outcome = .ok counts) :
    after = ((stored s).erase reference.source).next := by
  cases h with
  | absent _ named' absent =>
    rw [named] at named'
    cases named'
    rw [present] at absent
    cases absent
  | removed _ named' _ _ =>
    rw [named] at named'
    cases named'
    rfl
  | checked active =>
    rw [active] at inactive
    cases inactive
  | _ => cases ok

/-- After a package has been removed, and as long as nothing else is written, the resolution of another
installed package reports it as missing if entries led from that one to it or the metadata names it.
Otherwise it comes to the same outcome as before the removal. -/
theorem removal_seen_iff_needed {removal request : Request} {reference : Reference} {package : Package}
    {counts : Counts} {t : σ} (serves : store.Serves stored) (wellFormed : (stored s).WellFormed)
    (inactive : removal.revision.desiredState = .inactive)
    (named : removal.revision.reference = .ok reference)
    (present : (stored s).contains reference.source = true)
    (removed : ((removal.run store).run s).1.value = .ok counts)
    (unwritten : stored t = stored ((removal.run store).run s).2)
    (active : request.revision.desiredState = .active)
    (describes : Describes request.metadata request.revision package)
    (entry : (stored s).contains package.source = true)
    (other : package.source ≠ reference.source) :
    let needed := TransGen (Declares (stored s).packages) package.source reference.source ∨
      package.dependsOn reference.source = true
    let afterwards := ((request.run store).run t).1.value
    (needed → ∃ ids counts, afterwards = .error (.missing ids counts) ∧ reference.source ∈ ids) ∧
      (¬ needed → afterwards = ((request.run store).run s).1.value) := by
  intro needed afterwards
  have nodup := wellFormed.sources_nodup
  have hended := resolve_ended serves.toKeeps Graph.service removal.metadata removal.revision s
  have hlock : stored t = ((stored s).erase reference.source).next :=
    unwritten.trans (hended.eq_erase_of_ok inactive named present removed)
  have gone : (stored t).contains reference.source = false := by
    rw [hlock]
    exact Lock.contains_erase nodup
  have entry' : (stored t).contains package.source = true := by
    rw [hlock, Lock.contains_next, Lock.contains_erase_of_ne other]
    exact entry
  have wellFormed' : (stored t).WellFormed := hlock ▸ (wellFormed.erase reference.source).next
  obtain ⟨_, now, hnow, verdict'⟩ :=
    run_verdict_of_present serves wellFormed' active describes entry'
  refine ⟨fun isNeeded => ?_, fun notNeeded => ?_⟩
  · have hmem : reference.source ∈ now := by
      rw [hnow, hlock]
      rcases isNeeded with path | named
      · exact Or.inl (transGen_erase_self nodup other path)
      · exact Or.inr ⟨other.symm, Package.dependsOn_iff.mp named⟩
    exact verdict'.missing_of_absent hmem gone
  · obtain ⟨_, before, hbefore, verdict⟩ :=
      run_verdict_of_present serves wellFormed active describes entry
    obtain ⟨beside, unnamed⟩ := not_or.mp notNeeded
    -- the same packages are needed as before, and what is gone is not among them
    have hsame : now = before := by
      ext id
      rw [hnow, hbefore, hlock]
      exact needs_erase_iff nodup other beside
    have unneeded : reference.source ∉ before := by
      rw [hbefore]
      rintro (path | ⟨_, named⟩)
      · exact beside path
      · exact unnamed (Package.dependsOn_iff.mpr named)
    have unasked (dependency : Dependency) (hdependency : dependency ∈ package.dependencies) :
        dependency.package ≠ reference.source :=
      fun heq => unnamed (Package.dependsOn_iff.mpr ⟨dependency, hdependency, heq⟩)
    rw [hsame, hlock] at verdict'
    exact verdict'.unique (verdict.erase unneeded unasked)

end Removal

/-- Of two packages that both need a third one, one does so through the package that is taken out. -/
theorem removal_seen_of_path :
    let lock : Lock := ⟨5, [⟨"q", "v1", [⟨"m", .provider, none⟩]⟩, ⟨"m", "v1", [⟨"p", .provider, none⟩]⟩,
      ⟨"p", "v1", [⟨"x", .provider, none⟩]⟩, ⟨"r", "v1", [⟨"x", .provider, none⟩]⟩, ⟨"x", "v1", []⟩]⟩
    let removal : Request := ⟨.known .provider none [], ⟨"p", .inactive⟩⟩
    let asking : String → String → Request := fun source target =>
      ⟨.known .provider none [Declaration.referringTo .provider target], ⟨source, .active⟩⟩
    let removed := (removal.run LockStore.memory).run lock
    lock.WellFormed ∧ removed.1.value = .ok Counts.zero ∧
      (∃ ids counts, (((asking "q" "m").run LockStore.memory).run removed.2).1.value =
        .error (.missing ids counts) ∧ "p" ∈ ids) ∧
      (((asking "r" "x").run LockStore.memory).run removed.2).1.value =
        (((asking "r" "x").run LockStore.memory).run lock).1.value := by
  intro lock removal asking removed
  have wellFormed : lock.WellFormed := of_decide_eq_true (by cbv)
  have ok : removed.1.value = .ok Counts.zero := by
    show ((removal.run LockStore.memory).run lock).1.value = _
    cbv
  have seen (source target : String) (named : Reference.parse source = .ok ⟨source, none⟩)
      (entry : lock.contains source = true) (other : source ≠ "p") :=
    have inactive : removal.revision.desiredState = .inactive := rfl
    have reference : removal.revision.reference = .ok ⟨"p", none⟩ := by cbv
    have active : (asking source target).revision.desiredState = .active := rfl
    have describes : Describes (asking source target).metadata (asking source target).revision
        ⟨source, "latest", [⟨target, .provider, none⟩]⟩ :=
      ⟨⟨⟨source, none⟩, named, rfl, rfl⟩, _, rfl, rfl⟩
    removal_seen_iff_needed LockStore.memory_serves wellFormed inactive reference (by decide) ok
      (t := removed.2) rfl active describes entry other
  have path : TransGen (Declares lock.packages) "q" "p" := by
    have first : Declares lock.packages "q" "m" :=
      ⟨⟨"q", "v1", [⟨"m", .provider, none⟩]⟩, by simp [lock], rfl, by decide⟩
    have second : Declares lock.packages "m" "p" :=
      ⟨⟨"m", "v1", [⟨"p", .provider, none⟩]⟩, by simp [lock], rfl, by decide⟩
    exact TransGen.tail (TransGen.single first) second
  have arrows (a b : String) (declares : Declares lock.packages a b) :
      (a, b) ∈ [("q", "m"), ("m", "p"), ("p", "x"), ("r", "x")] := by
    obtain ⟨package, hmem, rfl, hdepends⟩ := declares
    simp only [lock, List.mem_cons, List.not_mem_nil, or_false] at hmem
    rcases hmem with rfl | rfl | rfl | rfl | rfl <;> simp_all [Package.dependsOn]
  have beside : ¬ (TransGen (Declares lock.packages) "r" "p" ∨
      (Package.mk "r" "latest" [⟨"x", .provider, none⟩]).dependsOn "p" = true) := by
    rintro (path | named)
    · -- from `r` nothing is reached but `x`, which declares nothing
      have reached : ∀ id, TransGen (Declares lock.packages) "r" id → id = "x" := by
        intro id path
        induction path with
        | single step => simpa using arrows _ _ step
        | tail _ step ih =>
          subst ih
          simpa using arrows _ _ step
      exact absurd (reached "p" path) (by decide)
    · exact absurd named (by decide)
  refine ⟨wellFormed, ok, ?_, ?_⟩
  · exact (seen "q" "m" (by cbv) (by decide) (by decide)).1 (Or.inl path)
  · exact (seen "r" "x" (by cbv) (by decide) (by decide)).2 beside

end PackageLock
