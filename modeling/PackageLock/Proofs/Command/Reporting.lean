import PackageLock.Command.Run
import PackageLock.Proofs.Resolution.Outcomes

/-!
# What a resolution reports

A report takes its counts from one place and its lists from another, and an error may carry both, or only
its wording. They agree because of how resolutions end: with a verdict, which counts what it lists, or with
nothing counted and nothing listed (`Told`). This needs nothing of the store; it may answer as it likes.
Main statement: the report is consistent, and the form in which it is shown tells verdicts that something
is missing or incompatible from all other errors (`resolve_report_consistent`).
-/

set_option autoImplicit false

namespace PackageLock

/-! ## What a resolution comes to, whatever the store answers -/

/-- The outcomes of resolutions: a verdict, the removal of what may be absent, or an error that lists nothing. -/
inductive Told : Outcome → Prop where
  | judged {lock : Lock} {asked : List Dependency} {needed : Finset String} {outcome : Outcome}
      (verdict : Verdict lock asked needed outcome) : Told outcome
  | removed : Told (.ok Counts.zero)
  | failed {e : ResolveError} (unjudged : ¬ Judged (.error e)) : Told (.error e)

section Store

variable {σ : Type} {store : LockStore (StateM σ)} {stored : σ → Lock} {metadata : Metadata}
  {revision : Revision} {s : σ} {outcome : Outcome} {after before : Lock}

/-- Every ending of a resolution is one that can be told. -/
theorem Ended.told (h : Ended Graph.service store stored metadata revision s outcome after) :
    Told outcome := by
  cases h with
  | checked _ _ grounds =>
    obtain ⟨_, _, verdict⟩ := Plan.check_verdict grounds.represents Lock.contains_register
    exact .judged verdict
  | absent => exact .removed
  | removed => exact .removed
  | _ => exact .failed id

/-- A plan that is carried out comes to its outcome unless the store refuses the write. -/
theorem Plan.ComesTo.run_outcome {ending : Outcome → Lock → Prop} {plan : Plan}
    (comes : plan.ComesTo before ending) (store : LockStore (StateM σ)) (s : σ) :
    (∃ after, ending ((plan.run store).run s).1.value after) ∨
      ∃ cause, ((plan.run store).run s).1.value = .error (.store cause) := by
  cases plan with
  | finish outcome => exact Or.inl ⟨before, comes⟩
  | write lock outcome =>
    obtain ⟨hvalue, _⟩ := run_write store lock outcome s
    rw [hvalue]
    cases ((store.update lock).run s).1.value with
    | ok _ => exact Or.inl ⟨lock.next, comes.2⟩
    | error cause => exact Or.inr ⟨cause, rfl⟩

/-- Every resolution, over any store, comes to an outcome that can be told. -/
theorem resolve_told (store : LockStore (StateM σ)) (metadata : Metadata) (revision : Revision) (s : σ) :
    Told ((resolve Graph.service store metadata revision).run s).1.value := by
  unfold resolve
  cases known : metadata.dependsOn? with
  | none => exact .failed id
  | some declared =>
    simp only [StateT.run_bind]
    rcases store.get.run s with ⟨⟨value, events⟩, s'⟩
    cases value with
    | error cause => exact .failed id
    | ok lock =>
      -- the plan depends on the lock that has been read, not on the store that keeps it
      have comes : (Plan.make Graph.service declared revision (id lock)).value.ComesTo (id lock)
          (Ended Graph.service LockStore.memory id metadata revision lock) := make_comesTo known
      have told : Told (((Plan.make Graph.service declared revision lock).value.run store).run s').1.value := by
        rcases comes.run_outcome store s' with ⟨after, ended⟩ | ⟨cause, refused⟩
        · exact ended.told
        · rw [id] at refused
          rw [refused]
          exact .failed id
      exact told

end Store

/-! ## Reports -/

namespace Report

variable {revision : Revision} {outcome : Outcome}

/-- The counts, the lists and the error of a report do not contradict each other. -/
structure Consistent (report : Report) : Prop where
  installed_le : report.counts.installed ≤ report.counts.total
  length_missing : report.missing.length = report.counts.total - report.counts.installed
  length_invalid : report.invalid.length = report.counts.invalid
  missing_ascends : report.missing.Pairwise (· < ·)
  invalid_ascends : report.invalid.Pairwise (· < ·)
  one_list : report.missing = [] ∨ report.invalid = []
  /-- An error that lists nothing has counted nothing. -/
  uncounted : report.error ≠ none → report.missing = [] → report.invalid = [] →
    report.counts = Counts.zero

/-- Where nothing is listed, all that is needed is installed. -/
theorem consistent_of_unlisted {report : Report} (hmissing : report.missing = []) (hinvalid : report.invalid = [])
    (complete : report.counts.installed = report.counts.total) (compatible : report.counts.invalid = 0)
    (uncounted : report.error ≠ none → report.counts = Counts.zero) : report.Consistent where
  installed_le := complete.le
  length_missing := by simp [hmissing, complete]
  length_invalid := by simp [hinvalid, compatible]
  missing_ascends := hmissing ▸ .nil
  invalid_ascends := hinvalid ▸ .nil
  one_list := Or.inl hmissing
  uncounted := fun failed _ _ => uncounted failed

/-- The report of a verdict is consistent. -/
theorem consistent_of_verdict {lock : Lock} {asked : List Dependency} {needed : Finset String}
    (verdict : Verdict lock asked needed outcome) : (ofOutcome revision outcome).Consistent := by
  cases outcome with
  | ok counts =>
    cases verdict with
    | satisfied complete _ =>
      have htally := Lock.tally_of_complete complete 0
      exact consistent_of_unlisted rfl rfl (by simp [ofOutcome, htally]) rfl fun failed => absurd rfl failed
  | error e =>
    cases e with
    | missing ids counts =>
      have hadd := verdict.length_missing_add
      cases verdict with
      | missing nonempty ascends _ =>
        exact {
          installed_le := lock.tally_installed_le needed 0
          length_missing := Nat.eq_sub_of_add_eq hadd
          length_invalid := rfl
          missing_ascends := ascends
          invalid_ascends := .nil
          one_list := Or.inr rfl
          uncounted := fun _ hnil => absurd hnil nonempty }
    | incompatible ids counts =>
      cases verdict with
      | incompatible complete nonempty ascends _ =>
        have htally := Lock.tally_of_complete complete ids.length
        exact {
          installed_le := lock.tally_installed_le needed ids.length
          length_missing := by simp [ofOutcome, ResolveError.missingIds, ResolveError.counts, htally]
          length_invalid := rfl
          missing_ascends := .nil
          invalid_ascends := ascends
          one_list := Or.inl rfl
          uncounted := fun _ _ hnil => absurd hnil nonempty }
    | _ => exact absurd verdict.judged id

/-- The report of an outcome that can be told is consistent. -/
theorem consistent_of_told (told : Told outcome) : (ofOutcome revision outcome).Consistent := by
  cases told with
  | judged verdict => exact consistent_of_verdict verdict
  | removed => exact consistent_of_unlisted rfl rfl rfl rfl fun failed => absurd rfl failed
  | @failed e unjudged =>
    cases e with
    | missing => exact absurd trivial unjudged
    | incompatible => exact absurd trivial unjudged
    | _ => exact consistent_of_unlisted rfl rfl rfl rfl fun _ => rfl

/-- An error lists something if and only if it is a verdict. -/
theorem judged_iff_of_told {e : ResolveError} (told : Told (.error e)) :
    Judged (.error e) ↔ ¬ (e.missingIds = [] ∧ e.invalidIds = []) := by
  cases told with
  | judged verdict =>
    refine iff_of_true verdict.judged fun ⟨hmissing, hinvalid⟩ => ?_
    cases verdict with
    | missing nonempty => exact nonempty hmissing
    | incompatible _ nonempty => exact nonempty hinvalid
  | failed unjudged =>
    refine iff_of_false unjudged (not_not.mpr ?_)
    cases e with
    | missing => exact absurd trivial unjudged
    | incompatible => exact absurd trivial unjudged
    | _ => exact ⟨rfl, rfl⟩

/-- The errors that are verdicts are those of missing and of incompatible packages. -/
theorem judged_error_iff {e : ResolveError} : Judged (.error e) ↔
    ∃ ids counts, e = .missing ids counts ∨ e = .incompatible ids counts := by
  cases e <;> simp [Judged]

/-- The lines for what is not resolved: the counts, and then all that is listed. -/
def unresolved (report : Report) : List Status :=
  ⟨.warning, "Unresolved", report.summary⟩ ::
    (report.missing.map (⟨.warning, "Missing", ·⟩) ++ report.invalid.map (⟨.warning, "Invalid", ·⟩))

/-- An error is shown as a failure if it lists nothing. -/
theorem statuses_of_error (revision : Revision) (e : ResolveError) : (ofOutcome revision (.error e)).statuses =
    if e.missingIds = [] ∧ e.invalidIds = [] then [⟨.failure, "Failed", revision.package⟩]
    else (ofOutcome revision (.error e)).unresolved := by
  simp [statuses, ofOutcome, unresolved]

/-- Success is shown as one line of success. -/
theorem statuses_of_ok (revision : Revision) (counts : Counts) :
    ∃ label message, (ofOutcome revision (.ok counts)).statuses = [⟨.success, label, message⟩] := by
  unfold statuses ofOutcome
  simp only
  split
  · exact ⟨_, _, rfl⟩
  · exact ⟨_, _, rfl⟩

/-- The lines for unresolved dependencies are never the single line of a failure. -/
theorem unresolved_ne_failed (report : Report) (package : String) :
    report.unresolved ≠ [⟨.failure, "Failed", package⟩] := by
  simp [unresolved]

/-- Which lines are shown tells the kind of the error: unresolved dependencies if packages are missing or
incompatible, and one line of failure for every other error. -/
theorem statuses_iff_of_told (told : Told outcome) :
    ((ofOutcome revision outcome).statuses = (ofOutcome revision outcome).unresolved ↔
      ∃ ids counts, outcome = .error (.missing ids counts) ∨ outcome = .error (.incompatible ids counts)) ∧
    ((ofOutcome revision outcome).statuses = [⟨.failure, "Failed", revision.package⟩] ↔
      ∃ e, outcome = .error e ∧ ∀ ids counts, e ≠ .missing ids counts ∧ e ≠ .incompatible ids counts) := by
  cases outcome with
  | ok counts =>
    obtain ⟨label, message, hok⟩ := statuses_of_ok revision counts
    simp [hok, unresolved]
  | error e =>
    have hjudged := judged_iff_of_told told
    have hlists : (∃ ids counts, (.error e : Outcome) = .error (.missing ids counts) ∨
        (.error e : Outcome) = .error (.incompatible ids counts)) ↔ Judged (.error e) := by
      simp [judged_error_iff]
    have hothers : (∃ e', (.error e : Outcome) = .error e' ∧
        ∀ ids counts, e' ≠ .missing ids counts ∧ e' ≠ .incompatible ids counts) ↔
          ¬ Judged (.error e) := by
      simp [judged_error_iff, not_or]
    rw [hlists, hothers, hjudged, statuses_of_error]
    have hne := unresolved_ne_failed (ofOutcome revision (.error e)) revision.package
    by_cases unlisted : e.missingIds = [] ∧ e.invalidIds = []
    · rw [if_pos unlisted]
      exact ⟨iff_of_false hne.symm (not_not.mpr unlisted), iff_of_true rfl (not_not.mpr unlisted)⟩
    · rw [if_neg unlisted]
      exact ⟨iff_of_true rfl unlisted, iff_of_false hne (not_not.mpr unlisted)⟩

end Report

/-- The report on any resolution tells one story, whatever the store answers: no more is installed than
needed, what is missing makes up the difference, what is invalid is as many as counted; both lists ascend,
and one of them is empty; and an error that lists nothing has counted nothing. There is an error in it
unless the resolution succeeded. So the lines that are shown have the form for what is not resolved exactly
if something is missing or incompatible, and report a failure exactly for all other errors. -/
theorem resolve_report_consistent {σ : Type} (store : LockStore (StateM σ)) (metadata : Metadata)
    (revision : Revision) (s : σ) :
    let ended := ((resolve Graph.service store metadata revision).run s).1
    let report := Report.ofOutcome revision ended.value
    let shown := Command.showOutcome revision false ended
    report.Consistent ∧ (report.error = none ↔ ∃ counts, ended.value = .ok counts) ∧
    (shown.statuses = report.unresolved ↔ ∃ ids counts,
      ended.value = .error (.missing ids counts) ∨ ended.value = .error (.incompatible ids counts)) ∧
    (shown.statuses = [⟨.failure, "Failed", revision.package⟩] ↔ ∃ e, ended.value = .error e ∧
      ∀ ids counts, e ≠ .missing ids counts ∧ e ≠ .incompatible ids counts) := by
  intro ended report shown
  have told : Told ended.value := resolve_told store metadata revision s
  refine ⟨Report.consistent_of_told told, ?_, Report.statuses_iff_of_told told⟩
  show (Report.ofOutcome revision ended.value).error = none ↔ _
  cases ended.value with
  | ok counts => simp [Report.ofOutcome]
  | error e => simp [Report.ofOutcome]

/-- Two of three packages are missing, which ascend and are all that is listed. -/
theorem resolve_report_consistent_of_missing :
    let on (id : String) : Dependency := ⟨id, .provider, none⟩
    let lock : Lock := ⟨2, [⟨"a", "v1.0.0", [on "b", on "c"]⟩, ⟨"b", "v1.0.0", [on "d"]⟩]⟩
    let metadata : Metadata := .known .configuration none
      [Declaration.referringTo .provider "c", Declaration.referringTo .provider "b"]
    let ended := ((resolve Graph.service LockStore.memory metadata ⟨"a", .active⟩).run lock).1
    ended.value = .error (.missing ["c", "d"] ⟨3, 1, 0⟩) ∧ ["c", "d"].Pairwise (· < ·) ∧
      (Command.showOutcome ⟨"a", .active⟩ false ended).statuses =
        [⟨.warning, "Unresolved", "a: 1 of 3 dependencies installed, 0 invalid"⟩,
          ⟨.warning, "Missing", "c"⟩, ⟨.warning, "Missing", "d"⟩] := by
  intro on lock metadata ended
  have missing : ended.value = .error (.missing ["c", "d"] ⟨3, 1, 0⟩) := by cbv
  obtain ⟨consistent, _, unresolved, _⟩ :=
    resolve_report_consistent LockStore.memory metadata ⟨"a", .active⟩ lock
  have shown := unresolved.mpr ⟨["c", "d"], ⟨3, 1, 0⟩, Or.inl missing⟩
  have ascends := consistent.missing_ascends
  change (Report.ofOutcome ⟨"a", .active⟩ ended.value).missing.Pairwise (· < ·) at ascends
  change _ = (Report.ofOutcome ⟨"a", .active⟩ ended.value).unresolved at shown
  rw [missing] at ascends shown
  refine ⟨missing, ascends, shown.trans ?_⟩
  decide

end PackageLock
