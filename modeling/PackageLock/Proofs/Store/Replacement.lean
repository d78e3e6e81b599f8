import PackageLock.Proofs.Resolution.Outcomes
import PackageLock.Proofs.Store.Refinement

/-!
# What a resolution does to the lock file

A resolution on a lock file leaves every file as it was, or it replaces the lock file by one that holds the
next lock; in either case it may have made directories. In the second case it has ended as any resolution
may that starts from the lock in the file (`resolve_fileEnding`), so if it has failed it has registered an
active package (`Ended.registered_of_error`).
-/

set_option autoImplicit false

namespace PackageLock

variable {metadata : Metadata} {revision : Revision} {stored written : Lock} {path : String}
  {tree : FileTree}

/-! ## Failing after a write -/

/-- A package has got its entry, but its dependencies are not in order. -/
structure Registered (metadata : Metadata) (revision : Revision) (stored : Lock) (e : ResolveError)
    (package : Package) : Prop where
  active : revision.desiredState = .active
  describes : Describes metadata revision package
  absent : stored.contains package.source = false
  cause : (∃ ids counts, e = .missing ids counts) ∨ ∃ ids counts, e = .incompatible ids counts

/-- An error that is a verdict reports missing or incompatible packages. -/
theorem Judged.cause {e : ResolveError} (h : Judged (.error e)) :
    (∃ ids counts, e = .missing ids counts) ∨ ∃ ids counts, e = .incompatible ids counts := by
  cases e with
  | missing ids counts => exact .inl ⟨ids, counts, rfl⟩
  | incompatible ids counts => exact .inr ⟨ids, counts, rfl⟩
  | _ => cases h

/-- Only the check of its dependencies can fail after a package has been registered. -/
theorem Ended.registered_of_error {σ : Type} {store : LockStore (StateM σ)} {lockOf : σ → Lock} {s : σ}
    {e : ResolveError}
    (h : Ended Graph.service store lockOf metadata revision s (.error e) written)
    (changed : written ≠ lockOf s) :
    ∃ package, Registered metadata revision (lockOf s) e package ∧
      written = ((lockOf s).add package).next := by
  generalize houtcome : (Except.error e : Outcome) = outcome at h
  cases h with
  | removed => cases houtcome
  | @checked package g active describes grounds =>
    cases present : (lockOf s).contains package.source with
    | true => exact absurd (Lock.register_of_present present) changed
    | false =>
      obtain ⟨_, _, hverdict⟩ := Plan.check_verdict grounds.represents Lock.contains_register
      have judged := hverdict.judged
      rw [← houtcome] at judged
      exact ⟨package, ⟨active, describes, present, judged.cause⟩, Lock.register_of_absent present⟩
  | _ => exact absurd rfl changed

/-! ## The file -/

/-- What a resolution on the lock file of `path` comes to: its outcome and the files that it leaves. -/
inductive FileEnding (path : String) (metadata : Metadata) (revision : Revision) (tree : FileTree) :
    Outcome → FileTree → Prop where
  | kept {outcome : Outcome} {after : FileTree} (made : tree.Made after) :
      FileEnding path metadata revision tree outcome after
  | replaced {outcome : Outcome} {stored written : Lock} {between : FileTree} {place : Place}
      {text : String} (stands : (LockStore.lockOfFile path (tree.read path)).value = .ok stored)
      (puts : tree.Puts path between place)
      (ended : Ended Graph.service LockStore.memory (fun lock => lock) metadata revision stored outcome
        written)
      (next : written.revision = stored.revision + 1) (rendered : written.render? = some text) :
      FileEnding path metadata revision tree outcome (between.put place (.file (.text text)))

/-- There is a text to write for a lock from the stored revision that has a written form as the next one. -/
theorem LockStore.textToWrite_eq_ok_iff {text : String} :
    textToWrite stored written = .ok text ↔
      stored.revision = written.revision ∧ written.next.render? = some text := by
  by_cases same : stored.revision = written.revision
  · rw [textToWrite, Lock.accept, if_pos same]
    simp only [bind, Except.bind]
    cases written.next.render? <;> simp [same]
  · rw [textToWrite_of_conflict same]
    simp [same]

/-- Carrying out a plan that has been made from the lock in the file. -/
theorem run_fileEnding {plan : Plan}
    (stands : (LockStore.lockOfFile path (tree.read path)).value = .ok stored)
    (comes : plan.ComesTo stored
      (Ended Graph.service LockStore.memory (fun lock => lock) metadata revision stored)) :
    FileEnding path metadata revision tree
      ((plan.run (LockStore.file FileTree.access path)).run tree).1.value
      ((plan.run (LockStore.file FileTree.access path)).run tree).2 := by
  cases plan with
  | finish outcome => exact .kept FileTree.Made.refl
  | write lock outcome =>
    obtain ⟨hrevision, hended⟩ := comes
    obtain ⟨hvalue, hstate⟩ := run_write (LockStore.file FileTree.access path) lock outcome tree
    rw [hvalue, hstate, LockStore.file_update_run, stands]
    simp only [bind, Except.bind]
    cases htext : LockStore.textToWrite stored lock with
    | error e => exact .kept FileTree.Made.refl
    | ok text =>
      obtain ⟨-, hrendered⟩ := LockStore.textToWrite_eq_ok_iff.mp htext
      have hnext : lock.next.revision = stored.revision + 1 := congrArg (· + 1) hrevision
      simp only
      cases hreplace : (FileTree.replace path text).run tree with
      | error e after => exact .kept (FileTree.made_of_replace_error hreplace)
      | ok _ after =>
        obtain ⟨between, place, hputs, rfl⟩ := FileTree.exists_puts_of_replace_ok hreplace
        exact .replaced stands hputs hended hnext hrendered

/-- Every resolution on a lock file ends in one of the ways told of. -/
theorem resolve_fileEnding (path : String) (metadata : Metadata) (revision : Revision)
    (tree : FileTree) :
    let ended := (resolve Graph.service (LockStore.file FileTree.access path) metadata revision).run tree
    FileEnding path metadata revision tree ended.1.value ended.2 := by
  cases known : metadata.dependsOn? with
  | none =>
    unfold resolve
    rw [known]
    exact .kept FileTree.Made.refl
  | some declared =>
    rcases hfile : LockStore.lockOfFile path (tree.read path) with ⟨value, events⟩
    have hget : (LockStore.file FileTree.access path).get.run tree =
        (pure (⟨value, events⟩, tree) : Id _) := congrArg (·, tree) hfile
    cases value with
    | error e =>
      have hrun : (resolve Graph.service (LockStore.file FileTree.access path) metadata revision).run
          tree = (⟨.error (.getLock e), events⟩, tree) := by
        unfold resolve
        simp only [known, StateT.run_bind, hget]
        rfl
      rw [hrun]
      exact .kept FileTree.Made.refl
    | ok stored =>
      have hstands : (LockStore.lockOfFile path (tree.read path)).value = .ok stored := by
        rw [hfile]
      obtain ⟨houtcome, hafter⟩ := Request.run_of_readable ⟨metadata, revision⟩
        (LockStore.file FileTree.access path) known hstands
      have hcomes := @make_comesTo Graph Lock Graph.service LockStore.memory (fun lock => lock) metadata
        revision stored declared known
      have hended := run_fileEnding hstands hcomes
      simp only [Request.run] at houtcome hafter
      intro ended
      rw [houtcome, hafter]
      exact hended

/-- A write that has been planned is made if the file can be replaced. -/
theorem resolve_of_write {declared : List Declaration} {lock : Lock} {outcome : Logged Outcome}
    (known : metadata.dependsOn? = some declared)
    (stands : (LockStore.lockOfFile path (tree.read path)).value = .ok stored)
    (hplan : (Plan.make Graph.service declared revision stored).value = .write lock outcome)
    (same : stored.revision = lock.revision) (hfits : lock.next.revision < Lock.revisionBound)
    (works : ((FileTree.access.replace path (String.ofList lock.next.write)).run tree).1 = .ok ()) :
    let ended := (resolve Graph.service (LockStore.file FileTree.access path) metadata revision).run tree
    ended.1.value = outcome.value ∧
      ended.2 = ((FileTree.access.replace path (String.ofList lock.next.write)).run tree).2 := by
  obtain ⟨houtcome, hafter⟩ := Request.run_of_readable ⟨metadata, revision⟩
    (LockStore.file FileTree.access path) known stands
  simp only [Request.run, hplan] at houtcome hafter
  obtain ⟨hvalue, hstate⟩ := run_write (LockStore.file FileTree.access path) lock outcome tree
  rw [LockStore.file_update_run, stands] at hvalue hstate
  simp only [bind, Except.bind, LockStore.textToWrite_of_fits same hfits] at hvalue hstate
  rw [LockStore.access_replace_run] at works ⊢
  cases hreplace : (FileTree.replace path (String.ofList lock.next.write)).run tree with
  | ok _ after =>
    simp only [hreplace] at hvalue hstate
    exact ⟨houtcome.trans hvalue, hafter.trans hstate⟩
  | error e after =>
    rw [hreplace] at works
    cases works

end PackageLock
