import PackageLock.Proofs.Graph.Representation
import PackageLock.Proofs.Resolution.Faults

/-!
# What a resolution does to the lock

A resolution reads the lock at most once and writes it at most once. It leaves the lock as it was, or it
adds the entry of an active revision that had none, or it takes out the first entry of an inactive one.
Main statement: so it is with any graph and with any store that keeps its lock, and whatever fails before
the write leaves the lock as it was (`resolve_effect`).
-/

set_option autoImplicit false

namespace PackageLock

variable {G : Type} {σ : Type}

/-- What may become of a lock. -/
inductive LockEffect (metadata : Metadata) (revision : Revision) (lock : Lock) : Lock → Prop where
  | unchanged : LockEffect metadata revision lock lock
  | appended {package : Package} (active : revision.desiredState = .active)
      (describes : Describes metadata revision package)
      (absent : lock.contains package.source = false) :
      LockEffect metadata revision lock ⟨lock.revision + 1, lock.packages ++ [package]⟩
  | removed {reference : Reference} {earlier later : List Package} {package : Package}
      (inactive : revision.desiredState = .inactive) (named : revision.reference = .ok reference)
      (entries : lock.packages = earlier ++ package :: later)
      (first : ∀ other ∈ earlier, other.source ≠ reference.source)
      (source_eq : package.source = reference.source) :
      LockEffect metadata revision lock ⟨lock.revision + 1, earlier ++ later⟩

/-! ## Calls of the store -/

section Calls

variable (store : LockStore (StateM σ)) (s : σ) (calls : LockStore.Calls)

/-- Carrying out a plan writes at most once and does not read. -/
theorem run_counted (plan : Plan) :
    ∃ updates, updates ≤ calls.updates + 1 ∧
      (plan.run store.counted).run (s, calls) =
        (((plan.run store).run s).1, ((plan.run store).run s).2, { calls with updates := updates }) := by
  cases plan with
  | finish outcome => exact ⟨calls.updates, Nat.le_succ _, rfl⟩
  | write lock outcome =>
    refine ⟨calls.updates + 1, Nat.le_refl _, ?_⟩
    simp only [Plan.run, StateT.run_bind, LockStore.counted_update]
    rcases (store.update lock).run s with ⟨⟨value, events⟩, after⟩
    cases value with
    | ok _ => rfl
    | error e => rfl

/-- A resolution reads at most once and writes at most once. -/
theorem resolve_counted (service : GraphService G) (metadata : Metadata) (revision : Revision) :
    ∃ after : LockStore.Calls, after.gets ≤ calls.gets + 1 ∧ after.updates ≤ calls.updates + 1 ∧
      (resolve service store.counted metadata revision).run (s, calls) =
        (((resolve service store metadata revision).run s).1,
          ((resolve service store metadata revision).run s).2, after) := by
  unfold resolve
  cases metadata.dependsOn? with
  | none => exact ⟨calls, Nat.le_succ _, Nat.le_succ _, rfl⟩
  | some declared =>
    simp only [StateT.run_bind, LockStore.counted_get]
    rcases store.get.run s with ⟨⟨value, events⟩, middle⟩
    cases value with
    | error e => exact ⟨{ calls with gets := calls.gets + 1 }, Nat.le_refl _, Nat.le_succ _, rfl⟩
    | ok lock =>
      obtain ⟨updates, hupdates, hrun⟩ := run_counted store middle
        { calls with gets := calls.gets + 1 } (Plan.make service declared revision lock).value
      refine ⟨⟨calls.gets + 1, updates⟩, Nat.le_refl _, hupdates, ?_⟩
      let plan := Plan.make service declared revision lock
      show (do
          let ended ← plan.value.run store.counted
          return ended.after (events ++ plan.events) : StateM _ _).run
            (middle, { calls with gets := calls.gets + 1 }) = _
      rw [StateT.run_bind, hrun]
      rfl

end Calls

section Effect

variable {service : GraphService G} {store : LockStore (StateM σ)} {stored : σ → Lock}
  {metadata : Metadata} {revision : Revision} {s : σ} {outcome : Outcome} {after : Lock}

/-- However a resolution ends, the lock has changed by one entry at most. -/
theorem Ended.lockEffect (h : Ended service store stored metadata revision s outcome after) :
    LockEffect metadata revision (stored s) after := by
  cases h with
  | @removed reference _ inactive named _ present =>
    obtain ⟨earlier, package, later, entries, first, source_eq, herase⟩ := Lock.exists_erase present
    have hnext : ((stored s).erase reference.source).next =
        ⟨(stored s).revision + 1, earlier ++ later⟩ := by
      rw [Lock.next, herase]
      rfl
    rw [hnext]
    exact LockEffect.removed inactive named entries first source_eq
  | @checked package g active describes grounds =>
    cases present : (stored s).contains package.source with
    | true =>
      rw [Lock.register_of_present present]
      exact LockEffect.unchanged
    | false =>
      rw [Lock.register_of_absent present]
      exact LockEffect.appended active describes present
  | _ => exact LockEffect.unchanged

/-- A resolution that is not let in or cannot use the store leaves the lock as it was. -/
theorem Ended.unchanged_of_barred
    (h : Ended service store stored metadata revision s outcome after)
    (barred : (∃ cause, outcome = .error (.invalidInput cause)) ∨
      (∃ cause, outcome = .error (.getLock cause)) ∨ ∃ cause, outcome = .error (.store cause)) :
    after = stored s := by
  cases h with
  | removed =>
    rcases barred with ⟨_, h⟩ | ⟨_, h⟩ | ⟨_, h⟩ <;> cases h
  | @checked package g _ _ _ =>
    rcases Plan.check_judged_or_graph service g package with judged | ⟨cause, hgraph⟩
    · rcases barred with ⟨_, h⟩ | ⟨_, h⟩ | ⟨_, h⟩ <;> (rw [h] at judged; cases judged)
    · rw [hgraph] at barred
      rcases barred with ⟨_, h⟩ | ⟨_, h⟩ | ⟨_, h⟩ <;> cases h
  | _ => rfl

/-- After a verdict on an active revision its package has an entry. -/
theorem Ended.contains_of_judged
    (h : Ended service store stored metadata revision s outcome after)
    (active : revision.desiredState = .active) (judged : Judged outcome) :
    ∃ reference, revision.reference = .ok reference ∧ after.contains reference.source = true := by
  cases h with
  | checked _ describes _ =>
    obtain ⟨reference, named, source_eq, _⟩ := describes.reference
    exact ⟨reference, named, by rw [source_eq]; exact Lock.contains_register⟩
  | absent inactive =>
    rw [active] at inactive
    cases inactive
  | removed inactive =>
    rw [active] at inactive
    cases inactive
  | _ => cases judged

/-- After success with an inactive revision its package has no entry: building the graph of the lock has
shown that no two entries share a source. -/
theorem Ended.not_contains_of_ok {counts : Counts}
    (h : Ended Graph.service store stored metadata revision s outcome after)
    (inactive : revision.desiredState = .inactive) (ok : outcome = .ok counts) :
    ∃ reference, revision.reference = .ok reference ∧ after.contains reference.source = false := by
  cases h with
  | absent _ named absent => exact ⟨_, named, absent⟩
  | removed _ named init _ =>
    have hnodup := (Graph.service_init_represents init).sources_nodup
    exact ⟨_, named, Lock.contains_erase hnodup⟩
  | checked active =>
    rw [active] at inactive
    cases inactive
  | _ => cases ok

/-- What a resolution does, with any graph and any store that keeps its lock: the store is asked to read
at most once and to write at most once, the lock changes by one entry at most, and it stays as it was
whenever something fails before the write. A verdict on an active revision leaves an entry for its
package. With the graphs of this library, success with an inactive one leaves none. -/
theorem resolve_effect (keeps : store.Keeps stored) (metadata : Metadata) (revision : Revision)
    (s : σ) :
    (∀ {G : Type} (service : GraphService G),
      let ended := (resolve service store metadata revision).run s
      let after := stored ended.2
      (∀ calls, ∃ calls' : LockStore.Calls,
        calls'.gets ≤ calls.gets + 1 ∧ calls'.updates ≤ calls.updates + 1 ∧
        (resolve service store.counted metadata revision).run (s, calls) =
          (ended.1, ended.2, calls')) ∧
      LockEffect metadata revision (stored s) after ∧
      ((∃ cause, ended.1.value = .error (.invalidInput cause)) ∨
        (∃ cause, ended.1.value = .error (.getLock cause)) ∨
        (∃ cause, ended.1.value = .error (.store cause)) → after = stored s) ∧
      (∀ cause, ended.1.value = .error (.graph cause) →
        ∃ operation, Raised service metadata revision (stored s) operation cause) ∧
      (∀ operation cause, Raised service metadata revision (stored s) operation cause →
        operation = .init ∨ operation = .addNode ∨ operation = .upsert → after = stored s) ∧
      (revision.desiredState = .active → Judged ended.1.value →
        ∃ reference, revision.reference = .ok reference ∧
          after.contains reference.source = true)) ∧
    (∀ counts, revision.desiredState = .inactive →
      ((resolve Graph.service store metadata revision).run s).1.value = .ok counts →
      ∃ reference, revision.reference = .ok reference ∧
        (stored ((resolve Graph.service store metadata revision).run s).2).contains reference.source =
          false) := by
  refine ⟨fun {G} service => ?_, ?_⟩
  · intro ended after
    have hended : Ended service store stored metadata revision s ended.1.value after :=
      resolve_ended keeps service metadata revision s
    refine ⟨?_, hended.lockEffect, hended.unchanged_of_barred, ?_, ?_, ?_⟩
    · intro calls
      exact resolve_counted store s calls service metadata revision
    · intro cause failed
      exact hended.exists_raised failed
    · intro operation cause raised before
      exact hended.unchanged_of_raised raised before
    · intro active judged
      exact hended.contains_of_judged active judged
  · intro counts inactive ok
    exact (resolve_ended keeps Graph.service metadata revision s).not_contains_of_ok inactive ok

end Effect

/-- An installed package on which another one depends is taken out. -/
theorem resolve_effect_of_removal :
    let lock : Lock := ⟨3, [⟨"b", "v1", [⟨"a", .provider, none⟩]⟩, ⟨"a", "v1", []⟩]⟩
    let metadata : Metadata := .known .provider none []
    let revision : Revision := ⟨"a", .inactive⟩
    let ended := (resolve Graph.service LockStore.memory metadata revision).run lock
    LockStore.memory.Keeps (fun lock => lock) ∧ ended.1.value = .ok Counts.zero ∧
      LockEffect metadata revision lock ended.2 ∧
      ∃ reference, revision.reference = .ok reference ∧
        ended.2.contains reference.source = false := by
  intro lock metadata revision ended
  have keeps := LockStore.memory_serves.toKeeps
  have ok : ended.1.value = .ok Counts.zero := by cbv
  obtain ⟨hany, hlibrary⟩ := resolve_effect keeps metadata revision lock
  exact ⟨keeps, ok, (hany Graph.service).2.1, hlibrary Counts.zero rfl ok⟩

end PackageLock
