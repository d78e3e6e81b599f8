import PackageLock.Proofs.Resolution.Endings
import PackageLock.Proofs.Store.Contract

/-!
# The course of a resolution

Which calls a resolution makes, one after the other, and when it has come to its result. It is the same
process whatever store it is carried out on (`on_resolve`): it reads the lock or does not, it writes a
lock of the revision that it has read or does not, and after the write it has its result
(`resolve_course`). So in memory either nothing is written or the revision grows by one
(`Course.memory_cases`).
-/

set_option autoImplicit false

namespace PackageLock

variable {G : Type}

/-- Where the lock can be read, a resolution carries out the plan for this lock. -/
theorem resolve_of_readable {σ : Type} {s : σ} {metadata : Metadata} {lock : Lock}
    {declared : List Declaration} (service : GraphService G) (store : LockStore (StateM σ))
    (revision : Revision) (known : metadata.dependsOn? = some declared)
    (readable : (store.get.run s).1.value = .ok lock) :
    let plan := (Plan.make service declared revision lock).value
    let ended := (resolve service store metadata revision).run s
    ended.1.value = ((plan.run store).run (store.get.run s).2).1.value ∧
      ended.2 = ((plan.run store).run (store.get.run s).2).2 := by
  unfold resolve
  rw [known]
  simp only [StateT.run_bind]
  rcases hget : store.get.run s with ⟨⟨value, events⟩, after⟩
  rw [hget] at readable
  cases readable
  exact ⟨rfl, rfl⟩

/-- Where the lock cannot be read, a resolution ends with the error of the store. -/
theorem resolve_of_unreadable {σ : Type} {s : σ} {metadata : Metadata} {cause : StoreError}
    {declared : List Declaration} (service : GraphService G) (store : LockStore (StateM σ))
    (revision : Revision) (known : metadata.dependsOn? = some declared)
    (unreadable : (store.get.run s).1.value = .error cause) :
    let ended := (resolve service store metadata revision).run s
    ended.1.value = .error (.getLock cause) ∧ ended.2 = (store.get.run s).2 := by
  unfold resolve
  rw [known]
  simp only [StateT.run_bind]
  rcases hget : store.get.run s with ⟨⟨value, events⟩, after⟩
  rw [hget] at unreadable
  cases unreadable
  exact ⟨rfl, rfl⟩

/-- What is asked of a resolution. -/
structure Request where
  metadata : Metadata
  revision : Revision
  deriving DecidableEq, Repr

namespace Request

/-- The resolution of the request, with the graphs of this library. -/
def run {m : Type → Type} [Monad m] (request : Request) (store : LockStore m) : m (Logged Outcome) :=
  resolve Graph.service store request.metadata request.revision

/-- Where the lock can be read, the resolution of a request carries out the plan for this lock. -/
theorem run_of_readable {σ : Type} {s : σ} {lock : Lock} {declared : List Declaration}
    (request : Request) (store : LockStore (StateM σ))
    (known : request.metadata.dependsOn? = some declared)
    (readable : (store.get.run s).1.value = .ok lock) :
    let plan := (Plan.make Graph.service declared request.revision lock).value
    ((request.run store).run s).1.value = ((plan.run store).run (store.get.run s).2).1.value ∧
      ((request.run store).run s).2 = ((plan.run store).run (store.get.run s).2).2 :=
  resolve_of_readable Graph.service store request.revision known readable

/-- The state in which a store is left by requests that are resolved one after the other. -/
def runAll {σ : Type} (store : LockStore (StateM σ)) (requests : List Request) (s : σ) : σ :=
  requests.foldl (fun s request => ((request.run store).run s).2) s

end Request

/-! ## A resolution as a process -/

section On

variable {m : Type → Type} [Monad m] [LawfulMonad m]

/-- A plan on a store is the process carried out on it. -/
theorem on_run (plan : Plan) (store : LockStore m) :
    (plan.run Process.store).on store = plan.run store := by
  cases plan with
  | finish outcome => rfl
  | write lock outcome =>
    simp only [Plan.run, Process.on_bind, Process.on_store_update]
    refine bind_congr fun written => ?_
    rcases written with ⟨value, events⟩
    cases value with
    | ok _ => rfl
    | error cause => rfl

/-- A resolution on a store is the process carried out on it. -/
theorem on_resolve (service : GraphService G) (store : LockStore m) (metadata : Metadata)
    (revision : Revision) :
    (resolve service Process.store metadata revision).on store =
      resolve service store metadata revision := by
  unfold resolve
  cases metadata.dependsOn? with
  | none => rfl
  | some declared =>
    simp only [Process.on_bind, Process.on_store_get]
    refine bind_congr fun stored => ?_
    rcases stored with ⟨value, events⟩
    cases value with
    | ok lock => simp only [Process.on_bind, Process.on_pure, on_run]
    | error cause => rfl

/-- The resolution of a request on a store is the process carried out on it. -/
theorem Request.on_run (request : Request) (store : LockStore m) :
    (request.run Process.store).on store = request.run store :=
  on_resolve Graph.service store request.metadata request.revision

end On

/-! ## Calls -/

/-- What a resolution may still have to do when it has read the lock. -/
inductive Remainder (lock : Lock) : Process (Logged Outcome) → Prop where
  | done (result : Logged Outcome) : Remainder lock (.done result)
  | update {written : Lock} {next : Logged (Except StoreError Unit) → Process (Logged Outcome)}
      {result : Logged Outcome} (revision_eq : written.revision = lock.revision)
      (accepted : next (.silent (.ok ())) = .done result)
      (refused : ∀ cause, ∃ events, next (.silent (.error cause)) =
        .done ⟨.error (.store cause), events⟩) :
      Remainder lock (.update written next)

/-- What a resolution has to do. -/
inductive Course : Process (Logged Outcome) → Prop where
  | done (result : Logged Outcome) : Course (.done result)
  | get {next : Logged (Except StoreError Lock) → Process (Logged Outcome)}
      (informed : ∀ lock, Remainder lock (next (.silent (.ok lock)))) : Course (.get next)

/-- Every resolution takes this course. -/
theorem resolve_course (service : GraphService G) (metadata : Metadata) (revision : Revision) :
    Course (resolve service Process.store metadata revision) := by
  unfold resolve
  cases known : metadata.dependsOn? with
  | none => exact Course.done _
  | some declared =>
    refine Course.get fun lock => ?_
    have comes : (Plan.make service declared revision (id lock)).value.ComesTo (id lock)
        (Ended service LockStore.memory id metadata revision lock) := make_comesTo known
    rw [id] at comes
    show Remainder lock ((Plan.make service declared revision lock).value.run Process.store >>=
      fun ended => pure (ended.after ([] ++ (Plan.make service declared revision lock).events)))
    revert comes
    rcases Plan.make service declared revision lock with ⟨plan, events⟩
    intro comes
    cases plan with
    | finish outcome => exact Remainder.done _
    | write written outcome => exact Remainder.update comes.1 rfl fun cause => ⟨_, rfl⟩

/-- The resolution of every request takes this course. -/
theorem Request.run_course (request : Request) : Course (request.run Process.store) :=
  resolve_course Graph.service request.metadata request.revision

/-! ## In memory -/

section Memory

variable {process : Process (Logged Outcome)} {lock : Lock}

/-- A write of the stored revision is carried out, and the work goes on. -/
theorem run_update_memory {written : Lock}
    {next : Logged (Except StoreError Unit) → Process (Logged Outcome)} {result : Logged Outcome}
    (revision_eq : written.revision = lock.revision)
    (accepted : next (.silent (.ok ())) = .done result) :
    ((Process.update written next).on LockStore.memory).run lock = (result, written.next) := by
  have hwrite : (LockStore.memory.update written).run lock = (.silent (.ok ()), written.next) := by
    rw [LockStore.memory_update, if_pos revision_eq.symm]
  rw [Process.on, StateT.run_bind, hwrite]
  show ((next (.silent (.ok ()))).on LockStore.memory).run written.next = _
  rw [accepted]
  rfl

/-- In memory, the rest of a resolution writes nothing and leaves the lock as it was, or it leaves the
next revision. -/
theorem Remainder.memory_cases (h : Remainder lock process) :
    ((process.on LockStore.memory).run lock).2 = lock ∧
        (∀ calls, (process.on LockStore.memory.counted).run (lock, calls) =
          (((process.on LockStore.memory).run lock).1, lock, calls)) ∨
      ((process.on LockStore.memory).run lock).2.revision = lock.revision + 1 := by
  cases h with
  | done result => exact Or.inl ⟨rfl, fun _ => rfl⟩
  | @update written next result revision_eq accepted _ =>
    right
    rw [run_update_memory revision_eq accepted]
    exact congrArg (· + 1) revision_eq

/-- In memory, a resolution writes nothing and leaves the lock as it was, or it leaves the next
revision. -/
theorem Course.memory_cases (h : Course process) (lock : Lock) :
    ((process.on LockStore.memory).run lock).2 = lock ∧
        (∀ calls, ∃ gets, (process.on LockStore.memory.counted).run (lock, calls) =
          (((process.on LockStore.memory).run lock).1, lock, ⟨gets, calls.updates⟩)) ∨
      ((process.on LockStore.memory).run lock).2.revision = lock.revision + 1 := by
  cases h with
  | done result => exact Or.inl ⟨rfl, fun calls => ⟨calls.gets, rfl⟩⟩
  | @get next informed =>
    rcases (informed lock).memory_cases with ⟨unchanged, counted⟩ | revision_eq
    · exact Or.inl ⟨unchanged, fun calls => ⟨calls.gets + 1, counted ⟨calls.gets + 1, calls.updates⟩⟩⟩
    · exact Or.inr revision_eq

/-- A resolution that makes no call leaves the lock. -/
theorem run_memory_of_done {request : Request} {result : Logged Outcome}
    (h : request.run Process.store = .done result) (lock : Lock) :
    (request.run LockStore.memory).run lock = (result, lock) := by
  rw [← request.on_run, h]
  rfl

/-- A resolution that reads the lock goes on with the stored one. -/
theorem run_memory_of_get {request : Request}
    {next : Logged (Except StoreError Lock) → Process (Logged Outcome)}
    (h : request.run Process.store = .get next) (lock : Lock) :
    (request.run LockStore.memory).run lock =
      ((next (.silent (.ok lock))).on LockStore.memory).run lock := by
  rw [← request.on_run, h]
  rfl

/-- In memory, a resolution that leaves the lock as it was has not asked the store to write. -/
theorem Request.counted_of_unchanged {request : Request}
    (unchanged : ((request.run LockStore.memory).run lock).2 = lock) (calls : LockStore.Calls) :
    ∃ gets, (request.run LockStore.memory.counted).run (lock, calls) =
      (((request.run LockStore.memory).run lock).1, lock, ⟨gets, calls.updates⟩) := by
  have hcases := request.run_course.memory_cases lock
  rw [request.on_run, request.on_run] at hcases
  rcases hcases with ⟨_, counted⟩ | written
  · exact counted calls
  · -- a write would have left another revision
    have hrevision : lock.revision = lock.revision + 1 := (congrArg _ unchanged).symm.trans written
    omega

end Memory

end PackageLock
