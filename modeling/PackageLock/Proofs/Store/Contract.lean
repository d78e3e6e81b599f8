import PackageLock.Store.Basic

/-!
# What is expected of a store

A store that works on a state of any kind keeps a lock if reading tells that lock and changes nothing,
if a write that is accepted leaves the written lock as the next revision, and if one that is refused
leaves the lock as it was. Reading and writing may fail. A store serves if reading never fails and a
write fails only if it was made from another revision; it guards the lock if such a write always fails. The
store in memory does all three.
-/

set_option autoImplicit false

namespace PackageLock

namespace LockStore

variable {σ : Type}

/-- The store keeps the lock that `stored` finds in the state of the work. -/
structure Keeps (store : LockStore (StateM σ)) (stored : σ → Lock) : Prop where
  get_stored : ∀ s, stored (store.get.run s).2 = stored s
  get_value : ∀ s lock, (store.get.run s).1.value = .ok lock → lock = stored s
  update_ok : ∀ s lock, ((store.update lock).run s).1.value = .ok () →
    stored ((store.update lock).run s).2 = lock.next
  update_error : ∀ s lock e, ((store.update lock).run s).1.value = .error e →
    stored ((store.update lock).run s).2 = stored s

/-- The store keeps the lock and answers whenever it can. -/
structure Serves (store : LockStore (StateM σ)) (stored : σ → Lock) : Prop extends
    store.Keeps stored where
  get_ok : ∀ s, (store.get.run s).1.value = .ok (stored s)
  accepts : ∀ s lock, lock.revision = (stored s).revision →
    ((store.update lock).run s).1.value = .ok ()

/-- The store serves, and it refuses every write that was made from another revision. -/
structure Guards (store : LockStore (StateM σ)) (stored : σ → Lock) : Prop extends
    store.Serves stored where
  refuses : ∀ s lock, lock.revision ≠ (stored s).revision →
    ((store.update lock).run s).1.value = .error (.conflict lock.revision (stored s).revision)

/-- A write in memory is accepted if and only if it was made from the stored revision. -/
theorem memory_update (stored lock : Lock) :
    (memory.update lock).run stored =
      if stored.revision = lock.revision then (Logged.silent (.ok ()), lock.next)
      else (Logged.silent (.error (.conflict lock.revision stored.revision)), stored) := by
  by_cases same : stored.revision = lock.revision
  · have haccept : stored.accept lock = .ok lock.next := if_pos same
    rw [if_pos same]
    simp [memory, haccept]
    rfl
  · have haccept : stored.accept lock = .error (.conflict lock.revision stored.revision) :=
      if_neg same
    rw [if_neg same]
    simp [memory, haccept]
    rfl

/-- The store in memory keeps and serves the lock that is its state. -/
theorem memory_serves : memory.Serves fun lock => lock where
  get_stored _ := rfl
  get_value _ _ h := (Except.ok.inj h).symm
  update_ok s lock h := by
    rw [memory_update] at h ⊢
    by_cases same : s.revision = lock.revision
    · rw [if_pos same]
    · rw [if_neg same] at h
      cases h
  update_error s lock e h := by
    rw [memory_update] at h ⊢
    by_cases same : s.revision = lock.revision
    · rw [if_pos same] at h
      cases h
    · rw [if_neg same]
  get_ok _ := rfl
  accepts s lock h := by
    rw [memory_update, if_pos h.symm]
    rfl

/-- The store in memory refuses every write from another revision. -/
theorem memory_guards : memory.Guards fun lock => lock where
  toServes := memory_serves
  refuses s lock h := by
    rw [memory_update, if_neg (Ne.symm h)]
    rfl

/-! ## Counting calls -/

/-- How often a store has been asked to read and to write. -/
structure Calls where
  gets : Nat
  updates : Nat
  deriving DecidableEq, Repr

/-- The same store, which also counts what it is asked. -/
def counted (store : LockStore (StateM σ)) : LockStore (StateM (σ × Calls)) where
  get := fun (s, calls) =>
    let (answer, s) := store.get.run s
    (answer, s, { calls with gets := calls.gets + 1 })
  update lock := fun (s, calls) =>
    let (answer, s) := (store.update lock).run s
    (answer, s, { calls with updates := calls.updates + 1 })

/-- A counted read is a read that counts. -/
theorem counted_get (store : LockStore (StateM σ)) (s : σ) (calls : Calls) :
    store.counted.get.run (s, calls) =
      ((store.get.run s).1, (store.get.run s).2, { calls with gets := calls.gets + 1 }) :=
  rfl

/-- A counted write is a write that counts. -/
theorem counted_update (store : LockStore (StateM σ)) (lock : Lock) (s : σ) (calls : Calls) :
    (store.counted.update lock).run (s, calls) =
      (((store.update lock).run s).1, ((store.update lock).run s).2,
        { calls with updates := calls.updates + 1 }) :=
  rfl

end LockStore

/-! ## Work that calls a store, as data

Work that uses a store can be taken apart into the calls that it makes and what it does with the answers.
As a process it stops before each call, and whoever runs it answers. Carried out on a store it is the
work that calls this store (`on_bind`).
-/

/-- Work that has come to its result or waits for the answer to a call of the store. -/
inductive Process (α : Type) where
  | done (result : α)
  | get (next : Logged (Except StoreError Lock) → Process α)
  | update (lock : Lock) (next : Logged (Except StoreError Unit) → Process α)

namespace Process

variable {m : Type → Type} {α β : Type}

/-- The result, if the process has come to it. -/
def result? : Process α → Option α
  | .done result => some result
  | _ => none

/-- A process has the result to which it has come. -/
theorem result?_eq_some_iff {process : Process α} {result : α} :
    process.result? = some result ↔ process = .done result := by
  cases process with
  | done other => simp [result?]
  | get next => simp [result?]
  | update lock next => simp [result?]

/-- The process goes on with the next piece of work when it has its result. -/
def andThen (process : Process α) (f : α → Process β) : Process β :=
  match process with
  | .done result => f result
  | .get next => .get fun answer => (next answer).andThen f
  | .update lock next => .update lock fun answer => (next answer).andThen f

/-- Work goes on by taking over where the work before it has come to its result. -/
instance : Monad Process where
  pure := .done
  bind := andThen

/-- The store whose calls are left open. -/
def store : LockStore Process where
  get := .get .done
  update lock := .update lock .done

/-- Carries out the process on a store. -/
def on [Monad m] (target : LockStore m) : Process α → m α
  | .done result => return result
  | .get next => do (next (← target.get)).on target
  | .update lock next => do (next (← target.update lock)).on target

section On

variable [Monad m] (target : LockStore m)

/-- A result is the same on every store. -/
@[simp] theorem on_pure (result : α) : (pure result : Process α).on target = pure result :=
  rfl

variable [LawfulMonad m]

/-- Work in two parts is carried out part by part. -/
@[simp] theorem on_bind (process : Process α) (f : α → Process β) :
    (process >>= f).on target = process.on target >>= fun result => (f result).on target := by
  have hbind (process : Process α) : process >>= f = process.andThen f := rfl
  rw [hbind]
  induction process with
  | done result => simp [andThen, on]
  | get next ih => simp [andThen, on, ih]
  | update lock next ih => simp [andThen, on, ih]

/-- An open read is carried out as a read. -/
@[simp] theorem on_store_get : store.get.on target = target.get := by
  simp [store, on]

/-- An open write is carried out as a write. -/
@[simp] theorem on_store_update (lock : Lock) : (store.update lock).on target = target.update lock := by
  simp [store, on]

end On

end Process

end PackageLock
