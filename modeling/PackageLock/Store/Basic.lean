import PackageLock.Event
import PackageLock.Files.Basic
import PackageLock.Lock.Format

/-!
# Lock stores

A store keeps the lock between two uses. A write says which revision it was made from and is accepted
only if that is still the revision stored; the stored lock then is one revision further. So of two
writes made from one revision the second fails, and no change is lost.
-/

set_option autoImplicit false

namespace PackageLock

/-- Why a lock cannot be read or written. -/
inductive StoreError where
  /-- The write was made from a revision that is not the stored one. -/
  | conflict (expected found : Nat)
  | io (path : String) (cause : FileError)
  | parse (path : String) (cause : Toml.ReadError)
  /-- The lock has no written form. -/
  | unwritable
  | unavailable (message : String)
  deriving DecidableEq, Repr

namespace StoreError

/-- Whether the write lost a race with another one. -/
def isConflict : StoreError → Bool
  | .conflict _ _ => true
  | _ => false

/-- The wording of the error. -/
def message : StoreError → String
  | .conflict expected found =>
    "lock was modified concurrently (expected revision " ++ toString expected ++ ", found " ++
      toString found ++ ")"
  | .io path cause => "cannot access lock at " ++ path ++ ": " ++ cause.message
  | .parse path cause => "cannot parse lock at " ++ path ++ ": " ++ cause.message
  | .unwritable => "cannot serialize lock: " ++ Lock.unwritableMessage
  | .unavailable message => "lock store unavailable: " ++ message

/-- What may be done about the error. -/
def help? : StoreError → Option String
  | .conflict _ _ => some "re-run resolution against the current lock"
  | _ => none

end StoreError

/-- A place where the lock is kept. -/
structure LockStore (m : Type → Type) where
  /-- The stored lock. -/
  get : m (Logged (Except StoreError Lock))
  /-- Stores a lock, as the next revision of the one it was made from. -/
  update : Lock → m (Logged (Except StoreError Unit))

/-- What becomes of the stored lock when `lock` is written: it is refused unless both have the same
revision. -/
def Lock.accept (stored lock : Lock) : Except StoreError Lock :=
  if stored.revision = lock.revision then .ok lock.next
  else .error (.conflict lock.revision stored.revision)

namespace LockStore

/-- The store whose lock is the state of the work. -/
def memory : LockStore (StateM Lock) where
  get := return .silent (.ok (← MonadState.get))
  update lock := do
    match (← MonadState.get).accept lock with
    | .ok next => set next; return .silent (.ok ())
    | .error e => return .silent (.error e)

end LockStore

/-! ## The lock file as a store

The lock is kept in one file. No file means the empty lock. A write reads the file once more, so that
only a change between that and the replacement of the file goes unnoticed.
-/

variable {m : Type → Type} [Monad m]

namespace LockStore

/-- The lock that a file of the given text stands for. -/
def lockOfFile (path : String) : Except FileError String → Logged (Except StoreError Lock)
  | .ok text =>
    match Lock.parse text with
    | .ok lock => .silent (.ok lock)
    | .error e => .silent (.error (.parse path e))
  | .error .notFound =>
    ⟨.ok Lock.empty, [.debug ("no lock at " ++ path ++ ", starting empty")]⟩
  | .error e => .silent (.error (.io path e))

/-- Reads the lock file. -/
def readFile (files : FileAccess m) (path : String) : m (Logged (Except StoreError Lock)) :=
  return lockOfFile path (← files.read path)

/-- The text that the lock file gets when `lock` is written over the `stored` one. -/
def textToWrite (stored lock : Lock) : Except StoreError String := do
  match (← stored.accept lock).render? with
  | some text => .ok text
  | none => .error .unwritable

/-- Writes the lock file. -/
def writeFile (files : FileAccess m) (path : String) (lock : Lock) :
    m (Logged (Except StoreError Unit)) := do
  let stored ← readFile files path
  match stored.value >>= fun stored => textToWrite stored lock with
  | .error e => return ⟨.error e, stored.events⟩
  | .ok text =>
    match ← files.replace path text with
    | .ok () => return ⟨.ok (), stored.events ++ [.debug ("wrote " ++ path)]⟩
    | .error e => return ⟨.error (.io path e), stored.events⟩

/-- The store that keeps the lock in the file at `path`. -/
def file (files : FileAccess m) (path : String) : LockStore m where
  get := readFile files path
  update := writeFile files path

end LockStore

end PackageLock
