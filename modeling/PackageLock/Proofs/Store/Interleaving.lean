import Mathlib.Data.List.Infix
import Mathlib.Logic.Function.Basic
import PackageLock.Proofs.Store.Contract

/-!
# Clients of one store

Any number of clients work on one lock in memory. Each is a process; a schedule says whose turn it is,
and at its turn a client makes the one call that it waits for. So calls are atomic and follow each other
in any order. The history tells of the calls that have been made, and of each write whether it has been
accepted. What becomes of the lock and of a client at one turn is told by `step_of_done`, `step_of_get`
and the two lemmas on writes.
-/

set_option autoImplicit false

namespace PackageLock

variable {ι α : Type}

/-! ## Turns -/

/-- A call that a client has made. -/
inductive Turn (ι : Type) where
  | read (client : ι)
  /-- A write that the store has accepted. -/
  | accepted (client : ι)
  /-- A write that the store has refused. -/
  | refused (client : ι)
  deriving DecidableEq, Repr

namespace Turn

/-- The client that has made the call. -/
def client : Turn ι → ι
  | .read i => i
  | .accepted i => i
  | .refused i => i

/-- The client whose write has been accepted. -/
def writer? : Turn ι → Option ι
  | .accepted i => some i
  | _ => none

/-- The clients whose writes have been accepted, in the order of the writes. -/
def writers (turns : List (Turn ι)) : List ι :=
  turns.filterMap writer?

/-- A client has made none of the calls. -/
def Absent (i : ι) (turns : List (Turn ι)) : Prop :=
  ∀ turn ∈ turns, turn.client ≠ i

/-- The writers of two histories, one after the other. -/
@[simp] theorem writers_append (first second : List (Turn ι)) :
    writers (first ++ second) = writers first ++ writers second :=
  List.filterMap_append

/-- A read is no write. -/
@[simp] theorem writers_read_cons (i : ι) (turns : List (Turn ι)) :
    writers (.read i :: turns) = writers turns :=
  rfl

/-- An accepted write has its writer. -/
@[simp] theorem writers_accepted_cons (i : ι) (turns : List (Turn ι)) :
    writers (.accepted i :: turns) = i :: writers turns :=
  rfl

/-- A refused write has no part among the writers. -/
@[simp] theorem writers_refused_cons (i : ι) (turns : List (Turn ι)) :
    writers (.refused i :: turns) = writers turns :=
  rfl

/-- Without turns there are no writers. -/
@[simp] theorem writers_nil : writers ([] : List (Turn ι)) = [] :=
  rfl

/-- The writers are the clients of accepted writes. -/
theorem mem_writers {i : ι} {turns : List (Turn ι)} :
    i ∈ writers turns ↔ .accepted i ∈ turns := by
  rw [writers, List.mem_filterMap]
  constructor
  · rintro ⟨turn, hturn, hwriter⟩
    cases turn with
    | accepted client =>
      cases hwriter
      exact hturn
    | read client => cases hwriter
    | refused client => cases hwriter
  · intro hturn
    exact ⟨.accepted i, hturn, rfl⟩

/-- Before the first turn everybody is absent. -/
theorem absent_nil (i : ι) : Absent i [] :=
  fun _ hmem => absurd hmem List.not_mem_nil

/-- Who is absent from two histories is absent from both together. -/
theorem Absent.append {i : ι} {first second : List (Turn ι)} (h : Absent i first)
    (h' : Absent i second) : Absent i (first ++ second) := by
  intro turn hturn
  rcases List.mem_append.mp hturn with hmem | hmem
  · exact h turn hmem
  · exact h' turn hmem

/-- No turn is that of a client who is absent. -/
theorem Absent.not_mem {i : ι} {turns : List (Turn ι)} (h : Absent i turns) (turn : Turn ι)
    (client : turn.client = i) : turn ∉ turns := fun hmem => h turn hmem client

end Turn

/-! ## Systems -/

/-- The clients of a lock in memory. -/
structure System (ι α : Type) where
  stored : Lock
  clients : ι → Process α
  history : List (Turn ι)

namespace System

/-- The clients before the first call. -/
def start (clients : ι → Process α) (lock : Lock) : System ι α :=
  ⟨lock, clients, []⟩

variable [DecidableEq ι]

/-- A client makes the call that it waits for, if it has not come to its result. -/
def step (sys : System ι α) (i : ι) : System ι α :=
  match sys.clients i with
  | .done _ => sys
  | .get next =>
    let (answer, stored) := LockStore.memory.get.run sys.stored
    ⟨stored, Function.update sys.clients i (next answer), sys.history ++ [.read i]⟩
  | .update lock next =>
    let (answer, stored) := (LockStore.memory.update lock).run sys.stored
    let turn := match answer.value with
      | .ok () => Turn.accepted i
      | .error _ => .refused i
    ⟨stored, Function.update sys.clients i (next answer), sys.history ++ [turn]⟩

/-- Turns are taken as a schedule has it. -/
def run (sys : System ι α) (schedule : List ι) : System ι α :=
  schedule.foldl step sys

variable {sys : System ι α} {i : ι}

/-- A client that has its result takes no further turn. -/
theorem step_of_done {result : α} (h : sys.clients i = .done result) : sys.step i = sys := by
  rw [step, h]

/-- A client that reads is told the stored lock. -/
theorem step_of_get {next : Logged (Except StoreError Lock) → Process α}
    (h : sys.clients i = .get next) :
    sys.step i = ⟨sys.stored, Function.update sys.clients i (next (.silent (.ok sys.stored))),
      sys.history ++ [.read i]⟩ := by
  rw [step, h]
  rfl

/-- A write of the stored revision is accepted. -/
theorem step_of_update {lock : Lock} {next : Logged (Except StoreError Unit) → Process α}
    (h : sys.clients i = .update lock next) (revision_eq : sys.stored.revision = lock.revision) :
    sys.step i = ⟨lock.next, Function.update sys.clients i (next (.silent (.ok ()))),
      sys.history ++ [.accepted i]⟩ := by
  rw [step, h]
  simp only [LockStore.memory_update, if_pos revision_eq]
  rfl

/-- A write of another revision is refused. -/
theorem step_of_update_stale {lock : Lock} {next : Logged (Except StoreError Unit) → Process α}
    (h : sys.clients i = .update lock next) (stale : sys.stored.revision ≠ lock.revision) :
    sys.step i = ⟨sys.stored, Function.update sys.clients i
        (next (.silent (.error (.conflict lock.revision sys.stored.revision)))),
      sys.history ++ [.refused i]⟩ := by
  rw [step, h]
  simp only [LockStore.memory_update, if_neg stale]
  rfl

end System

end PackageLock
