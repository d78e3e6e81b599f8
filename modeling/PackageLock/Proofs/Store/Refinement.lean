import Mathlib.Algebra.Group.Nat.Defs
import PackageLock.Proofs.Files.Tree
import PackageLock.Proofs.Lock.RoundTrip
import PackageLock.Proofs.Resolution.Course
import PackageLock.Proofs.Resolution.Verdict
import PackageLock.Store.Basic

/-!
# The lock file against the store in memory

The store of a lock file answers as the store in memory does, as long as its file can be replaced and the
revision fits into a document. Each call is answered alike from a tree and a lock where the file stands for
that lock, and leaves a tree and a lock of this kind (`Mirrors`); so are all calls of a sequence.
Main statement: `file_follows_memory`.
-/

set_option autoImplicit false

namespace PackageLock

/-! ## Calls -/

/-- What may be asked of a store. -/
inductive StoreCall where
  | get
  | update (lock : Lock)
  | resolve (request : Request)
  deriving DecidableEq, Repr

/-- The answer to a call, without the events on the way to it. -/
inductive StoreAnswer where
  | stored (result : Except StoreError Lock)
  | written (result : Except StoreError Unit)
  | resolved (outcome : Outcome)
  deriving DecidableEq, Repr

namespace StoreCall

variable {m : Type → Type} [Monad m]

/-- Asks a store. -/
def run (store : LockStore m) : StoreCall → m StoreAnswer
  | .get => return .stored (← store.get).value
  | .update lock => return .written (← store.update lock).value
  | .resolve request => return .resolved (← request.run store).value

/-- Asks a store, and reads the lock back afterwards. -/
def observe (store : LockStore m) (call : StoreCall) : m (StoreAnswer × Except StoreError Lock) := do
  let answer ← call.run store
  return (answer, (← store.get).value)

/-- Makes calls one after the other. -/
def observeAll (store : LockStore m) : List StoreCall → m (List (StoreAnswer × Except StoreError Lock))
  | [] => return []
  | call :: calls => do
    let seen ← call.observe store
    return seen :: (← observeAll store calls)

end StoreCall

namespace LockStore

section Simulation

variable {σ : Type} {store : LockStore (StateM σ)} {mirrors : σ → Lock → Prop} {s : σ} {lock : Lock}

/-- From a state that mirrors a lock, the store answers as the one in memory does from this lock, and
then the state mirrors the lock again. A write is of concern only if the revision fits afterwards. -/
structure Follows (store : LockStore (StateM σ)) (mirrors : σ → Lock → Prop) : Prop where
  get : ∀ s lock, mirrors s lock →
    (store.get.run s).1.value = .ok lock ∧ mirrors (store.get.run s).2 lock
  update : ∀ s lock written, mirrors s lock →
    ((memory.update written).run lock).2.revision < Lock.revisionBound →
    ((store.update written).run s).1.value = ((memory.update written).run lock).1.value ∧
      mirrors ((store.update written).run s).2 ((memory.update written).run lock).2

/-- A store that follows memory carries out plans as memory does, as long as revisions can be written. -/
theorem Follows.plan (follows : store.Follows mirrors) (h : mirrors s lock) (plan : Plan)
    (hfits : ((plan.run memory).run lock).2.revision < Lock.revisionBound) :
    ((plan.run store).run s).1.value = ((plan.run memory).run lock).1.value ∧
      mirrors ((plan.run store).run s).2 ((plan.run memory).run lock).2 := by
  cases plan with
  | finish outcome => exact ⟨rfl, h⟩
  | write written outcome =>
    obtain ⟨hvalue, hstate⟩ := run_write store written outcome s
    obtain ⟨hvalue', hstate'⟩ := run_write memory written outcome lock
    rw [hstate'] at hfits
    obtain ⟨hanswer, hmirrors⟩ := follows.update s lock written h hfits
    rw [hvalue, hvalue', hstate, hstate', hanswer]
    exact ⟨rfl, hmirrors⟩

/-- A store that follows memory resolves requests as memory does, as long as revisions can be written. -/
theorem Follows.request (follows : store.Follows mirrors) (h : mirrors s lock) (request : Request)
    (hfits : ((request.run memory).run lock).2.revision < Lock.revisionBound) :
    ((request.run store).run s).1.value = ((request.run memory).run lock).1.value ∧
      mirrors ((request.run store).run s).2 ((request.run memory).run lock).2 := by
  cases known : request.metadata.dependsOn? with
  | none =>
    simp only [Request.run, PackageLock.resolve, known]
    exact ⟨rfl, h⟩
  | some declared =>
    obtain ⟨hget, hmirrors⟩ := follows.get s lock h
    obtain ⟨hvalue, hstate⟩ := request.run_of_readable store known hget
    obtain ⟨hvalue', hstate'⟩ := request.run_of_readable memory known (memory_serves.get_ok lock)
    rw [hstate'] at hfits
    rw [hvalue, hvalue', hstate, hstate']
    exact follows.plan hmirrors _ hfits

/-- Observing a call is to make it and then to read. -/
theorem observe_run (store : LockStore (StateM σ)) (call : StoreCall) (s : σ) :
    (call.observe store).run s =
      ((((call.run store).run s).1, (store.get.run ((call.run store).run s).2).1.value),
        (store.get.run ((call.run store).run s).2).2) :=
  rfl

/-- A store that follows memory answers calls as memory does, as long as revisions can be written. -/
theorem Follows.call (follows : store.Follows mirrors) (h : mirrors s lock) (call : StoreCall)
    (hfits : ((call.run memory).run lock).2.revision < Lock.revisionBound) :
    ((call.run store).run s).1 = ((call.run memory).run lock).1 ∧
      mirrors ((call.run store).run s).2 ((call.run memory).run lock).2 := by
  cases call with
  | get =>
    obtain ⟨hvalue, hmirrors⟩ := follows.get s lock h
    exact ⟨congrArg StoreAnswer.stored hvalue, hmirrors⟩
  | update written =>
    obtain ⟨hvalue, hmirrors⟩ := follows.update s lock written h hfits
    exact ⟨congrArg StoreAnswer.written hvalue, hmirrors⟩
  | resolve request =>
    obtain ⟨hvalue, hmirrors⟩ := follows.request h request hfits
    exact ⟨congrArg StoreAnswer.resolved hvalue, hmirrors⟩

/-- One call is answered alike, and the lock that is read back after it is the same. -/
theorem Follows.observe (follows : store.Follows mirrors) (h : mirrors s lock) (call : StoreCall)
    (hfits : ((call.observe memory).run lock).2.revision < Lock.revisionBound) :
    ((call.observe store).run s).1 = ((call.observe memory).run lock).1 ∧
      mirrors ((call.observe store).run s).2 ((call.observe memory).run lock).2 := by
  obtain ⟨hanswer, hmirrors⟩ := follows.call h call hfits
  obtain ⟨hget, hmirrors'⟩ := follows.get _ _ hmirrors
  rw [observe_run, observe_run]
  exact ⟨Prod.ext hanswer hget, hmirrors'⟩

/-- Observations are made one after the other. -/
theorem observeAll_cons_run (store : LockStore (StateM σ)) (call : StoreCall) (calls : List StoreCall)
    (s : σ) :
    ((StoreCall.observeAll store (call :: calls)).run s).1 =
      ((call.observe store).run s).1 ::
        ((StoreCall.observeAll store calls).run ((call.observe store).run s).2).1 :=
  rfl

/-- All calls of a sequence are answered alike, by induction on the sequence. -/
theorem Follows.observeAll (follows : store.Follows mirrors) (h : mirrors s lock)
    (calls : List StoreCall)
    (hfits : ∀ seen ∈ ((StoreCall.observeAll memory calls).run lock).1, ∀ stored,
      seen.2 = .ok stored → stored.revision < Lock.revisionBound) :
    ((StoreCall.observeAll store calls).run s).1 = ((StoreCall.observeAll memory calls).run lock).1 := by
  induction calls generalizing s lock with
  | nil => rfl
  | cons call calls ih =>
    rw [observeAll_cons_run, List.forall_mem_cons] at hfits
    obtain ⟨hseen, hmirrors⟩ := follows.observe h call (hfits.1 _ rfl)
    rw [observeAll_cons_run, observeAll_cons_run, hseen, ih hmirrors hfits.2]

end Simulation

/-! ## The lock file -/

section LockFile

variable {path : String} {tree : FileTree} {lock : Lock}

/-- The file of the path stands for the lock, and it can be replaced. -/
structure Mirrors (path : String) (tree : FileTree) (lock : Lock) : Prop where
  stands : (lockOfFile path (tree.read path)).value = .ok lock
  works : ∃ between place, tree.Puts path between place

/-- A lock is read where there is no file, and then it is the empty one, or where the text of the file is
parsed as this lock. -/
theorem lockOfFile_eq_ok_iff {contents : Except FileError String} :
    (lockOfFile path contents).value = .ok lock ↔
      (contents = .error .notFound ∧ lock = Lock.empty) ∨
        ∃ text, contents = .ok text ∧ Lock.parse text = .ok lock := by
  unfold lockOfFile
  split
  · rename_i text
    split <;> simp_all [Logged.silent]
  · simp [eq_comm]
  · rename_i e hmissing
    have hne : e ≠ .notFound := fun h => hmissing (by rw [h])
    simp [Logged.silent, hne]

/-- Where a lock is read, the path is one that a file may have. -/
theorem isPath_of_stands (stands : (lockOfFile path (tree.read path)).value = .ok lock) :
    FileTree.IsPath path := by
  obtain ⟨hread, -⟩ | ⟨text, hread, -⟩ := lockOfFile_eq_ok_iff.mp stands
  · exact FileTree.isPath_of_read (.inr hread)
  · exact FileTree.isPath_of_read (.inl ⟨text, hread⟩)

/-- A replacement through the access to the files answers as the replacement itself. -/
theorem access_replace_run (path text : String) (tree : FileTree) :
    (FileTree.access.replace path text).run tree =
      match (FileTree.replace path text).run tree with
      | .ok () after => (.ok (), after)
      | .error e after => (.error e, after) :=
  rfl

/-- A replacement that succeeds puts the file at a place. -/
theorem exists_puts_of_access_replace {text : String}
    (h : ((FileTree.access.replace path text).run tree).1 = .ok ()) :
    ∃ between place, tree.Puts path between place := by
  rw [access_replace_run] at h
  cases hreplace : (FileTree.replace path text).run tree with
  | ok _ after =>
    obtain ⟨between, place, hputs, -⟩ := FileTree.exists_puts_of_replace_ok hreplace
    exact ⟨between, place, hputs⟩
  | error e after =>
    rw [hreplace] at h
    cases h

/-- A write reads the file once more, refuses what does not fit to it, and replaces it otherwise. -/
theorem file_update_run (path : String) (tree : FileTree) (written : Lock) :
    ((file FileTree.access path).update written).run tree =
      match (lockOfFile path (tree.read path)).value >>= fun stored => textToWrite stored written with
      | .error e => (⟨.error e, (lockOfFile path (tree.read path)).events⟩, tree)
      | .ok text =>
        match (FileTree.replace path text).run tree with
        | .ok () after => (⟨.ok (), (lockOfFile path (tree.read path)).events ++
            [.debug ("wrote " ++ path)]⟩, after)
        | .error e after =>
          (⟨.error (.io path e), (lockOfFile path (tree.read path)).events⟩, after) := by
  have hread : (readFile FileTree.access path).run tree =
      (pure (lockOfFile path (tree.read path), tree) : Id _) := rfl
  show (writeFile FileTree.access path written).run tree = _
  unfold writeFile
  rw [StateT.run_bind, hread, pure_bind]
  cases (lockOfFile path (tree.read path)).value >>= fun stored => textToWrite stored written with
  | error e => rfl
  | ok text =>
    have hreplace : (FileTree.access.replace path text).run tree =
        (pure (match (FileTree.replace path text).run tree with
          | .ok () after => (.ok (), after)
          | .error e after => (.error e, after)) : Id _) := access_replace_run path text tree
    simp only [StateT.run_bind, hreplace, pure_bind]
    cases (FileTree.replace path text).run tree <;> rfl

/-- A lock from another revision is a conflict. -/
theorem textToWrite_of_conflict {stored written : Lock} (h : stored.revision ≠ written.revision) :
    textToWrite stored written = .error (.conflict written.revision stored.revision) := by
  rw [textToWrite, Lock.accept, if_neg h]
  rfl

/-- A lock from the stored revision is written as the next one, as long as revisions can be written. -/
theorem textToWrite_of_fits {stored written : Lock} (h : stored.revision = written.revision)
    (hfits : written.next.revision < Lock.revisionBound) :
    textToWrite stored written = .ok (String.ofList written.next.write) := by
  rw [textToWrite, Lock.accept, if_pos h]
  simp only [bind, Except.bind, Lock.render?, if_pos hfits]

/-- The lock file follows memory. -/
theorem file_follows : (file FileTree.access path).Follows (Mirrors path) where
  get tree lock h := ⟨h.stands, h⟩
  update tree lock written h hfits := by
    rw [file_update_run, h.stands]
    rw [memory_update] at hfits ⊢
    by_cases same : lock.revision = written.revision
    · rw [if_pos same] at hfits ⊢
      obtain ⟨between, place, hputs⟩ := h.works
      have hread := hputs.read (String.ofList written.next.write) (isPath_of_stands h.stands)
      simp only [bind, Except.bind, textToWrite_of_fits same hfits, hputs.run]
      refine ⟨rfl, lockOfFile_eq_ok_iff.mpr (.inr ⟨_, hread, ?_⟩), _, place, hputs.again _⟩
      exact Lock.parse_ofList_write written.next hfits
    · rw [if_neg same]
      simp only [bind, Except.bind, textToWrite_of_conflict same]
      exact ⟨rfl, h⟩

/-- A write that fails has not touched the contents of any file. -/
theorem contents?_of_update_error {written : Lock} {e : StoreError} (place : Place)
    (h : (((file FileTree.access path).update written).run tree).1.value = .error e) :
    (((file FileTree.access path).update written).run tree).2.contents? place =
      tree.contents? place := by
  rw [file_update_run] at h ⊢
  cases hplan : (lockOfFile path (tree.read path)).value >>= fun stored => textToWrite stored written with
  | error cause => rfl
  | ok text =>
    rw [hplan] at h
    cases hreplace : (FileTree.replace path text).run tree with
    | ok _ after =>
      simp only [hreplace] at h
      cases h
    | error cause after =>
      simp only [hreplace]
      exact (FileTree.made_of_replace_error hreplace).onlyDirectories.contents place

/-- The store of a file answers every sequence of calls as the store in memory does, if the file stands for
the lock in memory to begin with, it can be replaced, and the revisions fit into a document. Whatever the
file holds, a write that fails leaves it as it was. -/
theorem file_follows_memory :
    (∀ (path : String) (tree : FileTree) (lock : Lock) (calls : List StoreCall),
      ((tree.read path = .error .notFound ∧ lock = Lock.empty) ∨
        ∃ text, tree.read path = .ok text ∧ Lock.parse text = .ok lock) →
      ((FileTree.access.replace path "").run tree).1 = .ok () →
      (∀ seen ∈ ((StoreCall.observeAll memory calls).run lock).1, ∀ stored,
        seen.2 = .ok stored → stored.revision ≤ 2 ^ 63 - 1) →
      ((StoreCall.observeAll (file FileTree.access path) calls).run tree).1 =
        ((StoreCall.observeAll memory calls).run lock).1) ∧
    ∀ (path : String) (tree : FileTree) (written : Lock) (e : StoreError),
      (((file FileTree.access path).update written).run tree).1.value = .error e →
      ∀ place, (((file FileTree.access path).update written).run tree).2.contents? place =
        tree.contents? place := by
  refine ⟨fun path tree lock calls stands works fits => ?_, fun path tree written e h place => ?_⟩
  · have hmirrors : Mirrors path tree lock :=
      ⟨lockOfFile_eq_ok_iff.mpr stands, exists_puts_of_access_replace works⟩
    apply file_follows.observeAll hmirrors
    intro seen hseen stored hstored
    have hfits := fits seen hseen stored hstored
    unfold Lock.revisionBound
    omega
  · exact contents?_of_update_error place h

/-- No file at first; a provider is registered, a write made from the first revision comes too late, and
the entry is read. On a malformed file a write fails and leaves it. -/
theorem file_follows_memory_of_stale :
    let tree : FileTree := ⟨[(["d"], .directory), (["d", "x"], .file (.text "garbage"))], ["d"]⟩
    let calls : List StoreCall :=
      [.resolve ⟨.known .provider none [], ⟨"a:v1", .active⟩⟩, .update Lock.empty, .get]
    let stored : Lock := ⟨1, [⟨"a", "v1", []⟩]⟩
    tree.read "e/Keel.lock" = .error .notFound ∧
      ((FileTree.access.replace "e/Keel.lock" "").run tree).1 = .ok () ∧
      ((StoreCall.observeAll memory calls).run Lock.empty).1 =
        [(.resolved (.ok Counts.zero), .ok stored), (.written (.error (.conflict 0 1)), .ok stored),
          (.stored (.ok stored), .ok stored)] ∧
      ((StoreCall.observeAll (file FileTree.access "e/Keel.lock") calls).run tree).1 =
        ((StoreCall.observeAll memory calls).run Lock.empty).1 ∧
      (((file FileTree.access "x").update Lock.empty).run tree).1.value =
        .error (.parse "x" .malformed) ∧
      (((file FileTree.access "x").update Lock.empty).run tree).2.contents? ["d", "x"] =
        tree.contents? ["d", "x"] := by
  intro tree calls stored
  have hread : tree.read "e/Keel.lock" = .error .notFound := by
    decide +kernel
  have hworks : ((FileTree.access.replace "e/Keel.lock" "").run tree).1 = .ok () := by
    decide +kernel
  have hmemory : ((StoreCall.observeAll memory calls).run Lock.empty).1 =
      [(.resolved (.ok Counts.zero), .ok stored), (.written (.error (.conflict 0 1)), .ok stored),
        (.stored (.ok stored), .ok stored)] := by
    decide +kernel
  have hmalformed : (((file FileTree.access "x").update Lock.empty).run tree).1.value =
      .error (.parse "x" .malformed) := by
    decide +kernel
  refine ⟨hread, hworks, hmemory, ?_, hmalformed, ?_⟩
  · apply file_follows_memory.1 _ _ _ _ (.inl ⟨hread, rfl⟩) hworks
    rw [hmemory]
    intro seen hseen found hfound
    have hstored : found = stored := by
      simp only [List.mem_cons, List.not_mem_nil, or_false] at hseen
      obtain rfl | rfl | rfl := hseen <;> exact (Except.ok.inj hfound).symm
    rw [hstored]
    decide
  · exact file_follows_memory.2 _ _ _ _ hmalformed _

end LockFile

end LockStore

end PackageLock
