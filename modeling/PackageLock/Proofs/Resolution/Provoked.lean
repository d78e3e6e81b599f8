import PackageLock.Proofs.Resolution.Course
import PackageLock.Proofs.Resolution.Faults

/-!
# Provoked faults

What a resolution does over a store, or with a graph, that fails on purpose. Over a store that cannot be
read it ends before there is a lock to look at (`resolve_unreadable`). Over one that cannot be written, or
at which another writer always comes first, it does what it does anyway unless it has something to write,
and then it reports the store and leaves the lock as it was (`resolve_readOnly`) or as the other writer has
left it (`resolve_contended`). With a graph of which one operation fails it does what it does with the graph
itself, or it ends with the error of that operation; then it is the place of the operation before or after
the write that says what becomes of the lock (`resolve_failing`). A fault that is met leaves no verdict
(`resolve_failing_of_met`).
-/

set_option autoImplicit false

namespace PackageLock

variable {G : Type} {σ : Type}

/-! ## Stores that fail -/

/-- Over a store that cannot be read, a resolution comes to its outcome without the lock. All that it can
find wrong itself is the kind of the metadata. -/
theorem resolve_unreadable {m : Type → Type} [Monad m] [LawfulMonad m] (service : GraphService G)
    (store : LockStore m) (message : String) (metadata : Metadata) (revision : Revision) :
    resolve service (store.unreadable message) metadata revision =
      pure (.silent (match metadata.dependsOn? with
        | none => .error (.invalidInput (.unknownKind metadata.kindName))
        | some _ => .error (.getLock (.unavailable message)))) := by
  unfold resolve
  cases metadata.dependsOn? with
  | none => rfl
  | some declared =>
    simp only [LockStore.unreadable, pure_bind]
    rfl

section Stores

variable {store : LockStore (StateM σ)} {stored : σ → Lock}

/-- A lock that is written is not the one from whose revision it was made. -/
theorem Lock.next_ne {lock before : Lock} (h : lock.revision = before.revision) : lock.next ≠ before := by
  intro unchanged
  have hrevision : lock.revision + 1 = before.revision := congrArg Lock.revision unchanged
  omega

/-- Over a store that serves, a plan that writes from the stored revision leaves the lock that it writes. -/
theorem stored_run_write (serves : store.Serves stored) {lock : Lock} (outcome : Logged Outcome) {s : σ}
    (revision_eq : lock.revision = (stored s).revision) :
    stored (((Plan.write lock outcome).run store).run s).2 = lock.next := by
  rw [(run_write store lock outcome s).2]
  exact serves.update_ok s lock (serves.accepts s lock revision_eq)

/-- A resolution over a store that serves leaves the lock as it was, and then it is the same over every
store that is read in the same way; or it asks for the write of one lock, and then it hands on whatever
error such a store has for this write. -/
theorem resolve_writes_or_not (serves : store.Serves stored) (service : GraphService G)
    (metadata : Metadata) (revision : Revision) (s : σ) :
    let free := (resolve service store metadata revision).run s
    (stored free.2 = stored s ∧ ∀ other : LockStore (StateM σ), other.get = store.get →
        let ended := (resolve service other metadata revision).run s
        ended.1.value = free.1.value ∧ ended.2 = free.2) ∨
      stored free.2 ≠ stored s ∧ ∃ lock : Lock, lock.revision = (stored s).revision ∧
        ∀ other : LockStore (StateM σ), other.get = store.get → ∀ cause,
          let written := (other.update lock).run (store.get.run s).2
          let ended := (resolve service other metadata revision).run s
          written.1.value = .error cause →
            ended.1.value = .error (.store cause) ∧ ended.2 = written.2 := by
  intro free
  cases known : metadata.dependsOn? with
  | none =>
    have unknown (other : LockStore (StateM σ)) : resolve service other metadata revision =
        pure (.silent (.error (.invalidInput (.unknownKind metadata.kindName)))) := by
      rw [resolve, known]
    left
    refine ⟨by simp only [free, unknown]; rfl, fun other _ => ?_⟩
    simp only [free, unknown, and_self]
  | some declared =>
    have course (other : LockStore (StateM σ)) (same : other.get = store.get) :=
      resolve_of_readable service other revision known (by rw [same]; exact serves.get_ok s)
    obtain ⟨hvalue, hstate⟩ := course store rfl
    have kept := serves.get_stored s
    have comes : (Plan.make service declared revision (stored s)).value.ComesTo (stored s)
        (Ended service store stored metadata revision s) := make_comesTo known
    cases hplan : (Plan.make service declared revision (stored s)).value with
    | finish outcome =>
      rw [hplan] at hvalue hstate
      left
      refine ⟨(congrArg stored hstate).trans kept, fun other same => ?_⟩
      obtain ⟨hvalue', hstate'⟩ := course other same
      rw [hplan, same] at hvalue' hstate'
      exact ⟨hvalue'.trans hvalue.symm, hstate'.trans hstate.symm⟩
    | write lock outcome =>
      rw [hplan] at hstate comes
      right
      obtain ⟨revision_eq, _⟩ := comes
      have accepted : stored free.2 = lock.next :=
        (congrArg stored hstate).trans
          (stored_run_write serves outcome (revision_eq.trans (congrArg _ kept.symm)))
      refine ⟨accepted ▸ Lock.next_ne revision_eq, lock, revision_eq, fun other same cause => ?_⟩
      intro written ended refused
      obtain ⟨hvalue', hstate'⟩ := course other same
      rw [hplan, same] at hvalue' hstate'
      obtain ⟨hrun, hleft⟩ := run_write other lock outcome (store.get.run s).2
      refine ⟨hvalue'.trans (hrun.trans ?_), hstate'.trans hleft⟩
      rw [show ((other.update lock).run (store.get.run s).2).1.value = .error cause from refused]

/-- Over a store that cannot be written, the lock stays. The outcome is the usual one if there is nothing to
write, and otherwise it is the error of the store. -/
theorem resolve_readOnly (serves : store.Serves stored) (service : GraphService G) (message : String)
    (metadata : Metadata) (revision : Revision) (s : σ) :
    let free := (resolve service store metadata revision).run s
    let ended := (resolve service (store.readOnly message) metadata revision).run s
    stored ended.2 = stored s ∧
      ended.1.value =
        if stored free.2 = stored s then free.1.value else .error (.store (.unavailable message)) := by
  intro free ended
  rcases resolve_writes_or_not serves service metadata revision s with
    ⟨unchanged, same⟩ | ⟨changed, lock, _, refused⟩
  · obtain ⟨hvalue, hstate⟩ := same (store.readOnly message) rfl
    rw [if_pos unchanged]
    exact ⟨(congrArg stored hstate).trans unchanged, hvalue⟩
  · obtain ⟨hvalue, hstate⟩ := refused (store.readOnly message) rfl _ rfl
    rw [if_neg changed]
    exact ⟨(congrArg stored hstate).trans (serves.get_stored s), hvalue⟩

/-- A contended write is made in the state that is left when the stored lock has been written back. -/
theorem update_contended_run {s : σ} {theirs : Lock}
    (readable : (store.get.run s).1.value = .ok theirs) (lock : Lock) :
    let between := ((store.update theirs).run (store.get.run s).2).2
    let written := (store.contended.update lock).run s
    written.1.value = ((store.update lock).run between).1.value ∧
      written.2 = ((store.update lock).run between).2 := by
  simp only [LockStore.contended, StateT.run_bind]
  rcases hget : store.get.run s with ⟨⟨value, events⟩, after⟩
  rw [hget] at readable
  cases readable
  exact ⟨rfl, rfl⟩

/-- Where another writer comes first, a write from the stored revision is refused, and the lock is the one
that the other writer has left. -/
theorem update_contended (guards : store.Guards stored) {lock : Lock} {s : σ}
    (revision_eq : lock.revision = (stored s).revision) :
    let written := (store.contended.update lock).run s
    written.1.value = .error (.conflict (stored s).revision ((stored s).revision + 1)) ∧
      stored written.2 = (stored s).next := by
  intro written
  obtain ⟨hvalue, hstate⟩ := update_contended_run (guards.get_ok s) lock
  -- the other write is made from the stored revision, so it is accepted
  have accepted := guards.accepts (store.get.run s).2 (stored s) (congrArg _ (guards.get_stored s).symm)
  have between := guards.update_ok _ _ accepted
  have refused := guards.refuses ((store.update (stored s)).run (store.get.run s).2).2 lock (by
    rw [between, revision_eq]
    exact Nat.ne_of_lt (Nat.lt_succ_self _))
  have kept := guards.update_error _ _ _ refused
  rw [between] at refused kept
  refine ⟨hvalue.trans (refused.trans ?_), (congrArg stored hstate).trans kept⟩
  rw [revision_eq]
  rfl

/-- Where another writer always comes first, a resolution that has something to write loses the race: it
reports the conflict, and the lock is the one that the other writer has left. Any other resolution does not
notice. -/
theorem resolve_contended (guards : store.Guards stored) (service : GraphService G) (metadata : Metadata)
    (revision : Revision) (s : σ) :
    let free := (resolve service store metadata revision).run s
    let ended := (resolve service store.contended metadata revision).run s
    if stored free.2 = stored s then ended.1.value = free.1.value ∧ stored ended.2 = stored s
    else ended.1.value =
        .error (.store (.conflict (stored s).revision ((stored s).revision + 1))) ∧
      stored ended.2 = (stored s).next := by
  intro free ended
  rcases resolve_writes_or_not guards.toServes service metadata revision s with
    ⟨unchanged, same⟩ | ⟨changed, lock, revision_eq, refused⟩
  · obtain ⟨hvalue, hstate⟩ := same store.contended rfl
    rw [if_pos unchanged]
    exact ⟨hvalue, (congrArg stored hstate).trans unchanged⟩
  · have kept := guards.get_stored s
    obtain ⟨hwritten, hleft⟩ := update_contended guards (revision_eq.trans (congrArg _ kept.symm))
    rw [kept] at hwritten hleft
    obtain ⟨hvalue, hstate⟩ := refused store.contended rfl _ hwritten
    rw [if_neg changed]
    exact ⟨hvalue, (congrArg stored hstate).trans hleft⟩

end Stores

/-! ## Graphs of which one operation fails

Each function that works with a graph gives with the failing one what it gives with the other, or it ends
with a fault in its place. That is shown function by function, from the operations up to the plan.
-/

/-- The answer is the expected one. Only `here` may it be a fault instead. -/
def Strays {α : Type} (here : Prop) (fault : GraphError → Prop) (answer expected : Except GraphError α) :
    Prop :=
  answer = expected ∨ here ∧ ∃ cause, fault cause ∧ answer = .error cause

namespace Strays

variable {α β : Type} {here there : Prop} {fault : GraphError → Prop}
  {answer expected : Except GraphError α}

/-- A fault may also be met in more places. -/
theorem mono (h : Strays here fault answer expected) (more : here → there) :
    Strays there fault answer expected := by
  rcases h with rfl | ⟨met, cause, hcause, rfl⟩
  · exact Or.inl rfl
  · exact Or.inr ⟨more met, cause, hcause, rfl⟩

/-- Work that goes on with an answer meets the fault of the answer, or one of its own. -/
theorem bind {f f' : α → Except GraphError β} (h : Strays here fault answer expected)
    (next : ∀ a, expected = .ok a → Strays here fault (f' a) (f a)) :
    Strays here fault (answer >>= f') (expected >>= f) := by
  rcases h with rfl | ⟨met, cause, hcause, rfl⟩
  · cases answer with
    | ok a => exact next a rfl
    | error e => exact Or.inl rfl
  · exact Or.inr ⟨met, cause, hcause, rfl⟩

end Strays

/-- With a graph that fails at one operation, every other one gives the expected answer. The faults of a
look-up do not say that there is no node: this would be an answer. -/
structure GraphService.FailsAt (failing service : GraphService G) (operation : GraphOperation)
    (fault : GraphError → Prop) : Prop where
  contains : ∀ g id, failing.contains g id = service.contains g id
  init : ∀ nodes, Strays (operation = .init) fault (failing.init nodes) (service.init nodes)
  addNode : ∀ g node,
    Strays (operation = .addNode) fault (failing.addNode g node) (service.addNode g node)
  upsert : ∀ g nodes, Strays (operation = .upsert) fault (failing.upsert g nodes) (service.upsert g nodes)
  node : ∀ g id, Strays (operation = .node) fault (failing.node g id) (service.node g id)
  trace : ∀ g id, Strays (operation = .trace) fault (failing.trace g id) (service.trace g id)
  loud : operation = .node → ∀ cause, fault cause → ∀ id, cause ≠ .nodeNotFound id

/-- Whether the operation is done with before the lock is written. -/
def GraphOperation.precedesWrite : GraphOperation → Bool
  | .init | .addNode | .upsert => true
  | .node | .trace => false

/-- The plan ends with a fault where the usual one does something else: in the place of the write, or behind
the same write if there is one. -/
inductive Plan.Interrupted (operation : GraphOperation) (cause : GraphError) : Plan → Plan → Prop where
  | before {usual : Plan} (early : operation.precedesWrite = true) :
      Plan.Interrupted operation cause usual (.finish (.error (.graph cause)))
  | unwritten {outcome : Outcome} (late : operation.precedesWrite = false) :
      Plan.Interrupted operation cause (.finish outcome) (.finish (.error (.graph cause)))
  | written {lock : Lock} {outcome interrupted : Logged Outcome}
      (late : operation.precedesWrite = false) (failed : interrupted.value = .error (.graph cause)) :
      Plan.Interrupted operation cause (.write lock outcome) (.write lock interrupted)

section Failing

variable {service failing : GraphService G} {operation : GraphOperation} {fault : GraphError → Prop}
  {error : String → GraphError} {affected : String → Bool} {g : G} {package : Package}

/-- The operations fail as they are made to: at one of them, with the errors for the affected identifiers. -/
theorem GraphService.failing_failsAt
    (loud : operation = .node → ∀ id other, error id ≠ .nodeNotFound other) :
    (service.failing operation error affected).FailsAt service operation
      fun cause => ∃ id, affected id = true ∧ cause = error id := by
  have guarded {α : Type} (here : GraphOperation) (id : String) (result : Except GraphError α) :
      Strays (operation = here) (fun cause => ∃ id, affected id = true ∧ cause = error id)
        (if here = operation && affected id then .error (error id) else result) result := by
    split
    · rename_i met
      rw [Bool.and_eq_true, decide_eq_true_iff] at met
      exact Or.inr ⟨met.1.symm, error id, ⟨id, met.2, rfl⟩, rfl⟩
    · exact Or.inl rfl
  exact {
    contains := fun _ _ => rfl
    init := fun _ => guarded .init _ _
    addNode := fun _ _ => guarded .addNode _ _
    upsert := fun _ _ => guarded .upsert _ _
    node := fun _ _ => guarded .node _ _
    trace := fun _ _ => guarded .trace _ _
    loud := by
      rintro here _ ⟨id, _, rfl⟩
      exact loud here id }

namespace Plan

variable (fails : failing.FailsAt service operation fault)

include fails

/-- A look-up meets the faults of its single steps. -/
theorem lookUp_strays (g : G) (ids : List String) :
    Strays (operation = .node) fault (lookUp failing g ids) (lookUp service g ids) := by
  induction ids with
  | nil => exact Or.inl rfl
  | cons id ids ih =>
    rw [lookUp, lookUp]
    rcases fails.node g id with same | ⟨here, cause, hfault, met⟩
    · rw [same]
      cases service.node g id with
      | ok node => exact ih.bind fun _ _ => Or.inl rfl
      | error e =>
        cases e with
        | nodeNotFound other => exact ih.bind fun _ _ => Or.inl rfl
        | _ => exact Or.inl rfl
    · rw [met]
      cases cause with
      | nodeNotFound other => exact absurd rfl (fails.loud here _ hfault other)
      | _ => exact Or.inr ⟨here, _, hfault, rfl⟩

/-- A survey meets a fault of the trace or of a look-up. -/
theorem survey_strays (g : G) (package : Package) :
    Strays (operation = .trace ∨ operation = .node) fault (survey failing g package)
      (survey service g package) := by
  refine ((fails.trace g package.source).mono Or.inl).bind fun tree _ => ?_
  refine ((lookUp_strays fails g (unreached package tree)).mono Or.inr).bind fun _ _ => ?_
  exact Or.inl rfl

/-- Asking for an installed version meets the faults of looking up the node. -/
theorem installedVersion_strays (g : G) (id : String) :
    Strays (operation = .node) fault (installedVersion failing g id)
      (installedVersion service g id) := by
  unfold installedVersion
  rcases fails.node g id with same | ⟨here, cause, hfault, met⟩
  · rw [same]
    exact Or.inl rfl
  · rw [met]
    cases cause with
    | nodeNotFound other => exact absurd rfl (fails.loud here _ hfault other)
    | _ => exact Or.inr ⟨here, _, hfault, rfl⟩

/-- Judging the dependencies of a package meets the faults of looking up their nodes. -/
theorem violated_strays (g : G) (source : String) (dependencies : List Dependency) :
    violated failing g source dependencies = violated service g source dependencies ∨
      operation = .node ∧ ∃ cause, fault cause ∧
        (violated failing g source dependencies).value = .error cause := by
  induction dependencies with
  | nil => exact Or.inl rfl
  | cons dependency rest ih =>
    rw [violated, violated]
    cases dependency.constraint with
    | none => exact ih
    | some constraint =>
      rcases installedVersion_strays fails g dependency.package with same | ⟨here, cause, hfault, met⟩
      · rw [same]
        cases installedVersion service g dependency.package with
        | error e => exact Or.inl rfl
        | ok installed =>
          rcases ih with same | ⟨here, cause, hfault, met⟩
          · simp only [same, true_or]
          · refine Or.inr ⟨here, cause, hfault, ?_⟩
            simp only [Logged.andThen, Logged.after, Logged.map, met, Except.map]
      · rw [met]
        exact Or.inr ⟨here, cause, hfault, rfl⟩

/-- A check meets a fault of the trace or of a look-up. -/
theorem check_strays (g : G) (package : Package) :
    check failing g package = check service g package ∨
      (operation = .trace ∨ operation = .node) ∧ ∃ cause, fault cause ∧
        (check failing g package).value = .error (.graph cause) := by
  unfold check
  rcases survey_strays fails g package with same | ⟨here, cause, hfault, met⟩
  · rw [same]
    cases survey service g package with
    | error e => exact Or.inl rfl
    | ok found =>
      obtain ⟨installed, missing⟩ := found
      cases missing with
      | cons id rest => exact Or.inl rfl
      | nil =>
        rcases violated_strays fails g package.source package.dependencies with
          same | ⟨here, cause, hfault, met⟩
        · simp only [same, true_or]
        · refine Or.inr ⟨Or.inr here, cause, hfault, ?_⟩
          simp only [List.isEmpty_nil, if_true, Logged.map, met]
  · rw [met]
    exact Or.inr ⟨here, cause, hfault, rfl⟩

/-- Attaching a package meets a fault of adding or of updating its node. -/
theorem attach_strays (g : G) (package : Package) :
    Strays (operation = .addNode ∨ operation = .upsert) fault (attach failing g package)
      (attach service g package) := by
  have upsert (added : G) : Strays (operation = .addNode ∨ operation = .upsert) fault
      (failing.upsert added [.resolved package]) (service.upsert added [.resolved package]) :=
    (fails.upsert added _).mono Or.inr
  unfold attach
  rw [fails.contains]
  cases service.contains g package.source with
  | true => exact upsert g
  | false => exact ((fails.addNode g (.resolved package)).mono Or.inl).bind fun added _ => upsert added

/-- The plan for an active revision is the usual one, or it is interrupted. -/
theorem activate_interrupted (lock : Lock) :
    (activate failing lock g package).value = (activate service lock g package).value ∨
      ∃ cause, fault cause ∧ Interrupted operation cause (activate service lock g package).value
        (activate failing lock g package).value := by
  unfold activate
  cases lock.contains package.source with
  | true =>
    simp only [if_true, Logged.map]
    rcases check_strays fails g package with same | ⟨here, cause, hfault, met⟩
    · exact Or.inl (by rw [same])
    · rw [met]
      exact Or.inr ⟨cause, hfault, .unwritten (by rcases here with rfl | rfl <;> rfl)⟩
  | false =>
    simp only [Bool.false_eq_true, if_false]
    rcases attach_strays fails g package with same | ⟨here, cause, hfault, met⟩
    · rw [same]
      cases attach service g package with
      | error e => exact Or.inl rfl
      | ok attached =>
        rcases check_strays fails attached.value package with
          same | ⟨here, cause, hfault, met⟩
        · exact Or.inl (by simp only [Logged.map, same])
        · exact Or.inr ⟨cause, hfault, .written (by rcases here with rfl | rfl <;> rfl) met⟩
    · rw [met]
      exact Or.inr ⟨cause, hfault, .before (by rcases here with rfl | rfl <;> rfl)⟩

/-- The plan for a lock whose graph has been built is the usual one, or it is interrupted. -/
theorem ofGraph_interrupted (declared : List Declaration) (revision : Revision) (lock : Lock) :
    (ofGraph failing declared revision lock g).value = (ofGraph service declared revision lock g).value ∨
      ∃ cause, fault cause ∧
        Interrupted operation cause (ofGraph service declared revision lock g).value
          (ofGraph failing declared revision lock g).value := by
  unfold ofGraph
  cases revision.reference with
  | error e => exact Or.inl rfl
  | ok reference =>
    cases revision.desiredState with
    | inactive => exact Or.inl rfl
    | active =>
      cases declared.mapM Declaration.toDependency with
      | error e => exact Or.inl rfl
      | ok dependencies => exact activate_interrupted fails lock

/-- The plan for a lock is the usual one, or it is interrupted. -/
theorem make_interrupted (declared : List Declaration) (revision : Revision) (lock : Lock) :
    (make failing declared revision lock).value = (make service declared revision lock).value ∨
      ∃ cause, fault cause ∧ Interrupted operation cause (make service declared revision lock).value
        (make failing declared revision lock).value := by
  rcases fails.init (lock.packages.map Node.resolved) with same | ⟨here, cause, hfault, met⟩
  · cases init : service.init (lock.packages.map Node.resolved) with
    | error e =>
      rw [init] at same
      rw [make, make, same, init]
      exact Or.inl rfl
    | ok built =>
      rw [init] at same
      rw [make_eq_of_init init, make_eq_of_init same]
      exact ofGraph_interrupted fails declared revision lock
  · have unbuilt : make failing declared revision lock = .silent (.finish (.error (.graph cause))) := by
      rw [make, met]
    rw [unbuilt]
    exact Or.inr ⟨cause, hfault, .before (by rw [here]; rfl)⟩

end Plan

/-- An interrupted plan ends with the fault, unless the store does not let the write through to which both
plans come. Before the write nothing has been done, and after it the same as usual. -/
theorem run_interrupted {cause : GraphError} {usual plan : Plan}
    (interrupted : Plan.Interrupted operation cause usual plan) (store : LockStore (StateM σ)) (s : σ) :
    let free := (usual.run store).run s
    let ended := (plan.run store).run s
    ended.1.value = free.1.value ∧ ended.2 = free.2 ∨
      ended.1.value = .error (.graph cause) ∧
        ended.2 = if operation.precedesWrite then s else free.2 := by
  intro free ended
  cases interrupted with
  | before early =>
    rw [if_pos early]
    exact Or.inr ⟨rfl, rfl⟩
  | unwritten late =>
    rw [late]
    exact Or.inr ⟨rfl, rfl⟩
  | @written lock outcome interrupted late failed =>
    obtain ⟨hvalue, hstate⟩ := run_write store lock outcome s
    obtain ⟨hvalue', hstate'⟩ := run_write store lock interrupted s
    have same : ended.2 = free.2 := hstate'.trans hstate.symm
    rw [late]
    cases hupdate : ((store.update lock).run s).1.value with
    | ok _ =>
      rw [hupdate] at hvalue'
      exact Or.inr ⟨hvalue'.trans failed, same⟩
    | error refusal =>
      rw [hupdate] at hvalue hvalue'
      exact Or.inl ⟨hvalue'.trans hvalue.symm, same⟩

/-- With a graph that fails at one operation, over a store that keeps its lock, a resolution comes to what
it comes to with the other graph, or it ends with a fault. A fault before the write leaves the lock as it
was, and one after it leaves the lock that is left without the fault. -/
theorem resolve_failsAt {store : LockStore (StateM σ)} {stored : σ → Lock}
    (fails : failing.FailsAt service operation fault) (keeps : store.Keeps stored)
    (metadata : Metadata) (revision : Revision) (s : σ) :
    let free := (resolve service store metadata revision).run s
    let ended := (resolve failing store metadata revision).run s
    ended.1.value = free.1.value ∧ ended.2 = free.2 ∨
      ∃ cause, fault cause ∧ ended.1.value = .error (.graph cause) ∧
        stored ended.2 = if operation.precedesWrite then stored s else stored free.2 := by
  intro free ended
  cases known : metadata.dependsOn? with
  | none =>
    exact Or.inl (by simp only [free, ended, resolve, known, and_self])
  | some declared =>
    cases readable : (store.get.run s).1.value with
    | error e =>
      obtain ⟨hvalue, hstate⟩ := resolve_of_unreadable service store revision known readable
      obtain ⟨hvalue', hstate'⟩ := resolve_of_unreadable failing store revision known readable
      exact Or.inl ⟨hvalue'.trans hvalue.symm, hstate'.trans hstate.symm⟩
    | ok lock =>
      obtain ⟨hvalue, hstate⟩ := resolve_of_readable service store revision known readable
      obtain ⟨hvalue', hstate'⟩ := resolve_of_readable failing store revision known readable
      rcases Plan.make_interrupted fails declared revision lock with same | ⟨cause, hfault, interrupted⟩
      · rw [same] at hvalue' hstate'
        exact Or.inl ⟨hvalue'.trans hvalue.symm, hstate'.trans hstate.symm⟩
      · rcases run_interrupted interrupted store (store.get.run s).2 with ⟨value, state⟩ | ⟨value, state⟩
        · exact Or.inl ⟨hvalue'.trans (value.trans hvalue.symm), hstate'.trans (state.trans hstate.symm)⟩
        · refine Or.inr ⟨cause, hfault, hvalue'.trans value, ?_⟩
          rw [show ended.2 = _ from hstate'.trans state, show free.2 = _ from hstate]
          split
          · exact keeps.get_stored s
          · rfl

/-- With a graph of which one operation is made to fail, a resolution comes to what it comes to with the
graph itself, or it ends with the error for an affected identifier. A fault before the write leaves the lock
as it was, and one after it leaves the lock that is left without the fault. -/
theorem resolve_failing {store : LockStore (StateM σ)} {stored : σ → Lock}
    (loud : operation = .node → ∀ id other, error id ≠ .nodeNotFound other)
    (keeps : store.Keeps stored) (metadata : Metadata) (revision : Revision) (s : σ) :
    let free := (resolve service store metadata revision).run s
    let ended := (resolve (service.failing operation error affected) store metadata revision).run s
    ended.1.value = free.1.value ∧ ended.2 = free.2 ∨
      ∃ id, affected id = true ∧ ended.1.value = .error (.graph (error id)) ∧
        stored ended.2 = if operation.precedesWrite then stored s else stored free.2 := by
  intro free ended
  rcases resolve_failsAt (GraphService.failing_failsAt loud) keeps metadata revision s with
    same | ⟨_, ⟨id, hid, rfl⟩, hvalue, hstored⟩
  · exact Or.inl same
  · exact Or.inr ⟨id, hid, hvalue, hstored⟩

/-- Whether a resolution of a package must meet the fault: building the graph of the lock, attaching a package
that has no entry, and tracing the package cannot be avoided. -/
inductive Met (operation : GraphOperation) (affected : String → Bool) (lock : Lock) (source : String) :
    Prop where
  | init (here : operation = .init) (hit : affected "init" = true)
  | upsert (here : operation = .upsert) (absent : lock.contains source = false)
      (hit : affected source = true)
  | trace (here : operation = .trace) (hit : affected source = true)

/-- A check fails where the graph cannot trace the package. -/
theorem Plan.check_of_trace_error {cause : GraphError}
    (failed : service.trace g package.source = .error cause) :
    (Plan.check service g package).value = .error (.graph cause) := by
  have surveyed : Plan.survey service g package = .error cause := by
    rw [Plan.survey, failed]
    rfl
  rw [Plan.check, surveyed]
  rfl

/-- A package is attached by an upsert of its node. -/
theorem Plan.exists_upsert_of_attach {attached : Logged G}
    (h : Plan.attach service g package = .ok attached) :
    ∃ added, service.upsert added [.resolved package] = .ok attached := by
  unfold Plan.attach at h
  cases present : service.contains g package.source with
  | true =>
    rw [present] at h
    exact ⟨g, h⟩
  | false =>
    rw [present] at h
    cases hadd : service.addNode g (.resolved package) with
    | error e =>
      rw [hadd] at h
      cases h
    | ok added =>
      rw [hadd] at h
      exact ⟨added, h⟩

/-- A graph that is made to fail when it is built cannot be built. -/
theorem GraphService.failing_init (hit : affected "init" = true) (nodes : List Node) :
    (service.failing .init error affected).init nodes = .error (error "init") := by
  simp [GraphService.failing, hit]

/-- A graph that is made to fail at an upsert of the package does not take its node. -/
theorem GraphService.failing_upsert (hit : affected package.source = true) (g : G) :
    (service.failing .upsert error affected).upsert g [.resolved package] =
      .error (error package.source) := by
  simp [GraphService.failing, Node.id, hit]

/-- A graph that is made to fail at the trace of the package does not trace it. -/
theorem GraphService.failing_trace (hit : affected package.source = true) (g : G) :
    (service.failing .trace error affected).trace g package.source = .error (error package.source) := by
  simp [GraphService.failing, hit]

/-- A fault that is met leaves no verdict on an active revision. -/
theorem Ended.not_judged_of_met {store : LockStore (StateM σ)} {stored : σ → Lock} {s : σ}
    {metadata : Metadata} {revision : Revision} {reference : Reference} {outcome : Outcome} {after : Lock}
    (h : Ended (service.failing operation error affected) store stored metadata revision s outcome after)
    (active : revision.desiredState = .active) (named : revision.reference = .ok reference)
    (met : Met operation affected (stored s) reference.source) : ¬ Judged outcome := by
  intro judged
  cases h with
  | @checked package g _ describes grounds =>
    obtain ⟨_, named', source_eq, _⟩ := describes.reference
    rw [named] at named'
    cases named'
    rw [source_eq] at met
    cases met with
    | init here hit =>
      subst here
      cases grounds with
      | known init => cases (GraphService.failing_init hit _).symm.trans init
      | attached init => cases (GraphService.failing_init hit _).symm.trans init
    | upsert here absent hit =>
      subst here
      cases grounds with
      | known _ present =>
        rw [absent] at present
        cases present
      | attached _ _ attach =>
        obtain ⟨added, upsert⟩ := Plan.exists_upsert_of_attach attach
        cases (GraphService.failing_upsert hit added).symm.trans upsert
    | trace here hit =>
      subst here
      rw [Plan.check_of_trace_error (GraphService.failing_trace hit g)] at judged
      exact judged
  | absent inactive =>
    rw [active] at inactive
    cases inactive
  | removed inactive =>
    rw [active] at inactive
    cases inactive
  | _ => exact judged

/-- Where a resolution of an active revision must meet the fault, it comes to no verdict. -/
theorem resolve_failing_of_met {store : LockStore (StateM σ)} {stored : σ → Lock} {s : σ}
    {revision : Revision} {reference : Reference} (keeps : store.Keeps stored) (metadata : Metadata)
    (active : revision.desiredState = .active) (named : revision.reference = .ok reference)
    (met : Met operation affected (stored s) reference.source) :
    ¬ Judged
      ((resolve (service.failing operation error affected) store metadata revision).run s).1.value :=
  (resolve_ended keeps _ metadata revision s).not_judged_of_met active named met

end Failing

end PackageLock
