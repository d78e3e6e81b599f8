import PackageLock.Proofs.Resolution.Endings
import PackageLock.Proofs.Resolution.Verdict
import PackageLock.Resolution.Fault

/-!
# Where graph errors come from

A resolution with any graph whatever fails with an error of the graph only if one of five operations
has raised it: building the graph of the lock, adding or updating the node of the package, tracing it, or
looking up one of its dependencies (`Ended.exists_raised`). The first three come before the write. So
whatever they raise leaves the stored lock as it was (`Ended.unchanged_of_raised`).
-/

set_option autoImplicit false

namespace PackageLock

variable {G : Type} {σ : Type}

/-- The error is raised by the operation when an active revision, or in the case of `init` any one, is
resolved against the lock. -/
inductive Raised (service : GraphService G) (metadata : Metadata) (revision : Revision) (lock : Lock) :
    GraphOperation → GraphError → Prop where
  | init {cause : GraphError}
      (failed : service.init (lock.packages.map Node.resolved) = .error cause) :
      Raised service metadata revision lock .init cause
  | addNode {package : Package} {built : Logged (G × List Node)} {cause : GraphError}
      (active : revision.desiredState = .active) (describes : Describes metadata revision package)
      (init : service.init (lock.packages.map Node.resolved) = .ok built)
      (absent : lock.contains package.source = false)
      (fresh : service.contains built.value.1 package.source = false)
      (failed : service.addNode built.value.1 (.resolved package) = .error cause) :
      Raised service metadata revision lock .addNode cause
  | upsert {package : Package} {built : Logged (G × List Node)} {g : G} {cause : GraphError}
      (active : revision.desiredState = .active) (describes : Describes metadata revision package)
      (init : service.init (lock.packages.map Node.resolved) = .ok built)
      (absent : lock.contains package.source = false)
      (added : service.contains built.value.1 package.source = true ∧ g = built.value.1 ∨
        service.contains built.value.1 package.source = false ∧
          service.addNode built.value.1 (.resolved package) = .ok g)
      (failed : service.upsert g [.resolved package] = .error cause) :
      Raised service metadata revision lock .upsert cause
  | trace {package : Package} {g : G} {cause : GraphError}
      (active : revision.desiredState = .active) (describes : Describes metadata revision package)
      (grounds : Grounds service lock package g)
      (failed : service.trace g package.source = .error cause) :
      Raised service metadata revision lock .trace cause
  | node {package : Package} {g : G} {tree : List Node} {dependency : Dependency} {cause : GraphError}
      (active : revision.desiredState = .active) (describes : Describes metadata revision package)
      (grounds : Grounds service lock package g)
      (traced : service.trace g package.source = .ok tree)
      (asked : dependency ∈ package.dependencies)
      (failed : service.node g dependency.package = .error cause) :
      Raised service metadata revision lock .node cause

namespace Plan

variable {service : GraphService G} {g : G} {package : Package} {cause : GraphError}

/-! ## Errors of the single steps -/

/-- Attaching a package fails with what adding or updating its node raises. -/
theorem attach_eq_error_iff :
    attach service g package = .error cause ↔
      service.contains g package.source = false ∧
          service.addNode g (.resolved package) = .error cause ∨
        ∃ added, (service.contains g package.source = true ∧ added = g ∨
            service.contains g package.source = false ∧
              service.addNode g (.resolved package) = .ok added) ∧
          service.upsert added [.resolved package] = .error cause := by
  unfold attach
  cases present : service.contains g package.source with
  | true =>
    simp only [if_true, pure_bind]
    constructor
    · intro h
      exact Or.inr ⟨g, Or.inl ⟨trivial, rfl⟩, h⟩
    · rintro (⟨habsent, _⟩ | ⟨added, ⟨_, rfl⟩ | ⟨habsent, _⟩, h⟩)
      · cases habsent
      · exact h
      · cases habsent
  | false =>
    simp only [Bool.false_eq_true, if_false]
    cases hadd : service.addNode g (.resolved package) with
    | error e =>
      constructor
      · intro h
        cases h
        exact Or.inl ⟨trivial, rfl⟩
      · rintro (⟨_, h⟩ | ⟨added, ⟨hpresent, _⟩ | ⟨_, h⟩, _⟩)
        · cases h
          rfl
        · cases hpresent
        · cases h
    | ok added =>
      constructor
      · intro h
        exact Or.inr ⟨added, Or.inr ⟨trivial, rfl⟩, h⟩
      · rintro (⟨_, h⟩ | ⟨other, ⟨hpresent, _⟩ | ⟨_, h⟩, hupsert⟩)
        · cases h
        · cases hpresent
        · cases h
          exact hupsert

/-- A look-up fails only with what the graph raises for one of the packages. -/
theorem lookUp_eq_error {ids : List String} (h : lookUp service g ids = .error cause) :
    ∃ id ∈ ids, service.node g id = .error cause := by
  induction ids with
  | nil => cases h
  | cons id ids ih =>
    have hrest (hids : lookUp service g ids = .error cause) :
        ∃ x ∈ id :: ids, service.node g x = .error cause := by
      obtain ⟨x, hx, hnode⟩ := ih hids
      exact ⟨x, List.mem_cons_of_mem id hx, hnode⟩
    rw [lookUp] at h
    cases hnode : service.node g id with
    | ok node =>
      rw [hnode] at h
      cases hids : lookUp service g ids with
      | error e =>
        rw [hids] at h
        cases h
        exact hrest hids
      | ok found =>
        rw [hids] at h
        simp only [bind, Except.bind, pure, Except.pure] at h
        split at h <;> cases h
    | error e =>
      rw [hnode] at h
      cases e with
      | nodeNotFound other =>
        -- not to be found is no failure, the look-up goes on
        cases hids : lookUp service g ids with
        | error e =>
          rw [hids] at h
          cases h
          exact hrest hids
        | ok found =>
          rw [hids] at h
          cases h
      | _ =>
        cases h
        exact ⟨id, List.mem_cons_self, hnode⟩

/-- A survey fails only with what the graph raises when it traces the package, or for one of the
dependencies. -/
theorem survey_eq_error (h : survey service g package = .error cause) :
    service.trace g package.source = .error cause ∨
      ∃ tree, service.trace g package.source = .ok tree ∧
        ∃ dependency ∈ package.dependencies, service.node g dependency.package = .error cause := by
  unfold survey at h
  cases htrace : service.trace g package.source with
  | error e =>
    rw [htrace] at h
    cases h
    exact Or.inl rfl
  | ok tree =>
    rw [htrace] at h
    cases hlook : lookUp service g (unreached package tree) with
    | error e =>
      simp only [bind, Except.bind, hlook] at h
      cases h
      obtain ⟨id, hid, hnode⟩ := lookUp_eq_error hlook
      obtain ⟨⟨dependency, hdependency, rfl⟩, _, _⟩ := mem_unreached.mp hid
      exact Or.inr ⟨tree, rfl, dependency, hdependency, hnode⟩
    | ok found =>
      simp only [bind, Except.bind, hlook] at h
      cases h

/-- A survey that succeeds has traced the package. -/
theorem exists_trace_of_survey {found : List String × List String}
    (h : survey service g package = .ok found) :
    ∃ tree, service.trace g package.source = .ok tree := by
  unfold survey at h
  cases htrace : service.trace g package.source with
  | error e =>
    rw [htrace] at h
    cases h
  | ok tree => exact ⟨tree, rfl⟩

/-- A version is not told only if the graph raises an error. -/
theorem installedVersion_eq_error {id : String}
    (h : installedVersion service g id = .error cause) : service.node g id = .error cause := by
  unfold installedVersion at h
  cases hnode : service.node g id with
  | ok node =>
    rw [hnode] at h
    cases h
  | error e =>
    rw [hnode] at h
    cases e with
    | nodeNotFound other => cases h
    | _ =>
      cases h
      rfl

/-- Judging dependencies fails only with what the graph raises for one of them. -/
theorem violated_eq_error {source : String} {dependencies : List Dependency}
    (h : (violated service g source dependencies).value = .error cause) :
    ∃ dependency ∈ dependencies, service.node g dependency.package = .error cause := by
  induction dependencies with
  | nil => cases h
  | cons dependency rest ih =>
    have hrest (hvalue : (violated service g source rest).value = .error cause) :
        ∃ other ∈ dependency :: rest, service.node g other.package = .error cause := by
      obtain ⟨other, hother, hnode⟩ := ih hvalue
      exact ⟨other, List.mem_cons_of_mem dependency hother, hnode⟩
    rw [violated] at h
    cases hconstraint : dependency.constraint with
    | none =>
      rw [hconstraint] at h
      exact hrest h
    | some constraint =>
      rw [hconstraint] at h
      cases hversion : installedVersion service g dependency.package with
      | error e =>
        rw [hversion] at h
        cases h
        exact ⟨dependency, List.mem_cons_self, installedVersion_eq_error hversion⟩
      | ok installed =>
        rw [hversion] at h
        cases hvalue : (violated service g source rest).value with
        | error e =>
          simp only [Logged.andThen, Logged.after, Logged.map, hvalue, Except.map] at h
          cases h
          exact hrest hvalue
        | ok ids =>
          simp only [Logged.andThen, Logged.after, Logged.map, hvalue, Except.map] at h
          cases h

/-- A check fails with an error of the graph only if the graph raises it when it traces the package, or
for one of the dependencies. -/
theorem check_eq_graph_error (h : (check service g package).value = .error (.graph cause)) :
    service.trace g package.source = .error cause ∨
      ∃ tree, service.trace g package.source = .ok tree ∧
        ∃ dependency ∈ package.dependencies, service.node g dependency.package = .error cause := by
  unfold check at h
  cases hsurvey : survey service g package with
  | error e =>
    rw [hsurvey] at h
    cases h
    exact survey_eq_error hsurvey
  | ok found =>
    obtain ⟨tree, htrace⟩ := exists_trace_of_survey hsurvey
    obtain ⟨installed, missing⟩ := found
    rw [hsurvey] at h
    refine Or.inr ⟨tree, htrace, ?_⟩
    cases missing with
    | cons id rest => cases h
    | nil =>
      simp only [List.isEmpty_nil, if_true, Logged.map] at h
      cases hviolated : (violated service g package.source package.dependencies).value with
      | error e =>
        rw [hviolated] at h
        cases h
        exact violated_eq_error hviolated
      | ok ids =>
        rw [hviolated] at h
        simp only at h
        split at h <;> cases h

/-- A check comes to a verdict or fails with an error of the graph. -/
theorem check_judged_or_graph (service : GraphService G) (g : G) (package : Package) :
    Judged (check service g package).value ∨
      ∃ cause, (check service g package).value = .error (.graph cause) := by
  unfold check
  cases survey service g package with
  | error e => exact Or.inr ⟨e, rfl⟩
  | ok found =>
    obtain ⟨installed, missing⟩ := found
    cases missing with
    | cons id rest => exact Or.inl trivial
    | nil =>
      simp only [List.isEmpty_nil, if_true, Logged.map]
      cases (violated service g package.source package.dependencies).value with
      | error e => exact Or.inr ⟨e, rfl⟩
      | ok ids =>
        left
        simp only
        split <;> trivial

end Plan

/-! ## Errors of a resolution -/

section Endings

variable {service : GraphService G} {store : LockStore (StateM σ)} {stored : σ → Lock}
  {metadata : Metadata} {revision : Revision} {s : σ} {outcome : Outcome} {after : Lock}
  {cause : GraphError}

/-- Each graph error with which a resolution ends is raised by one of the operations. -/
theorem Ended.exists_raised (h : Ended service store stored metadata revision s outcome after)
    (failed : outcome = .error (.graph cause)) :
    ∃ operation, Raised service metadata revision (stored s) operation cause := by
  cases h with
  | unbuilt init =>
    cases failed
    exact ⟨.init, Raised.init init⟩
  | unattached active describes init absent attach =>
    cases failed
    rcases Plan.attach_eq_error_iff.mp attach with ⟨fresh, hadd⟩ | ⟨g, added, hupsert⟩
    · exact ⟨.addNode, Raised.addNode active describes init absent fresh hadd⟩
    · exact ⟨.upsert, Raised.upsert active describes init absent added hupsert⟩
  | checked active describes grounds =>
    rcases Plan.check_eq_graph_error failed with htrace | ⟨tree, htrace, dependency, asked, hnode⟩
    · exact ⟨.trace, Raised.trace active describes grounds htrace⟩
    · exact ⟨.node, Raised.node active describes grounds htrace asked hnode⟩
  | _ => cases failed

/-- An error of attaching a package is one of adding or updating its node. -/
theorem Raised.attach_eq_error {operation : GraphOperation} {lock : Lock}
    (h : Raised service metadata revision lock operation cause)
    (attaching : operation = .addNode ∨ operation = .upsert) :
    ∃ package built, revision.desiredState = .active ∧ Describes metadata revision package ∧
      service.init (lock.packages.map Node.resolved) = .ok built ∧
      lock.contains package.source = false ∧
      Plan.attach service built.value.1 package = .error cause := by
  cases h with
  | addNode active describes init absent fresh failed =>
    exact ⟨_, _, active, describes, init, absent,
      Plan.attach_eq_error_iff.mpr (Or.inl ⟨fresh, failed⟩)⟩
  | upsert active describes init absent added failed =>
    exact ⟨_, _, active, describes, init, absent,
      Plan.attach_eq_error_iff.mpr (Or.inr ⟨_, added, failed⟩)⟩
  | _ => rcases attaching with h | h <;> cases h

/-- What is raised before the write leaves the lock as it was. -/
theorem Ended.unchanged_of_raised {operation : GraphOperation}
    (h : Ended service store stored metadata revision s outcome after)
    (raised : Raised service metadata revision (stored s) operation cause)
    (before : operation = .init ∨ operation = .addNode ∨ operation = .upsert) :
    after = stored s := by
  rcases before with rfl | attaching
  · cases raised with
    | init failed =>
      cases h with
      | removed _ _ init =>
        rw [failed] at init
        cases init
      | checked _ _ grounds =>
        cases grounds with
        | known init =>
          rw [failed] at init
          cases init
        | attached init =>
          rw [failed] at init
          cases init
      | _ => rfl
  · obtain ⟨package, built, active, describes, init, absent, failed⟩ := raised.attach_eq_error attaching
    cases h with
    | removed inactive =>
      rw [active] at inactive
      cases inactive
    | checked _ describes' grounds =>
      have hsame := describes'.unique describes
      subst hsame
      cases grounds with
      | known _ present =>
        rw [absent] at present
        cases present
      | attached init' _ attach =>
        rw [init] at init'
        cases init'
        rw [failed] at attach
        cases attach
    | _ => rfl

end Endings

end PackageLock
