import PackageLock.Proofs.Resolution.Course
import PackageLock.Proofs.Resolution.Faults
import PackageLock.Proofs.Store.Interleaving

/-!
# Resolutions side by side

Clients that resolve requests against one lock in memory, their calls in any order, do no more than
those of them whose writes are accepted would do one after the other. The lock has a revision that counts
the accepted writes, so a write is accepted only if there has been none since the client has read, and
then the client has planned for the lock that is stored. At every moment the lock is the one of the
sequential run, and each client stands where its calls have brought it (`Serialised`); a turn keeps this
(`Serialised.step`). Main statement: `run_serialisable`.
-/

set_option autoImplicit false

namespace PackageLock

open Turn (Absent writers)

variable {ι : Type} {requests : ι → Request} {lock : Lock} {i : ι}

/-! ## One after the other -/

/-- The lock that is left if the clients whose writes have been accepted resolve their requests one after
the other, in the order of the writes. -/
def sequentially (requests : ι → Request) (lock : Lock) (turns : List (Turn ι)) : Lock :=
  Request.runAll LockStore.memory ((writers turns).map requests) lock

/-- Turns without an accepted write leave the lock of the sequential course. -/
theorem sequentially_append_of_writers_eq {earlier later : List (Turn ι)}
    (none : writers later = []) :
    sequentially requests lock (earlier ++ later) = sequentially requests lock earlier := by
  rw [sequentially, Turn.writers_append, none, List.append_nil]
  rfl

/-- An accepted write is the next request in the sequential course. -/
theorem sequentially_append_accepted (turns : List (Turn ι)) (i : ι) :
    sequentially requests lock (turns ++ [.accepted i]) =
      (((requests i).run LockStore.memory).run (sequentially requests lock turns)).2 := by
  simp [sequentially, Request.runAll]

/-! ## How far a client has come -/

/-- How far a client has come by the calls that have been made: it has made none, or it has read, or it
has read and written. What it read is the lock that the accepted writes up to then have left. If its
write has been accepted, no other has come between. -/
inductive Standing (requests : ι → Request) (lock : Lock) (i : ι) :
    List (Turn ι) → Process (Logged Outcome) → Prop where
  | ready {turns : List (Turn ι)} (before : Absent i turns) :
      Standing requests lock i turns ((requests i).run Process.store)
  | informed {earlier later : List (Turn ι)}
      {next : Logged (Except StoreError Lock) → Process (Logged Outcome)}
      (before : Absent i earlier) (since : Absent i later)
      (start : (requests i).run Process.store = .get next) :
      Standing requests lock i (earlier ++ .read i :: later)
        (next (.silent (.ok (sequentially requests lock earlier))))
  | accepted {earlier between later : List (Turn ι)} (before : Absent i earlier)
      (meanwhile : Absent i between) (since : Absent i later) (undisturbed : writers between = []) :
      Standing requests lock i (earlier ++ .read i :: (between ++ .accepted i :: later))
        (.done (((requests i).run LockStore.memory).run (sequentially requests lock earlier)).1)
  | refused {earlier between later : List (Turn ι)} {events : List Event} (before : Absent i earlier)
      (meanwhile : Absent i between) (since : Absent i later) (overtaken : writers between ≠ []) :
      Standing requests lock i (earlier ++ .read i :: (between ++ .refused i :: later))
        (.done ⟨.error (.store (.conflict (sequentially requests lock earlier).revision
          (sequentially requests lock (earlier ++ .read i :: between)).revision)), events⟩)

/-- A call of another client leaves a client where it stands. -/
theorem Standing.append {turns : List (Turn ι)} {process : Process (Logged Outcome)}
    (h : Standing requests lock i turns process) {turn : Turn ι} (other : turn.client ≠ i) :
    Standing requests lock i (turns ++ [turn]) process := by
  have absent : Absent i [turn] := by
    intro turn' hmem
    rw [List.mem_singleton.mp hmem]
    exact other
  cases h with
  | ready before => exact Standing.ready (before.append absent)
  | @informed earlier later next before since start =>
    rw [List.append_assoc, List.cons_append]
    exact Standing.informed before (since.append absent) start
  | @accepted earlier between later before meanwhile since undisturbed =>
    rw [List.append_assoc, List.cons_append, List.append_assoc, List.cons_append]
    exact Standing.accepted before meanwhile (since.append absent) undisturbed
  | @refused earlier between later events before meanwhile since overtaken =>
    rw [List.append_assoc, List.cons_append, List.append_assoc, List.cons_append]
    exact Standing.refused before meanwhile (since.append absent) overtaken

/-! ## The invariant -/

/-- The lock is the one of the sequential run, its revision counts the accepted writes at every moment,
and each client stands where its calls have brought it. -/
structure Serialised (requests : ι → Request) (lock : Lock) (sys : System ι (Logged Outcome)) :
    Prop where
  stored_eq : sys.stored = sequentially requests lock sys.history
  revision_eq : ∀ turns, turns <+: sys.history →
    (sequentially requests lock turns).revision = lock.revision + (writers turns).length
  standing : ∀ i, Standing requests lock i sys.history (sys.clients i)

namespace Serialised

variable {sys : System ι (Logged Outcome)}

/-- Before the first turn the work is serialised. -/
theorem start (requests : ι → Request) (lock : Lock) :
    Serialised requests lock (.start (fun i => (requests i).run Process.store) lock) where
  stored_eq := rfl
  revision_eq turns h := by
    rw [List.prefix_nil.mp h]
    rfl
  standing i := Standing.ready (Turn.absent_nil i)

/-- Between two moments of equal revision no write has been accepted. -/
theorem writers_eq_nil_iff (h : Serialised requests lock sys) {earlier later : List (Turn ι)}
    (hhistory : sys.history = earlier ++ later) :
    writers later = [] ↔ sys.stored.revision = (sequentially requests lock earlier).revision := by
  have hnow := h.revision_eq sys.history List.prefix_rfl
  have hthen := h.revision_eq earlier ⟨later, hhistory.symm⟩
  rw [h.stored_eq, hnow, hthen, hhistory, Turn.writers_append, List.length_append,
    ← List.length_eq_zero_iff]
  omega

variable [DecidableEq ι]

/-- One more turn keeps the invariant if it is right for the lock and for the client that takes it. -/
theorem turn (h : Serialised requests lock sys) (turn : Turn ι) {stored : Lock}
    {process : Process (Logged Outcome)}
    (stored_eq : stored = sequentially requests lock (sys.history ++ [turn]))
    (revision_eq : stored.revision = sys.stored.revision + (writers [turn]).length)
    (standing : Standing requests lock turn.client (sys.history ++ [turn]) process) :
    Serialised requests lock
      ⟨stored, Function.update sys.clients turn.client process, sys.history ++ [turn]⟩ where
  stored_eq := stored_eq
  revision_eq turns hprefix := by
    rcases List.prefix_concat_iff.mp hprefix with rfl | hprefix
    · rw [← stored_eq, revision_eq, h.stored_eq, h.revision_eq sys.history List.prefix_rfl,
        Turn.writers_append, List.length_append, Nat.add_assoc]
    · exact h.revision_eq turns hprefix
  standing j := by
    by_cases same : j = turn.client
    · subst same
      simpa using standing
    · simpa [Function.update_of_ne same] using (h.standing j).append (Ne.symm same)

/-- A client that has not begun keeps the work serialised with its first turn. -/
theorem step_of_ready (h : Serialised requests lock sys) (before : Absent i sys.history)
    (client : sys.clients i = (requests i).run Process.store) :
    Serialised requests lock (sys.step i) := by
  have course := (requests i).run_course
  generalize start : (requests i).run Process.store = process at client course
  cases course with
  | done result =>
    rw [System.step_of_done client]
    exact h
  | @get next _ =>
    have unread : writers [Turn.read i] = [] := rfl
    have standing : Standing requests lock i (sys.history ++ [.read i])
        (next (.silent (.ok (sequentially requests lock sys.history)))) :=
      Standing.informed before (Turn.absent_nil i) start
    rw [System.step_of_get client, h.stored_eq]
    refine h.turn (.read i) (sequentially_append_of_writers_eq unread).symm ?_ standing
    rw [unread, h.stored_eq]
    rfl

/-- A write that comes before any other since the client has read is accepted: the lock is the one for
which the client has planned. -/
theorem step_of_current (h : Serialised requests lock sys) {earlier later : List (Turn ι)}
    {written : Lock} {next : Logged (Except StoreError Unit) → Process (Logged Outcome)}
    {result : Logged Outcome} (before : Absent i earlier) (since : Absent i later)
    (hhistory : sys.history = earlier ++ .read i :: later)
    (client : sys.clients i = .update written next) (accepted : next (.silent (.ok ())) = .done result)
    (hrun : ((requests i).run LockStore.memory).run (sequentially requests lock earlier) =
      (result, written.next))
    (current : sys.stored.revision = written.revision) (undisturbed : writers later = []) :
    Serialised requests lock (sys.step i) := by
  have hstored : sys.stored = sequentially requests lock earlier := by
    rw [h.stored_eq, hhistory]
    exact sequentially_append_of_writers_eq undisturbed
  have standing : Standing requests lock i (sys.history ++ [.accepted i]) (.done result) := by
    have hresult : result = (((requests i).run LockStore.memory).run
      (sequentially requests lock earlier)).1 := congrArg Prod.fst hrun.symm
    rw [hhistory, List.append_assoc, List.cons_append, hresult]
    exact Standing.accepted before since (Turn.absent_nil i) undisturbed
  rw [System.step_of_update client current, accepted]
  refine h.turn (.accepted i) ?_ ?_ standing
  · rw [sequentially_append_accepted, ← h.stored_eq, hstored, hrun]
  · rw [current]
    rfl

/-- A write that comes after another one since the client has read is refused. -/
theorem step_of_stale (h : Serialised requests lock sys) {earlier later : List (Turn ι)}
    {written : Lock} {next : Logged (Except StoreError Unit) → Process (Logged Outcome)}
    (before : Absent i earlier) (since : Absent i later)
    (hhistory : sys.history = earlier ++ .read i :: later)
    (client : sys.clients i = .update written next)
    (revision_eq : written.revision = (sequentially requests lock earlier).revision)
    (refused : ∀ cause, ∃ events, next (.silent (.error cause)) =
      .done ⟨.error (.store cause), events⟩)
    (stale : sys.stored.revision ≠ written.revision) (overtaken : writers later ≠ []) :
    Serialised requests lock (sys.step i) := by
  obtain ⟨events, hnext⟩ := refused (.conflict written.revision sys.stored.revision)
  have standing : Standing requests lock i (sys.history ++ [.refused i])
      (.done ⟨.error (.store (.conflict written.revision sys.stored.revision)), events⟩) := by
    rw [revision_eq, h.stored_eq, hhistory, List.append_assoc, List.cons_append]
    exact Standing.refused before since (Turn.absent_nil i) overtaken
  have unwritten : writers [Turn.refused i] = [] := rfl
  rw [System.step_of_update_stale client stale, hnext]
  refine h.turn (.refused i) ?_ ?_ standing
  · rw [sequentially_append_of_writers_eq unwritten, h.stored_eq]
  · rw [unwritten]
    rfl

/-- A client that has read has its result or writes. -/
theorem step_of_informed (h : Serialised requests lock sys) {earlier later : List (Turn ι)}
    {next : Logged (Except StoreError Lock) → Process (Logged Outcome)} (before : Absent i earlier)
    (since : Absent i later) (start : (requests i).run Process.store = .get next)
    (hhistory : sys.history = earlier ++ .read i :: later)
    (client : sys.clients i = next (.silent (.ok (sequentially requests lock earlier)))) :
    Serialised requests lock (sys.step i) := by
  have hwriters := h.writers_eq_nil_iff hhistory
  rw [Turn.writers_read_cons] at hwriters
  have hrun := run_memory_of_get start (sequentially requests lock earlier)
  have course := (requests i).run_course
  rw [start] at course
  cases course with
  | get informed =>
    have remainder := informed (sequentially requests lock earlier)
    generalize next (.silent (.ok (sequentially requests lock earlier))) = process at *
    cases remainder with
    | done result =>
      rw [System.step_of_done client]
      exact h
    | @update written _ _ revision_eq accepted refused =>
      rw [run_update_memory revision_eq accepted] at hrun
      -- the revision counts the accepted writes, so it tells whether one has come between
      by_cases current : sys.stored.revision = written.revision
      · exact h.step_of_current before since hhistory client accepted hrun current
          (hwriters.mpr (current.trans revision_eq))
      · exact h.step_of_stale before since hhistory client revision_eq refused current fun none =>
          current ((hwriters.mp none).trans revision_eq.symm)

/-- Whoever takes a turn, the invariant is kept. -/
theorem step (h : Serialised requests lock sys) (i : ι) : Serialised requests lock (sys.step i) := by
  have standing := h.standing i
  generalize client : sys.clients i = process at standing
  generalize hhistory : sys.history = turns at standing
  cases standing with
  | ready before => exact h.step_of_ready (hhistory ▸ before) client
  | informed before since start => exact h.step_of_informed before since start hhistory client
  | accepted =>
    rw [System.step_of_done client]
    exact h
  | refused =>
    rw [System.step_of_done client]
    exact h

/-- Every schedule keeps the work serialised. -/
theorem run (h : Serialised requests lock sys) (schedule : List ι) :
    Serialised requests lock (sys.run schedule) := by
  induction schedule generalizing sys with
  | nil => exact h
  | cons i schedule ih => exact ih (h.step i)

end Serialised

/-! ## What clients come to -/

/-- Where the store serves, a resolution does not fail to write. -/
theorem Ended.ne_store {G : Type} {σ : Type} {service : GraphService G} {store : LockStore (StateM σ)}
    {stored : σ → Lock} {metadata : Metadata} {revision : Revision} {s : σ} {outcome : Outcome}
    {after : Lock} (serves : store.Serves stored)
    (h : Ended service store stored metadata revision s outcome after) (cause : StoreError) :
    outcome ≠ .error (.store cause) := by
  intro failed
  cases h with
  | refused revision_eq refused =>
    rw [← serves.get_stored s] at revision_eq
    rw [serves.accepts _ _ revision_eq] at refused
    cases refused
  | @checked package g _ _ _ =>
    rcases Plan.check_judged_or_graph service g package with judged | ⟨cause, hgraph⟩
    · rw [failed] at judged
      cases judged
    · rw [hgraph] at failed
      cases failed
  | _ => cases failed

/-- In memory, a resolution by itself has no error of the store. -/
theorem run_memory_ne_store (request : Request) (lock : Lock) (cause : StoreError) :
    ((request.run LockStore.memory).run lock).1.value ≠ .error (.store cause) :=
  (resolve_ended LockStore.memory_serves.toKeeps Graph.service request.metadata request.revision
    lock).ne_store LockStore.memory_serves cause

namespace Standing

variable {turns : List (Turn ι)} {process : Process (Logged Outcome)}

/-- A client whose write has been accepted has the result of its resolution on the lock at that
moment. -/
theorem eq_done_of_accepted (h : Standing requests lock i turns process) {earlier later : List (Turn ι)}
    (hturns : turns = earlier ++ .accepted i :: later) :
    process =
      .done (((requests i).run LockStore.memory).run (sequentially requests lock earlier)).1 := by
  have hmem : .accepted i ∈ turns := by simp [hturns]
  cases h with
  | ready before => exact absurd hmem (before.not_mem (.accepted i) rfl)
  | informed before since =>
    simp [before.not_mem (.accepted i) rfl, since.not_mem (.accepted i) rfl] at hmem
  | @accepted start between rest before meanwhile since undisturbed =>
    -- the one accepted write of the client splits the history in one way only
    have hbefore : .accepted i ∉ start ++ .read i :: between := by
      simp [before.not_mem (.accepted i) rfl, meanwhile.not_mem (.accepted i) rfl]
    have hsplit : (start ++ .read i :: between) ++ .accepted i :: rest =
        earlier ++ .accepted i :: later := by simpa using hturns
    obtain ⟨rfl, -, -⟩ :=
      (List.append_cons_inj_of_notMem hbefore (since.not_mem (.accepted i) rfl)).mp hsplit
    have undisturbed : writers (.read i :: between) = [] := undisturbed
    rw [sequentially_append_of_writers_eq undisturbed]
  | refused before meanwhile since =>
    simp [before.not_mem (.accepted i) rfl, meanwhile.not_mem (.accepted i) rfl,
      since.not_mem (.accepted i) rfl] at hmem

/-- A client that has come to its result without a write has the result of its resolution on the lock at
the moment at which it has read, and on any lock if it has not read. -/
theorem run_eq_of_done {result : Logged Outcome} (h : Standing requests lock i turns (.done result))
    (unaccepted : .accepted i ∉ turns) (unrefused : .refused i ∉ turns) :
    (∀ earlier later, turns = earlier ++ .read i :: later →
      ((requests i).run LockStore.memory).run (sequentially requests lock earlier) =
        (result, sequentially requests lock earlier)) ∧
    (.read i ∉ turns → ∀ other,
      ((requests i).run LockStore.memory).run other = (result, other)) := by
  generalize hdone : Process.done result = process at h
  cases h with
  | ready before =>
    have hrun := run_memory_of_done hdone.symm
    exact ⟨fun earlier _ _ => hrun (sequentially requests lock earlier), fun _ => hrun⟩
  | @informed start rest next before since hstart =>
    refine ⟨fun earlier later hturns => ?_, fun unread => absurd (by simp) unread⟩
    obtain ⟨rfl, -, -⟩ := (List.append_cons_inj_of_notMem (before.not_mem (.read i) rfl)
      (since.not_mem (.read i) rfl)).mp hturns
    rw [run_memory_of_get hstart, ← hdone]
    rfl
  | accepted => exact absurd (by simp) unaccepted
  | refused => exact absurd (by simp) unrefused

/-- A client whose write has been refused has come to a conflict. -/
theorem conflict_of_refused (h : Standing requests lock i turns process)
    (hmem : .refused i ∈ turns) :
    ∃ result, process = .done result ∧
      ∃ expected found, result.value = .error (.store (.conflict expected found)) := by
  cases h with
  | ready before => exact absurd hmem (before.not_mem (.refused i) rfl)
  | informed before since =>
    simp [before.not_mem (.refused i) rfl, since.not_mem (.refused i) rfl] at hmem
  | accepted before meanwhile since =>
    simp [before.not_mem (.refused i) rfl, meanwhile.not_mem (.refused i) rfl,
      since.not_mem (.refused i) rfl] at hmem
  | refused => exact ⟨_, rfl, _, _, rfl⟩

/-- A client has come to a conflict exactly if another one's write has been accepted between its two
calls. -/
theorem conflict_iff {result : Logged Outcome} (h : Standing requests lock i turns (.done result)) :
    (∃ expected found, result.value = .error (.store (.conflict expected found))) ↔
      ∃ earlier between later turn, turns = earlier ++ .read i :: (between ++ turn :: later) ∧
        (turn = .accepted i ∨ turn = .refused i) ∧ ∃ j, j ≠ i ∧ .accepted j ∈ between := by
  generalize hdone : Process.done result = process at h
  constructor
  · rintro ⟨expected, found, conflict⟩
    cases h with
    | ready before =>
      have hrun := run_memory_of_done hdone.symm lock
      exact absurd (by rw [hrun]; exact conflict) (run_memory_ne_store (requests i) lock _)
    | @informed start rest next before since hstart =>
      have hrun := run_memory_of_get hstart (sequentially requests lock start)
      rw [← hdone] at hrun
      exact absurd (by rw [hrun]; exact conflict) (run_memory_ne_store (requests i) _ _)
    | accepted =>
      cases hdone
      exact absurd conflict (run_memory_ne_store (requests i) _ _)
    | @refused start between rest events before meanwhile since overtaken =>
      obtain ⟨j, hj⟩ := List.exists_mem_of_ne_nil _ overtaken
      have hmem := Turn.mem_writers.mp hj
      have hne : j ≠ i := meanwhile _ hmem
      exact ⟨start, between, rest, _, rfl, Or.inr rfl, j, hne, hmem⟩
  · rintro ⟨earlier, between, later, turn, hturns, hturn, j, _, hmem⟩
    have hclient : turn.client = i := by rcases hturn with rfl | rfl <;> rfl
    cases h with
    | ready before => exact absurd (by simp [hturns]) (before.not_mem (.read i) rfl)
    | @informed start rest next before since _ =>
      have hne : turn ≠ .read i := by rcases hturn with rfl | rfl <;> exact nofun
      have hunwritten : turn ∉ start ++ .read i :: rest := by
        simp [before.not_mem turn hclient, since.not_mem turn hclient, hne]
      exact absurd (by simp [hturns]) hunwritten
    | @accepted start meantime rest before meanwhile since undisturbed =>
      -- the two calls of the client split the history in one way only
      have hunread : .read i ∉ meantime ++ .accepted i :: rest := by
        simp [meanwhile.not_mem (.read i) rfl, since.not_mem (.read i) rfl]
      obtain ⟨-, -, hrest⟩ :=
        (List.append_cons_inj_of_notMem (before.not_mem (.read i) rfl) hunread).mp hturns
      obtain ⟨rfl, -, -⟩ := (List.append_cons_inj_of_notMem (meanwhile.not_mem turn hclient)
        (since.not_mem turn hclient)).mp hrest
      have hwriter := Turn.mem_writers.mpr hmem
      rw [undisturbed] at hwriter
      exact absurd hwriter List.not_mem_nil
    | refused =>
      cases hdone
      exact ⟨_, _, rfl⟩

/-- No client has more than one write accepted. -/
theorem count_writers_le [DecidableEq ι] (h : Standing requests lock i turns process) :
    (writers turns).count i ≤ 1 := by
  have hcount {turns : List (Turn ι)} (absent : Absent i turns) : (writers turns).count i = 0 :=
    List.count_eq_zero_of_not_mem fun hmem => absent.not_mem (.accepted i) rfl (Turn.mem_writers.mp hmem)
  cases h with
  | ready before => simp [hcount before]
  | informed before since => simp [hcount before, hcount since]
  | accepted before meanwhile since => simp [hcount before, hcount meanwhile, hcount since]
  | refused before meanwhile since => simp [hcount before, hcount meanwhile, hcount since]

end Standing

/-! ## Every schedule -/

/-- Clients that resolve requests against one lock, in whatever order their calls are made. The lock is
the one that those whose writes have been accepted would leave one after the other, in the order of the
writes, and each client writes once at most. One whose write has been accepted has the result of its
resolution on the lock just before; one that has come to its result without a write has that of its
resolution on the lock as it has read it, on which this writes nothing, or on any lock if it has not read.
A client comes to a conflict exactly if the write of another has been accepted between its two calls, and
a write that is refused changes nothing. -/
theorem run_serialisable [DecidableEq ι] (requests : ι → Request) (lock : Lock) (schedule : List ι) :
    let sys := (System.start (fun i => (requests i).run Process.store) lock).run schedule
    let leftBy (turns : List (Turn ι)) : Lock :=
      Request.runAll LockStore.memory ((writers turns).map requests) lock
    sys.stored = leftBy sys.history ∧ (writers sys.history).Nodup ∧
    (∀ i earlier later, sys.history = earlier ++ .accepted i :: later →
      sys.clients i = .done (((requests i).run LockStore.memory).run (leftBy earlier)).1) ∧
    (∀ i result, sys.clients i = .done result →
      .accepted i ∉ sys.history → .refused i ∉ sys.history →
      (∀ earlier later, sys.history = earlier ++ .read i :: later →
        ((requests i).run LockStore.memory).run (leftBy earlier) = (result, leftBy earlier)) ∧
      (.read i ∉ sys.history → ∀ other,
        ((requests i).run LockStore.memory).run other = (result, other))) ∧
    (∀ i result, sys.clients i = .done result →
      ((∃ expected found, result.value = .error (.store (.conflict expected found))) ↔
        ∃ earlier between later turn, sys.history = earlier ++ .read i :: (between ++ turn :: later) ∧
          (turn = .accepted i ∨ turn = .refused i) ∧ ∃ j, j ≠ i ∧ .accepted j ∈ between)) ∧
    (∀ i, .refused i ∈ sys.history → ∃ result, sys.clients i = .done result ∧
      ∃ expected found, result.value = .error (.store (.conflict expected found))) ∧
    ∀ i, (sys.step i).history = sys.history ++ [.refused i] → (sys.step i).stored = sys.stored := by
  intro sys leftBy
  have h : Serialised requests lock sys := (Serialised.start requests lock).run schedule
  refine ⟨h.stored_eq, ?_, ?_, ?_, ?_, ?_, ?_⟩
  · exact List.nodup_iff_count_le_one.mpr fun i => (h.standing i).count_writers_le
  · intro i earlier later hhistory
    exact (h.standing i).eq_done_of_accepted hhistory
  · intro i result done unaccepted unrefused
    exact (done ▸ h.standing i).run_eq_of_done unaccepted unrefused
  · intro i result done
    exact (done ▸ h.standing i).conflict_iff
  · intro i refused
    exact (h.standing i).conflict_of_refused refused
  · intro i refused
    have hstep := (h.step i).stored_eq
    have unwritten : writers [Turn.refused i] = [] := rfl
    rw [refused, sequentially_append_of_writers_eq unwritten] at hstep
    exact hstep.trans h.stored_eq.symm

/-- Three clients read the same lock, two to take out an entry each and one that finds none to take out.
The second write is refused. -/
theorem run_serialisable_of_conflict :
    let lock : Lock := ⟨1, [⟨"a", "v1", []⟩, ⟨"b", "v1", []⟩]⟩
    let requests : Fin 3 → Request := fun i => ⟨.known .provider none [], ⟨["a", "b", "c"][i], .inactive⟩⟩
    let alone (i : Fin 3) := ((requests i).run LockStore.memory).run lock
    let sys := (System.start (fun i => (requests i).run Process.store) lock).run [0, 1, 2, 0, 1]
    sys.history = [.read 0, .read 1, .read 2, .accepted 0, .refused 1] ∧
      sys.stored = (alone 0).2 ∧ sys.clients 0 = .done (alone 0).1 ∧
      (∃ result, sys.clients 1 = .done result ∧
        ∃ expected found, result.value = .error (.store (.conflict expected found))) ∧
      ∃ result, sys.clients 2 = .done result ∧ alone 2 = (result, lock) := by
  intro lock requests alone sys
  have hhistory : sys.history = [.read 0, .read 1, .read 2, .accepted 0, .refused 1] := by
    decide +kernel
  obtain ⟨stored, _, accepted, unwritten, _, refused, _⟩ :=
    run_serialisable requests lock [0, 1, 2, 0, 1]
  refine ⟨hhistory, ?_, accepted 0 [.read 0, .read 1, .read 2] [.refused 1] hhistory,
    refused 1 ?_, ?_⟩
  · have hstored : sys.stored =
        Request.runAll LockStore.memory ((writers sys.history).map requests) lock := stored
    rw [hhistory] at hstored
    exact hstored
  · show .refused 1 ∈ sys.history
    rw [hhistory]
    decide
  · have ended : (sys.clients 2).result?.isSome = true := by decide +kernel
    obtain ⟨result, hresult⟩ := Option.isSome_iff_exists.mp ended
    have done := Process.result?_eq_some_iff.mp hresult
    have unaccepted : .accepted 2 ∉ sys.history := by
      rw [hhistory]
      decide
    have unrefused : .refused 2 ∉ sys.history := by
      rw [hhistory]
      decide
    obtain ⟨informed, _⟩ := unwritten 2 result done unaccepted unrefused
    exact ⟨result, done, informed [.read 0, .read 1] [.accepted 0, .refused 1] hhistory⟩

end PackageLock
