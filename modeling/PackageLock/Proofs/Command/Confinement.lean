import PackageLock.Proofs.Command.Files
import PackageLock.Proofs.Files.Grounded
import PackageLock.Proofs.Store.Replacement

/-!
# What the commands may touch

Command lines are run one after the other on a tree of files. Only a resolution changes a file, and only
the one to which its path of the lock leads afterwards; if it fails, it has registered an active package in
the lock that it had read. That lock is the one in the file, except where the path led nowhere before,
because a directory on the way to it was missing, and leads to a file that was there before once this
directory has been made. Main statement: `Run.confined_iff`.
-/

set_option autoImplicit false

namespace PackageLock

/-- One run of the program: its arguments, the command that they stand for, the files before and after it,
and what it shows. -/
structure Run where
  arguments : List String
  command : Command
  before : FileTree
  shown : Shown
  after : FileTree

/-- What the file at a place stands for as a lock. No file stands for the empty lock. -/
def LockAt (tree : FileTree) (place : Place) (stored : Lock) : Prop :=
  (tree.contents? place = none ∧ stored = Lock.empty) ∨
    ∃ text, tree.contents? place = some (.text text) ∧ Lock.parse text = .ok stored

namespace Run

/-- The runs of command lines, one after the other. A line that is not accepted does nothing. -/
def sequence (host : Host (StateM FileTree)) : List (List String) → FileTree → List Run
  | [], _ => []
  | arguments :: rest, tree =>
    match Command.parse (host.env "KEEL_LOCK") arguments with
    | .error _ => sequence host rest tree
    | .ok invocation =>
      let (shown, after) := (invocation.command.run host).run tree
      ⟨arguments, invocation.command, tree, shown, after⟩ :: sequence host rest after

/-- The files that runs leave, which begin with `tree`. -/
def filesAfter (runs : List Run) (tree : FileTree) : FileTree :=
  runs.foldl (fun _ run => run.after) tree

/-- The run changes, makes or removes the file at a place. -/
def Changed (run : Run) (place : Place) : Prop :=
  run.after.contents? place ≠ run.before.contents? place

/-- The run has failed after it has registered an active package that was not in `stored`, and `text` is
the lock with its entry. -/
inductive Registers (directory : String) (run : Run) (stored : Lock) (text : String) : Prop where
  | mk {metadataPath name source : String} {given : Option String} {json : Bool} {metadata : Metadata}
      {package : Package} {e : ResolveError}
      (command : run.command = .resolve metadataPath name false given json)
      (read : run.before.read (Path.join directory metadataPath) = .ok source)
      (parsed : Metadata.parse source = .ok metadata)
      (failed : run.shown.result = .error (.resolve e))
      (registered : Registered metadata ⟨name, .active⟩ stored e package)
      (rendered : (stored.add package).next.render? = some text)

/-- The run keeps to the lock. -/
structure Confined (directory : String) (env : String → Option String) (run : Run) : Prop where
  /-- A command that only shows something leaves all files and directories as they are. -/
  shows : run.command.resolves = false → run.after = run.before
  /-- Only the file to which the path of the lock leads is changed. -/
  leads : ∀ place, run.Changed place →
    ∃ path, LockPath directory env run.before run.arguments path ∧ run.after.locate path = .ok place
  /-- What is changed could be read as a lock. -/
  readable : ∀ place, run.Changed place → ∃ stored, LockAt run.before place stored
  /-- If the run fails nevertheless, a registration is all that has come to that lock. -/
  registers : ∀ place, run.Changed place → run.shown.exitCode = 1 → ∃ stored text,
    LockAt run.before place stored ∧ run.after.contents? place = some (.text text) ∧
      run.Registers directory stored text

/-- The path of the lock led nowhere before the run, as a directory on the way was missing. Now it leads to
a file that was there before, and the run has changed it: no lock, or a lock with a history of its own, while
the run has failed. -/
inductive Overwrites (directory : String) (env : String → Option String) (run : Run) : Prop where
  | mk {path : String} {place : Place} {contents : Contents}
      (lockPath : LockPath directory env run.before run.arguments path)
      (nowhere : run.before.locate path = .error .notFound)
      (leads : run.after.locate path = .ok place)
      (there : run.before.contents? place = some contents) (changed : run.Changed place)
      (wrong : (¬ ∃ stored, LockAt run.before place stored) ∨
        run.shown.exitCode = 1 ∧ ¬ LockAt run.before place Lock.empty)

variable {directory : String} {env : String → Option String} {tree : FileTree} {run : Run}
  {lines : List (List String)} {place : Place} {path text : String} {stored : Lock}

/-! ## Steps of a sequence -/

/-- A line that is accepted is run on the tree, and the lines after it on what it leaves. -/
theorem sequence_cons_of_accepted {arguments : List String} {invocation : Invocation}
    (accepted : Command.parse (env "KEEL_LOCK") arguments = .ok invocation) :
    let result := (invocation.command.run (Host.onTree directory env)).run tree
    sequence (Host.onTree directory env) (arguments :: lines) tree =
      ⟨arguments, invocation.command, tree, result.1, result.2⟩ ::
        sequence (Host.onTree directory env) lines result.2 := by
  intro result
  have hhost : (Host.onTree directory env).env "KEEL_LOCK" = env "KEEL_LOCK" := rfl
  rw [sequence, hhost, accepted]
  rfl

/-- A line that is refused leaves no run and changes nothing. -/
theorem sequence_cons_of_refused {arguments : List String} {usage : Usage}
    (refused : Command.parse (env "KEEL_LOCK") arguments = .error usage) :
    sequence (Host.onTree directory env) (arguments :: lines) tree =
      sequence (Host.onTree directory env) lines tree := by
  have hhost : (Host.onTree directory env).env "KEEL_LOCK" = env "KEEL_LOCK" := rfl
  rw [sequence, hhost, refused]

/-- A line that is accepted has its run in the sequence. -/
theorem mem_sequence_of_accepted {arguments : List String} {invocation : Invocation}
    (accepted : Command.parse (env "KEEL_LOCK") arguments = .ok invocation) :
    let result := (invocation.command.run (Host.onTree directory env)).run tree
    (⟨arguments, invocation.command, tree, result.1, result.2⟩ : Run) ∈
      sequence (Host.onTree directory env) (arguments :: lines) tree := by
  rw [sequence_cons_of_accepted accepted]
  exact List.mem_cons_self

/-- What every run of a sequence preserves holds before each of them and at the end, by induction on the
command lines. -/
theorem sequence_preserves {invariant : FileTree → Prop}
    (hstep : ∀ run ∈ sequence (Host.onTree directory env) lines tree,
      invariant run.before → invariant run.after) (h : invariant tree) :
    (∀ run ∈ sequence (Host.onTree directory env) lines tree, invariant run.before) ∧
      invariant (filesAfter (sequence (Host.onTree directory env) lines tree) tree) := by
  induction lines generalizing tree with
  | nil => exact ⟨by simp [sequence], h⟩
  | cons arguments rest ih =>
    cases hparse : Command.parse (env "KEEL_LOCK") arguments with
    | error usage =>
      rw [sequence_cons_of_refused hparse] at hstep ⊢
      exact ih hstep h
    | ok invocation =>
      rw [sequence_cons_of_accepted hparse] at hstep ⊢
      rw [List.forall_mem_cons] at hstep
      obtain ⟨hrest, hlast⟩ := ih hstep.2 (hstep.1 h)
      exact ⟨List.forall_mem_cons.mpr ⟨h, hrest⟩, hlast⟩

/-- Every run of a sequence is that of an accepted line, on the tree that it finds. -/
theorem of_mem_sequence (h : run ∈ sequence (Host.onTree directory env) lines tree) :
    ∃ invocation, Command.parse (env "KEEL_LOCK") run.arguments = .ok invocation ∧
      run.command = invocation.command ∧
      (run.command.run (Host.onTree directory env)).run run.before = (run.shown, run.after) := by
  induction lines generalizing tree with
  | nil => cases h
  | cons arguments rest ih =>
    unfold sequence at h
    split at h
    · exact ih h
    · rename_i invocation accepted
      obtain rfl | hrest := List.mem_cons.mp h
      · exact ⟨invocation, accepted, rfl, rfl⟩
      · exact ih hrest

/-- The run puts the next lock at a place. `stored` is the lock that it has read before. -/
structure Replaces (directory : String) (env : String → Option String) (run : Run) (path : String)
    (place : Place) (stored : Lock) (text : String) : Prop where
  lockPath : LockPath directory env run.before run.arguments path
  extends_after : run.before.Extends run.after
  grounded : run.before.Grounded → run.after.Grounded
  stands : (LockStore.lockOfFile path (run.before.read path)).value = .ok stored
  leads : run.after.locate path = .ok place
  led : ∀ found, run.before.locate path = .ok found → found = place
  self : run.after.contents? place = some (.text text)
  others : ∀ other ≠ place, run.after.contents? other = run.before.contents? other
  registers : run.shown.exitCode = 1 → run.Registers directory stored text

/-- A run that only shows something leaves the tree as it was. -/
theorem after_eq_before (h : run ∈ sequence (Host.onTree directory env) lines tree)
    (hshows : run.command.resolves = false) : run.after = run.before := by
  obtain ⟨-, -, -, hrun⟩ := of_mem_sequence h
  have hlooks : Looks (run.command.run (Host.onTree directory env)) := Command.looks_of_shows hshows
  have hafter := hlooks run.before
  rw [hrun] at hafter
  exact hafter

/-- Making directories changes the file at no place. -/
theorem not_changed_of_made (h : run.before.Made run.after) (place : Place) : ¬ run.Changed place :=
  fun hchanged => hchanged (h.onlyDirectories.contents place)

/-- A resolution that fails after its write has registered the package of the revision: the text written is
that of the lock with the new entry. -/
theorem registers_of_ended {metadataPath name source : String} {inactive : Bool}
    {given : Option String} {json : Bool} {metadata : Metadata} {written : Lock} {e : ResolveError}
    (command : run.command = .resolve metadataPath name inactive given json)
    (read : run.before.read (Path.join directory metadataPath) = .ok source)
    (parsed : Metadata.parse source = .ok metadata)
    (failed : run.shown.result = .error (.resolve e))
    (ended : Ended Graph.service LockStore.memory (fun lock => lock) metadata
      ⟨name, if inactive then .inactive else .active⟩ stored (.error e) written)
    (next : written.revision = stored.revision + 1) (rendered : written.render? = some text) :
    run.Registers directory stored text := by
  have hchanged : written ≠ stored := by
    rintro rfl
    omega
  obtain ⟨package, hregistered, rfl⟩ := ended.registered_of_error hchanged
  cases inactive with
  | false => exact ⟨command, read, parsed, failed, hregistered, rendered⟩
  | true => cases hregistered.active

/-- What has become of the lock file tells what the run has done. -/
theorem made_or_replaces_of_ending {metadataPath name source : String} {inactive : Bool}
    {given : Option String} {json : Bool} {metadata : Metadata} {ended : Logged Outcome}
    (lockPath : LockPath directory env run.before run.arguments path)
    (command : run.command = .resolve metadataPath name inactive given json)
    (read : run.before.read (Path.join directory metadataPath) = .ok source)
    (parsed : Metadata.parse source = .ok metadata)
    (shown : run.shown =
      Command.showOutcome ⟨name, if inactive then .inactive else .active⟩ json ended)
    (ending : FileEnding path metadata ⟨name, if inactive then .inactive else .active⟩ run.before
      ended.value run.after) :
    run.before.Made run.after ∨
      ∃ place stored text, run.Replaces directory env path place stored text := by
  have hresult := congrArg Shown.result shown
  rw [Command.showOutcome_result] at hresult
  generalize ended.value = outcome at ending hresult
  generalize hafter : run.after = after at ending
  cases ending with
  | kept made => exact .inl made
  | @replaced stored written between place text stands puts ended next rendered =>
    right
    refine ⟨place, stored, text, lockPath, ?_, ?_, stands, ?_, fun found => puts.eq_of_locate, ?_, ?_, ?_⟩
    · rw [hafter]
      exact puts.extends _
    · intro grounded
      rw [hafter]
      exact grounded.puts puts _
    · rw [hafter]
      exact puts.locate _ (LockStore.isPath_of_stands stands)
    · rw [hafter]
      exact puts.contents?_self _
    · intro other hne
      rw [hafter]
      exact puts.contents?_of_ne _ hne
    · intro hfailed
      cases outcome with
      | ok counts =>
        rw [Shown.exitCode, hresult] at hfailed
        cases hfailed
      | error e => exact registers_of_ended command read parsed hresult ended next rendered

/-- A run leaves the contents of every file, or it replaces the lock file. -/
theorem made_or_replaces (h : run ∈ sequence (Host.onTree directory env) lines tree) :
    run.before.Made run.after ∨
      ∃ path place stored text, run.Replaces directory env path place stored text := by
  obtain ⟨invocation, accepted, hcommand, hrun⟩ := of_mem_sequence h
  cases command : run.command with
  | resolve metadataPath name inactive given json =>
    have hcases := @Command.resolve_run directory env metadataPath name inactive given json run.before
    rw [command] at hrun
    rw [hrun] at hcases
    obtain hsame | ⟨path, source, metadata, hpath, read, parsed, hshown⟩ := hcases
    · simp only at hsame
      rw [hsame]
      exact .inl FileTree.Made.refl
    · have hgiven : given = invocation.command.lockOption := by
        rw [← hcommand, command]
        rfl
      rw [hgiven] at hpath
      obtain ⟨hshown, hafter⟩ := Prod.mk.inj hshown
      have ending := resolve_fileEnding path metadata
        ⟨name, if inactive then .inactive else .active⟩ run.before
      simp only at ending
      rw [← hafter] at ending
      obtain hkept | hreplaces := made_or_replaces_of_ending
        (Command.lockPath_of_parse accepted hpath) command read parsed hshown ending
      · exact .inl hkept
      · exact .inr ⟨path, hreplaces⟩
  | lock given =>
    rw [after_eq_before h (by rw [command]; rfl)]
    exact .inl FileTree.Made.refl
  | trace source given depth =>
    rw [after_eq_before h (by rw [command]; rfl)]
    exact .inl FileTree.Made.refl

/-! ## The lock that is replaced -/

section Replaces

variable (h : run.Replaces directory env path place stored text)

include h

/-- The place that is replaced is the only one that changes. -/
theorem Replaces.eq_of_changed {other : Place} (hchanged : run.Changed other) : other = place := by
  by_contra hne
  exact hchanged (h.others other hne)

/-- Where the path led to the file already, the lock that has been read is the one in the file. -/
theorem Replaces.lockAt_of_locate {found : Place} (hfound : run.before.locate path = .ok found) :
    LockAt run.before place stored := by
  obtain rfl := h.led found hfound
  have hstands := LockStore.lockOfFile_eq_ok_iff.mp h.stands
  unfold FileTree.read at hstands
  rw [hfound] at hstands
  unfold LockAt FileTree.contents?
  simp only [bind, Except.bind] at hstands
  cases hnode : run.before.at? found with
  | none =>
    rw [hnode] at hstands
    simp_all
  | some node =>
    rw [hnode] at hstands
    cases node with
    | directory => simp at hstands
    | file contents =>
      cases contents with
      | text old => simpa using hstands
      | binary bytes => simp at hstands

/-- Where there was no file, what was read as the stored lock is the empty one. -/
theorem Replaces.eq_empty_of_nowhere (hnowhere : run.before.locate path = .error .notFound) :
    stored = Lock.empty := by
  have hread := FileTree.read_of_locate_error hnowhere
  obtain ⟨-, hempty⟩ | ⟨old, hold, -⟩ := LockStore.lockOfFile_eq_ok_iff.mp h.stands
  · exact hempty
  · rw [hread] at hold
    cases hold

/-- The path led to the file before, or it led nowhere. -/
theorem Replaces.locate_before :
    (∃ found, run.before.locate path = .ok found) ∨ run.before.locate path = .error .notFound := by
  cases hlocate : run.before.locate path with
  | ok found => exact .inl ⟨found, rfl⟩
  | error e =>
    have hread := FileTree.read_of_locate_error hlocate
    obtain ⟨hmissing, -⟩ | ⟨old, hold, -⟩ := LockStore.lockOfFile_eq_ok_iff.mp h.stands
    · rw [hread] at hmissing
      cases hmissing
      exact .inr rfl
    · rw [hread] at hold
      cases hold

/-- The lock that has been read is the one in the file, unless the path led nowhere and a file was there. -/
theorem Replaces.lockAt_or_nowhere : LockAt run.before place stored ∨
    run.before.locate path = .error .notFound ∧ stored = Lock.empty ∧
      ∃ contents, run.before.contents? place = some contents := by
  obtain ⟨found, hfound⟩ | hnowhere := h.locate_before
  · exact .inl (h.lockAt_of_locate hfound)
  · have hempty := h.eq_empty_of_nowhere hnowhere
    cases hthere : run.before.contents? place with
    | none => exact .inl (.inl ⟨hthere, hempty⟩)
    | some contents => exact .inr ⟨hnowhere, hempty, contents, rfl⟩

end Replaces

/-- The text of a lock is read back as this lock. -/
theorem parse_of_render {lock : Lock} (h : lock.render? = some text) : Lock.parse text = .ok lock := by
  unfold Lock.render? at h
  split_ifs at h with hbound
  rw [← Option.some.inj h]
  exact Lock.parse_ofList_write lock hbound

/-- Two registrations that have come to the same text were made in the same lock. -/
theorem Registers.eq_of_text {stored' : Lock} (h : run.Registers directory stored text)
    (h' : run.Registers directory stored' text) : stored = stored' := by
  obtain ⟨-, -, -, -, -, hrendered⟩ := h
  obtain ⟨-, -, -, -, -, hrendered'⟩ := h'
  have hlocks := (parse_of_render hrendered).symm.trans (parse_of_render hrendered')
  obtain ⟨hrevision, hpackages⟩ := Lock.mk.inj (Except.ok.inj hlocks)
  have hentries : stored.packages = stored'.packages := List.append_inj_left' hpackages rfl
  cases stored
  cases stored'
  cases hentries
  cases hrevision
  rfl

/-! ## When runs keep to the lock -/

/-- A run that overwrites a lock that it has not read is not confined. -/
theorem not_confined_of_overwrites (h : run ∈ sequence (Host.onTree directory env) lines tree)
    (hover : run.Overwrites directory env) : ¬ run.Confined directory env := by
  intro hconfined
  obtain ⟨hlockPath, hnowhere, -, -, hchanged, hwrong⟩ := hover
  obtain hmade | ⟨path, place, stored, text, hreplaces⟩ := made_or_replaces h
  · exact not_changed_of_made hmade _ hchanged
  · obtain rfl := hreplaces.eq_of_changed hchanged
    obtain rfl := hlockPath.unique hreplaces.lockPath
    obtain rfl := hreplaces.eq_empty_of_nowhere hnowhere
    obtain hnone | ⟨hfailed, hother⟩ := hwrong
    · exact hnone (hconfined.readable _ hchanged)
    -- the entry has been added to the empty lock, so its text is that of no other lock with an entry more
    · obtain ⟨stored', text', hstored, htext, hregisters⟩ := hconfined.registers _ hchanged hfailed
      cases hreplaces.self.symm.trans htext
      rw [← (hreplaces.registers hfailed).eq_of_text hregisters] at hstored
      exact hother hstored

/-- A place changes only if the path of the lock leads to it after the run. -/
theorem leads_of_changed (h : run ∈ sequence (Host.onTree directory env) lines tree)
    (hchanged : run.Changed place) : ∃ path,
      LockPath directory env run.before run.arguments path ∧ run.after.locate path = .ok place := by
  obtain hmade | ⟨path, place, stored, text, hreplaces⟩ := made_or_replaces h
  · exact absurd hchanged (not_changed_of_made hmade _)
  · obtain rfl := hreplaces.eq_of_changed hchanged
    exact ⟨path, hreplaces.lockPath, hreplaces.leads⟩

/-- A run that overwrites nothing it has not read is confined. -/
theorem confined_of_not_overwrites (h : run ∈ sequence (Host.onTree directory env) lines tree)
    (hover : ¬ run.Overwrites directory env) : run.Confined directory env := by
  obtain hmade | ⟨path, place, stored, text, hreplaces⟩ := made_or_replaces h
  · have hkept := not_changed_of_made hmade
    exact ⟨after_eq_before h, fun place => leads_of_changed h,
      fun place hchanged => absurd hchanged (hkept place),
      fun place hchanged => absurd hchanged (hkept place)⟩
  · refine ⟨after_eq_before h, fun place => leads_of_changed h, fun other hchanged => ?_,
      fun other hchanged hfailed => ?_⟩
    · obtain rfl := hreplaces.eq_of_changed hchanged
      obtain hlock | ⟨hnowhere, -, contents, hthere⟩ := hreplaces.lockAt_or_nowhere
      · exact ⟨stored, hlock⟩
      · by_contra hnone
        exact hover ⟨hreplaces.lockPath, hnowhere, hreplaces.leads, hthere, hchanged, .inl hnone⟩
    · obtain rfl := hreplaces.eq_of_changed hchanged
      refine ⟨stored, text, ?_, hreplaces.self, hreplaces.registers hfailed⟩
      obtain hlock | ⟨hnowhere, rfl, contents, hthere⟩ := hreplaces.lockAt_or_nowhere
      · exact hlock
      · by_contra hother
        exact hover
          ⟨hreplaces.lockPath, hnowhere, hreplaces.leads, hthere, hchanged, .inr ⟨hfailed, hother⟩⟩

/-- A run that fails and yet changes a place has registered the package before the failure. -/
theorem registers_of_changed (h : run ∈ sequence (Host.onTree directory env) lines tree)
    (hchanged : run.Changed place) (hfailed : run.shown.exitCode = 1) :
    ∃ path stored text, LockPath directory env run.before run.arguments path ∧
      (LockStore.lockOfFile path (run.before.read path)).value = .ok stored ∧
      run.after.contents? place = some (.text text) ∧ run.Registers directory stored text := by
  obtain hmade | ⟨path, place, stored, text, hreplaces⟩ := made_or_replaces h
  · exact absurd hchanged (not_changed_of_made hmade _)
  · obtain rfl := hreplaces.eq_of_changed hchanged
    exact ⟨path, stored, text, hreplaces.lockPath, hreplaces.stands, hreplaces.self,
      hreplaces.registers hfailed⟩

/-! ## Sequences -/

/-- Runs keep the tree grounded: each of them finds it so if the first does. -/
theorem grounded_of_mem_sequence (h : run ∈ sequence (Host.onTree directory env) lines tree)
    (hgrounded : tree.Grounded) : run.before.Grounded := by
  refine (sequence_preserves (fun run hrun hbefore => ?_) hgrounded).1 run h
  obtain hmade | ⟨_, _, _, _, hreplaces⟩ := made_or_replaces hrun
  · exact hbefore.made hmade
  · exact hreplaces.grounded hbefore

/-- Without `..` in its path the lock can be found before whenever it can be found afterwards. -/
theorem not_overwrites_of_grounded (h : run ∈ sequence (Host.onTree directory env) lines tree)
    (hgrounded : run.before.Grounded)
    (hpath : ∀ path, LockPath directory env run.before run.arguments path →
      ".." ∉ Path.components path) :
    ¬ run.Overwrites directory env := by
  rintro @⟨path, place, contents, hlockPath, hnowhere, hleads, hthere, hchanged, -⟩
  obtain hmade | ⟨_, other, _, text, hreplaces⟩ := made_or_replaces h
  · exact not_changed_of_made hmade _ hchanged
  · obtain rfl := hreplaces.eq_of_changed hchanged
    have hnode := FileTree.at?_of_contents? hthere
    have hfile : run.after.at? place ≠ some .directory := by
      rw [FileTree.at?_of_contents? hreplaces.self]
      simp
    rw [hgrounded.locate_of_locate hreplaces.extends_after (hpath path hlockPath) hnode hfile hleads]
      at hnowhere
    cases hnowhere

/-- A file that is no lock stays as it is. -/
theorem contents?_filesAfter {contents : Contents} (hthere : tree.contents? place = some contents)
    (hnone : ¬ ∃ stored, LockAt tree place stored)
    (hruns : ∀ run ∈ sequence (Host.onTree directory env) lines tree, ¬ run.Overwrites directory env) :
    (filesAfter (sequence (Host.onTree directory env) lines tree) tree).contents? place =
      some contents := by
  have hstep : ∀ run ∈ sequence (Host.onTree directory env) lines tree,
      run.before.contents? place = some contents → run.after.contents? place = some contents := by
    intro run hrun hbefore
    by_contra hchanged
    rw [← hbefore] at hchanged
    have hconfined := confined_of_not_overwrites hrun (hruns run hrun)
    obtain ⟨stored, hstored⟩ := hconfined.readable place hchanged
    refine hnone ⟨stored, ?_⟩
    unfold LockAt at hstored ⊢
    rwa [hbefore, ← hthere] at hstored
  exact (@sequence_preserves directory env tree lines (·.contents? place = some contents) hstep hthere).2

/-- The commands keep to the lock but in one case. Whatever the files, the environment and the command lines,
a run that only shows something leaves everything as it is; only the file to which the path of the lock leads
is changed; and a run that fails changes it only by registering an active package in the lock that it has
read. That this is the lock in the file, and that a file is never changed that is no lock, is true of a run
unless the path led nowhere when the lock was read, and leads to a file that was there already once the run
has made a directory. In a tree that hangs together there has to be `..` in the path for this. -/
theorem confined_iff (directory : String) (env : String → Option String) (tree : FileTree)
    (lines : List (List String)) :
    let runs := sequence (Host.onTree directory env) lines tree
    (∀ run ∈ runs, run.Confined directory env ↔ ¬ run.Overwrites directory env) ∧
    (∀ run ∈ runs,
      (run.command.resolves = false → run.after = run.before) ∧
      (∀ place, run.Changed place → ∃ path,
        LockPath directory env run.before run.arguments path ∧ run.after.locate path = .ok place) ∧
      (∀ place, run.Changed place → run.shown.exitCode = 1 → ∃ path stored text,
        LockPath directory env run.before run.arguments path ∧
        (LockStore.lockOfFile path (run.before.read path)).value = .ok stored ∧
        run.after.contents? place = some (.text text) ∧ run.Registers directory stored text)) ∧
    ((∀ run ∈ runs, ¬ run.Overwrites directory env) → ∀ place contents,
      tree.contents? place = some contents → (¬ ∃ stored, LockAt tree place stored) →
      (filesAfter runs tree).contents? place = some contents) ∧
    (tree.Grounded → ∀ run ∈ runs,
      (∀ path, LockPath directory env run.before run.arguments path → ".." ∉ Path.components path) →
      run.Confined directory env) := by
  refine ⟨fun run hrun => ?_, fun run hrun => ⟨?_, ?_, ?_⟩, fun hruns place contents => ?_,
    fun hgrounded run hrun hpath => ?_⟩
  · constructor
    · intro hconfined hover
      exact not_confined_of_overwrites hrun hover hconfined
    · exact confined_of_not_overwrites hrun
  · exact after_eq_before hrun
  · intro place hchanged
    exact leads_of_changed hrun hchanged
  · intro place hchanged hfailed
    exact registers_of_changed hrun hchanged hfailed
  · intro hthere hnone
    exact contents?_filesAfter hthere hnone hruns
  · have hbefore := grounded_of_mem_sequence hrun hgrounded
    exact confined_of_not_overwrites hrun (not_overwrites_of_grounded hrun hbefore hpath)

/-- A lock file is made by a run that fails, as a dependency of the new entry is missing. -/
theorem confined_iff_of_failed_registration :
    let tree : FileTree := ⟨[(["d"], .directory), (["d", "m"], .file (.text
      "kind = \"Provider\"\n[[depends-on]]\nprovider = \"b\"\n"))], ["d"]⟩
    let line : List String := ["resolve", "-m", "m", "-p", "a", "--lock", "k/l"]
    let text := "revision = 1\n\n[[package]]\nsource = \"a\"\nversion = \"latest\"\n\n" ++
      "[[package.dependencies]]\npackage = \"b\"\ntype = \"provider\"\n"
    tree.Grounded ∧ ∃ run ∈ sequence (Host.onTree "/d" fun _ => none) [line] tree,
      run.shown.exitCode = 1 ∧ run.before.contents? ["d", "k", "l"] = none ∧
      run.after.contents? ["d", "k", "l"] = some (.text text) ∧ run.Registers "/d" Lock.empty text ∧
      run.Confined "/d" fun _ => none := by
  intro tree line text
  let command : Command := .resolve "m" "a" false (some "k/l") false
  let metadata : Metadata := .known .provider none [Declaration.referringTo .provider "b"]
  let revision : Revision := ⟨"a", .active⟩
  let written : Lock := ⟨0, [⟨"a", "latest", [⟨"b", .provider, none⟩]⟩]⟩
  let result := (command.run (Host.onTree "/d" fun _ => none)).run tree
  have haccepted : Command.parse none line = .ok ⟨command, false⟩ := by decide +kernel
  have hmem : (⟨line, command, tree, result.1, result.2⟩ : Run) ∈
      sequence (Host.onTree "/d" fun _ => none) [line] tree :=
    @mem_sequence_of_accepted "/d" (fun _ => none) tree [] line ⟨command, false⟩ haccepted
  have hgrounded : tree.Grounded := FileTree.grounded_of_nodes (by decide +kernel)
  have hload : ((loadFile FileTree.access Metadata.parse "/d/m").run tree).1 = .ok metadata := by
    decide +kernel
  have hstands : (LockStore.lockOfFile "/d/k/l" (tree.read "/d/k/l")).value = .ok Lock.empty := by
    decide +kernel
  -- the outcome is computed from the plan, apart from the files: the search in a graph recurses on a measure
  have hplan : (Plan.make Graph.service [Declaration.referringTo .provider "b"] revision
      Lock.empty).value = .write written ⟨.error (.missing ["b"] ⟨1, 0, 0⟩),
        [.info "registered a at latest in lock", .debug "a: 1 of 1 dependencies missing"]⟩ := by
    cbv
  have works : ((FileTree.access.replace "/d/k/l" (String.ofList written.next.write)).run tree).1 =
      .ok () := by
    decide +kernel
  have hreplaced : ((FileTree.access.replace "/d/k/l" (String.ofList written.next.write)).run
      tree).2.contents? ["d", "k", "l"] = some (.text text) := by
    decide +kernel
  have known : metadata.dependsOn? = some [Declaration.referringTo .provider "b"] := rfl
  have hended := resolve_of_write known hstands hplan rfl (by decide) works
  have hresult : result = _ := Command.runResolve_run "/d/k/l" "/d/m" revision false tree
  rw [hload] at hresult
  simp only at hended hresult
  generalize (PackageLock.resolve Graph.service (LockStore.file FileTree.access "/d/k/l") metadata
    revision).run tree = ended at hended hresult
  clear_value result
  obtain ⟨houtcome, hafter⟩ := hended
  have hexit : result.1.exitCode = 1 := by
    rw [hresult, Shown.exitCode, Command.showOutcome_result, houtcome]
  have hmade : result.2.contents? ["d", "k", "l"] = some (.text text) := by
    rw [hresult, ← hreplaced, ← hafter]
  have hbefore : tree.contents? ["d", "k", "l"] = none := by decide +kernel
  have hpath : ∀ path, LockPath "/d" (fun _ => none) tree line path → path = "/d/k/l" :=
    fun path h => h.unique (.option haccepted rfl)
  obtain ⟨-, heach, -, hproper⟩ := confined_iff "/d" (fun _ => none) tree [line]
  refine ⟨hgrounded, _, hmem, hexit, hbefore, hmade, ?_, ?_⟩
  · have hchanged : result.2.contents? ["d", "k", "l"] ≠ tree.contents? ["d", "k", "l"] := by
      rw [hbefore, hmade]
      simp
    obtain ⟨path, stored, text', hlockPath, hread, hnow, hregisters⟩ :=
      (heach _ hmem).2.2 _ hchanged hexit
    obtain rfl := hpath path hlockPath
    cases hread.symm.trans hstands
    cases hnow.symm.trans hmade
    exact hregisters
  · apply hproper hgrounded _ hmem
    intro path h
    rw [hpath path h]
    decide +kernel

/-- The directory `gone` is missing when the lock is read, so the file is not seen; it is made before the lock
is written, and then the path leads to the file. -/
theorem not_confined_of_missing_directory :
    let tree : FileTree := ⟨[(["d"], .directory), (["d", "Keel.lock"], .file (.text "garbage")),
      (["d", "m.toml"], .file (.text "kind = \"Provider\"\n"))], ["d"]⟩
    let line : List String :=
      ["resolve", "--meta", "m.toml", "--package", "a", "--lock", "gone/../Keel.lock"]
    tree.Grounded ∧ Lock.parse "garbage" = .error .malformed ∧
      ∃ run ∈ sequence (Host.onTree "/d" fun _ => none) [line] tree, run.shown.exitCode = 0 ∧
        run.before.contents? ["d", "Keel.lock"] = some (.text "garbage") ∧
        run.after.contents? ["d", "Keel.lock"] = some (.text ("revision = 1\n\n[[package]]\n" ++
          "source = \"a\"\nversion = \"latest\"\ndependencies = []\n")) ∧
        ¬ run.Confined "/d" fun _ => none := by
  intro tree line
  let command : Command := .resolve "m.toml" "a" false (some "gone/../Keel.lock") false
  let result := (command.run (Host.onTree "/d" fun _ => none)).run tree
  have haccepted : Command.parse none line = .ok ⟨command, false⟩ := by decide +kernel
  have hmem : (⟨line, command, tree, result.1, result.2⟩ : Run) ∈
      sequence (Host.onTree "/d" fun _ => none) [line] tree :=
    @mem_sequence_of_accepted "/d" (fun _ => none) tree [] line ⟨command, false⟩ haccepted
  have hgarbage : Lock.parse "garbage" = .error .malformed := by decide +kernel
  have hbefore : tree.contents? ["d", "Keel.lock"] = some (.text "garbage") := by decide +kernel
  have hafter : result.2.contents? ["d", "Keel.lock"] = some (.text ("revision = 1\n\n[[package]]\n" ++
      "source = \"a\"\nversion = \"latest\"\ndependencies = []\n")) := by
    decide +kernel
  have hexit : result.1.exitCode = 0 := by decide +kernel
  clear_value result
  refine ⟨FileTree.grounded_of_nodes (by decide +kernel), hgarbage, _, hmem, hexit, hbefore, hafter, ?_⟩
  intro hconfined
  have hchanged : result.2.contents? ["d", "Keel.lock"] ≠ tree.contents? ["d", "Keel.lock"] := by
    rw [hbefore, hafter]
    decide
  obtain ⟨stored, hlock⟩ := hconfined.readable ["d", "Keel.lock"] hchanged
  obtain ⟨hnone, -⟩ | ⟨text, htext, hparse⟩ := hlock
  · cases hbefore.symm.trans hnone
  · cases hbefore.symm.trans htext
    cases hgarbage.symm.trans hparse

end Run

end PackageLock
