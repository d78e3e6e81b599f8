import PackageLock.Command.Arguments
import PackageLock.Proofs.Text.Reading

/-!
# The path of the lock in a command line

The environment may give a path of the lock, which counts only where the command line has no option for
it. A command line that is accepted with such a path is accepted without it. Main statement:
`parse_lockOption`.
-/

set_option autoImplicit false

namespace PackageLock.Command

open Text (bind_eq_ok_iff)

/-- The path of the lock that a command is given. -/
def lockOption : Command → Option String
  | .resolve _ _ _ given _ => given
  | .lock given => given
  | .trace _ given _ => given

variable {grammar : Grammar} {given given' : Given} {flag : Flag} {value name : String}
  {lock? : Option String} {arguments : List String} {invocation : Invocation} {command : Command}
  {verbose : Bool}

/-- A noted value counts where its flag has had none before, and nothing else that was given changes. -/
theorem Given.value?_of_note (h : given.note flag value = .ok given') :
    given'.operands = given.operands ∧ ∀ other,
      given'.value? other = (given.value? other).or (if other = flag then some value else none) := by
  unfold Given.note at h
  split at h
  · cases h
  · obtain ⟨-, -, h⟩ := bind_eq_ok_iff.mp h
    cases h
    refine ⟨rfl, fun other => ?_⟩
    rw [Given.value?, Given.value?, List.lookup_append]
    by_cases hother : other = flag
    · simp [hother]
    · simp [List.lookup_cons, hother, beq_eq_false_iff_ne.mpr hother]

/-- The environment adds the path of the lock to the arguments, if they do not give it. -/
theorem readWithLock_alone (h : readWithLock grammar lock? arguments = .ok given) :
    ∃ alone, readWithLock grammar none arguments = .ok alone ∧ given.operands = alone.operands ∧
      given.value? .lock = (alone.value? .lock).or lock? ∧
      ∀ other ≠ Flag.lock, given.value? other = alone.value? other := by
  obtain ⟨alone, hread, h⟩ := bind_eq_ok_iff.mp h
  refine ⟨alone, bind_eq_ok_iff.mpr ⟨alone, hread, rfl⟩, ?_⟩
  cases lock? with
  | none =>
    cases h
    exact ⟨rfl, by simp, fun _ _ => rfl⟩
  | some path =>
    simp only at h
    split at h
    · rename_i hhas
      cases h
      obtain ⟨other, hother⟩ := Option.isSome_iff_exists.mp hhas
      exact ⟨rfl, by simp [hother], fun _ _ => rfl⟩
    · obtain ⟨hoperands, hvalues⟩ := Given.value?_of_note h
      refine ⟨hoperands, by simp [hvalues], fun other hne => ?_⟩
      rw [hvalues, if_neg hne, Option.or_none]

/-- The path from the environment is no part of what the arguments say: it only stands in for an option that
they do not give. -/
theorem read_alone (h : read lock? name arguments = .ok (command, verbose)) :
    ∃ alone, read none name arguments = .ok (alone, verbose) ∧
      command.lockOption = alone.lockOption.or lock? := by
  unfold read at h ⊢
  -- each command makes the same of what it is given, but for the path of the lock
  split at h
  · obtain ⟨given, hread, h⟩ := bind_eq_ok_iff.mp h
    obtain ⟨alone, halone, -, hlock, hothers⟩ := readWithLock_alone hread
    simp only [Given.has, hothers .metadata (by decide), hothers .package (by decide),
      hothers .inactive (by decide), hothers .json (by decide), hothers .verbose (by decide)] at h
    obtain ⟨metadata, hmetadata, h⟩ := bind_eq_ok_iff.mp h
    obtain ⟨package, hpackage, h⟩ := bind_eq_ok_iff.mp h
    cases h
    refine ⟨.resolve metadata package (alone.has .inactive) (alone.value? .lock) (alone.has .json), ?_,
      hlock⟩
    apply bind_eq_ok_iff.mpr ⟨alone, halone, ?_⟩
    apply bind_eq_ok_iff.mpr ⟨metadata, hmetadata, ?_⟩
    exact bind_eq_ok_iff.mpr ⟨package, hpackage, rfl⟩
  · obtain ⟨given, hread, h⟩ := bind_eq_ok_iff.mp h
    obtain ⟨alone, halone, -, hlock, hothers⟩ := readWithLock_alone hread
    simp only [Given.has, hothers .verbose (by decide)] at h
    cases h
    exact ⟨_, bind_eq_ok_iff.mpr ⟨alone, halone, rfl⟩, hlock⟩
  · obtain ⟨given, hread, h⟩ := bind_eq_ok_iff.mp h
    obtain ⟨alone, halone, hoperands, hlock, hothers⟩ := readWithLock_alone hread
    simp only [Given.has, hoperands, hothers .depth (by decide), hothers .verbose (by decide)] at h
    obtain ⟨source, hsource, h⟩ := bind_eq_ok_iff.mp h
    cases h
    refine ⟨.trace source (alone.value? .lock) ((alone.value? .depth).bind parseDepth?), ?_, hlock⟩
    apply bind_eq_ok_iff.mpr ⟨alone, halone, ?_⟩
    exact bind_eq_ok_iff.mpr ⟨source, hsource, rfl⟩
  · cases h
  · cases h

/-- An invocation is read from the arguments alone, up to the path that stands in for the option. -/
theorem readProgram_alone (h : readProgram lock? given arguments = .ok invocation) :
    ∃ alone, readProgram none given arguments = .ok alone ∧
      invocation.command.lockOption = alone.command.lockOption.or lock? := by
  induction arguments generalizing given with
  | nil => cases h
  | cons text rest ih =>
    unfold readProgram at h ⊢
    split at h
    · split at h <;> cases h
    · obtain ⟨given', hlong, h⟩ := bind_eq_ok_iff.mp h
      obtain ⟨alone, halone, hlock⟩ := ih h
      exact ⟨alone, bind_eq_ok_iff.mpr ⟨given', hlong, halone⟩, hlock⟩
    · obtain ⟨given', hshort, h⟩ := bind_eq_ok_iff.mp h
      obtain ⟨alone, halone, hlock⟩ := ih h
      exact ⟨alone, bind_eq_ok_iff.mpr ⟨given', hshort, halone⟩, hlock⟩
    · obtain ⟨⟨command, verbose⟩, hread, h⟩ := bind_eq_ok_iff.mp h
      obtain ⟨alone, halone, hlock⟩ := read_alone hread
      cases h
      exact ⟨_, bind_eq_ok_iff.mpr ⟨_, halone, rfl⟩, hlock⟩

/-- A command takes the path of the lock from its option, or else from the environment. -/
theorem parse_lockOption (h : parse lock? arguments = .ok invocation) :
    ∃ alone, parse none arguments = .ok alone ∧
      invocation.command.lockOption = alone.command.lockOption.or lock? :=
  readProgram_alone h

end PackageLock.Command
