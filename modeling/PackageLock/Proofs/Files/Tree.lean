import PackageLock.Files.Tree
import PackageLock.Proofs.Text.Splitting

/-!
# Replacing a file in a tree

What a replacement does to the other files, and where its own file comes to stand. Directories may be made
on the way, even if the replacement fails afterwards; they never go away again, so a path that leads
somewhere goes on leading there (`Extends.follow`). Main statements: a replacement that fails has made
directories and no more (`made_of_replace_error`), and one that succeeds would do so for every text and puts
its file at one place, to which the path leads from then on (`exists_puts_of_replace_ok`, `Puts.locate`).
-/

set_option autoImplicit false

namespace PackageLock.FileTree

variable {tree tree' tree'' : FileTree} {place place' found : Place} {node : FileNode}
  {path text : String} {names : List String} {name : String}

/-! ## Places -/

/-- The contents of the file at a place, if there is one. -/
def contents? (tree : FileTree) (place : Place) : Option Contents :=
  match tree.at? place with
  | some (.file contents) => some contents
  | _ => none

/-- A file with contents stands where it has them. -/
theorem at?_of_contents? {contents : Contents} (h : tree.contents? place = some contents) :
    tree.at? place = some (.file contents) := by
  unfold contents? at h
  split at h
  · rename_i found hfound
    rw [hfound, Option.some.inj h]
  · cases h

/-- Leaving out one place changes nothing at the others. -/
theorem lookup_filter_ne {α : Type} (nodes : List (Place × α)) (h : place' ≠ place) :
    (nodes.filter (·.1 ≠ place)).lookup place' = nodes.lookup place' := by
  induction nodes with
  | nil => rfl
  | cons entry nodes ih =>
    by_cases hentry : entry.1 = place
    · have hne : (place' == entry.1) = false := by
        rw [hentry]
        exact beq_eq_false_iff_ne.mpr h
      rw [List.filter_cons_of_neg (by simp [hentry]), ih, List.lookup_cons, hne]
    · rw [List.filter_cons_of_pos (by simp [hentry]), List.lookup_cons, List.lookup_cons, ih]

/-- What is put at a place stands there. -/
theorem at?_put_self (tree : FileTree) (node : FileNode) (h : place ≠ []) :
    (tree.put place node).at? place = some node := by
  simp [at?, put, h]

/-- What is put at a place changes nothing at the others. -/
theorem at?_put_of_ne (h : place' ≠ place) :
    (tree.put place node).at? place' = tree.at? place' := by
  unfold at? put
  split_ifs with hroot
  · rfl
  · rw [List.lookup_cons, beq_eq_false_iff_ne.mpr h]
    exact lookup_filter_ne tree.nodes h

/-- A file that is put at a place has its contents there. -/
theorem contents?_put_self (h : place ≠ []) (contents : Contents) :
    (tree.put place (.file contents)).contents? place = some contents := by
  rw [contents?, at?_put_self tree _ h]

/-- What is put at a place changes the contents at no other. -/
theorem contents?_put_of_ne (h : place' ≠ place) :
    (tree.put place node).contents? place' = tree.contents? place' := by
  rw [contents?, at?_put_of_ne h, contents?]

/-! ## Directories that stay -/

/-- All directories of `tree` are directories of `tree'`. -/
structure Extends (tree tree' : FileTree) : Prop where
  current : tree'.current = tree.current
  directories : ∀ place, tree.at? place = some .directory → tree'.at? place = some .directory

/-- A tree has its own directories. -/
theorem Extends.refl (tree : FileTree) : tree.Extends tree :=
  ⟨rfl, fun _ h => h⟩

/-- Directories that stay twice stay. -/
theorem Extends.trans (h : tree.Extends tree') (h' : tree'.Extends tree'') : tree.Extends tree'' :=
  ⟨h'.current.trans h.current, fun place hplace => h'.directories place (h.directories place hplace)⟩

/-- Where the directories stay, a path begins where it began. -/
theorem Extends.start_eq (h : tree.Extends tree') (path : String) : tree'.start path = tree.start path := by
  rw [start, start, h.current]

/-- Where the directories stay, names that led somewhere lead there still. -/
theorem Extends.follow (h : tree.Extends tree') (hfound : tree.follow place names = .ok found) :
    tree'.follow place names = .ok found := by
  induction names generalizing place with
  | nil => exact hfound
  | cons name names ih =>
    unfold FileTree.follow at hfound ⊢
    cases hplace : tree.at? place with
    | none => simp [hplace] at hfound
    | some node =>
      cases node with
      | file contents => simp [hplace] at hfound
      | directory =>
        rw [hplace] at hfound
        rw [h.directories place hplace]
        simp only at hfound ⊢
        split_ifs at hfound ⊢
        · exact ih hfound
        · exact ih hfound
        · exact ih hfound

/-- Names lead to a directory if they lead to a place at which a directory stands. -/
theorem directoryAt_eq_ok_iff : tree.directoryAt place names = .ok found ↔
    tree.follow place names = .ok found ∧ tree.at? found = some .directory := by
  unfold directoryAt
  cases hfollow : tree.follow place names with
  | error e => simp [bind, Except.bind]
  | ok other =>
    simp only [bind, Except.bind, Except.ok.injEq]
    split
    · rename_i hother
      simp only [reduceCtorEq, false_iff, not_and]
      rintro rfl
      simp [hother]
    · rename_i contents hother
      simp only [reduceCtorEq, false_iff, not_and]
      rintro rfl
      simp [hother]
    · rename_i hother
      simp only [Except.ok.injEq]
      constructor
      · rintro rfl
        exact ⟨rfl, hother⟩
      · exact fun h => h.1

/-- Where the directories stay, names that led to a directory lead there still. -/
theorem Extends.directoryAt (h : tree.Extends tree') (hfound : tree.directoryAt place names = .ok found) :
    tree'.directoryAt place names = .ok found := by
  obtain ⟨hfollow, hdirectory⟩ := directoryAt_eq_ok_iff.mp hfound
  exact directoryAt_eq_ok_iff.mpr ⟨h.follow hfollow, h.directories found hdirectory⟩

/-- Nothing but directories has come to the tree. -/
structure OnlyDirectories (tree tree' : FileTree) : Prop extends tree.Extends tree' where
  contents : ∀ place, tree'.contents? place = tree.contents? place

/-- To the tree itself nothing has come. -/
theorem OnlyDirectories.refl (tree : FileTree) : tree.OnlyDirectories tree :=
  ⟨Extends.refl tree, fun _ => rfl⟩

/-- If nothing but directories comes twice, nothing but directories has come. -/
theorem OnlyDirectories.trans (h : tree.OnlyDirectories tree') (h' : tree'.OnlyDirectories tree'') :
    tree.OnlyDirectories tree'' :=
  ⟨h.toExtends.trans h'.toExtends, fun place => (h'.contents place).trans (h.contents place)⟩

/-- A directory that is put where nothing stood is all that comes to the tree. -/
theorem onlyDirectories_put (h : tree.at? place = none) :
    tree.OnlyDirectories (tree.put place .directory) := by
  have hroot : place ≠ [] := by
    rintro rfl
    simp [at?] at h
  refine ⟨⟨rfl, fun other hother => ?_⟩, fun other => ?_⟩
  · have hne : other ≠ place := by
      rintro rfl
      rw [h] at hother
      cases hother
    rw [at?_put_of_ne hne, hother]
  · by_cases hne : other = place
    · subst hne
      rw [contents?, at?_put_self tree _ hroot, contents?, h]
    · exact contents?_put_of_ne hne

/-! ## Making directories -/

/-- Directories have been made one after the other, each in a directory and where nothing stood. -/
inductive Made (tree : FileTree) : FileTree → Prop where
  | refl : Made tree tree
  | step {between : FileTree} {place : Place} {name : String} (made : Made tree between)
      (stands : between.at? place = some .directory) (free : between.at? (place ++ [name]) = none) :
      Made tree (between.put (place ++ [name]) .directory)

/-- Directories that are made after others are made one after the other. -/
theorem Made.trans (h : tree.Made tree') (h' : tree'.Made tree'') : tree.Made tree'' := by
  induction h' with
  | refl => exact h
  | step _ stands free ih => exact ih.step stands free

/-- When directories are made, nothing else comes to the tree. -/
theorem Made.onlyDirectories (h : tree.Made tree') : tree.OnlyDirectories tree' := by
  induction h with
  | refl => exact OnlyDirectories.refl tree
  | step _ _ free ih => exact ih.trans (onlyDirectories_put free)

/-- Making a directory makes one. -/
theorem made_of_makeDirectory (h : tree.makeDirectory place names name = .ok tree') :
    tree.Made tree' := by
  unfold makeDirectory at h
  cases hfound : tree.directoryAt place names with
  | error e => simp [hfound, bind, Except.bind] at h
  | ok directory =>
    simp only [hfound, bind, Except.bind] at h
    split_ifs at h
    split at h
    · cases h
    · rename_i hnothing
      cases h
      exact Made.refl.step (directoryAt_eq_ok_iff.mp hfound).2 hnothing

/-- Making sure of a directory makes one at most. -/
theorem made_of_ensureDirectory (h : tree.ensureDirectory place names name = .ok tree') :
    tree.Made tree' := by
  unfold ensureDirectory at h
  split at h
  · split at h
    · cases h
      exact Made.refl
    · cases h
  · exact made_of_makeDirectory h

/-- The tree that some work leaves, whether or not it fails. -/
def Walk.after (walk : Walk Unit) (tree : FileTree) : FileTree :=
  match walk.run tree with
  | .ok _ tree' => tree'
  | .error _ tree' => tree'

/-- Work that asks for the tree first goes on with it. -/
theorem Walk.run_get_bind (next : FileTree → Walk Unit) (tree : FileTree) :
    EStateM.run (get >>= next : Walk Unit) tree = (next tree).run tree :=
  rfl

/-- Work in two parts leaves what the second leaves after the first, unless the first has failed. -/
theorem Walk.after_bind (walk : Walk Unit) (next : Walk Unit) (tree : FileTree) :
    Walk.after (do walk; next) tree =
      match walk.run tree with
      | .ok _ tree' => Walk.after next tree'
      | .error _ tree' => tree' := by
  unfold Walk.after
  simp only [bind, EStateM.bind, EStateM.run]
  cases walk tree <;> rfl

/-- A change that fails leaves the tree as it was. -/
theorem Walk.after_change (f : FileTree → Except FileError FileTree) (tree : FileTree) :
    Walk.after (change f) tree =
      match f tree with
      | .ok changed => changed
      | .error _ => tree := by
  simp only [Walk.after, change, EStateM.run]
  cases f tree <;> rfl

/-- To make sure of a directory, those above it are made first only where the way to it is missing. -/
theorem after_ensureDirectories_cons (place : Place) (name : String) (above : List String)
    (tree : FileTree) :
    Walk.after (ensureDirectories place (name :: above)) tree =
      match tree.ensureDirectory place above.reverse name with
      | .error .notFound =>
        Walk.after (do
          ensureDirectories place above
          change (·.ensureDirectory place above.reverse name)) tree
      | .error _ => tree
      | .ok made => made := by
  unfold Walk.after
  rw [ensureDirectories, Walk.run_get_bind]
  cases hmade : tree.ensureDirectory place above.reverse name with
  | ok made => rfl
  | error e => cases e <;> rfl

/-- Making sure of directories leaves directories that have been made, whether or not it fails. -/
theorem made_ensureDirectories (place : Place) (names : List String) (tree : FileTree) :
    tree.Made (Walk.after (ensureDirectories place names) tree) := by
  induction names generalizing tree with
  | nil => exact Made.refl
  | cons name above ih =>
    rw [after_ensureDirectories_cons]
    split
    · rw [Walk.after_bind]
      have hfirst := ih tree
      unfold Walk.after at hfirst
      split
      · rename_i between hrun
        rw [hrun] at hfirst
        rw [Walk.after_change]
        split
        · rename_i made hmade
          exact hfirst.trans (made_of_ensureDirectory hmade)
        · exact hfirst
      · rename_i hrun
        rwa [hrun] at hfirst
    · exact Made.refl
    · rename_i made hmade
      exact made_of_ensureDirectory hmade

/-! ## Where a path leads -/

/-- The place where the file of a path belongs: its last name in the directory to which the others lead.
No directory stands there itself. -/
inductive Target (tree : FileTree) (path : String) : Place → Prop where
  | mk {above : List String} {name : String} {directory : Place}
      (components : Path.components path = above ++ [name])
      (proper : name ≠ "" ∧ name ≠ "." ∧ name ≠ "..") (short : name.utf8ByteSize ≤ nameBound)
      (found : tree.directoryAt (tree.start path) above = .ok directory)
      (free : tree.at? (directory ++ [name]) ≠ some .directory) :
      Target tree path (directory ++ [name])

/-- After a slash at the end of a path there is an empty component. -/
theorem getLast_components_of_slash (h : path.toList.getLast? = some '/') :
    (Path.components path).getLast? = some "" := by
  obtain ⟨front, hpath⟩ := List.getLast?_eq_some_iff.mp h
  rw [Path.components, hpath, Text.fields_append_separator (by decide), List.map_append]
  simp [Text.fields]

/-- A path that does not end in a slash has a last component with a name. -/
theorem getLast_components_of_char {c : Char} (h : path.toList.getLast? = some c) (hc : c ≠ '/') :
    ∃ name, (Path.components path).getLast? = some name ∧ name ≠ "" := by
  obtain ⟨front, hpath⟩ := List.getLast?_eq_some_iff.mp h
  obtain ⟨before, last, first, back, -, hend, hfields⟩ :=
    Text.exists_fields_append_cons (· == '/') (by simpa using hc) front []
  cases hend
  rw [Path.components, hpath, hfields, List.map_append]
  exact ⟨String.ofList (last ++ [c]), by simp, by simp [← String.toList_inj]⟩

/-- What comes after the last slash is the last name, if it is not empty. -/
theorem splitLast_iff {above : List String} :
    splitLast path = (above, some name) ∧ path.toList.getLast? ≠ some '/' ↔
      Path.components path = above ++ [name] ∧ name ≠ "" := by
  constructor
  · rintro ⟨hsplit, hslash⟩
    cases hlast : path.toList.getLast? with
    | none =>
      have hempty : path = "" := by simpa using hlast
      subst hempty
      cases hsplit
    | some c =>
      have hc : c ≠ '/' := by simpa [hlast] using hslash
      obtain ⟨other, hother, hne⟩ := getLast_components_of_char hlast hc
      obtain ⟨front, hcomponents⟩ := List.getLast?_eq_some_iff.mp hother
      simp [splitLast, hcomponents, hne] at hsplit
      obtain ⟨rfl, rfl⟩ := hsplit
      exact ⟨hcomponents, hne⟩
  · rintro ⟨hcomponents, hne⟩
    refine ⟨by simp [splitLast, hcomponents, hne], fun hslash => ?_⟩
    have hlast := getLast_components_of_slash hslash
    rw [hcomponents, List.getLast?_concat] at hlast
    exact hne (Option.some.inj hlast)

/-- A file can be put at its target, whatever its text. -/
theorem Target.putFile (h : tree.Target path place) (text : String) :
    tree.putFile path text = .ok (tree.put place (.file (.text text))) := by
  obtain ⟨components, ⟨hne, hdot, hdots⟩, short, found, free⟩ := h
  obtain ⟨hsplit, hslash⟩ := splitLast_iff.mpr ⟨components, hne⟩
  have hlong := Nat.not_lt.mpr short
  rw [FileTree.putFile, hsplit]
  simp only [found, bind, Except.bind, if_neg hlong, if_neg hslash]

/-- A file that has been put has a target. -/
theorem target_of_putFile (h : tree.putFile path text = .ok tree') :
    ∃ place, tree.Target path place := by
  unfold FileTree.putFile at h
  cases hsplit : splitLast path with
  | mk above last =>
    cases hdirectory : tree.directoryAt (tree.start path) above with
    | error e => simp [hsplit, hdirectory, bind, Except.bind] at h
    | ok directory =>
      simp only [hsplit, hdirectory, bind, Except.bind] at h
      split at h
      · cases h
      · cases h
      · cases h
      · rename_i name hdot hdots
        split_ifs at h with hlong hslash
        obtain ⟨hcomponents, hne⟩ := splitLast_iff.mp ⟨hsplit, hslash⟩
        have hproper : name ≠ "" ∧ name ≠ "." ∧ name ≠ ".." :=
          ⟨hne, fun h => hdot (by rw [h]), fun h => hdots (by rw [h])⟩
        split at h
        · cases h
        · rename_i hfree
          exact ⟨_, .mk hcomponents hproper (Nat.not_lt.mp hlong) hdirectory hfree⟩

/-! ## Following the path -/

/-- The target of a file is not the root. -/
theorem Target.ne_nil (h : tree.Target path place) : place ≠ [] := by
  cases h
  simp

/-- A file that is put at its target leaves all directories. -/
theorem Target.extends (h : tree.Target path place) (contents : Contents) :
    tree.Extends (tree.put place (.file contents)) := by
  refine ⟨rfl, fun other hother => ?_⟩
  have hne : other ≠ place := by
    rintro rfl
    obtain ⟨_, _, _, _, hfree⟩ := h
    exact hfree hother
  rw [at?_put_of_ne hne, hother]

/-- Once the file has been put there, its place is still where the path leads. -/
theorem Target.put (h : tree.Target path place) (contents : Contents) :
    (tree.put place (.file contents)).Target path place := by
  have hextends := h.extends contents
  have hself := at?_put_self tree (.file contents) h.ne_nil
  obtain ⟨components, proper, short, found, _⟩ := h
  refine .mk components proper short (hextends.directoryAt found) ?_
  rw [hself]
  simp

/-- Names are followed one part after the other. -/
theorem follow_append (front back : List String) (place : Place) :
    tree.follow place (front ++ back) = tree.follow place front >>= fun found => tree.follow found back := by
  induction front generalizing place with
  | nil => rfl
  | cons name front ih =>
    rw [List.cons_append, FileTree.follow, FileTree.follow]
    split
    · rfl
    · rfl
    · split_ifs
      · exact ih place
      · exact ih place.dropLast
      · rfl
      · exact ih (place ++ [name])

/-- The components of its path lead to the target of a file. -/
theorem Target.follow (h : tree.Target path place) :
    tree.follow (tree.start path) (Path.components path) = .ok place := by
  obtain ⟨components, ⟨hne, hdot, hdots⟩, short, found, -⟩ := h
  obtain ⟨hfollow, hdirectory⟩ := directoryAt_eq_ok_iff.mp found
  rw [components, follow_append, hfollow]
  have hlast : ∀ directory name, tree.at? directory = some .directory → name ≠ "" → name ≠ "." →
      name ≠ ".." → name.utf8ByteSize ≤ nameBound →
      tree.follow directory [name] = .ok (directory ++ [name]) := by
    intro directory name hdirectory hne hdot hdots short
    have hlong := Nat.not_lt.mpr short
    simp [FileTree.follow, hdirectory, hne, hdot, hdots, hlong]
  exact hlast _ _ hdirectory hne hdot hdots short

/-- Names lead to a directory step by step: each has to be found in a directory, and it leads there, up or
down. -/
theorem directoryAt_cons (place : Place) (name : String) (rest : List String) :
    tree.directoryAt place (name :: rest) =
      match tree.at? place with
      | none => .error .notFound
      | some (.file _) => .error .notDirectory
      | some .directory =>
        if name = "" || name = "." then tree.directoryAt place rest
        else if name = ".." then tree.directoryAt place.dropLast rest
        else if nameBound < name.utf8ByteSize then .error .nameTooLong
        else tree.directoryAt (place ++ [name]) rest := by
  simp only [directoryAt, FileTree.follow]
  cases tree.at? place with
  | none => rfl
  | some node =>
    cases node with
    | file contents => rfl
    | directory =>
      simp only
      split_ifs <;> rfl

/-- Where no directory stands, it does not matter what else is asked for. -/
theorem directoryAt_of_not_directory (h : tree.at? place ≠ some .directory) (names : List String) :
    tree.directoryAt place names = tree.directoryAt place [] := by
  cases names with
  | nil => rfl
  | cons name rest =>
    rw [directoryAt_cons]
    simp only [directoryAt, FileTree.follow, bind, Except.bind]
    split <;> simp_all

/-- Components that stay where they are can be left out on the way to a directory. -/
theorem directoryAt_filter (components : List String) (place : Place) :
    tree.directoryAt place (components.filter fun name => name ≠ "" && name ≠ ".") =
      tree.directoryAt place components := by
  induction components generalizing place with
  | nil => rfl
  | cons name rest ih =>
    by_cases hplace : tree.at? place = some .directory
    · by_cases hname : (name ≠ "" && name ≠ ".") = true
      · rw [List.filter_cons, if_pos hname, directoryAt_cons, directoryAt_cons, hplace]
        simp only [ih]
      · have hskip : (name = "" || name = ".") = true := by
          by_cases hempty : name = "" <;> simp_all
        rw [List.filter_cons, if_neg hname, ih, directoryAt_cons, hplace]
        exact (if_pos hskip).symm
    · rw [directoryAt_of_not_directory hplace, directoryAt_of_not_directory hplace (name :: rest)]

/-! ## The replacement -/

/-- A replacement puts the file if its directory is there, or else after the directories have been made. -/
theorem replace_run (tree : FileTree) (path text : String) :
    (replace path text).run tree =
      match tree.directoryAt (tree.start path) (Path.names path).dropLast with
      | .error .notFound =>
        match (ensureDirectories (tree.start path) (Path.names path).dropLast.reverse).run tree with
        | .ok _ between => (change (·.putFile path text)).run between
        | .error e between => .error e between
      | .error e => .error e tree
      | .ok _ => (change (·.putFile path text)).run tree := by
  unfold replace
  rw [Walk.run_get_bind]
  simp only [bind, EStateM.run]
  cases tree.directoryAt (tree.start path) (Path.names path).dropLast with
  | ok directory => rfl
  | error e =>
    cases e
    case notFound =>
      simp only [EStateM.bind]
      cases ensureDirectories (tree.start path) (Path.names path).dropLast.reverse tree <;> rfl
    all_goals rfl

/-- A change leaves the changed tree, or it fails and leaves the tree. -/
theorem change_run (f : FileTree → Except FileError FileTree) (tree : FileTree) :
    (change f).run tree =
      match f tree with
      | .ok changed => .ok () changed
      | .error e => .error e tree :=
  rfl

/-- A file whose target is there is replaced at once. -/
theorem Target.replace (h : tree.Target path place) (text : String) :
    (replace path text).run tree = .ok () (tree.put place (.file (.text text))) := by
  have hput := h.putFile text
  obtain @⟨above, name, directory, components, ⟨hne, hdot, -⟩, -, found, -⟩ := h
  have hnames : (Path.names path).dropLast = above.filter fun name => name ≠ "" && name ≠ "." := by
    rw [Path.names, components, List.filter_append, List.filter_cons_of_pos (by simp [hne, hdot])]
    exact List.dropLast_concat
  rw [replace_run, hnames, directoryAt_filter, found]
  simp only [change_run, hput]

/-- A replacement of the file of `path` makes the directories that `between` has in addition, and then
puts the file at `place`, whatever its text. -/
structure Puts (tree : FileTree) (path : String) (between : FileTree) (place : Place) : Prop where
  made : tree.Made between
  target : between.Target path place
  run : ∀ text, (FileTree.replace path text).run tree = .ok () (between.put place (.file (.text text)))

/-- A replacement of a file whose target is there makes no directories. -/
theorem Target.puts (h : tree.Target path place) : tree.Puts path tree place :=
  ⟨Made.refl, h, h.replace⟩

/-- A replacement fails and has made directories at most, or it succeeds whatever the text is. -/
theorem replace_cases (tree : FileTree) (path : String) :
    (∀ text, ∃ e after, (FileTree.replace path text).run tree = .error e after ∧
        tree.Made after) ∨
      ∃ between place, tree.Puts path between place := by
  have hchange (between : FileTree) (h : tree.Made between)
      (hrun : ∀ text, (FileTree.replace path text).run tree =
        (change (·.putFile path text)).run between) :
      (∀ text, ∃ e after, (FileTree.replace path text).run tree = .error e after ∧
          tree.Made after) ∨
        ∃ between place, tree.Puts path between place := by
    by_cases htarget : ∃ place, between.Target path place
    · obtain ⟨place, htarget⟩ := htarget
      refine .inr ⟨between, place, h, htarget, fun text => ?_⟩
      simp only [hrun, change_run, htarget.putFile]
    · refine .inl fun text => ?_
      cases hput : between.putFile path text with
      | ok after => exact absurd (target_of_putFile hput) htarget
      | error e => exact ⟨e, between, by simp only [hrun, change_run, hput], h⟩
  cases hdirectory : tree.directoryAt (tree.start path) (Path.names path).dropLast with
  | ok directory =>
    apply hchange tree (Made.refl)
    intro text
    rw [replace_run, hdirectory]
  | error e =>
    by_cases hmissing : e = .notFound
    · subst hmissing
      have hmade := made_ensureDirectories (tree.start path)
        (Path.names path).dropLast.reverse tree
      unfold Walk.after at hmade
      cases hensure : (ensureDirectories (tree.start path)
          (Path.names path).dropLast.reverse).run tree with
      | ok _ between =>
        rw [hensure] at hmade
        apply hchange between hmade
        intro text
        simp only [replace_run, hdirectory, hensure]
      | error e between =>
        rw [hensure] at hmade
        exact .inl fun text => ⟨e, between, by simp only [replace_run, hdirectory, hensure], hmade⟩
    · refine .inl fun text => ⟨e, tree, ?_, Made.refl⟩
      rw [replace_run, hdirectory]
      cases e <;> first | rfl | exact absurd rfl hmissing

/-- A replacement that fails has made directories at most. -/
theorem made_of_replace_error {e : FileError}
    (h : (FileTree.replace path text).run tree = .error e tree') : tree.Made tree' := by
  obtain hfails | ⟨between, place, hputs⟩ := replace_cases tree path
  · obtain ⟨e', after, hrun, hmade⟩ := hfails text
    rw [hrun] at h
    cases h
    exact hmade
  · rw [hputs.run] at h
    cases h

/-- A replacement that succeeds has put the file with its text, after making directories. -/
theorem exists_puts_of_replace_ok (h : (FileTree.replace path text).run tree = .ok () tree') :
    ∃ between place, tree.Puts path between place ∧ tree' = between.put place (.file (.text text)) := by
  obtain hfails | ⟨between, place, hputs⟩ := replace_cases tree path
  · obtain ⟨e, after, hrun, -⟩ := hfails text
    rw [hrun] at h
    cases h
  · rw [hputs.run] at h
    cases h
    exact ⟨between, place, hputs, rfl⟩

/-! ## What a replacement leaves -/

section Puts

variable {between : FileTree}

/-- What has been put has its contents. -/
theorem Puts.contents?_self (h : tree.Puts path between place) (contents : Contents) :
    (between.put place (.file contents)).contents? place = some contents :=
  contents?_put_self h.target.ne_nil contents

/-- A replacement changes the contents at no other place. -/
theorem Puts.contents?_of_ne (h : tree.Puts path between place) (contents : Contents)
    (hne : place' ≠ place) :
    (between.put place (.file contents)).contents? place' = tree.contents? place' := by
  rw [contents?_put_of_ne hne, h.made.onlyDirectories.contents]

/-- A replacement leaves all directories. -/
theorem Puts.extends (h : tree.Puts path between place) (contents : Contents) :
    tree.Extends (between.put place (.file contents)) :=
  h.made.onlyDirectories.toExtends.trans (h.target.extends contents)

/-- After a replacement the next one finds the target there. -/
theorem Puts.again (h : tree.Puts path between place) (contents : Contents) :
    (between.put place (.file contents)).Puts path (between.put place (.file contents)) place :=
  (h.target.put contents).puts

/-- The empty path is never replaced. -/
theorem Puts.path_ne (h : tree.Puts path between place) : path ≠ "" := by
  rintro rfl
  obtain @⟨above, name, -, components, ⟨hne, -⟩, -⟩ := h.target
  have hempty : Path.components "" = [] ++ [""] := rfl
  rw [hempty] at components
  have hlast := List.append_inj_right' components rfl
  exact hne (List.cons.inj hlast).1.symm

/-- A file that is not found is not read, for the same reason. -/
theorem read_of_locate_error {e : FileError} (h : tree.locate path = .error e) :
    tree.read path = .error e := by
  rw [FileTree.read, h]
  rfl

/-- A path that can be followed at all: it is not too long, and no character of it is forbidden. -/
def IsPath (path : String) : Prop :=
  path.toList.contains '\x00' = false ∧ path.utf8ByteSize ≤ pathBound

/-- What is read, or is not there, has a path that a file may have. -/
theorem isPath_of_read (h : (∃ text, tree.read path = .ok text) ∨ tree.read path = .error .notFound) :
    IsPath path := by
  unfold IsPath
  by_cases hzero : path.toList.contains '\x00' = true
  · simp only [FileTree.read, locate, if_pos hzero] at h
    obtain ⟨text, h⟩ | h := h <;> cases h
  · refine ⟨by simpa using hzero, ?_⟩
    by_cases hempty : path = ""
    · rw [hempty]
      decide
    · by_contra hlong
      simp only [FileTree.read, locate, if_neg hzero, if_neg hempty, if_pos (Nat.not_le.mp hlong)] at h
      obtain ⟨text, h⟩ | h := h <;> cases h

/-- From then on the path leads to the file that has been put. -/
theorem Puts.locate (h : tree.Puts path between place) (contents : Contents) (hpath : IsPath path) :
    (between.put place (.file contents)).locate path = .ok place := by
  have hfollow := (h.target.put contents).follow
  rw [FileTree.locate, hpath.1, if_neg Bool.false_ne_true, if_neg h.path_ne,
    if_neg (Nat.not_lt.mpr hpath.2)]
  exact hfollow

/-- What has been put is read back. -/
theorem Puts.read (h : tree.Puts path between place) (text : String) (hpath : IsPath path) :
    (between.put place (.file (.text text))).read path = .ok text := by
  have hself := at?_put_self between (.file (.text text)) h.target.ne_nil
  rw [FileTree.read, h.locate (.text text) hpath]
  simp only [bind, Except.bind, hself]

/-- If the path led somewhere before, it was to the place where the file has been put. -/
theorem Puts.eq_of_locate (h : tree.Puts path between place) {before : Place}
    (hbefore : tree.locate path = .ok before) : before = place := by
  have hextends := h.made.onlyDirectories.toExtends
  unfold FileTree.locate at hbefore
  split_ifs at hbefore
  have hfollow := hextends.follow hbefore
  rw [← hextends.start_eq, h.target.follow] at hfollow
  exact (Except.ok.inj hfollow).symm

end Puts

end PackageLock.FileTree
