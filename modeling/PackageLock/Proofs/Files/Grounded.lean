import PackageLock.Proofs.Files.Tree

/-!
# Trees that hang together

Whatever stands at a place of a real file tree stands in a directory (`Grounded`), and so it is after a
replacement (`Grounded.puts`). In such a tree a path without `..` leads already to any file that is there
and to which it leads later on (`Grounded.locate_of_locate`).
-/

set_option autoImplicit false

namespace PackageLock.FileTree

variable {tree tree' between : FileTree} {place found : Place} {node : FileNode} {name path : String}
  {names : List String}

/-- Whatever stands at a place stands in a directory. -/
def Grounded (tree : FileTree) : Prop :=
  ∀ place name node, tree.at? (place ++ [name]) = some node → tree.at? place = some .directory

/-- It is enough to look at what the tree lists. -/
theorem grounded_of_nodes (h : ∀ entry ∈ tree.nodes, tree.at? entry.1.dropLast = some .directory) :
    tree.Grounded := by
  intro place name node hnode
  have hlookup : tree.nodes.lookup (place ++ [name]) = some node := by
    simpa [at?] using hnode
  obtain ⟨before, after, hnodes, -⟩ := List.lookup_eq_some_iff.mp hlookup
  have hentry := h (place ++ [name], node) (by simp [hnodes])
  rwa [List.dropLast_concat] at hentry

namespace Grounded

/-- A tree stays grounded if something is put into a directory, and not in the place of a directory. -/
theorem put (h : tree.Grounded) (stands : tree.at? place = some .directory)
    (free : tree.at? (place ++ [name]) ≠ some .directory) : (tree.put (place ++ [name]) node).Grounded := by
  intro other last inside hinside
  have hkept : tree.at? other = some .directory → (tree.put (place ++ [name]) node).at? other =
      some .directory := by
    intro hother
    have hne : other ≠ place ++ [name] := by
      rintro rfl
      exact free hother
    rw [at?_put_of_ne hne, hother]
  apply hkept
  by_cases hsame : other ++ [last] = place ++ [name]
  · rw [List.append_inj_left' hsame rfl, stands]
  · rw [at?_put_of_ne hsame] at hinside
    exact h other last inside hinside

/-- A tree stays grounded when directories are made. -/
theorem made (h : tree.Grounded) (hmade : tree.Made tree') : tree'.Grounded := by
  induction hmade with
  | refl => exact h
  | step _ stands free ih =>
    apply ih.put stands
    rw [free]
    simp

/-- A tree stays grounded when a file is replaced. -/
theorem puts (h : tree.Grounded) (hputs : tree.Puts path between place) (contents : Contents) :
    (between.put place (.file contents)).Grounded := by
  obtain ⟨hmade, htarget, -⟩ := hputs
  obtain ⟨-, -, -, hfound, hfree⟩ := htarget
  exact (h.made hmade).put (directoryAt_eq_ok_iff.mp hfound).2 hfree

/-- Above whatever stands at a place there are only directories. -/
theorem directory_of_append (h : tree.Grounded) (rest : List String) (hrest : rest ≠ [])
    (hnode : tree.at? (place ++ rest) = some node) : tree.at? place = some .directory := by
  induction rest using List.reverseRecOn generalizing node with
  | nil => exact absurd rfl hrest
  | append_singleton rest name ih =>
    rw [← List.append_assoc] at hnode
    have hdirectory := h _ _ _ hnode
    by_cases hempty : rest = []
    · rwa [hempty, List.append_nil] at hdirectory
    · exact ih hempty hdirectory

end Grounded

/-- A way that never goes up leads further down from where it began. -/
theorem isPrefix_of_follow (hnames : ∀ name ∈ names, name ≠ "..")
    (h : tree.follow place names = .ok found) : place <+: found := by
  induction names generalizing place with
  | nil =>
    cases h
    exact List.prefix_rfl
  | cons name names ih =>
    rw [List.forall_mem_cons] at hnames
    unfold FileTree.follow at h
    split at h
    · cases h
    · cases h
    · split_ifs at h
      · exact ih hnames.2 h
      · exact absurd ‹name = ".."› hnames.1
      · exact (List.prefix_append place [name]).trans (ih hnames.2 h)

/-- A path without `..` that leads to something in one tree leads there in any other tree that hangs
together and has it, unless it is a directory. -/
theorem Grounded.follow_of_follow (h : tree.Grounded) (hnames : ∀ name ∈ names, name ≠ "..")
    (hnode : tree.at? found = some node) (hfile : tree'.at? found ≠ some .directory)
    (hfollow : tree'.follow place names = .ok found) : tree.follow place names = .ok found := by
  induction names generalizing place with
  | nil => exact hfollow
  | cons name names ih =>
    obtain ⟨rest, hrest⟩ := isPrefix_of_follow hnames hfollow
    rw [List.forall_mem_cons] at hnames
    unfold FileTree.follow at hfollow ⊢
    split at hfollow
    · cases hfollow
    · cases hfollow
    · rename_i hplace
      -- the path goes on from here, so this is not yet the place that it leads to
      have hne : rest ≠ [] := by
        rintro rfl
        rw [List.append_nil] at hrest
        rw [hrest] at hplace
        exact hfile hplace
      rw [← hrest] at hnode
      rw [h.directory_of_append rest hne hnode]
      rw [hrest] at hnode
      simp only
      split_ifs at hfollow ⊢
      · exact ih hnames.2 hfollow
      · exact absurd ‹name = ".."› hnames.1
      · exact ih hnames.2 hfollow

/-- What a path finds after directories have been made, it found before if something was there. -/
theorem Grounded.locate_of_locate (h : tree.Grounded) (hextends : tree.Extends tree')
    (hnames : ".." ∉ Path.components path) (hnode : tree.at? found = some node)
    (hfile : tree'.at? found ≠ some .directory) (hlocate : tree'.locate path = .ok found) :
    tree.locate path = .ok found := by
  unfold FileTree.locate at hlocate ⊢
  rw [hextends.start_eq] at hlocate
  split_ifs at hlocate ⊢
  apply h.follow_of_follow _ hnode hfile hlocate
  intro name hname hparent
  exact hnames (hparent ▸ hname)

end PackageLock.FileTree
