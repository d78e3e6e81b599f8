import PackageLock.Proofs.Graph.Paths
import PackageLock.Proofs.Graph.Tracing
import PackageLock.Proofs.Graph.Traversal

/-!
# Drawing is listing paths

In a well-formed graph the tree of a node has one line for each path from it, and a path tells its line
(`lineOf`): what stands below a node is drawn anew under each of its parents. The lines come in the order
of the paths. A limit keeps the short paths, but those of one arrow it always keeps. Main statements: so it
is after any operations, for trees without a limit (`afterAll_drawTree`) and for those with one
(`afterAll_drawTree_limit`).
-/

set_option autoImplicit false

open Relation (TransGen)

namespace PackageLock

/-- The text of some lines. -/
def textOf (lines : List String) : String :=
  String.join (lines.map (· ++ "\n"))

/-- Each line is written with a line end behind it. -/
theorem textOf_cons (line : String) (lines : List String) :
    textOf (line :: lines) = line ++ "\n" ++ textOf lines := by
  simp [textOf]

/-- Every line shows in the text. -/
theorem textOf_cons_eq_iff {line : String} {lines : List String} :
    textOf (line :: lines) = textOf [line] ↔ lines = [] := by
  rw [textOf_cons, textOf_cons, String.append_right_inj]
  cases lines with
  | nil => simp
  | cons next lines => simp [textOf, String.append_eq_empty_iff]

/-- Siblings are drawn one after the other, the last one in another way than the others. -/
theorem Tree.linesBeside_map {ids : List String} (nodup : ids.Nodup) (indent : String)
    (tree : String → Tree) :
    linesBeside indent (ids.map tree) = ids.flatMap fun id =>
      (indent ++ connector (ids.getLast? == some id) ++ (tree id).label) ::
        linesBelow (indent ++ column (ids.getLast? == some id)) (tree id) := by
  induction ids with
  | nil => rfl
  | cons id ids ih =>
    obtain ⟨fresh, nodup⟩ := List.nodup_cons.mp nodup
    rw [List.map_cons, linesBeside_cons, ih nodup, List.flatMap_cons]
    cases ids with
    | nil => simp
    | cons next ids =>
      have hlast : ((next :: ids).getLast? == some id) = false := by
        rw [beq_eq_false_iff_ne]
        exact fun last => fresh (List.mem_of_getLast? last)
      simp [List.getLast?_cons_cons, hlast]

namespace Graph

variable {g : Graph} {id : String}

/-! ## The line of a path -/

/-- Among the children of `id`, `child` is the last one. -/
def isLast (g : Graph) (id child : String) : Bool :=
  (g.children id).getLast? == some child

/-- The line of the node to which a path leads from `id`: a column for each node on the way, a connector,
and the label of the node. -/
def lineOf (g : Graph) : (id : String) → (path : List String) → String
  | id, [] => g.labelOf id
  | id, [child] => Tree.connector (g.isLast id child) ++ g.labelOf child
  | id, child :: next :: path => Tree.column (g.isLast id child) ++ g.lineOf child (next :: path)

/-- The lines of the children are drawn child by child, and only the last child has the connector of the
last. -/
theorem WellFormed.linesBeside_children (h : g.WellFormed) (indent : String) (tree : String → Tree) :
    Tree.linesBeside indent ((g.children id).map tree) = (g.children id).flatMap fun child =>
      (indent ++ Tree.connector (g.isLast id child) ++ (tree child).label) ::
        Tree.linesBelow (indent ++ Tree.column (g.isLast id child)) (tree child) :=
  Tree.linesBeside_map (h.pairwise_children id).nodup indent tree

/-- As long as all that comes below is available, the lines are those of the paths that the limit
admits. -/
theorem WellFormed.linesBeside_unfold (h : g.WellFormed) {available : List String}
    (free : ∀ key, TransGen g.Arrow id key → key ∈ available) (n depth : Nat) (indent : String) :
    Tree.linesBeside indent ((g.children id).map (g.unfold (some (depth + n)) available depth)) =
      (g.pathsWithin (n + 1) id).map fun path => indent ++ g.lineOf id path := by
  induction n generalizing id available depth indent with
  | zero =>
    have reached : isLimit (some (depth + 0)) depth = true := by simp [isLimit]
    rw [h.linesBeside_children, pathsWithin, List.map_flatMap]
    refine List.flatMap_congr fun child _ => ?_
    rw [label_unfold, unfold_of_limit reached, String.append_assoc]
    rfl
  | succ n ih =>
    have goesOn : isLimit (some (depth + (n + 1))) depth = false := by simp [isLimit]
    rw [h.linesBeside_children, pathsWithin, List.map_flatMap]
    refine List.flatMap_congr fun child hchild => ?_
    have arrow : g.Arrow id child := mem_children.mp hchild
    -- below the child it is not available any more, and no path leads back to it
    have below (key : String) (path : TransGen g.Arrow child key) : key ∈ available.erase child := by
      refine (List.mem_erase_of_ne ?_).mpr (free key (TransGen.head arrow path))
      rintro rfl
      exact h.acyclic key path
    have hdepth : depth + (n + 1) = depth + 1 + n := by omega
    rw [label_unfold, unfold_of_mem goesOn (free child (TransGen.single arrow)), Tree.linesBelow, hdepth,
      ih below, List.map_cons, List.map_map, String.append_assoc]
    refine congrArg₂ List.cons rfl (List.map_congr_left fun path hpath => ?_)
    obtain ⟨next, rest, rfl⟩ := exists_cons_of_mem_pathsWithin hpath
    rw [Function.comp_apply, lineOf, String.append_assoc]

/-! ## The lines of a tree -/

/-- Where fewer nodes are available than a limit has levels left, it does nothing. -/
theorem unfold_none {available : List String} {depth n : Nat} (few : available.length ≤ n) :
    g.unfold none available depth id = g.unfold (some (depth + n)) available depth id := by
  have goesOn : isLimit none depth = false := rfl
  by_cases free : id ∈ available
  · induction n generalizing id available depth with
    | zero => exact absurd few (Nat.not_le.mpr (List.length_pos_of_mem free))
    | succ n ih =>
      have goesOn' : isLimit (some (depth + (n + 1))) depth = false := by simp [isLimit]
      have fewer : (available.erase id).length ≤ n := by
        rw [List.length_erase_of_mem free]
        omega
      have hdepth : depth + (n + 1) = depth + 1 + n := by omega
      rw [unfold_of_mem goesOn free, unfold_of_mem goesOn' free, hdepth]
      refine congrArg _ (List.map_congr_left fun child _ => ?_)
      by_cases free' : child ∈ available.erase id
      · exact ih fewer rfl free'
      · rw [unfold_of_notMem free', unfold_of_notMem free']
  · rw [unfold_of_notMem free, unfold_of_notMem free]

/-- What a node reaches has a node and is another one. -/
theorem WellFormed.mem_erase_of_transGen (h : g.WellFormed) {key : String}
    (path : TransGen g.Arrow id key) : key ∈ g.ids.erase id := by
  obtain ⟨before, _, last⟩ := TransGen.tail'_iff.mp path
  refine (List.mem_erase_of_ne ?_).mpr (h.closed before key last)
  rintro rfl
  exact h.acyclic key path

/-- The children of the root stand in the tree whatever the limit is. -/
theorem tree_zero (g : Graph) (id : String) : g.tree id (some 0) = g.tree id (some 1) := by
  have reached : isLimit (some 0) 1 = true := rfl
  have reached' : isLimit (some 1) 1 = true := rfl
  simp only [tree, unfold_of_limit reached, unfold_of_limit reached']

/-- With a limit there is a line for each path that is short enough or has one arrow. -/
theorem WellFormed.linesBelow_tree_some (h : g.WellFormed) (id : String) (d : Nat) :
    (g.tree id (some d)).linesBelow "" = (g.pathsWithin (max d 1) id).map (g.lineOf id) := by
  have positive (n : Nat) :
      (g.tree id (some (1 + n))).linesBelow "" = (g.pathsWithin (n + 1) id).map (g.lineOf id) := by
    rw [tree, Tree.linesBelow, h.linesBeside_unfold fun key => h.mem_erase_of_transGen]
    simp only [String.empty_append]
  cases d with
  | zero =>
    rw [tree_zero]
    exact positive 0
  | succ n =>
    rw [Nat.max_eq_left (Nat.le_add_left 1 n), Nat.add_comm n 1, positive, Nat.add_comm n 1]

/-- Without a limit there is a line for each path. -/
theorem WellFormed.linesBelow_tree_none (h : g.WellFormed) (id : String) :
    (g.tree id none).linesBelow "" = (g.paths id).map (g.lineOf id) := by
  have hunfold (child : String) : g.unfold none (g.ids.erase id) 1 child =
      g.unfold (some (1 + g.ids.length)) (g.ids.erase id) 1 child :=
    unfold_none (List.length_erase_le)
  have htree : g.tree id none = g.tree id (some (1 + g.ids.length)) := by
    simp only [tree, hunfold]
  rw [htree, h.linesBelow_tree_some, h.pathsWithin_eq_filter, List.filter_eq_self.mpr]
  intro path hpath
  have short := h.length_lt (h.mem_paths.mp hpath)
  have hlength : g.ids.length = g.nodes.length := List.length_map Node.id
  exact decide_eq_true (by omega)

/-- A tree is drawn as the label of the package and the lines below it. -/
theorem drawTree_eq {limit : Option Nat} (indexed : g.Indexed) (hid : id ∈ g.ids) :
    g.drawTree id limit = textOf (g.labelOf id :: (g.tree id limit).linesBelow "") := by
  rw [drawTree, if_pos (indexed.contains_iff.mpr hid)]
  rfl

/-- The label of a package is that of its node. -/
theorem labelOf_eq {node : Node} (found : g.find? id = some node) : g.labelOf id = node.display := by
  rw [labelOf, found]
  rfl

/-! ## After any operations -/

/-- After any sequence of operations, whichever of them have failed, the tree of a node without a limit is
its label and one line for each path from it, in the order of the paths. One traversal that keeps account of
the nodes it has entered ends and draws the same, so this account keeps it from nothing, and in the end it
has left all nodes again but the root. The labels are those of the nodes. The nodes at the ends of the paths
are what a trace finds. -/
theorem afterAll_drawTree (operations : List Operation) (id : String)
    (hid : id ∈ (afterAll operations).ids) :
    let g := afterAll operations
    (∀ path, path ∈ g.paths id ↔ g.IsPath id path) ∧ (g.paths id).Pairwise (· < ·) ∧
    g.drawTree id none = textOf (g.labelOf id :: (g.paths id).map (g.lineOf id)) ∧
    (∀ lines after, g.Draws none 1 "" [id] (g.children id) lines after ↔
      lines = (g.paths id).map (g.lineOf id) ∧ after = [id]) ∧
    (∃ root, g.find? id = some root ∧ g.labelOf id = root.display) ∧
    ∃ nodes, g.trace id = .ok nodes ∧
      (∀ node ∈ nodes, g.find? node.id = some node ∧ g.labelOf node.id = node.display) ∧
      ∀ key, key ∈ nodes.map Node.id ↔ ∃ path ∈ g.paths id, path.getLast? = some key := by
  intro g
  have h : g.WellFormed := afterAll_wellFormed operations
  have hlines := h.linesBelow_tree_none id
  have closed (id child : String) (hchild : child ∈ g.children id) : child ∈ g.ids :=
    h.closed id child (mem_children.mp hchild)
  obtain ⟨root, hroot, rfl⟩ := mem_ids.mp hid
  have found : g.find? root.id = some root := h.indexed.find?_eq_some_iff.mpr ⟨hroot, rfl⟩
  obtain ⟨nodes, htrace, _, hfind, hkeys⟩ := h.trace_eq hid
  refine ⟨fun path => h.mem_paths, h.pairwise_pathsWithin _ root.id, ?_, fun lines after => ?_,
    ⟨root, found, labelOf_eq found⟩, nodes, htrace, fun node hnode => ?_, fun key => ?_⟩
  · rw [drawTree_eq h.indexed hid, hlines]
  · rw [draws_tree h.indexed.ids_nodup closed, hlines]
  · exact ⟨hfind node hnode, labelOf_eq (hfind node hnode)⟩
  · rw [hkeys, ← exists_isPath_iff]
    simp only [h.mem_paths]

/-- A diamond whose lower end was to be linked back to its upper one, and has a dependency by then. -/
theorem afterAll_drawTree_of_shared :
    let on (id : String) : Dependency := ⟨id, .provider, none⟩
    let diamond : List Package :=
      [⟨"a", "v1", [on "c", on "b"]⟩, ⟨"b", "v1", [on "d"]⟩, ⟨"c", "", [on "d"]⟩]
    let g := afterAll [.ofPackages diamond, .upsert [.resolved ⟨"d", "v2", [on "e", on "a"]⟩]]
    let lines := ["├── b:v1", "│   └── d:v2", "│       └── e (missing)", "└── c", "    └── d:v2",
      "        └── e (missing)"]
    "a" ∈ g.ids ∧ g.paths "a" = [["b"], ["b", "d"], ["b", "d", "e"], ["c"], ["c", "d"], ["c", "d", "e"]] ∧
      g.drawTree "a" none = textOf ("a:v1" :: lines) ∧ g.Draws none 1 "" ["a"] ["b", "c"] lines ["a"] := by
  intro on diamond g lines
  have hpaths : g.paths "a" =
      [["b"], ["b", "d"], ["b", "d", "e"], ["c"], ["c", "d"], ["c", "d", "e"]] := by
    simp only [g, diamond, on]
    cbv
  have hids : g.ids = ["a", "b", "c", "d", "e"] := by
    simp only [g, diamond, on]
    cbv
  have hlabel : g.labelOf "a" = "a:v1" := by
    simp only [g, diamond, on]
    cbv
  have hchildren : g.children "a" = ["b", "c"] := by
    simp only [g, diamond, on]
    cbv
  have hlines : (g.paths "a").map (g.lineOf "a") = lines := by
    rw [hpaths]
    simp only [g, diamond, on]
    cbv
  have hid : "a" ∈ g.ids := by rw [hids]; simp
  obtain ⟨_, _, hdraw, hdraws, _⟩ := afterAll_drawTree
    [.ofPackages diamond, .upsert [.resolved ⟨"d", "v2", [on "e", on "a"]⟩]] "a" hid
  refine ⟨hid, hpaths, ?_, ?_⟩
  · exact hdraw.trans (by rw [show afterAll _ = g from rfl, hlabel, hlines])
  · exact hchildren ▸ (hdraws lines ["a"]).mpr ⟨hlines.symm, rfl⟩

/-- After any sequence of operations, a tree with a limit is the one without, the lines of the longer paths
left out, but no lines of paths of one arrow. So the limit is kept exactly if it is not zero or there is no
line below the root. -/
theorem afterAll_drawTree_limit (operations : List Operation) (id : String)
    (hid : id ∈ (afterAll operations).ids) (d : Nat) :
    let g := afterAll operations
    let shown (n : Nat) :=
      textOf (g.labelOf id :: ((g.paths id).filter (·.length ≤ n)).map (g.lineOf id))
    (∀ path, path ∈ g.paths id ↔ g.IsPath id path) ∧
    g.drawTree id none = textOf (g.labelOf id :: (g.paths id).map (g.lineOf id)) ∧
    g.drawTree id (some d) = shown (max d 1) ∧
    (g.drawTree id (some d) = shown d ↔ d ≠ 0 ∨ ∀ child, ¬ g.Arrow id child) := by
  intro g shown
  have h : g.WellFormed := afterAll_wellFormed operations
  have hshown : g.drawTree id (some d) = shown (max d 1) := by
    rw [drawTree_eq h.indexed hid, h.linesBelow_tree_some, h.pathsWithin_eq_filter]
  refine ⟨fun path => h.mem_paths, ?_, hshown, ?_⟩
  · rw [drawTree_eq h.indexed hid, h.linesBelow_tree_none]
  · rw [hshown]
    by_cases zero : d = 0
    · -- a limit of zero shows what a limit of one shows
      subst zero
      have nothing : (g.paths id).filter (·.length ≤ 0) = [] := by
        rw [← h.pathsWithin_eq_filter, pathsWithin]
      have single : (g.paths id).filter (·.length ≤ 1) = [] ↔ ∀ child, ¬ g.Arrow id child := by
        rw [← h.pathsWithin_eq_filter, pathsWithin, List.flatMap_eq_nil_iff]
        simp only [mem_children, reduceCtorEq, imp_false]
      simp only [shown, Nat.zero_max, nothing, List.map_nil, textOf_cons_eq_iff, List.map_eq_nil_iff, single]
      simp only [ne_eq, not_true, false_or]
    · have hmax : max d 1 = d := Nat.max_eq_left (Nat.one_le_iff_ne_zero.mpr zero)
      rw [hmax]
      exact iff_of_true rfl (Or.inl zero)

/-- A limit of one leaves out what the dependencies need in turn. -/
theorem afterAll_drawTree_limit_of_one :
    let on (id : String) : Dependency := ⟨id, .provider, none⟩
    let packages : List Package := [⟨"app", "v1.0.0", [on "a", on "b"]⟩, ⟨"a", "v0.2.0", [on "c"]⟩]
    let g := afterAll [.ofPackages packages]
    "app" ∈ g.ids ∧
      g.drawTree "app" none = "app:v1.0.0\n├── a:v0.2.0\n│   └── c (missing)\n└── b (missing)\n" ∧
      g.drawTree "app" (some 1) = "app:v1.0.0\n├── a:v0.2.0\n└── b (missing)\n" ∧
      g.drawTree "app" (some 1) =
        textOf (g.labelOf "app" :: ((g.paths "app").filter (·.length ≤ 1)).map (g.lineOf "app")) := by
  intro on packages g
  obtain ⟨hids, hfull, hshort⟩ : g.ids = ["app", "a", "b", "c"] ∧
      g.drawTree "app" none = "app:v1.0.0\n├── a:v0.2.0\n│   └── c (missing)\n└── b (missing)\n" ∧
      g.drawTree "app" (some 1) = "app:v1.0.0\n├── a:v0.2.0\n└── b (missing)\n" := by
    simp only [g, packages, on]
    refine ⟨?_, ?_, ?_⟩ <;> cbv
  have hid : "app" ∈ g.ids := by rw [hids]; simp
  obtain ⟨_, _, _, kept⟩ := afterAll_drawTree_limit [.ofPackages packages] "app" hid 1
  exact ⟨hid, hfull, hshort, kept.mpr (Or.inl Nat.one_ne_zero)⟩

/-- A limit of zero shows the dependencies of the root all the same. -/
theorem drawTree_limit_not_kept :
    let g := afterAll [.ofPackages [⟨"app", "v1.0.0", [⟨"b", .provider, none⟩]⟩]]
    "app" ∈ g.ids ∧ g.paths "app" = [["b"]] ∧
      g.drawTree "app" none = "app:v1.0.0\n└── b (missing)\n" ∧
      g.drawTree "app" (some 0) = "app:v1.0.0\n└── b (missing)\n" ∧
      g.drawTree "app" (some 0) ≠
        textOf (g.labelOf "app" :: ((g.paths "app").filter (·.length ≤ 0)).map (g.lineOf "app")) := by
  intro g
  obtain ⟨hids, hpaths, hfull, hzero, hroot⟩ : g.ids = ["app", "b"] ∧ g.paths "app" = [["b"]] ∧
      g.drawTree "app" none = "app:v1.0.0\n└── b (missing)\n" ∧
      g.drawTree "app" (some 0) = "app:v1.0.0\n└── b (missing)\n" ∧
      g.labelOf "app" = "app:v1.0.0" := by
    simp only [g]
    refine ⟨?_, ?_, ?_, ?_, ?_⟩ <;> cbv
  have hid : "app" ∈ g.ids := by rw [hids]; simp
  refine ⟨hid, hpaths, hfull, hzero, ?_⟩
  rw [hzero, hpaths, hroot]
  decide +kernel

end Graph

end PackageLock
