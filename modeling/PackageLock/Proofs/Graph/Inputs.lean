import Mathlib.Data.List.Induction
import PackageLock.Proofs.Graph.Linking

/-!
# Which nodes and links make a graph

A graph is built of nodes and of what linkers tell of them: the nodes are inserted first, and then the
links are made (`init_eq_linkEach`). Main statement: where the linkers answer, a graph comes of it exactly
if no two nodes share an identifier and the links close no cycle, in whatever order all of them come;
otherwise the first node or the first link is named that does not fit (`init_outcome`).
-/

set_option autoImplicit false

open Relation (ReflTransGen TransGen)

namespace PackageLock

namespace Build

variable {c : Construction}

/-! ## Inserting nodes -/

/-- Nodes of new identifiers, no two of which are the same, can all be inserted. -/
theorem insertAll_eq_ok {nodes : List Node} (indexed : c.graph.Indexed)
    (nodup : (c.graph.ids ++ nodes.map Node.id).Nodup) :
    nodes.forM insert c = .ok () (c.modify (·.addNodes nodes)) := by
  induction nodes generalizing c with
  | nil => rfl
  | cons node nodes ih =>
    have fresh : node.id ∉ c.graph.ids := fun hmem =>
      (List.nodup_append.mp nodup).2.2 _ hmem _ (by simp) rfl
    have absent : ¬ c.graph.contains node.id = true := fun present =>
      fresh (indexed.contains_iff.mp present)
    have hinsert : insert node c = .ok () (c.modify (·.addNode node)) := if_neg absent
    have hids : (c.modify (·.addNode node)).graph.ids = c.graph.ids ++ [node.id] :=
      Graph.ids_addNode c.graph node
    refine bind_eq_ok.mpr ⟨_, hinsert, ih (indexed.addNode fresh) ?_⟩
    rw [hids, List.append_assoc]
    exact nodup

/-- Nodes of distinct identifiers are all inserted. -/
theorem insertAll_empty_eq_ok {nodes : List Node} (nodup : (nodes.map Node.id).Nodup) :
    nodes.forM insert (.on .empty) = .ok () (.on (Graph.empty.addNodes nodes)) := by
  refine insertAll_eq_ok Graph.empty_indexed ?_
  simpa [Construction.on, Graph.ids, Graph.empty] using nodup

/-- The first node whose identifier has been there before is refused. -/
theorem insertAll_eq_error {before after : List Node} {node : Node}
    (nodup : (before.map Node.id).Nodup) (repeated : node.id ∈ before.map Node.id) :
    (before ++ node :: after).forM insert (.on .empty) =
      .error (.duplicateNode node.id) (.on (Graph.empty.addNodes before)) := by
  have hbefore := insertAll_empty_eq_ok nodup
  have hwell := ((insertAll_endsIn before Graph.empty_wellFormed).of_ok hbefore).1
  have present : (Graph.empty.addNodes before).contains node.id = true := by
    refine hwell.indexed.contains_iff.mpr ?_
    simpa [Construction.on, Graph.ids, Graph.empty] using repeated
  have hnode : insert node (.on (Graph.empty.addNodes before)) =
      .error (.duplicateNode node.id) (.on (Graph.empty.addNodes before)) := if_pos present
  rw [List.forM_eq_forM, List.forM_append, ← List.forM_eq_forM, bind_of_ok hbefore]
  exact bind_of_error hnode

/-- Where the linkers answer, the nodes are inserted and then the links are made that are told. -/
theorem init_eq_bind {linkers : List Linker} {nodes : List Node} (answering : Answering linkers nodes) :
    init nodes linkers =
      (nodes.forM insert >>= fun _ => linkEach (linksBy linkers 0 nodes)) := by
  have answers : ∀ place ∈ nodes.zipIdx, ∀ linker ∈ linkers,
      ∃ dependencies, linker place.2 place.1 = .ok dependencies := by
    intro place hplace linker hlinker
    exact answering linker hlinker place.2 place.1 (List.mem_zipIdx_iff_getElem?.mp hplace)
  rw [init, linkNodes_eq_linkEach answers]

end Build

/-- A list in which a value is repeated has a first member with a value that was there before. -/
theorem exists_first_repeated {α β : Type} {f : α → β} {l : List α} (h : ¬ (l.map f).Nodup) :
    ∃ before a after, l = before ++ a :: after ∧ (before.map f).Nodup ∧ f a ∈ before.map f := by
  -- from the end: either the repetition lies before the last member, or the last member makes it
  induction l using List.reverseRecOn with
  | nil => exact absurd List.nodup_nil h
  | append_singleton l a ih =>
    by_cases nodup : (l.map f).Nodup
    · refine ⟨l, a, [], rfl, nodup, ?_⟩
      by_contra fresh
      refine h ?_
      rw [List.map_append, List.map_singleton]
      exact List.Nodup.append nodup (List.nodup_singleton _) (by simpa using fresh)
    · obtain ⟨before, b, after, rfl, hbefore, hb⟩ := ih nodup
      exact ⟨before, b, after ++ [a], by simp, hbefore, hb⟩

/-! ## Building a graph -/

namespace Graph

variable {linkers : List Linker} {nodes : List Node}

/-- The arrows that links make between nodes that had none. -/
theorem arrow_attachAll_unlinked {links : List (String × Dependency)} :
    ((Construction.on (empty.addNodes nodes)).attachAll links).graph.Arrow = Joins links := by
  funext a b
  refine propext (Construction.arrow_attachAll.trans (or_iff_right ?_))
  simp [Construction.on, Arrow, empty]

/-- A graph of nodes without edges covers their identifiers. -/
theorem covers_unlinked (nodup : (nodes.map Node.id).Nodup) :
    (Construction.on (empty.addNodes nodes)).Covers (nodes.map Node.id) := by
  have hinsert := Build.insertAll_empty_eq_ok nodup
  refine ⟨((Build.insertAll_endsIn nodes empty_wellFormed).of_ok hinsert).1, fun id hid => ?_⟩
  simpa [Construction.on, ids, empty] using hid

/-- Where the linkers answer and no two nodes share an identifier, it is only left to make the links. -/
theorem init_eq_linkEach (answering : Answering linkers nodes) (nodup : (nodes.map Node.id).Nodup) :
    Build.init nodes linkers (.on .empty) =
      Build.linkEach (linksBy linkers 0 nodes) (.on (empty.addNodes nodes)) := by
  rw [Build.init_eq_bind answering, Build.bind_of_ok (Build.insertAll_empty_eq_ok nodup)]

/-- A node whose identifier has been there before is refused, whatever the linkers tell. -/
theorem init_eq_duplicate {before after : List Node} {node : Node}
    (nodup : (before.map Node.id).Nodup) (repeated : node.id ∈ before.map Node.id) :
    Build.init (before ++ node :: after) linkers (.on .empty) =
      .error (.duplicateNode node.id) (.on (empty.addNodes before)) :=
  Build.bind_of_error (Build.insertAll_eq_error nodup repeated)

/-- Nodes of different identifiers and links that close no cycle make a graph. -/
theorem init_eq_ok_of_acyclic (answering : Answering linkers nodes)
    (nodup : (nodes.map Node.id).Nodup) (acyclic : ∀ id, ¬ TransGen (Tells linkers nodes) id id) :
    Build.init nodes linkers (.on .empty) = .ok ()
      ((Construction.on (empty.addNodes nodes)).attachAll (linksBy linkers 0 nodes)) := by
  rw [init_eq_linkEach answering nodup]
  rcases Build.linkEach_cases (covers_unlinked nodup) fun _ => source_mem_of_mem_linksBy with
    ⟨made, _⟩ | ⟨before, link, after, hlinks, _, back, _⟩
  · exact made
  · -- a link that is refused lies on a cycle of links that are told
    rw [arrow_attachAll_unlinked] at back
    have cycle : TransGen (Joins (linksBy linkers 0 nodes)) link.1 link.1 :=
      hlinks ▸ Closes.transGen back
    exact absurd (TransGen.mono (fun _ _ => joins_linksBy_iff.mp) _ _ cycle) (acyclic link.1)

/-- Of links that close a cycle, the first one is refused that closes one with those before it. -/
theorem init_eq_cycle {id : String} (answering : Answering linkers nodes)
    (nodup : (nodes.map Node.id).Nodup) (cycle : TransGen (Tells linkers nodes) id id) :
    ∃ before link after left, linksBy linkers 0 nodes = before ++ link :: after ∧
      Closes before link ∧
      (∀ earlier other later, before = earlier ++ other :: later → ¬ Closes earlier other) ∧
      Build.init nodes linkers (.on .empty) = .error (.cycle link.1 link.2.package) left := by
  rw [init_eq_linkEach answering nodup]
  rcases Build.linkEach_cases (covers_unlinked nodup) fun _ => source_mem_of_mem_linksBy with
    ⟨_, made⟩ | ⟨before, link, after, hlinks, made, back, herror⟩
  · have acyclic := made.1.acyclic id
    rw [arrow_attachAll_unlinked] at acyclic
    exact absurd (TransGen.mono (fun _ _ => joins_linksBy_iff.mpr) _ _ cycle) acyclic
  · -- what has been made before is without cycles, so no link of it has closed one
    have acyclic := made.1.acyclic
    rw [arrow_attachAll_unlinked] at acyclic back
    refine ⟨before, link, after, _, hlinks, back, ?_, herror⟩
    rintro earlier other later rfl closes
    exact acyclic other.1 closes.transGen

/-- The result of building a graph: the placeholders, or the error. -/
theorem init_result (nodes : List Node) (linkers : List Linker) :
    (Graph.init nodes linkers).2 =
      match Build.init nodes linkers (.on .empty) with
      | .ok _ after => .ok after.created
      | .error e _ => .error e := by
  unfold Graph.init perform EStateM.run
  cases Build.init nodes linkers (.on .empty) with
  | ok _ after => rfl
  | error e after => rfl

/-- A graph is built if the identifiers are distinct and the links have no cycle, and only then. -/
theorem init_isOk_iff (answering : Answering linkers nodes) :
    (∃ created, (Graph.init nodes linkers).2 = .ok created) ↔
      (nodes.map Node.id).Nodup ∧ ∀ id, ¬ TransGen (Tells linkers nodes) id id := by
  rw [init_result]
  constructor
  · rintro ⟨created, ok⟩
    have nodup : (nodes.map Node.id).Nodup := by
      by_contra repeated
      obtain ⟨before, node, after, rfl, hbefore, hnode⟩ := exists_first_repeated repeated
      rw [init_eq_duplicate hbefore hnode] at ok
      cases ok
    refine ⟨nodup, fun id cycle => ?_⟩
    obtain ⟨_, _, _, _, _, _, _, herror⟩ := init_eq_cycle answering nodup cycle
    rw [herror] at ok
    cases ok
  · rintro ⟨nodup, acyclic⟩
    rw [init_eq_ok_of_acyclic answering nodup acyclic]
    exact ⟨_, rfl⟩

/-- What comes of nodes and of linkers that answer. There is a graph exactly if no two nodes share an
identifier and no links lead from a node back to it. If identifiers are shared, the first node is named
whose identifier has been there before, whatever the links are. Otherwise a cycle is reported, at the
first link whose target is its source or leads to it by the links before. Whether there is a graph does
not depend on the order of the nodes or on the order in which links are told. -/
theorem init_outcome (answering : Answering linkers nodes) :
    let links := linksBy linkers 0 nodes
    let result := (Graph.init nodes linkers).2
    ((∃ created, result = .ok created) ↔
      (nodes.map Node.id).Nodup ∧ ∀ id, ¬ TransGen (Tells linkers nodes) id id) ∧
    (¬ (nodes.map Node.id).Nodup →
      ∃ before node after, nodes = before ++ node :: after ∧ (before.map Node.id).Nodup ∧
        node.id ∈ before.map Node.id ∧ result = .error (.duplicateNode node.id)) ∧
    ((nodes.map Node.id).Nodup → ∀ id, TransGen (Tells linkers nodes) id id →
      ∃ before link after, links = before ++ link :: after ∧ Closes before link ∧
        (∀ earlier other later, before = earlier ++ other :: later → ¬ Closes earlier other) ∧
        result = .error (.cycle link.1 link.2.package)) ∧
    ∀ nodes' linkers', Answering linkers' nodes' →
      (nodes'.map Node.id).Perm (nodes.map Node.id) →
      (∀ a b, Tells linkers' nodes' a b ↔ Tells linkers nodes a b) →
      ((∃ created, (Graph.init nodes' linkers').2 = .ok created) ↔ ∃ created, result = .ok created) := by
  intro links result
  refine ⟨init_isOk_iff answering, ?_, ?_, ?_⟩
  · intro repeated
    obtain ⟨before, node, after, rfl, hbefore, hnode⟩ := exists_first_repeated repeated
    refine ⟨before, node, after, rfl, hbefore, hnode, ?_⟩
    show (Graph.init (before ++ node :: after) linkers).2 = _
    rw [init_result, init_eq_duplicate hbefore hnode]
  · intro nodup id cycle
    obtain ⟨before, link, after, _, hlinks, closes, first, herror⟩ :=
      init_eq_cycle answering nodup cycle
    refine ⟨before, link, after, hlinks, closes, first, ?_⟩
    show (Graph.init nodes linkers).2 = _
    rw [init_result, herror]
  · intro nodes' linkers' answering' ids told
    have relation : Tells linkers' nodes' = Tells linkers nodes := by
      funext a b
      exact propext (told a b)
    rw [init_isOk_iff answering', init_isOk_iff answering, ids.nodup_iff, relation]

/-- A linker that goes by the position closes a cycle with what another node declares, and so does one
that comes first and finds the nodes in the other order. -/
theorem init_outcome_of_cycle :
    let a : Node := .resolved ⟨"a", "v1", [⟨"p", .provider, none⟩, ⟨"b", .provider, none⟩]⟩
    let b : Node := .resolved ⟨"b", "v1", []⟩
    let backFrom : Nat → Linker := fun place position _ =>
      .ok (if position = place then [⟨"a", .function, none⟩] else [])
    let linkers : List Linker := [Linker.declared, backFrom 1]
    let result := (Graph.init [a, b] linkers).2
    Answering linkers [a, b] ∧ result = .error (.cycle "b" "a") ∧
      (∃ before link after, linksBy linkers 0 [a, b] = before ++ link :: after ∧
        Closes before link ∧
        (∀ earlier other later, before = earlier ++ other :: later → ¬ Closes earlier other) ∧
        result = .error (.cycle link.1 link.2.package)) ∧
      ((∃ created, (Graph.init [b, a] [backFrom 0, Linker.declared]).2 = .ok created) ↔
        ∃ created, result = .ok created) := by
  intro a b backFrom linkers result
  have answering (place : Nat) (nodes : List Node) : Answering [Linker.declared, backFrom place] nodes := by
    intro linker hlinker position node _
    rcases List.mem_cons.mp hlinker with rfl | hlinker
    · exact ⟨node.dependencies, rfl⟩
    · rw [List.mem_singleton.mp hlinker]
      exact ⟨_, rfl⟩
  have answering' : Answering [backFrom 0, Linker.declared] [b, a] := by
    intro linker hlinker
    exact answering 0 [b, a] linker (by simpa [or_comm] using hlinker)
  have told : ∀ source target, Tells [backFrom 0, Linker.declared] [b, a] source target ↔
      Tells linkers [a, b] source target := by
    intro source target
    have hlinks : linksBy linkers 0 [a, b] = [("a", ⟨"p", .provider, none⟩),
      ("a", ⟨"b", .provider, none⟩), ("b", ⟨"a", .function, none⟩)] := rfl
    have hlinks' : linksBy [backFrom 0, Linker.declared] 0 [b, a] = [("b", ⟨"a", .function, none⟩),
      ("a", ⟨"p", .provider, none⟩), ("a", ⟨"b", .provider, none⟩)] := rfl
    rw [← joins_linksBy_iff, ← joins_linksBy_iff, hlinks, hlinks']
    simp only [Joins, List.mem_cons, List.not_mem_nil, or_false, exists_eq_or_imp, exists_eq_left]
    tauto
  have cycle : TransGen (Tells linkers [a, b]) "a" "a" := by
    have there : Tells linkers [a, b] "a" "b" :=
      joins_linksBy_iff.mp ⟨("a", ⟨"b", .provider, none⟩), by decide, rfl, rfl⟩
    have back : Tells linkers [a, b] "b" "a" :=
      joins_linksBy_iff.mp ⟨("b", ⟨"a", .function, none⟩), by decide, rfl, rfl⟩
    exact TransGen.tail (TransGen.single there) back
  obtain ⟨_, _, refused, order⟩ := init_outcome (answering 1 [a, b])
  obtain ⟨before, link, after, hsplit, closes, first, herror⟩ := refused (by decide) "a" cycle
  have failed : result = .error (.cycle "b" "a") := by
    have hlinks : [("a", ⟨"p", .provider, none⟩), ("a", ⟨"b", .provider, none⟩),
      ("b", (⟨"a", .function, none⟩ : Dependency))] = before ++ link :: after := hsplit
    -- neither of the first two closes a cycle, as nothing leads on from their targets yet
    rcases before with _ | ⟨toP, _ | ⟨toB, _ | ⟨toA, before⟩⟩⟩
    · obtain ⟨rfl, -⟩ := List.cons.inj hlinks
      exact absurd closes (not_closes (by decide) (by decide))
    · simp only [List.cons_append, List.nil_append, List.cons.injEq] at hlinks
      obtain ⟨rfl, rfl, -⟩ := hlinks
      exact absurd closes (not_closes (by decide) (by decide))
    · simp only [List.cons_append, List.nil_append, List.cons.injEq] at hlinks
      obtain ⟨-, -, rfl, -⟩ := hlinks
      exact herror
    · simp at hlinks
  exact ⟨answering 1 [a, b], failed, ⟨before, link, after, hsplit, closes, first, herror⟩,
    order [b, a] [backFrom 0, Linker.declared] answering' (List.Perm.swap _ _ _) told⟩

end Graph

end PackageLock
