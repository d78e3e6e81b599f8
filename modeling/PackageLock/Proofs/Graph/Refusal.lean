import PackageLock.Proofs.Graph.Operations

/-!
# Links that are refused

A link makes sure of a node for its target before it is tested for a cycle, so a refusal might leave behind a
placeholder on which nothing depends. It does not: a target that has just been made leads nowhere, and a link
to it is not refused. Main statement: a link is refused if and only if its target is its source or leads
there, and then it leaves everything as it was (`refused_link_leaves_no_trace`). Links are made in the middle
of operations, so this is said of all graphs on the way (`Stage`), not only of those that operations leave.
-/

set_option autoImplicit false

open Relation (ReflTransGen)

namespace PackageLock

namespace Build

variable {c : Construction} {kept kept' : Construction → Prop}

/-- The construction that work leaves, however it ends. -/
def leaves (work : Build Unit) (c : Construction) : Construction :=
  match work c with
  | .ok _ after => after
  | .error _ after => after

/-- To say one thing of both endings is to say it of what the work leaves. -/
theorem endsIn_iff_leaves {work : Build Unit} :
    (work.EndsIn c kept fun _ => kept) ↔ kept (work.leaves c) := by
  unfold EndsIn leaves
  cases work c with
  | ok _ after => exact Iff.rfl
  | error e after => exact Iff.rfl

end Build

namespace Graph

variable {g : Graph} {c : Construction} {ids : List String}

/-! ## Graphs at work -/

/-- The graphs that operations go through step by step: those that they leave in the end and all those on the
way, on which links are made. -/
inductive Stage : Graph → Prop where
  | empty : Stage .empty
  | added {g : Graph} {node : Node} (stage : Stage g) (absent : g.contains node.id = false) :
      Stage (g.addNode node)
  /-- A node has come to its place and has lost the edges that left it. -/
  | placed {g : Graph} (stage : Stage g) (node : Node) : Stage (g.place node)
  /-- A link has been made or refused. -/
  | linked {c : Construction} {source : String} (stage : Stage c.graph) (node : source ∈ c.graph.ids)
      (dependency : Dependency) : Stage ((Build.link source dependency).leaves c).graph

/-- Every stage of a graph is well formed. -/
theorem Stage.wellFormed (h : g.Stage) : g.WellFormed := by
  induction h with
  | empty => exact empty_wellFormed
  | added _ absent ih =>
    refine ih.addNode fun hmem => ?_
    rw [ih.indexed.contains_iff.mpr hmem] at absent
    cases absent
  | placed _ node ih => exact ih.place node
  | @linked c source _ node dependency ih =>
    have covers : c.Covers [source] := ⟨ih, by simpa using node⟩
    exact (Build.endsIn_iff_leaves.mp
      (Build.link_endsIn (List.mem_singleton_self source) dependency covers)).1

/-- The graph is a stage that has nodes for all of `ids`. -/
def AtWork (ids : List String) (c : Construction) : Prop :=
  c.graph.Stage ∧ c.Covers ids

/-- A link leaves a graph at work, whether or not it is refused. -/
theorem link_atWork {source : String} (hsource : source ∈ ids) (dependency : Dependency)
    (h : AtWork ids c) : (Build.link source dependency).EndsIn c (AtWork ids) fun _ => AtWork ids := by
  have hcovers := Build.endsIn_iff_leaves.mp (Build.link_endsIn hsource dependency h.2)
  exact Build.endsIn_iff_leaves.mpr ⟨h.1.linked (h.2.2 source hsource) dependency, hcovers⟩

/-- An insertion leads from stage to stage. -/
theorem insert_stage (node : Node) (h : c.graph.Stage) :
    (Build.insert node).EndsIn c (fun after => after.graph.Stage) fun _ after => after.graph.Stage := by
  unfold Build.EndsIn Build.insert
  cases absent : c.graph.contains node.id with
  | true => exact h
  | false => exact h.added absent

/-- Insertions lead from stage to stage. -/
theorem insertAll_stage (nodes : List Node) (h : c.graph.Stage) :
    (nodes.forM Build.insert).EndsIn c (fun after => after.graph.Stage)
      fun _ after => after.graph.Stage :=
  Build.EndsIn.forM (fun node _ _ h => insert_stage node h) h

/-- Whatever building leaves is a stage. -/
theorem init_stage (nodes : List Node) (linkers : List Linker) :
    (Build.init nodes linkers).EndsIn (.on .empty) (fun after => after.graph.Stage)
      fun _ after => after.graph.Stage := by
  have hinsert : (nodes.forM Build.insert).EndsIn (.on .empty) (AtWork (nodes.map Node.id))
      fun _ after => after.graph.Stage :=
    ((insertAll_stage nodes .empty).and (Build.insertAll_covers nodes)).mono (fun _ => id)
      fun _ _ => And.left
  refine hinsert.andThen fun after hafter => ?_
  exact (Build.linkNodes_endsIn
    (fun _ hnode dependency _ => link_atWork (List.mem_map_of_mem hnode) dependency)
    linkers 0 hafter).mono (fun _ => And.left) fun _ _ => And.left

/-- Whatever it leaves to put a node is a stage. -/
theorem put_stage (node : Node) (h : c.graph.Stage) :
    (Build.put node).EndsIn c (fun after => after.graph.Stage) fun _ after => after.graph.Stage := by
  have hplace : AtWork [node.id] (c.modify (·.place node)) :=
    ⟨h.placed node, h.wellFormed.covers_place node c.created⟩
  exact Build.EndsIn.put ((Build.linkAll_endsIn
    (fun dependency _ => link_atWork (List.mem_singleton_self _) dependency) node.dependencies hplace).mono
    (fun _ => And.left) fun _ _ => And.left)

/-- An operation leads from a stage to a stage, also if it fails. -/
theorem Operation.apply_stage (h : g.Stage) (operation : Operation) : (operation.apply g).Stage := by
  cases operation with
  | init nodes linkers => exact perform_endsIn (init_stage nodes linkers)
  | ofPackages packages => exact Operation.apply_ofPackages h (perform_endsIn (init_stage _ _))
  | add node => exact perform_endsIn (insert_stage node h)
  | upsert nodes =>
    exact perform_endsIn (Build.EndsIn.forM (fun node _ _ h => put_stage node h) h)

/-- Every graph that operations leave is a stage. -/
theorem afterAll_stage (operations : List Operation) : (afterAll operations).Stage :=
  afterAll_of_apply .empty (fun _ => Operation.apply_stage) operations

/-! ## Refused links -/

/-- Only a target that is there already can lead to a node of the graph other than itself. -/
theorem WellFormed.leads_iff (h : g.WellFormed) {source target : String} :
    ReflTransGen g.Arrow target source ↔
      target = source ∨ g.contains target = true ∧ ReflTransGen g.Arrow target source := by
  constructor
  · intro path
    rcases ReflTransGen.cases_head path with same | ⟨next, ⟨e, he, hsource, -⟩, -⟩
    · exact Or.inl same
    · exact Or.inr ⟨h.indexed.contains_iff.mpr (hsource ▸ h.source_mem e he), path⟩
  · rintro (rfl | ⟨-, path⟩)
    · exact ReflTransGen.refl
    · exact path

/-- For all graphs that operations leave and all those on the way, for every node of the graph and
every dependency: a link from the node is refused exactly if the package of the dependency is the node
itself or another node that leads to it; it is refused for a cycle and for nothing else; and then the
nodes, the edges, the index and the placeholders created up to then are what they were. -/
theorem refused_link_leaves_no_trace :
    (∀ operations, (afterAll operations).Stage) ∧
    ∀ g : Graph, g.Stage → ∀ source ∈ g.ids, ∀ (dependency : Dependency) (created : List Node),
      ((∃ e after, Build.link source dependency ⟨g, created⟩ = .error e after) ↔
        dependency.package = source ∨
          g.contains dependency.package = true ∧ ReflTransGen g.Arrow dependency.package source) ∧
      ∀ e after, Build.link source dependency ⟨g, created⟩ = .error e after →
        e = .cycle source dependency.package ∧ after = ⟨g, created⟩ := by
  classical
  refine ⟨afterAll_stage, fun g stage source hsource dependency created => ?_⟩
  have h := stage.wellFormed
  rw [← h.leads_iff, Build.link_eq_of_wellFormed (c := ⟨g, created⟩) h]
  by_cases path : ReflTransGen g.Arrow dependency.package source
  · rw [if_pos path]
    have present : g.contains dependency.package = true := by
      rcases h.leads_iff.mp path with same | ⟨present, -⟩
      · exact h.indexed.contains_iff.mpr (same ▸ hsource)
      · exact present
    refine ⟨⟨fun _ => path, fun _ => ⟨_, _, rfl⟩⟩, ?_⟩
    rintro e after ⟨⟩
    exact ⟨rfl, if_pos present⟩
  · rw [if_neg path]
    refine ⟨⟨?_, fun leads => absurd leads path⟩, ?_⟩
    · rintro ⟨e, after, ⟨⟩⟩
    · rintro e after ⟨⟩

/-- The package `a` asks for `b`; a link back is refused. -/
theorem refused_link_leaves_no_trace_of_two :
    let g := afterAll [.upsert [.resolved ⟨"a", "v1", [⟨"b", .provider, none⟩]⟩]]
    g.Stage ∧ "b" ∈ g.ids ∧
      Build.link "b" ⟨"a", .provider, none⟩ ⟨g, []⟩ = .error (.cycle "b" "a") ⟨g, []⟩ := by
  intro g
  have hgraph : g = ⟨[.resolved ⟨"a", "v1", [⟨"b", .provider, none⟩]⟩, .placeholder ⟨"b", .provider, none⟩],
      [⟨"a", "b", .provider, none⟩], [("b", 1), ("a", 0)]⟩ := by
    show afterAll [.upsert [.resolved ⟨"a", "v1", [⟨"b", .provider, none⟩]⟩]] = _
    cbv
  have hnode : "b" ∈ g.ids := by rw [hgraph]; simp [ids, Node.id]
  have hstage : g.Stage := refused_link_leaves_no_trace.1 _
  have harrow : g.Arrow "a" "b" := ⟨⟨"a", "b", .provider, none⟩, by rw [hgraph]; simp, rfl, rfl⟩
  have hcontains : g.contains "a" = true := by rw [hgraph]; rfl
  obtain ⟨hiff, hafter⟩ := refused_link_leaves_no_trace.2 g hstage "b" hnode ⟨"a", .provider, none⟩ []
  obtain ⟨e, after, refused⟩ := hiff.mpr (Or.inr ⟨hcontains, ReflTransGen.single harrow⟩)
  obtain ⟨rfl, rfl⟩ := hafter e after refused
  exact ⟨hstage, hnode, refused⟩

end Graph

end PackageLock
